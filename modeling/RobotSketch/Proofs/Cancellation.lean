import RobotSketch.Proofs.Runs
import RobotSketch.Proofs.Success

/-!
# Stopping a run

Once the handler answers to stop, the run unwinds. The answer is the last thing that is done, each
block on the way out keeps the statements of the elements in front of the one at which it stopped,
and the run succeeds with these statements. `Unwinds` says so for a block and for those inside it,
down to the element whose document is missing.

The step lemma is `Step.goesOn_or_stopped`, the run lemma `Runs.goesOn_or_unwinds`. The main
statement is `abort_is_final`.
-/
namespace RobotSketch

/-! ## Sessions that go on or stop -/

/-- The handler answers to stop. -/
def Event.isAbort : Event → Bool
  | .asked _ .abort => true
  | _ => false

namespace Session

/-- A session has come from another one without an answer to stop, and goes on. -/
structure GoesOn (s s' : Session) : Prop where
  cancelled : s'.cancelled = false
  log : ∃ new, s'.log = s.log ++ new ∧ ∀ record ∈ new, record.event.isAbort = false

/-- A session has come from another one and is cancelled. The answer to stop is the last record,
and there is no other. -/
structure Stopped (s s' : Session) : Prop where
  cancelled : s'.cancelled = true
  log : ∃ new last, s'.log = s.log ++ (new ++ [last]) ∧ last.event.isAbort = true ∧
    ∀ record ∈ new, record.event.isAbort = false

variable {s s₁ s' : Session}

theorem GoesOn.refl (hc : s.cancelled = false) : s.GoesOn s := ⟨hc, [], by simp⟩

theorem GoesOn.trans (h₁ : s.GoesOn s₁) (h₂ : s₁.GoesOn s') : s.GoesOn s' := by
  obtain ⟨new₁, hlog₁, hnew₁⟩ := h₁.log
  obtain ⟨new₂, hlog₂, hnew₂⟩ := h₂.log
  refine ⟨h₂.cancelled, new₁ ++ new₂, by rw [hlog₂, hlog₁, List.append_assoc], ?_⟩
  simpa only [List.forall_mem_append] using ⟨hnew₁, hnew₂⟩

theorem GoesOn.trans_stopped (h₁ : s.GoesOn s₁) (h₂ : s₁.Stopped s') : s.Stopped s' := by
  obtain ⟨new₁, hlog₁, hnew₁⟩ := h₁.log
  obtain ⟨new₂, last, hlog₂, hlast, hnew₂⟩ := h₂.log
  refine ⟨h₂.cancelled, new₁ ++ new₂, last, ?_, hlast, ?_⟩
  · rw [hlog₂, hlog₁]
    simp only [List.append_assoc]
  · simpa only [List.forall_mem_append] using ⟨hnew₁, hnew₂⟩

theorem GoesOn.not_isAbort (h : s.GoesOn s') {new : List Record} (hlog : s'.log = s.log ++ new) :
    ∀ record ∈ new, record.event.isAbort = false := by
  obtain ⟨new', hlog', hnew⟩ := h.log
  obtain rfl := List.append_cancel_left (hlog.symm.trans hlog')
  exact hnew

theorem Stopped.exists_isAbort (h : s.Stopped s') {new : List Record}
    (hlog : s'.log = s.log ++ new) : ∃ record ∈ new, record.event.isAbort = true := by
  obtain ⟨new', last, hlog', hlast, -⟩ := h.log
  obtain rfl := List.append_cancel_left (hlog.symm.trans hlog')
  exact ⟨last, by simp, hlast⟩

theorem goesOn_logged (hc : s.cancelled = false) (opened : List NormalPath) (event : Event)
    (hevent : event.isAbort = false) : s.GoesOn (s.logged opened event) :=
  ⟨hc, [⟨opened, event⟩], rfl, by simpa using hevent⟩

/-- An answer either lets the session go on or stops it. -/
theorem goesOn_or_stopped_answered (hc : s.cancelled = false) (opened : List NormalPath)
    (question : Question) (decision : Decision) :
    s.GoesOn (s.answered opened question decision) ∨
      s.Stopped (s.answered opened question decision) ∧ decision = .abort := by
  cases decision with
  | proceed => exact .inl ⟨by simp [hc], _, rfl, by simp [Event.isAbort]⟩
  | abort => exact .inr ⟨⟨by simp, [], _, rfl, rfl, by simp⟩, rfl⟩

end Session

/-! ## Blocks that stop -/

namespace Project

/-- The block of a call stops at one of its elements, which is reached in session `t`. Its
statements are those of the elements in front. -/
structure StopsAt (project : Project) (call : Call) (code : List Code) (element : Element)
    (t s' : Session) : Prop where
  inFront : ∃ before after, call.elements = before ++ element :: after ∧
    project.Runs call.frame before call.session (.ok code) t
  reached : t.cancelled = false
  block : project.Runs call.frame call.elements call.session (.ok code) s'

/-- A call stops in session `s'`, and so do the calls inside it down to a missing document. The
session is the one that the answer about this document has left. -/
inductive Unwinds (project : Project) (s' : Session) : Call → List Code → Prop where
  | asked {call : Call} {code : List Code} {element : Element} {t : Session} {file : String}
      {path : Path} (hstops : project.StopsAt call code element t s')
      (hwants : project.Wants call.frame t element file path)
      (hload : project.library.load path = .ok none)
      (habort : project.handler t.asked ⟨file, call.frame.name⟩ = .abort)
      (hlast : s' = (t.logged call.frame.opened (.loaded path)).answered call.frame.opened
        ⟨file, call.frame.name⟩ .abort) :
    Unwinds project s' call code
  | inside {call inner : Call} {code innerCode : List Code} {element : Element} {t : Session}
      (hstops : project.StopsAt call code element t s')
      (hopens : project.Opens call.frame t element inner)
      (hinner : Unwinds project s' inner innerCode) :
    Unwinds project s' call code

variable {project : Project} {frame : Frame} {s s₁ s' : Session}

theorem Unwinds.of_stopsAt {call call' : Call} {code code' : List Code}
    (h : project.Unwinds s' call code) (hframe : call'.frame = call.frame)
    (hstops : ∀ element t, project.StopsAt call code element t s' →
      project.StopsAt call' code' element t s') : project.Unwinds s' call' code' := by
  cases h with
  | asked hat hwants hload habort hlast =>
    rw [← hframe] at hwants habort hlast
    exact .asked (hstops _ _ hat) hwants hload habort hlast
  | inside hat hopens hinner =>
    rw [← hframe] at hopens
    exact .inside (hstops _ _ hat) hopens hinner

/-- An element in front of a block that stops adds its statements. -/
theorem Unwinds.cons {element : Element} {rest : List Element} {code more : List Code}
    (hfirst : project.Runs frame [element] s (.ok code) s₁)
    (h : project.Unwinds s' ⟨frame, rest, s₁⟩ more) :
    project.Unwinds s' ⟨frame, element :: rest, s⟩ (code ++ more) := by
  refine h.of_stopsAt rfl fun stop t hat => ?_
  obtain ⟨before, after, helements, hbefore⟩ := hat.inFront
  refine ⟨⟨element :: before, after, congrArg (element :: ·) helements, ?_⟩, hat.reached, ?_⟩
  · exact .cons hfirst hbefore
  · exact .cons hfirst hat.block

/-- Elements behind a block that has stopped add nothing. -/
theorem Unwinds.append {elements : List Element} {code : List Code}
    (h : project.Unwinds s' ⟨frame, elements, s⟩ code) (hc : s'.cancelled = true)
    (more : List Element) : project.Unwinds s' ⟨frame, elements ++ more, s⟩ code := by
  refine h.of_stopsAt rfl fun stop t hat => ?_
  obtain ⟨before, after, helements, hbefore⟩ := hat.inFront
  refine ⟨⟨before, after ++ more, ?_, hbefore⟩, hat.reached, ?_⟩
  · show elements ++ more = _
    rw [show elements = before ++ stop :: after from helements]
    simp
  · have hblock := hat.block.append (.cancelled hc : project.Runs frame more s' (.ok []) s')
    simpa only [Except.map, List.append_nil] using hblock

/-- An element that stops by itself has no statements. -/
theorem stopsAt_singleton {element : Element} (hs : s.cancelled = false)
    (h : project.Runs frame [element] s (.ok []) s') :
    project.StopsAt ⟨frame, [element], s⟩ [] element s s' :=
  ⟨⟨[], [], rfl, .nil⟩, hs, h⟩

/-- An element unwinds with a block that it opens. -/
theorem Opens.unwinds {element : Element} {inner : Call} {body : List Code}
    (h : project.Opens frame s element inner) (hs : s.cancelled = false)
    (hinner : project.Runs inner.frame inner.elements inner.session (.ok body) s')
    (hc : s'.cancelled = true) (hunwinds : project.Unwinds s' inner body) :
    project.Unwinds s' ⟨frame, [element], s⟩ [] :=
  .inside (stopsAt_singleton hs (h.runs_of_cancelled hs hinner hc)) h hunwinds

/-! ## Runs that go on or stop -/

/-- A step goes on, or the handler stops it about the document that its element wants. -/
theorem Step.goesOn_or_stopped {element : Element} {result : Except Error (List Code)}
    (h : project.Step frame element s result s') (hs : s.cancelled = false) :
    s.GoesOn s' ∨ s.Stopped s' ∧ result = .ok [] ∧
      project.Unwinds s' ⟨frame, [element], s⟩ [] := by
  cases h with
  | again | selfReference | unknownSensor => exact .inl (.refl hs)
  | unloadable | malformedExpression | malformedSequence =>
    exact .inl (Session.goesOn_logged hs _ _ rfl)
  | @absent _ _ file path hwants hload =>
    have hrun := Runs.step hs (Step.absent hwants hload)
    have hloaded := Session.goesOn_logged hs frame.opened (.loaded path) rfl
    rcases Session.goesOn_or_stopped_answered hloaded.cancelled frame.opened ⟨file, frame.name⟩
      (project.handler s.asked ⟨file, frame.name⟩) with hgoes | ⟨hstopped, habort⟩
    · exact .inl (hloaded.trans hgoes)
    · refine .inr ⟨hloaded.trans_stopped hstopped, rfl, ?_⟩
      exact .asked (stopsAt_singleton hs hrun) hwants hload habort (by rw [habort])
  | first hnew hload hread =>
    exact .inl ⟨hs, _, Session.registering_log .., by simp [Event.isAbort]⟩

/-- A run goes on, or it unwinds. -/
theorem Runs.goesOn_or_unwinds {elements : List Element} {result : Except Error (List Code)}
    (h : project.Runs frame elements s result s') (hs : s.cancelled = false) :
    s.GoesOn s' ∨ s.Stopped s' ∧ ∃ code, result = .ok code ∧
      project.Unwinds s' ⟨frame, elements, s⟩ code := by
  induction h with
  | nil => exact .inl (.refl hs)
  | cancelled hc => exact absurd (hc.symm.trans hs) (by simp)
  | @cons _ _ rest _ _ _ code _ hfirst hrest ihfirst ihrest =>
    rcases ihfirst hs with hgoes | ⟨hstopped, code', hcode, hunwinds⟩
    · rcases ihrest hgoes.cancelled with hrest' | ⟨hstopped, more, rfl, hunwinds⟩
      · exact .inl (hgoes.trans hrest')
      · exact .inr ⟨hgoes.trans_stopped hstopped, _, rfl, hunwinds.cons hfirst⟩
    · -- The first element has stopped the run, so the others leave the session as it is.
      obtain ⟨rfl, rfl⟩ := hrest.eq_of_cancelled hstopped.cancelled
      cases hcode
      refine .inr ⟨hstopped, code, by simp [Except.map], ?_⟩
      exact hunwinds.append hstopped.cancelled rest
  | fails hfirst ih =>
    rcases ih hs with hgoes | ⟨-, code, hcode, -⟩
    · exact .inl hgoes
    · cases hcode
  | step hc hstep =>
    rcases hstep.goesOn_or_stopped hs with hgoes | ⟨hstopped, rfl, hunwinds⟩
    · exact .inl hgoes
    · exact .inr ⟨hstopped, [], rfl, hunwinds⟩
  | @document frame _ file _ _ _ _ _ hc hclosed hload hread hbody ih =>
    have hloaded := Session.goesOn_logged hs frame.opened
      (.loaded (frame.directory.join file).normalize.path) rfl
    rcases ih hloaded.cancelled with hgoes | ⟨hstopped, body, rfl, hunwinds⟩
    · exact .inl (hloaded.trans hgoes)
    · refine .inr ⟨hloaded.trans_stopped hstopped, [], ?_, ?_⟩
      · rw [Except.map, Session.keeps_of_cancelled hstopped.cancelled]
      · exact (Opens.document hclosed hload hread).unwinds hs hbody hstopped.cancelled hunwinds
  | counterLoop hc hbody ih =>
    rcases ih hs with hgoes | ⟨hstopped, body, rfl, hunwinds⟩
    · exact .inl hgoes
    · refine .inr ⟨hstopped, [], ?_, ?_⟩
      · rw [Except.map, Session.keeps_of_cancelled hstopped.cancelled]
      · exact Opens.children.unwinds hs hbody hstopped.cancelled hunwinds
  | conditional hc hconditions hif helse ihif ihelse =>
    rcases ihif hs with hgoes | ⟨hstopped, body, hbody, hunwinds⟩
    · rcases ihelse hgoes.cancelled with helse' | ⟨hstopped, body, rfl, hunwinds⟩
      · exact .inl (hgoes.trans helse')
      · refine .inr ⟨hgoes.trans_stopped hstopped, [], ?_, ?_⟩
        · rw [Except.map, Session.keeps_of_cancelled hstopped.cancelled]
        · exact (Opens.elseBranch hconditions hif).unwinds hs helse hstopped.cancelled hunwinds
    · -- Stopped in the if-branch: the else-branch is begun in a cancelled session.
      obtain ⟨rfl, rfl⟩ := helse.eq_of_cancelled hstopped.cancelled
      cases hbody
      refine .inr ⟨hstopped, [], ?_, ?_⟩
      · rw [Except.map, Session.keeps_of_cancelled hstopped.cancelled]
      · exact (Opens.ifBranch hconditions).unwinds hs hif hstopped.cancelled hunwinds
  | ifBranchFails hc hconditions hif ih =>
    rcases ih hs with hgoes | ⟨-, code, hcode, -⟩
    · exact .inl hgoes
    · cases hcode

/-- A document that is compiled goes on, or its elements unwind. -/
theorem RunsDocument.goesOn_or_unwinds {document : Node} {name : String} {directory : Path}
    {result : Except Error (List Code)}
    (h : project.RunsDocument document name directory s (result, s')) (hs : s.cancelled = false) :
    s.GoesOn s' ∨ s.Stopped s' ∧ ∃ elements code, readSequence document = .ok elements ∧
      result = .ok code ∧ project.Unwinds s'
        ⟨⟨directory, name, [(directory.join name).normalize]⟩, elements, s⟩ code := by
  generalize houtcome : (result, s') = outcome at h
  cases h with
  | malformed hread =>
    cases houtcome
    exact .inl (.refl hs)
  | elements hread hruns =>
    cases houtcome
    rcases hruns.goesOn_or_unwinds hs with hgoes | ⟨hstopped, code, hcode, hunwinds⟩
    · exact .inl hgoes
    · exact .inr ⟨hstopped, _, code, hread, hcode, hunwinds⟩

/-- A program goes on to its end, or it succeeds after having been stopped. -/
theorem RunsRoot.goesOn_or_stopped {root : String} {directory : Path}
    {result : Except Error (List Code)} (h : project.RunsRoot root directory (result, s)) :
    Session.GoesOn {} s ∨ Session.Stopped {} s ∧ ∃ code, result = .ok code := by
  have hroot : Session.GoesOn {} (rootSession root directory) :=
    Session.goesOn_logged rfl [] (.loaded (rootPath root directory).path) rfl
  cases h with
  | unloadable | missing => exact .inl hroot
  | document hload hruns =>
    rcases hruns.goesOn_or_unwinds hroot.cancelled with hgoes | ⟨hstopped, _, code, -, hcode, -⟩
    · exact .inl (hroot.trans hgoes)
    · exact .inr ⟨hroot.trans_stopped hstopped, code, hcode⟩

/-- A program is empty and cancelled exactly if the handler has answered to stop. -/
theorem compileProgram_cancelled_iff (project : Project) (root : String) (directory : Path) :
    (∃ program, (project.compileProgram root directory).1 = .ok program ∧ program.source = "" ∧
      program.cancelled = true) ↔
    ∃ record ∈ (project.compileProgram root directory).2.log, record.event.isAbort = true := by
  obtain ⟨result, s, hruns⟩ := exists_runsRoot project root directory
  rw [compileProgram_eq hruns]
  have hlog : s.log = (Session.log {}) ++ s.log := rfl
  rcases hruns.goesOn_or_stopped with hgoes | ⟨hstopped, code, rfl⟩
  · constructor
    · rintro ⟨program, hprogram, -, hc⟩
      rcases result with error | code
      · cases hprogram
      · cases hprogram
        rw [programFrom_cancelled, hgoes.cancelled] at hc
        cases hc
    · rintro ⟨record, hmem, habort⟩
      rw [hgoes.not_isAbort hlog record hmem] at habort
      cases habort
  · refine ⟨fun _ => hstopped.exists_isAbort hlog, fun _ => ⟨programFrom s code, rfl, ?_, ?_⟩⟩
    · rw [programFrom, if_pos hstopped.cancelled]
    · rw [programFrom_cancelled, hstopped.cancelled]

end Project

/-! ## A document that is stopped -/

namespace StoppedSample

/-- A dance of two parts. The second one leads into a document that refers to a missing one. -/
def document : Node := ⟨"sequence", [], "", [
  ⟨"expression", [("file", "a.xml")], "", []⟩,
  ⟨"counter-loop", [("iterations", "2")], "",
    [⟨"saved-sequence", [("file", "s.xml")], "", []⟩]⟩]⟩

/-- The documents that the dance leads to. -/
def documents : Documents := .ofList [
  (⟨"p/a.xml"⟩, "<expression delay-millis='1'/>"),
  (⟨"p/s.xml"⟩, "<sequence><expression file='z.xml'/></sequence>")]

def project (handler : Handler) : Project := { library := documents.library, handler }

theorem reads : readSequence document = .ok [.expression ⟨0, none⟩ "a.xml" 0,
    .counterLoop ⟨1, none⟩ 2 [.sequence ⟨0, none⟩ "s.xml"]] := by cbv

theorem load_eq (handler : Handler) : (project handler).library.load = documents.load := by
  simp only [project, Documents.library]

theorem expressionPath_eq (handler : Handler) (directory : Path) (file : String) :
    (project handler).expressionPath directory file = (directory.join file).normalize.path := by
  simp only [Project.expressionPath, project, Option.getD_none]

def frame : Frame := ⟨⟨"p"⟩, "main.xml", [((⟨"p"⟩ : Path).join "main.xml").normalize]⟩

theorem runs_first (handler : Handler) : ∃ code s,
    (project handler).Runs frame [.expression ⟨0, none⟩ "a.xml" 0] {} (.ok code) s ∧
      s.cancelled = false ∧ s.asked = [] ∧ s.registry.get? "z.xml" = none := by
  have hload : (project handler).library.load
      ((project handler).expressionPath frame.directory "a.xml") =
      .ok (some ⟨"expression", [("delay-millis", "1")], "", []⟩) := by
    rw [load_eq, expressionPath_eq]
    exact eq_ok_of_toOption (by decide +kernel)
  have hbody : (Expression.read ⟨"expression", [("delay-millis", "1")], "", []⟩).bind (·.body) =
      .ok [.delay 1] := eq_ok_of_toOption (by decide)
  have hregistry : ((Registry.empty : Registry (List Instruction)).register "a.xml" [.delay 1]).2.get?
      "z.xml" = none := by decide
  exact ⟨_, _, .step rfl (.first rfl hload hbody), rfl, rfl, hregistry⟩

theorem runs_second (handler : Handler) {s : Session} (hc : s.cancelled = false)
    (hasked : s.asked = []) (hnew : s.registry.get? "z.xml" = none) : ∃ code s',
    (project handler).Runs frame [.counterLoop ⟨1, none⟩ 2 [.sequence ⟨0, none⟩ "s.xml"]] s
        (.ok code) s' ∧ s'.asked = [⟨"z.xml", "s.xml"⟩] ∧
      ∃ opened, ⟨opened, .asked ⟨"z.xml", "s.xml"⟩ (handler [] ⟨"z.xml", "s.xml"⟩)⟩ ∈ s'.log := by
  have hload : (project handler).library.load (frame.directory.join "s.xml").normalize.path =
      .ok (some ⟨"sequence", [], "", [⟨"expression", [("file", "z.xml")], "", []⟩]⟩) := by
    rw [load_eq]
    exact eq_ok_of_toOption (by decide +kernel)
  have hsteps : readSequence ⟨"sequence", [], "", [⟨"expression", [("file", "z.xml")], "", []⟩]⟩ =
      .ok [.expression ⟨0, none⟩ "z.xml" 0] := by cbv
  have hmissing : (project handler).library.load ((project handler).expressionPath
      (frame.entering "s.xml").directory "z.xml") = .ok none := by
    rw [load_eq, expressionPath_eq]
    exact eq_ok_of_toOption (by decide)
  have hclosed : (frame.directory.join "s.xml").normalize ∉ frame.opened := by decide
  have hbefore : (s.logged frame.opened
      (.loaded (frame.directory.join "s.xml").normalize.path)).asked = [] := by
    simp [hasked, Event.question?]
  refine ⟨_, _, .counterLoop hc (.document hc hclosed hload hsteps
    (.step hc (.absent (.expression hnew) hmissing))), ?_,
    (frame.entering "s.xml").opened, ?_⟩
  · rw [Session.asked_answered, Session.asked_logged, hbefore]
    rfl
  · rw [Session.answered_log, hbefore]
    exact List.mem_append_right _ (List.mem_singleton.2 rfl)

/-- Whatever the handler answers, the dance comes to an end and one question is asked. -/
theorem runs (handler : Handler) : ∃ code s', (project handler).RunsDocument document "main.xml"
    ⟨"p"⟩ {} (.ok code, s') ∧ s'.asked = [⟨"z.xml", "s.xml"⟩] ∧
      ∃ opened, ⟨opened, .asked ⟨"z.xml", "s.xml"⟩ (handler [] ⟨"z.xml", "s.xml"⟩)⟩ ∈ s'.log := by
  obtain ⟨code₁, s, hfirst, hc, hasked, hnew⟩ := runs_first handler
  obtain ⟨code₂, s', hsecond, hanswer⟩ := runs_second handler hc hasked hnew
  exact ⟨_, s', .elements reads (.cons hfirst hsecond), hanswer⟩

end StoppedSample

/-! ## The answer to stop -/

namespace Project

/-- An answer to stop is final. After it a run does nothing more: it is the last record of the log,
every block that was begun keeps the statements of the elements in front, and the run succeeds with
those of the outermost block. A run that fails or is not cancelled has had no such answer. In a
session that is cancelled, a document that can be read does nothing. A program is empty and cancelled
exactly if there was an answer to stop. -/
theorem abort_is_final (project : Project) :
    (∀ (document : Node) (name : String) (directory : Path) (s s' : Session)
        (result : Except Error (List Code)), s.cancelled = false →
      (project.compileSequence document name directory).runFrom s = (result, s') →
      ∃ new, s'.log = s.log ++ new ∧
        ((∃ record ∈ new, record.event.isAbort = true) →
          s.Stopped s' ∧ ∃ elements code, readSequence document = .ok elements ∧
            result = .ok code ∧ project.Unwinds s'
              ⟨⟨directory, name, [(directory.join name).normalize]⟩, elements, s⟩ code) ∧
        ((∃ error, result = .error error) ∨ s'.cancelled = false →
          ∀ record ∈ new, record.event.isAbort = false)) ∧
    (∀ (document : Node) (elements : List Element) (name : String) (directory : Path) (s : Session),
      s.cancelled = true → readSequence document = .ok elements →
      (project.compileSequence document name directory).runFrom s = (.ok [], s)) ∧
    ∀ (root : String) (directory : Path),
      (∃ program, (project.compileProgram root directory).1 = .ok program ∧ program.source = "" ∧
        program.cancelled = true) ↔
      ∃ record ∈ (project.compileProgram root directory).2.log, record.event.isAbort = true := by
  refine ⟨fun document name directory s s' result hs hrun => ?_,
    fun document elements name directory s hc hread => ?_, project.compileProgram_cancelled_iff⟩
  · rcases (runsDocument_iff.2 hrun).goesOn_or_unwinds hs with hgoes | ⟨hstopped, hunwinds⟩
    · obtain ⟨new, hlog, hnew⟩ := hgoes.log
      refine ⟨new, hlog, fun habort => ?_, fun _ => hnew⟩
      obtain ⟨record, hmem, habort⟩ := habort
      rw [hnew record hmem] at habort
      cases habort
    · obtain ⟨new, last, hlog, -, -⟩ := hstopped.log
      refine ⟨new ++ [last], hlog, fun _ => ⟨hstopped, hunwinds⟩, fun hends => ?_⟩
      obtain ⟨elements, code, -, hcode, -⟩ := hunwinds
      rcases hends with ⟨error, herror⟩ | hc
      · cases herror.symm.trans hcode
      · cases hc.symm.trans hstopped.cancelled
  · exact runsDocument_iff.1 (.elements hread (.cancelled hc))

/-- The handler stops the dance in its second part, and it keeps the statements of the first. -/
theorem sample_abort_is_final :
    (∃ s' code, ((StoppedSample.project (.fixed .abort)).compileSequence StoppedSample.document
        "main.xml" ⟨"p"⟩).runFrom {} = (.ok code, s') ∧ Session.Stopped {} s' ∧
      (StoppedSample.project (.fixed .abort)).Unwinds s' ⟨StoppedSample.frame,
        [.expression ⟨0, none⟩ "a.xml" 0, .counterLoop ⟨1, none⟩ 2 [.sequence ⟨0, none⟩ "s.xml"]],
        {}⟩ code) ∧
    ((StoppedSample.project (.fixed .abort)).compileSequence StoppedSample.document
      "main.xml" ⟨"p"⟩).runFrom { cancelled := true } = (.ok [], { cancelled := true }) := by
  obtain ⟨hfinal, hcancelled, -⟩ := abort_is_final (StoppedSample.project (.fixed .abort))
  refine ⟨?_, hcancelled _ _ _ _ _ rfl StoppedSample.reads⟩
  obtain ⟨code, s', hruns, -, opened, hanswer⟩ := StoppedSample.runs (.fixed .abort)
  have hrun := runsDocument_iff.1 hruns
  obtain ⟨new, hlog, habort, -⟩ := hfinal _ _ _ _ _ _ rfl hrun
  obtain rfl : s'.log = new := hlog
  obtain ⟨hstopped, elements, _, hread, hcode, hunwinds⟩ := habort ⟨_, hanswer, rfl⟩
  cases hread.symm.trans StoppedSample.reads
  cases hcode
  exact ⟨s', code, hrun, hstopped, hunwinds⟩

end Project

end RobotSketch
