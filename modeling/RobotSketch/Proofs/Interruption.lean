import RobotSketch.Proofs.Cancellation
import RobotSketch.Proofs.Registry

/-!
# A run that is stopped, next to one that goes on

Two runs over the same documents differ in the handler only: one always goes on, the other one
stops at its `k`-th question. Up to there they are in step. Then the one unwinds, while the other
completes the blocks that were begun, so what the first one has done is a start of what the second
one does.

`Step.inStep` and `Runs.inStep` carry the two runs along together, from a session they share. The
main statement is `aborted_run_starts_continued_run`.
-/
namespace RobotSketch

/-! ## Sessions that grow -/

/-- The log and the registry of a session only grow. -/
structure Session.Grows (s s' : Session) : Prop where
  log : s.log <+: s'.log
  methods : s.registry.methods <+: s'.registry.methods

namespace Session

variable {s s₁ s' t : Session}

theorem Grows.refl (s : Session) : s.Grows s := ⟨List.prefix_rfl, List.prefix_rfl⟩

theorem Grows.trans (h₁ : s.Grows s₁) (h₂ : s₁.Grows s') : s.Grows s' :=
  ⟨h₁.log.trans h₂.log, h₁.methods.trans h₂.methods⟩

theorem Grows.asked (h : s.Grows s') : s.asked <+: s'.asked := h.log.filterMap _

theorem grows_logged (s : Session) (opened : List NormalPath) (event : Event) :
    s.Grows (s.logged opened event) := ⟨List.prefix_append .., List.prefix_rfl⟩

theorem grows_answered (s : Session) (opened : List NormalPath) (question : Question)
    (decision : Decision) : s.Grows (s.answered opened question decision) :=
  ⟨List.prefix_append .., List.prefix_rfl⟩

theorem grows_registering (s : Session) (opened : List NormalPath) (path : Path) (file : String)
    (body : List Instruction) : s.Grows (s.registering opened path file body) where
  log := by
    rw [registering_log]
    exact List.prefix_append ..
  methods := Registry.methods_prefix_register ..

/-- A session that was stopped at question `k`, next to one that went on. -/
structure CutAt (k : Nat) (t s' : Session) : Prop where
  cancelled : t.cancelled = true
  asked : t.asked = s'.asked.take k
  methods : t.registry.methods <+: s'.registry.methods

/-- The one that went on may go on further. -/
theorem CutAt.grows {k : Nat} (h : CutAt k t s₁) (hk : k ≤ s₁.asked.length)
    (hgrows : s₁.Grows s') : CutAt k t s' where
  cancelled := h.cancelled
  asked := by
    obtain ⟨more, hmore⟩ := hgrows.asked
    rw [h.asked, ← hmore, List.take_append_of_le_length hk]
  methods := h.methods.trans hgrows.methods

end Session

namespace Project

variable {project : Project} {frame : Frame} {s s' : Session}

theorem Step.grows {element : Element} {result : Except Error (List Code)}
    (h : project.Step frame element s result s') : s.Grows s' := by
  cases h with
  | again | selfReference | unknownSensor => exact .refl s
  | unloadable | malformedExpression | malformedSequence => exact Session.grows_logged ..
  | absent => exact (Session.grows_logged ..).trans (Session.grows_answered ..)
  | first => exact Session.grows_registering ..

theorem Runs.grows {elements : List Element} {result : Except Error (List Code)}
    (h : project.Runs frame elements s result s') : s.Grows s' := by
  induction h with
  | nil | cancelled => exact .refl _
  | cons _ _ ihfirst ihrest => exact ihfirst.trans ihrest
  | fails _ ih => exact ih
  | step _ hstep => exact hstep.grows
  | document _ _ _ _ _ ih => exact (Session.grows_logged ..).trans ih
  | counterLoop _ _ ih => exact ih
  | conditional _ _ _ _ ihif ihelse => exact ihif.trans ihelse
  | ifBranchFails _ _ _ ih => exact ih

/-! ## Handlers -/

theorem Unwinds.exists_abort {call : Call} {code : List Code} (h : project.Unwinds s' call code) :
    ∃ before question, project.handler before question = .abort := by
  induction h with
  | asked _ _ _ habort => exact ⟨_, _, habort⟩
  | inside _ _ _ ih => exact ih

theorem Runs.goesOn (hhandler : project.AlwaysProceeds) {elements : List Element}
    {result : Except Error (List Code)} (h : project.Runs frame elements s result s')
    (hs : s.cancelled = false) : s.GoesOn s' := by
  rcases h.goesOn_or_unwinds hs with hgoes | ⟨-, code, -, hunwinds⟩
  · exact hgoes
  · obtain ⟨before, question, habort⟩ := hunwinds.exists_abort
    cases (hhandler before question).symm.trans habort

end Project

/-- The handler answers the `k`-th question with stopping, and those before with going on. -/
structure Handler.AbortsAt (handler : Handler) (k : Nat) : Prop where
  before : ∀ asked question, asked.length + 1 < k → handler asked question = .proceed
  last : ∀ asked question, asked.length + 1 = k → handler asked question = .abort

theorem Handler.abortsAt_scripted {k : Nat} (hk : 1 ≤ k) (fallback : Decision) :
    (Handler.scripted (List.replicate (k - 1) .proceed ++ [.abort]) fallback).AbortsAt k where
  before asked question h := by
    have hlt : asked.length < (List.replicate (k - 1) Decision.proceed).length := by
      rw [List.length_replicate]
      omega
    rw [scripted, List.getD_append _ _ _ _ hlt, List.getD_replicate]
    omega
  last asked question h := by
    have hlength : asked.length = (List.replicate (k - 1) Decision.proceed).length := by
      rw [List.length_replicate]
      omega
    rw [scripted, hlength, List.getD_append_right _ _ _ _ le_rfl, Nat.sub_self]
    rfl

/-! ## Two runs in step -/

namespace Project

def withHandler (project : Project) (handler : Handler) : Project := { project with handler }

variable {project : Project} {frame : Frame} {s s' : Session} {handler : Handler} {k : Nat}

theorem Wants.withHandler {element : Element} {file : String} {path : Path}
    (h : project.Wants frame s element file path) (handler : Handler) :
    (project.withHandler handler).Wants frame s element file path := by
  cases h with
  | expression hnew => exact .expression hnew
  | sequence hclosed => exact .sequence hclosed

/-- A step is the same for both handlers, or it is the one at which the second one stops. -/
theorem Step.inStep (hproceeds : project.AlwaysProceeds) (haborts : handler.AbortsAt k)
    {element : Element} {result : Except Error (List Code)}
    (h : project.Step frame element s result s') (hk : s.asked.length < k) :
    (s'.asked.length < k ∧ (project.withHandler handler).Step frame element s result s') ∨
      k ≤ s'.asked.length ∧ ∃ t, (project.withHandler handler).Step frame element s (.ok []) t ∧
        Session.CutAt k t s' := by
  have hloaded : ∀ path, (s.logged frame.opened (.loaded path)).asked = s.asked := by
    simp [Event.question?]
  cases h with
  | again hget => exact .inl ⟨hk, .again hget⟩
  | selfReference hopened => exact .inl ⟨hk, .selfReference hopened⟩
  | unloadable hwants hload =>
    exact .inl ⟨by rwa [hloaded], .unloadable (hwants.withHandler handler) hload⟩
  | @absent _ _ file path hwants hload =>
    have habsent := Step.absent (hwants.withHandler handler) hload
    rw [hproceeds s.asked ⟨file, frame.name⟩]
    have hasked : ∀ decision, ((s.logged frame.opened (.loaded path)).answered frame.opened
        ⟨file, frame.name⟩ decision).asked = s.asked ++ [⟨file, frame.name⟩] := by
      simp [Event.question?]
    have hlength : (s.asked ++ [(⟨file, frame.name⟩ : Question)]).length = s.asked.length + 1 := by
      simp
    rcases Nat.lt_or_ge (s.asked.length + 1) k with hlt | hge
    · have hanswer : (project.withHandler handler).handler s.asked ⟨file, frame.name⟩ = .proceed :=
        haborts.before _ _ hlt
      rw [hanswer] at habsent
      exact .inl ⟨by rwa [hasked, hlength], habsent⟩
    · have hanswer : (project.withHandler handler).handler s.asked ⟨file, frame.name⟩ = .abort :=
        haborts.last _ _ (by omega)
      rw [hanswer] at habsent
      refine .inr ⟨by rwa [hasked, hlength], _, habsent, ⟨by simp, ?_, List.prefix_rfl⟩⟩
      rw [hasked, hasked, List.take_of_length_le (by omega)]
  | malformedExpression hnew hload hread =>
    exact .inl ⟨by rwa [hloaded], .malformedExpression hnew hload hread⟩
  | first hnew hload hread =>
    exact .inl ⟨by rwa [Session.asked_registering], .first hnew hload hread⟩
  | malformedSequence hclosed hload hread =>
    exact .inl ⟨by rwa [hloaded], .malformedSequence hclosed hload hread⟩
  | unknownSensor hconditions => exact .inl ⟨hk, .unknownSensor hconditions⟩

/-- A run of the second handler that was stopped at question `k`, next to one that has gone on to a
result and a session. -/
def StopsShort (project : Project) (k : Nat) (frame : Frame) (elements : List Element) (s : Session)
    (result : Except Error (List Code)) (s' : Session) : Prop :=
  ∃ code t, project.Runs frame elements s (.ok code) t ∧ Session.CutAt k t s' ∧
    ∀ whole, result = .ok whole → code <+: whole

variable {elements rest : List Element} {element : Element} {result first : Except Error (List Code)}

/-- The run that goes on may go on further. -/
theorem StopsShort.grows {s₁ : Session} (h : project.StopsShort k frame elements s result s₁)
    (hk : k ≤ s₁.asked.length) (hgrows : s₁.Grows s') :
    project.StopsShort k frame elements s result s' := by
  obtain ⟨code, t, hruns, hcut, hstart⟩ := h
  exact ⟨code, t, hruns, hcut.grows hk hgrows, hstart⟩

/-- The elements behind one at which the run was stopped are left out. -/
theorem StopsShort.cons (h : project.StopsShort k frame [element] s first s')
    (hresult : ∀ whole, result = .ok whole → ∃ code, first = .ok code ∧ code <+: whole) :
    project.StopsShort k frame (element :: rest) s result s' := by
  obtain ⟨code, t, hruns, hcut, hstart⟩ := h
  refine ⟨code ++ [], t, .cons hruns (.cancelled hcut.cancelled), hcut, fun whole hwhole => ?_⟩
  obtain ⟨code', hcode', hle⟩ := hresult whole hwhole
  rw [List.append_nil]
  exact (hstart code' hcode').trans hle

/-- An element that was stopped has no statements, whatever the other run makes of it. -/
theorem stopsShort_singleton {t : Session} (h : project.Runs frame [element] s (.ok []) t)
    (hcut : Session.CutAt k t s') : project.StopsShort k frame [element] s result s' :=
  ⟨[], t, h, hcut, fun _ _ => List.nil_prefix⟩

/-- An element stops short with a block that it opens. -/
theorem Opens.stopsShort {inner : Call} (h : project.Opens frame s element inner)
    (hs : s.cancelled = false)
    (hinner : project.StopsShort k inner.frame inner.elements inner.session first s') :
    project.StopsShort k frame [element] s result s' := by
  obtain ⟨body, t, hruns, hcut, -⟩ := hinner
  exact stopsShort_singleton (h.runs_of_cancelled hs hruns hcut.cancelled) hcut

/-- Two runs from one session are in step until the second one stops short. -/
theorem Runs.inStep (hproceeds : project.AlwaysProceeds) (haborts : handler.AbortsAt k)
    (h : project.Runs frame elements s result s') (hs : s.cancelled = false)
    (hk : s.asked.length < k) :
    (s'.asked.length < k ∧ (project.withHandler handler).Runs frame elements s result s') ∨
      k ≤ s'.asked.length ∧
        (project.withHandler handler).StopsShort k frame elements s result s' := by
  induction h with
  | nil => exact .inl ⟨hk, .nil⟩
  | cancelled hc => exact absurd (hc.symm.trans hs) (by simp)
  | @cons _ _ _ _ _ _ code result hfirst hrest ihfirst ihrest =>
    rcases ihfirst hs hk with ⟨hk₁, hfirst'⟩ | ⟨hle, hshort⟩
    · have hs₁ := (hfirst.goesOn hproceeds hs).cancelled
      rcases ihrest hs₁ hk₁ with ⟨hk', hrest'⟩ | ⟨hle, more, t, hrest', hcut, hstart⟩
      · exact .inl ⟨hk', .cons hfirst' hrest'⟩
      · refine .inr ⟨hle, code ++ more, t, .cons hfirst' hrest', hcut, fun whole hwhole => ?_⟩
        rcases result with error | body
        · cases hwhole
        · cases hwhole
          exact (List.prefix_append_right_inj code).2 (hstart body rfl)
    · -- The second run has stopped in the first element, while the first run goes on.
      have hgrows := hrest.grows
      refine .inr ⟨hle.trans hgrows.asked.length_le,
        (hshort.grows hle hgrows).cons fun whole hwhole => ?_⟩
      rcases result with error | body
      · cases hwhole
      · cases hwhole
        exact ⟨code, rfl, List.prefix_append ..⟩
  | fails hfirst ih =>
    rcases ih hs hk with ⟨hk', hfirst'⟩ | ⟨hle, hshort⟩
    · exact .inl ⟨hk', .fails hfirst'⟩
    · exact .inr ⟨hle, hshort.cons (by simp)⟩
  | step hc hstep =>
    rcases hstep.inStep hproceeds haborts hk with ⟨hk', hstep'⟩ | ⟨hle, t, hstep', hcut⟩
    · exact .inl ⟨hk', .step hc hstep'⟩
    · exact .inr ⟨hle, stopsShort_singleton (.step hc hstep') hcut⟩
  | @document frame place file node elements s s' _ hc hclosed hload hread hbody ih =>
    rcases ih hc (by simpa [Event.question?] using hk) with ⟨hk', hbody'⟩ | ⟨hle, hshort⟩
    · exact .inl ⟨hk', .document hc hclosed hload hread hbody'⟩
    · have hopens : (project.withHandler handler).Opens frame s (.sequence place file) _ :=
        .document hclosed hload hread
      exact .inr ⟨hle, hopens.stopsShort hs hshort⟩
  | counterLoop hc hbody ih =>
    rcases ih hs hk with ⟨hk', hbody'⟩ | ⟨hle, hshort⟩
    · exact .inl ⟨hk', .counterLoop hc hbody'⟩
    · exact .inr ⟨hle, Opens.children.stopsShort hs hshort⟩
  | conditional hc hconditions hif helse ihif ihelse =>
    rcases ihif hs hk with ⟨hk₁, hif'⟩ | ⟨hle, hshort⟩
    · have hs₁ := (hif.goesOn hproceeds hs).cancelled
      rcases ihelse hs₁ hk₁ with ⟨hk', helse'⟩ | ⟨hle, hshort⟩
      · exact .inl ⟨hk', .conditional hc hconditions hif' helse'⟩
      · exact .inr ⟨hle, (Opens.elseBranch hconditions hif').stopsShort hs hshort⟩
    · -- Stopped in the if-branch: of the else-branch only the first run sees anything.
      have hgrows := helse.grows
      exact .inr ⟨hle.trans hgrows.asked.length_le,
        (Opens.ifBranch hconditions).stopsShort hs (hshort.grows hle hgrows)⟩
  | ifBranchFails hc hconditions hif ih =>
    rcases ih hs hk with ⟨hk', hif'⟩ | ⟨hle, hshort⟩
    · exact .inl ⟨hk', .ifBranchFails hc hconditions hif'⟩
    · exact .inr ⟨hle, (Opens.ifBranch hconditions).stopsShort hs hshort⟩

end Project

/-! ## Lines -/

/-- Statements one after the other have their lines one after the other. -/
theorem Code.lines_block_append (first second : List Code) :
    (Code.block (first ++ second)).lines = (Code.block first).lines ++ (Code.block second).lines := by
  induction first with
  | nil => rfl
  | cons statement rest ih =>
    have hcons : ∀ code, (Code.block (statement :: code)).lines =
        (Statement.layout Condition.text Action.line statement).lines ++ (Code.block code).lines :=
      fun _ => rfl
    rw [List.cons_append, hcons, hcons, ih, List.append_assoc]

theorem Code.isPrefix_lines_block {start whole : List Code} (h : start <+: whole) :
    (Code.block start).lines <+: (Code.block whole).lines := by
  obtain ⟨more, rfl⟩ := h
  rw [lines_block_append]
  exact List.prefix_append ..

namespace Project

/-- A document is compiled twice in a fresh session, once with a handler that always goes on, and
once with one that goes on `k - 1` times and then stops. If the first run asks `k` questions or more,
then the second one asks the first `k` of them, succeeds and is cancelled. Its subroutines are a start
of those of the first run, and if that succeeds, so are its lines. -/
theorem aborted_run_starts_continued_run (library : Library) (expressions : Option Path) (document : Node)
    (name : String) (directory : Path) (fallback : Decision) (k : Nat) :
    let continued := ((⟨library, .fixed .proceed, expressions⟩ : Project).compileSequence document
      name directory).runFrom {}
    let aborted := ((⟨library, .scripted (List.replicate (k - 1) .proceed ++ [.abort]) fallback,
      expressions⟩ : Project).compileSequence document name directory).runFrom {}
    1 ≤ k → k ≤ continued.2.asked.length →
      aborted.2.asked = continued.2.asked.take k ∧
      aborted.2.cancelled = true ∧
      aborted.2.registry.methods <+: continued.2.registry.methods ∧
      ∃ code, aborted.1 = .ok code ∧ ∀ whole, continued.1 = .ok whole →
        (Code.block code).lines <+: (Code.block whole).lines := by
  intro continued aborted hpos hk
  have hruns : (⟨library, .fixed .proceed, expressions⟩ : Project).RunsDocument document name
      directory {} continued := runsDocument_iff.2 rfl
  clear_value continued
  cases hruns with
  | malformed hread => exact absurd hk (by simpa [Session.asked] using Nat.pos_iff_ne_zero.1 hpos)
  | elements hread hruns =>
    rcases hruns.inStep (fun _ _ => rfl) (Handler.abortsAt_scripted hpos fallback) rfl hpos with
      ⟨hlt, -⟩ | ⟨-, code, t, hrun, hcut, hstart⟩
    · exact absurd hk (Nat.not_le.2 hlt)
    · have haborted : aborted = (.ok code, t) := runsDocument_iff.1 (.elements hread hrun)
      rw [haborted]
      exact ⟨hcut.asked, hcut.cancelled, hcut.methods, code, rfl, fun whole hwhole =>
        Code.isPrefix_lines_block (hstart whole hwhole)⟩

/-- The dance is stopped at its only question, and its first part is left. -/
theorem sample_aborted_run_starts :
    let continued := ((⟨StoppedSample.documents.library, .fixed .proceed, none⟩ :
      Project).compileSequence StoppedSample.document "main.xml" ⟨"p"⟩).runFrom {}
    let aborted := ((⟨StoppedSample.documents.library, .scripted [.abort] .proceed, none⟩ :
      Project).compileSequence StoppedSample.document "main.xml" ⟨"p"⟩).runFrom {}
    1 ≤ continued.2.asked.length ∧
    aborted.2.asked = [⟨"z.xml", "s.xml"⟩] ∧ aborted.2.cancelled = true ∧
    aborted.2.registry.methods <+: continued.2.registry.methods ∧
    ∃ code whole, aborted.1 = .ok code ∧ continued.1 = .ok whole ∧
      (Code.block code).lines <+: (Code.block whole).lines := by
  obtain ⟨whole, s', hruns, hasked, -⟩ := StoppedSample.runs (.fixed .proceed)
  have hcontinued : ((⟨StoppedSample.documents.library, .fixed .proceed, none⟩ :
      Project).compileSequence StoppedSample.document "main.xml" ⟨"p"⟩).runFrom {} =
      (.ok whole, s') := runsDocument_iff.1 hruns
  have haborted := aborted_run_starts_continued_run StoppedSample.documents.library none StoppedSample.document
    "main.xml" ⟨"p"⟩ .proceed 1
  simp only [hcontinued, hasked] at haborted ⊢
  obtain ⟨hfirst, hcancelled, hmethods, code, hcode, hlines⟩ := haborted le_rfl le_rfl
  exact ⟨le_rfl, hfirst, hcancelled, hmethods, code, whole, hcode, rfl, hlines whole rfl⟩

end Project

end RobotSketch
