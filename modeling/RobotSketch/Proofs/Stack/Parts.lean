import RobotSketch.Proofs.Cycles
import RobotSketch.Session.Live

/-!
# Parts of a compilation on a stack

What each part of a compilation comes to in a session that keeps a stack, one lemma for each way in
which it can end: looking for the document of a saved sequence, an element of each kind, and a list
of elements. A step by the rules of a run is taken on the stack as in its frame, and leaves the
stack alone (`Step.pair_elementCode`). What a step logs, it logs under the stack of its frame
(`Step.logsUnder`).
-/
namespace RobotSketch

open Element Compile

/-! ## What is logged -/

/-- All that was logged from one session to another was logged under one of some stacks. -/
def Session.LogsUnder (s s' : Session) (seen : List (List NormalPath)) : Prop :=
  ∃ new, s'.log = s.log ++ new ∧ ∀ record ∈ new, record.opened ∈ seen

namespace Session

variable {s s₁ s' : Session} {seen more : List (List NormalPath)} {opened : List NormalPath}

theorem logsUnder_refl : s.LogsUnder s seen := ⟨[], (List.append_nil _).symm, List.forall_mem_nil _⟩

theorem LogsUnder.trans (hfirst : s.LogsUnder s₁ seen) (hrest : s₁.LogsUnder s' seen) :
    s.LogsUnder s' seen := by
  obtain ⟨new₁, hlog₁, hseen₁⟩ := hfirst
  obtain ⟨new₂, hlog₂, hseen₂⟩ := hrest
  refine ⟨new₁ ++ new₂, by rw [hlog₂, hlog₁, List.append_assoc], fun record hmem => ?_⟩
  exact (List.mem_append.1 hmem).elim (hseen₁ record) (hseen₂ record)

theorem LogsUnder.mono (h : s.LogsUnder s' seen) (hseen : seen ⊆ more) : s.LogsUnder s' more := by
  obtain ⟨new, hlog, hnew⟩ := h
  exact ⟨new, hlog, fun record hmem => hseen (hnew record hmem)⟩

theorem logsUnder_logged (hopened : opened ∈ seen) (event : Event) :
    s.LogsUnder (s.logged opened event) seen :=
  ⟨[⟨opened, event⟩], rfl, fun _ hmem => List.mem_singleton.1 hmem ▸ hopened⟩

theorem logsUnder_answered (hopened : opened ∈ seen) (question : Question) (decision : Decision) :
    s.LogsUnder (s.answered opened question decision) seen :=
  ⟨[⟨opened, .asked question decision⟩], rfl, fun _ hmem => List.mem_singleton.1 hmem ▸ hopened⟩

theorem logsUnder_registering (hopened : opened ∈ seen) (path : Path) (file : String)
    (body : List Instruction) : s.LogsUnder (s.registering opened path file body) seen := by
  refine ⟨_, registering_log .., fun record hmem => ?_⟩
  simp only [List.mem_cons, List.not_mem_nil, or_false] at hmem
  rcases hmem with rfl | rfl <;> exact hopened

end Session

/-- A step logs under the stack of its frame. -/
theorem Project.Step.logsUnder {project : Project} {frame : Frame} {element : Element}
    {s s' : Session} {result : Except Error (List Code)}
    (h : project.Step frame element s result s') : s.LogsUnder s' [frame.opened] := by
  have hopened : frame.opened ∈ [frame.opened] := List.mem_singleton_self _
  cases h with
  | again | selfReference | unknownSensor => exact Session.logsUnder_refl
  | unloadable | malformedExpression | malformedSequence => exact Session.logsUnder_logged hopened _
  | absent =>
    exact (Session.logsUnder_logged hopened _).trans (Session.logsUnder_answered hopened _ _)
  | first => exact Session.logsUnder_registering hopened _ _ _

/-! ## Saved sequences -/

namespace Project

variable {project : Project} {frame : Frame} {s s' : Session}

/-- The document of a saved sequence that is not open is looked for. -/
theorem runFrom_savedElements_of_not_mem {file : String} {found : Except Error (Option Node)}
    (hclosed : (frame.directory.join file).normalize ∉ frame.opened)
    (hload : project.library.load (frame.directory.join file).normalize.path = found) :
    (project.savedElements frame file).runFrom s =
      (match found, hload with
      | .error error, _ => throw error
      | .ok none, _ => do
        project.ask frame file
        return none
      | .ok (some node), hload => do
        return some ⟨← ofDefect file (readSequence node), closed_lt hload hclosed⟩ :
        Compile (Option (project.Saved frame.opened (frame.directory.join file).normalize))).runFrom
        (s.logged frame.opened (.loaded (frame.directory.join file).normalize.path)) := by
  unfold savedElements
  simp only [hclosed, dite_false]
  rw [runFrom_record_bind]
  split <;> rename_i hfound <;> obtain rfl := hfound.symm.trans hload <;> rfl

/-- A saved sequence that comes to something at once has no elements to compile. -/
theorem Step.runFrom_savedElements {place : Place} {file : String}
    {result : Except Error (List Code)}
    (h : project.Step frame (.sequence place file) s result s') :
    (project.savedElements frame file).runFrom s = (result.map fun _ => none, s') ∧
      ∀ code, result = .ok code → code = [] := by
  have hfailed {error : Error} : ∀ code : List Code, Except.error error = .ok code → code = [] := by
    intro code h
    cases h
  cases h with
  | selfReference hopened =>
    unfold savedElements
    simp only [hopened, dite_true]
    exact ⟨rfl, hfailed⟩
  | unloadable hwants hload =>
    cases hwants with
    | sequence hclosed =>
      rw [runFrom_savedElements_of_not_mem hclosed hload]
      exact ⟨rfl, hfailed⟩
  | absent hwants hload =>
    cases hwants with
    | sequence hclosed =>
      rw [runFrom_savedElements_of_not_mem hclosed hload]
      dsimp only
      rw [runFrom_bind_ok (runFrom_ask ..)]
      simp only [Session.asked_logged, Event.question?, Option.toList_none, List.append_nil]
      exact ⟨rfl, fun _ h => (Except.ok.inj h).symm⟩
  | malformedSequence hclosed hload hread =>
    rw [runFrom_savedElements_of_not_mem hclosed hload]
    simp only [hread]
    exact ⟨rfl, hfailed⟩

theorem runFrom_savedElements_of_read {file : String} {node : Node} {elements : List Element}
    (hclosed : (frame.directory.join file).normalize ∉ frame.opened)
    (hload : project.library.load (frame.directory.join file).normalize.path = .ok (some node))
    (hread : readSequence node = .ok elements) :
    (project.savedElements frame file).runFrom s = (.ok (some ⟨elements, closed_lt hload hclosed⟩),
      s.logged frame.opened (.loaded (frame.directory.join file).normalize.path)) := by
  rw [runFrom_savedElements_of_not_mem hclosed hload]
  simp only [hread]
  rfl

end Project

/-! ## Parts of a compilation -/

namespace LiveSession

variable {α β : Type} {live middle later : LiveSession} {path : NormalPath} {directory : Path}
  {name : String} {element : Element} {rest elements : List Element} {code : List Code}

namespace Ending

/-- What a part comes to, with the session that it leaves. -/
def pair (ending : Ending α live) : Except Error α × LiveSession := (ending.result, ending.later)

theorem pair_andThen_ok {first : Ending α live}
    {next : α → (later : LiveSession) → live.Kept later → Ending β later} {value : α}
    {found : Except Error β × LiveSession} (hfirst : first.pair = (.ok value, later))
    (hnext : ∀ kept, (next value later kept).pair = found) : (first.andThen next).pair = found := by
  obtain ⟨result, middle, kept⟩ := first
  cases hfirst
  exact hnext kept

theorem pair_andThen_error {first : Ending α live}
    {next : α → (later : LiveSession) → live.Kept later → Ending β later} {error : Error}
    (hfirst : first.pair = (.error error, later)) :
    (first.andThen next).pair = (.error error, later) := by
  obtain ⟨result, middle, kept⟩ := first
  cases hfirst
  rfl

theorem pair_leaving {entered : Ending α (live.opening path)} {result : Except Error α}
    (hentered : entered.pair = (result, later)) :
    entered.leaving.pair = (result, later.closing) := by
  obtain ⟨found, last, kept⟩ := entered
  cases hentered
  rfl

/-- What is kept of the statements of an element, given what came of those inside it. -/
theorem pair_andThen_unlessCancelled {first : Ending α live} {arrange : α → List Code}
    {result : Except Error α} (hfirst : first.pair = (result, later)) :
    (first.andThen fun value later _ => later.unlessCancelled (arrange value)).pair =
      (result.map fun value => later.session.keeps (arrange value), later) := by
  cases result with
  | error error => exact pair_andThen_error hfirst
  | ok value => exact pair_andThen_ok hfirst fun _ => rfl

end Ending

open Ending

theorem closing_push (project : Project) (s : Session) (active : List NormalPath)
    (path : NormalPath) (trail : List (List NormalPath)) :
    closing ⟨project, s, active ++ [path], trail⟩ = ⟨project, s, active, trail ++ [active]⟩ := by
  simp [closing]

theorem pair_perform {part : Compile α} {result : Except Error α} {s' : Session}
    (h : part.runFrom live.session = (result, s')) :
    (live.perform part).pair = (result, { live with session := s' }) := by
  have hperform : (live.perform part).pair = ((part.runFrom live.session).1,
      { live with session := (part.runFrom live.session).2 }) := rfl
  rw [hperform, h]

/-- The statements of one element. -/
def elementCode (live : LiveSession) (directory : Path) (name : String) :
    Element → Ending (List Code) live
  | .expression place file delay =>
    live.perform (live.project.expressionCode ⟨directory, name, live.active⟩ place file delay)
  | .sequence place file =>
    live.sequenceCode directory name place file fun inner _ directory elements =>
      compileElements inner directory file elements
  | .counterLoop place iterations children =>
    counterCode place iterations (compileElements live directory name children)
  | .conditional place spec ifRepeats elseRepeats ifBranch elseBranch =>
    live.conditionalCode name place spec (.ofRepeats ifRepeats elseRepeats)
      (fun later _ => compileElements later directory name ifBranch)
      (fun later _ => compileElements later directory name elseBranch)

section Sequence

variable {place : Place} {file : String} {error : Error} {result : Except Error (List Code)}
  {s' : Session}

theorem pair_elementCode_of_error
    (hfound : (live.project.savedElements ⟨directory, name, live.active⟩ file).runFrom
      live.session = (.error error, s')) :
    (live.elementCode directory name (.sequence place file)).pair =
      (.error error, { live with session := s' }) := by
  rw [elementCode]
  unfold sequenceCode
  exact pair_andThen_error (pair_perform hfound)

theorem pair_elementCode_of_none
    (hfound : (live.project.savedElements ⟨directory, name, live.active⟩ file).runFrom
      live.session = (.ok none, s')) :
    (live.elementCode directory name (.sequence place file)).pair =
      (.ok [], { live with session := s' }) := by
  rw [elementCode]
  unfold sequenceCode
  exact pair_andThen_ok (pair_perform hfound) fun _ => rfl

/-- A saved sequence is put in place: its document is pushed, compiled and popped. -/
theorem pair_elementCode_of_some
    {saved : live.project.Saved live.active (directory.join file).normalize}
    (hfound : (live.project.savedElements ⟨directory, name, live.active⟩ file).runFrom
      live.session = (.ok (some saved), s'))
    (hbody : (compileElements (opening { live with session := s' } (directory.join file).normalize)
      (directory.join file).normalize.directory file saved.elements).pair = (result, later)) :
    (live.elementCode directory name (.sequence place file)).pair =
      (result.map fun body => later.closing.session.keeps (Project.inlined place file body),
        later.closing) := by
  rw [elementCode]
  unfold sequenceCode
  refine pair_andThen_ok (pair_perform hfound) fun _ => ?_
  exact pair_andThen_unlessCancelled (pair_leaving hbody)

end Sequence

theorem pair_elementCode_counterLoop {place : Place} {iterations : UInt32}
    {children : List Element} {result : Except Error (List Code)}
    (hbody : (compileElements live directory name children).pair = (result, later)) :
    (live.elementCode directory name (.counterLoop place iterations children)).pair =
      (result.map fun body => later.session.keeps
        (Code.ofComment place.comment ++ [.count iterations body]), later) := by
  rw [elementCode]
  exact pair_andThen_unlessCancelled hbody

section Conditional

variable {place : Place} {spec : SensorSpec} {ifRepeats elseRepeats : Bool}
  {ifBranch elseBranch : List Element} {ifTest elseTest : Condition} {error : Error}

theorem pair_elementCode_unknownSensor (hconditions : spec.conditions = .error error) :
    (live.elementCode directory name
      (.conditional place spec ifRepeats elseRepeats ifBranch elseBranch)).pair =
      (.error (error.inSequence name), live) := by
  rw [elementCode]
  unfold conditionalCode
  rw [hconditions]
  rfl

theorem pair_elementCode_conditional {ifBody : List Code} {result : Except Error (List Code)}
    (hconditions : spec.conditions = .ok (ifTest, elseTest))
    (hif : (compileElements live directory name ifBranch).pair = (.ok ifBody, middle))
    (helse : (compileElements middle directory name elseBranch).pair = (result, later)) :
    (live.elementCode directory name
      (.conditional place spec ifRepeats elseRepeats ifBranch elseBranch)).pair =
      (result.map fun elseBody => later.session.keeps (Code.ofComment place.comment ++
        (LoopShape.ofRepeats ifRepeats elseRepeats).arrange ifTest elseTest ifBody elseBody),
        later) := by
  rw [elementCode]
  unfold conditionalCode
  rw [hconditions]
  exact pair_andThen_ok hif fun _ => pair_andThen_unlessCancelled helse

theorem pair_elementCode_ifBranchFails (hconditions : spec.conditions = .ok (ifTest, elseTest))
    (hif : (compileElements live directory name ifBranch).pair = (.error error, later)) :
    (live.elementCode directory name
      (.conditional place spec ifRepeats elseRepeats ifBranch elseBranch)).pair =
      (.error error, later) := by
  rw [elementCode]
  unfold conditionalCode
  rw [hconditions]
  exact pair_andThen_error hif

end Conditional

theorem pair_compileElements_nil :
    (compileElements live directory name []).pair = (.ok [], live) := by
  rw [compileElements.eq_def]
  rfl

theorem pair_compileElements_of_cancelled (hc : live.session.cancelled = true) :
    (compileElements live directory name elements).pair = (.ok [], live) := by
  cases elements with
  | nil => exact pair_compileElements_nil
  | cons element rest =>
    rw [compileElements.eq_def]
    dsimp only
    rw [if_pos hc]
    rfl

/-- A list is compiled as its first element and then the others. -/
theorem compileElements_cons (hc : live.session.cancelled = false) :
    compileElements live directory name (element :: rest) =
      (live.elementCode directory name element).andThen fun code later _ =>
        (compileElements later directory name rest).andThen fun more last _ =>
          .done last (code ++ more) := by
  rw [compileElements.eq_def]
  dsimp only
  rw [if_neg (by simp [hc])]
  cases element <;> rfl

theorem pair_compileElements_singleton (hc : live.session.cancelled = false) :
    (compileElements live directory name [element]).pair =
      (live.elementCode directory name element).pair := by
  rw [compileElements_cons hc]
  rcases hpair : (live.elementCode directory name element).pair with ⟨error | code, later⟩
  · exact pair_andThen_error hpair
  · refine pair_andThen_ok hpair fun _ => pair_andThen_ok pair_compileElements_nil fun _ => ?_
    rw [List.append_nil]
    rfl

theorem pair_compileElements_cons_ok {result : Except Error (List Code)}
    (hfirst : (compileElements live directory name [element]).pair = (.ok code, middle))
    (hrest : (compileElements middle directory name rest).pair = (result, later)) :
    (compileElements live directory name (element :: rest)).pair =
      (result.map (code ++ ·), later) := by
  cases hc : live.session.cancelled with
  | true =>
    -- Nothing is done in a cancelled session, so all three lists come to nothing.
    rw [pair_compileElements_of_cancelled hc] at hfirst
    cases hfirst
    rw [pair_compileElements_of_cancelled hc] at hrest
    cases hrest
    exact pair_compileElements_of_cancelled hc
  | false =>
    rw [pair_compileElements_singleton hc] at hfirst
    rw [compileElements_cons hc]
    refine pair_andThen_ok hfirst fun _ => ?_
    cases result with
    | error error => exact pair_andThen_error hrest
    | ok more => exact pair_andThen_ok hrest fun _ => rfl

theorem pair_compileElements_cons_error {error : Error}
    (hfirst : (compileElements live directory name [element]).pair = (.error error, later)) :
    (compileElements live directory name (element :: rest)).pair = (.error error, later) := by
  cases hc : live.session.cancelled with
  | true =>
    rw [pair_compileElements_of_cancelled hc] at hfirst
    cases hfirst
  | false =>
    rw [pair_compileElements_singleton hc] at hfirst
    rw [compileElements_cons hc]
    exact pair_andThen_error hfirst

end LiveSession

/-! ## Steps -/

open LiveSession LiveSession.Ending

/-- A step is taken on the stack as in a frame, and leaves the stack alone. -/
theorem Project.Step.pair_elementCode {live : LiveSession} {directory : Path} {name : String}
    {element : Element} {result : Except Error (List Code)} {s' : Session}
    (h : live.project.Step ⟨directory, name, live.active⟩ element live.session result s') :
    (live.elementCode directory name element).pair = (result, { live with session := s' }) := by
  cases element with
  | expression place file delay =>
    rw [LiveSession.elementCode]
    exact pair_perform h.runFrom_expression
  | sequence place file =>
    obtain ⟨hfound, hnone⟩ := h.runFrom_savedElements
    cases result with
    | error error => exact pair_elementCode_of_error hfound
    | ok code =>
      obtain rfl := hnone code rfl
      exact pair_elementCode_of_none hfound
  | counterLoop =>
    cases h with
    | unloadable hwants => cases hwants
    | absent hwants => cases hwants
  | conditional =>
    cases h with
    | unloadable hwants => cases hwants
    | absent hwants => cases hwants
    | unknownSensor hconditions => exact pair_elementCode_unknownSensor hconditions

end RobotSketch
