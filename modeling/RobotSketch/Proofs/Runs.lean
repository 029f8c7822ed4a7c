import RobotSketch.Program
import RobotSketch.Proofs.Session

/-!
# How a run goes

`Runs` gives the rules by which the elements of a frame are compiled, for every way in which that
ends: all of them are emitted, the run is cancelled, or it fails. The rules follow references from
document to document and say nothing about why this comes to an end. An element that holds no
others, or whose own document is not entered, takes a single `Step`.

The main statement is `runs_iff`: the rules give every list exactly one outcome, the one that
`compileList` computes. What holds of every run is proved along the rules, of a step first.

`Opens` and `Calls` say which blocks are begun inside which. `RunsRoot` has the rules for a whole
program, which `compileProgram_eq` ties to `compileProgram`.
-/
namespace RobotSketch

/-! ## Sessions -/

namespace Session

variable (s : Session) (opened : List NormalPath) (event : Event)
variable (question : Question) (decision : Decision)

/-- The session after one more event. -/
def logged : Session := { s with log := s.log ++ [⟨opened, event⟩] }

/-- The session after a question and its answer, which may cancel the run. -/
def answered : Session :=
  { s.logged opened (.asked question decision) with
    cancelled := s.cancelled || decision == .abort }

/-- The session after the document of an expression has been loaded and its body registered. -/
def registering (path : Path) (file : String) (body : List Instruction) : Session :=
  { s.logged opened (.loaded path) with
    registry := (s.registry.register file body).2 }.logged opened
      (.registered (s.registry.register file body).1.name)

/-- The given statements, or none in a session that has been cancelled. -/
def keeps (code : List Code) : List Code := if s.cancelled then [] else code

@[simp] theorem logged_registry : (s.logged opened event).registry = s.registry := rfl

@[simp] theorem logged_cancelled : (s.logged opened event).cancelled = s.cancelled := rfl

@[simp] theorem logged_log : (s.logged opened event).log = s.log ++ [⟨opened, event⟩] := rfl

@[simp] theorem asked_logged :
    (s.logged opened event).asked = s.asked ++ event.question?.toList := by
  cases event <;> simp [asked, Event.question?]

@[simp] theorem answered_registry :
    (s.answered opened question decision).registry = s.registry := rfl

@[simp] theorem answered_cancelled :
    (s.answered opened question decision).cancelled = (s.cancelled || decision == .abort) := rfl

@[simp] theorem answered_log :
    (s.answered opened question decision).log = s.log ++ [⟨opened, .asked question decision⟩] := rfl

@[simp] theorem asked_answered :
    (s.answered opened question decision).asked = s.asked ++ [question] :=
  asked_logged s opened (.asked question decision)

section Registering

variable (path : Path) (file : String) (body : List Instruction)

@[simp] theorem registering_registry :
    (s.registering opened path file body).registry = (s.registry.register file body).2 := rfl

@[simp] theorem registering_cancelled :
    (s.registering opened path file body).cancelled = s.cancelled := rfl

@[simp] theorem registering_log : (s.registering opened path file body).log =
    s.log ++ [⟨opened, .loaded path⟩, ⟨opened, .registered (s.registry.register file body).1.name⟩] :=
  List.append_assoc ..

@[simp] theorem asked_registering : (s.registering opened path file body).asked = s.asked := by
  simp [asked, Event.question?]

end Registering

variable {s}

theorem keeps_of_cancelled (h : s.cancelled = true) (code : List Code) : s.keeps code = [] := by
  rw [keeps, if_pos h]

end Session

/-- The frame of the document that a saved sequence refers to. -/
def Frame.entering (frame : Frame) (file : String) : Frame :=
  ⟨(frame.directory.join file).normalize.path.parent?.getD ⟨""⟩, file,
    frame.opened ++ [(frame.directory.join file).normalize]⟩

/-- Elements to be compiled into a block of their own. -/
structure Call where
  frame : Frame
  elements : List Element
  session : Session

/-! ## What the parts make of a session -/

namespace Compile

variable {α β : Type} {s s₁ : Session}

theorem runFrom_bind_ok {part : Compile α} {a : α} (h : part.runFrom s = (.ok a, s₁))
    (next : α → Compile β) : (part >>= next).runFrom s = (next a).runFrom s₁ := by
  rw [runFrom_bind, h]

theorem runFrom_bind_error {part : Compile α} {error : Error}
    (h : part.runFrom s = (.error error, s₁)) (next : α → Compile β) :
    (part >>= next).runFrom s = (.error error, s₁) := by
  rw [runFrom_bind, h]

theorem runFrom_get_bind (next : Session → Compile β) :
    (get >>= next : Compile β).runFrom s = (next s).runFrom s :=
  runFrom_bind_ok rfl next

theorem runFrom_record_bind (opened : List NormalPath) (event : Event)
    (next : Unit → Compile β) :
    (record opened event >>= next).runFrom s = (next ()).runFrom (s.logged opened event) :=
  runFrom_bind_ok rfl next

/-- One part after another; what has been cancelled is left out. -/
theorem runFrom_thenUnlessCancelled (first second : Compile (List Code)) (s : Session) :
    (first.thenUnlessCancelled second).runFrom s =
      if s.cancelled then (.ok [], s)
      else match first.runFrom s with
        | (.ok code, s₁) => ((second.runFrom s₁).1.map (code ++ ·), (second.runFrom s₁).2)
        | (.error error, s₁) => (.error error, s₁) := by
  rw [thenUnlessCancelled_eq, runFrom_bind]
  rcases first.runFrom s with ⟨error | code, s₁⟩
  · rfl
  · simp only [runFrom_bind]
    rcases second.runFrom s₁ with ⟨error | more, s₂⟩ <;> rfl

end Compile

open Compile

namespace Project

variable {project : Project} {frame : Frame} {s s₁ s' : Session}

/-- Asking logs the question with the handler's answer. -/
theorem runFrom_ask (project : Project) (frame : Frame) (file : String) (s : Session) :
    (project.ask frame file).runFrom s =
      (.ok (), s.answered frame.opened ⟨file, frame.name⟩
        (project.handler s.asked ⟨file, frame.name⟩)) := by
  unfold ask
  rw [runFrom_get_bind]
  simp only
  rw [runFrom_record_bind]
  cases project.handler s.asked ⟨file, frame.name⟩ with
  | proceed =>
    show (Except.ok (), s.logged _ _) = _
    simp [Session.answered, Session.logged]
  | abort =>
    show (Except.ok (), { s.logged _ _ with cancelled := true }) = _
    simp [Session.answered, Session.logged]

/-- A reference to an expression is what its subroutine makes of it. -/
theorem runFrom_expressionCode {place : Place} {file : String} {delay : UInt32}
    {result : Except Error (Option String)}
    (h : (project.subroutine? frame file).runFrom s = (result, s')) :
    (project.expressionCode frame place file delay).runFrom s =
      (result.map fun method? => method?.elim [] (callCode place · delay), s') := by
  unfold expressionCode
  rw [runFrom_bind, h]
  rcases result with error | (- | method) <;> rfl

theorem runFrom_subroutine?_of_get?_some {file : String} {method : Method (List Instruction)}
    (hget : s.registry.get? file = some method) :
    (project.subroutine? frame file).runFrom s = (.ok (some method.name), s) := by
  unfold subroutine?
  rw [runFrom_get_bind]
  simp only [hget]
  rfl

/-- The document of an expression that is new is looked for. -/
theorem runFrom_subroutine?_of_get?_none {file : String}
    (hnew : s.registry.get? file = none) :
    (project.subroutine? frame file).runFrom s =
      (match project.library.load (project.expressionPath frame.directory file) with
      | .error error => throw error
      | .ok none => do
        project.ask frame file
        return none
      | .ok (some node) => do
        let body ← ofDefect file ((Expression.read node).bind (·.body))
        modify fun session => { session with registry := (s.registry.register file body).2 }
        record frame.opened (.registered (s.registry.register file body).1.name)
        return some (s.registry.register file body).1.name : Compile (Option String)).runFrom
        (s.logged frame.opened (.loaded (project.expressionPath frame.directory file))) := by
  unfold subroutine?
  rw [runFrom_get_bind]
  simp only [hnew]
  rw [runFrom_record_bind]
  unfold expressionPath
  rcases project.library.load ((project.expressions.getD frame.directory).join file).normalize.path
    with error | (- | node)
  · rfl
  · rfl
  · cases hread : Expression.read node with
    | error defect => simp only [hread]; rfl
    | ok expression =>
      simp only [hread]
      rw [runFrom_bind_ok (ofDefect_ok.2 ⟨rfl, rfl⟩)]
      simp only [Except.bind]
      cases expression.body <;> rfl

/-- The document of a saved sequence that is not open is looked for. -/
theorem runFrom_sequenceCode_of_not_mem {place : Place} {file : String}
    (compile : Frame → List Element → Compile (List Code))
    (hclosed : (frame.directory.join file).normalize ∉ frame.opened) :
    (project.sequenceCode frame place file fun inner _ elements =>
      compile inner elements).runFrom s =
      (match project.library.load (frame.directory.join file).normalize.path with
      | .error error => throw error
      | .ok none => do
        project.ask frame file
        return []
      | .ok (some node) => do
        let elements ← ofDefect file (readSequence node)
        let body ← compile (frame.entering file) elements
        unlessCancelled (inlined place file body) : Compile (List Code)).runFrom
        (s.logged frame.opened (.loaded (frame.directory.join file).normalize.path)) := by
  unfold sequenceCode
  simp only [hclosed, dite_false]
  rw [runFrom_record_bind]
  split <;> rename_i hload <;> simp only [hload]
  rfl

/-! ## Elements one by one -/

def elementCode (project : Project) (frame : Frame) : Element → Compile (List Code)
  | .expression place file delay => project.expressionCode frame place file delay
  | .sequence place file =>
    project.sequenceCode frame place file fun inner _ elements => project.compileList inner elements
  | .counterLoop place iterations children =>
    counterCode place iterations (project.compileList frame children)
  | .conditional place spec ifRepeats elseRepeats ifBranch elseBranch =>
    conditionalCode frame place spec (.ofRepeats ifRepeats elseRepeats)
      (project.compileList frame ifBranch) (project.compileList frame elseBranch)

theorem compileList_cons (project : Project) (frame : Frame) (element : Element)
    (rest : List Element) :
    project.compileList frame (element :: rest) =
      (project.elementCode frame element).thenUnlessCancelled (project.compileList frame rest) := by
  cases element with
  | expression => exact compileList_expression ..
  | sequence => exact compileList_sequence ..
  | counterLoop => exact compileList_counterLoop ..
  | conditional => exact compileList_conditional ..

theorem runFrom_singleton (element : Element) (hc : s.cancelled = false) :
    (project.compileList frame [element]).runFrom s =
      (project.elementCode frame element).runFrom s := by
  rw [compileList_cons, runFrom_thenUnlessCancelled, compileList_nil, hc,
    if_neg Bool.false_ne_true]
  rcases (project.elementCode frame element).runFrom s with ⟨error | code, s₁⟩
  · rfl
  · show (Except.ok (code ++ []), s₁) = _
    rw [List.append_nil]

/-- A list is compiled as its first element and then the others. -/
theorem runFrom_cons (project : Project) (frame : Frame) (element : Element) (rest : List Element)
    (s : Session) :
    (project.compileList frame (element :: rest)).runFrom s =
      match (project.compileList frame [element]).runFrom s with
      | (.ok code, s₁) =>
        (((project.compileList frame rest).runFrom s₁).1.map (code ++ ·),
          ((project.compileList frame rest).runFrom s₁).2)
      | (.error error, s₁) => (.error error, s₁) := by
  cases hc : s.cancelled with
  | true =>
    rw [compileList_of_cancelled project frame _ hc, compileList_of_cancelled project frame _ hc]
    simp only [compileList_of_cancelled project frame rest hc]
    rfl
  | false =>
    rw [runFrom_singleton element hc, compileList_cons, runFrom_thenUnlessCancelled, hc,
      if_neg Bool.false_ne_true]

/-! ## Steps -/

/-- An element wants the document of a file, which is looked for at a path: an expression that has
no subroutine yet, or a saved sequence that is not open. -/
inductive Wants (project : Project) (frame : Frame) (s : Session) :
    Element → String → Path → Prop where
  | expression {place : Place} {file : String} {delay : UInt32}
      (hnew : s.registry.get? file = none) :
    Wants project frame s (.expression place file delay) file
      (project.expressionPath frame.directory file)
  | sequence {place : Place} {file : String}
      (hclosed : (frame.directory.join file).normalize ∉ frame.opened) :
    Wants project frame s (.sequence place file) file (frame.directory.join file).normalize.path

/-- What an element comes to at once, without entering another list of elements. -/
inductive Step (project : Project) (frame : Frame) :
    Element → Session → Except Error (List Code) → Session → Prop where
  /-- An expression that has a subroutine is a call of it. -/
  | again {s : Session} {place : Place} {file : String} {delay : UInt32}
      {method : Method (List Instruction)} (hget : s.registry.get? file = some method) :
    Step project frame (.expression place file delay) s
      (.ok (callCode place method.name delay)) s
  /-- A saved sequence that is open is refused, before its document is looked for. -/
  | selfReference {s : Session} {place : Place} {file : String}
      (hopened : (frame.directory.join file).normalize ∈ frame.opened) :
    Step project frame (.sequence place file) s
      (.error ((Defect.selfReference file).inFile frame.name)) s
  | unloadable {s : Session} {element : Element} {file : String} {path : Path} {error : Error}
      (hwants : project.Wants frame s element file path)
      (hload : project.library.load path = .error error) :
    Step project frame element s (.error error) (s.logged frame.opened (.loaded path))
  /-- A document that is missing is a question. -/
  | absent {s : Session} {element : Element} {file : String} {path : Path}
      (hwants : project.Wants frame s element file path)
      (hload : project.library.load path = .ok none) :
    Step project frame element s (.ok [])
      ((s.logged frame.opened (.loaded path)).answered frame.opened ⟨file, frame.name⟩
        (project.handler s.asked ⟨file, frame.name⟩))
  | malformedExpression {s : Session} {place : Place} {file : String} {delay : UInt32}
      {node : Node} {defect : Defect} (hnew : s.registry.get? file = none)
      (hload : project.library.load (project.expressionPath frame.directory file) =
        .ok (some node))
      (hread : (Expression.read node).bind (·.body) = .error defect) :
    Step project frame (.expression place file delay) s (.error (defect.inFile file))
      (s.logged frame.opened (.loaded (project.expressionPath frame.directory file)))
  /-- The first use of an expression registers its subroutine. -/
  | first {s : Session} {place : Place} {file : String} {delay : UInt32} {node : Node}
      {body : List Instruction} (hnew : s.registry.get? file = none)
      (hload : project.library.load (project.expressionPath frame.directory file) =
        .ok (some node))
      (hread : (Expression.read node).bind (·.body) = .ok body) :
    Step project frame (.expression place file delay) s
      (.ok (callCode place (s.registry.register file body).1.name delay))
      (s.registering frame.opened (project.expressionPath frame.directory file) file body)
  | malformedSequence {s : Session} {place : Place} {file : String} {node : Node}
      {defect : Defect} (hclosed : (frame.directory.join file).normalize ∉ frame.opened)
      (hload : project.library.load (frame.directory.join file).normalize.path = .ok (some node))
      (hread : readSequence node = .error defect) :
    Step project frame (.sequence place file) s (.error (defect.inFile file))
      (s.logged frame.opened (.loaded (frame.directory.join file).normalize.path))
  | unknownSensor {s : Session} {place : Place} {spec : SensorSpec} {ifRepeats elseRepeats : Bool}
      {ifBranch elseBranch : List Element} {error : Error}
      (hconditions : spec.conditions = .error error) :
    Step project frame (.conditional place spec ifRepeats elseRepeats ifBranch elseBranch) s
      (.error (error.inSequence frame.name)) s

theorem Step.runFrom_expression {place : Place} {file : String} {delay : UInt32}
    {result : Except Error (List Code)}
    (h : project.Step frame (.expression place file delay) s result s') :
    (project.expressionCode frame place file delay).runFrom s = (result, s') := by
  cases h with
  | again hget => exact runFrom_expressionCode (runFrom_subroutine?_of_get?_some hget)
  | unloadable hwants hload =>
    cases hwants with
    | expression hnew =>
      have hrun := @runFrom_subroutine?_of_get?_none project frame s file hnew
      rw [hload] at hrun
      exact runFrom_expressionCode hrun
  | absent hwants hload =>
    cases hwants with
    | expression hnew =>
      have hrun := @runFrom_subroutine?_of_get?_none project frame s file hnew
      rw [hload] at hrun
      simp only at hrun
      rw [runFrom_bind_ok (runFrom_ask ..)] at hrun
      simp only [Session.asked_logged, Event.question?, Option.toList_none, List.append_nil] at hrun
      exact runFrom_expressionCode hrun
  | malformedExpression hnew hload hread =>
    have hrun := @runFrom_subroutine?_of_get?_none project frame s file hnew
    rw [hload] at hrun
    simp only [hread] at hrun
    exact runFrom_expressionCode hrun
  | first hnew hload hread =>
    have hrun := @runFrom_subroutine?_of_get?_none project frame s file hnew
    rw [hload] at hrun
    simp only [hread] at hrun
    exact runFrom_expressionCode hrun

theorem Step.runFrom_sequence {place : Place} {file : String} {result : Except Error (List Code)}
    (h : project.Step frame (.sequence place file) s result s') :
    (project.elementCode frame (.sequence place file)).runFrom s = (result, s') := by
  unfold elementCode
  cases h with
  | selfReference hopened =>
    unfold sequenceCode
    simp only [hopened, dite_true]
    rfl
  | unloadable hwants hload =>
    cases hwants with
    | sequence hclosed =>
      rw [runFrom_sequenceCode_of_not_mem _ hclosed, hload]
      rfl
  | absent hwants hload =>
    cases hwants with
    | sequence hclosed =>
      rw [runFrom_sequenceCode_of_not_mem _ hclosed, hload]
      simp only
      rw [runFrom_bind_ok (runFrom_ask ..)]
      simp only [Session.asked_logged, Event.question?, Option.toList_none, List.append_nil]
      rfl
  | malformedSequence hclosed hload hread =>
    rw [runFrom_sequenceCode_of_not_mem _ hclosed, hload]
    simp only [hread]
    rfl

/-- A step is what its element comes to. -/
theorem Step.runFrom_eq {element : Element} {result : Except Error (List Code)}
    (h : project.Step frame element s result s') :
    (project.elementCode frame element).runFrom s = (result, s') := by
  cases element with
  | expression => exact h.runFrom_expression
  | sequence => exact h.runFrom_sequence
  | counterLoop =>
    cases h with
    | unloadable hwants => cases hwants
    | absent hwants => cases hwants
  | conditional =>
    cases h with
    | unloadable hwants => cases hwants
    | absent hwants => cases hwants
    | unknownSensor hconditions =>
      unfold elementCode conditionalCode
      simp only [hconditions]
      rfl

/-! ## Runs -/

/-- The elements of a frame are compiled, from one session to another. -/
inductive Runs (project : Project) :
    Frame → List Element → Session → Except Error (List Code) → Session → Prop where
  | nil {frame : Frame} {s : Session} : Runs project frame [] s (.ok []) s
  /-- Once the run has been cancelled, nothing more is done. -/
  | cancelled {frame : Frame} {elements : List Element} {s : Session}
      (hc : s.cancelled = true) : Runs project frame elements s (.ok []) s
  | cons {frame : Frame} {element : Element} {rest : List Element} {s s₁ s' : Session}
      {code : List Code} {result : Except Error (List Code)}
      (hfirst : Runs project frame [element] s (.ok code) s₁)
      (hrest : Runs project frame rest s₁ result s') :
    Runs project frame (element :: rest) s (result.map (code ++ ·)) s'
  /-- An error ends the run. -/
  | fails {frame : Frame} {element : Element} {rest : List Element} {s s' : Session}
      {error : Error} (hfirst : Runs project frame [element] s (.error error) s') :
    Runs project frame (element :: rest) s (.error error) s'
  | step {frame : Frame} {element : Element} {s s' : Session}
      {result : Except Error (List Code)} (hc : s.cancelled = false)
      (hstep : project.Step frame element s result s') :
    Runs project frame [element] s result s'
  /-- A saved sequence is put in place, unless the run is cancelled inside it. -/
  | document {frame : Frame} {place : Place} {file : String} {node : Node}
      {elements : List Element} {s s' : Session} {result : Except Error (List Code)}
      (hc : s.cancelled = false)
      (hclosed : (frame.directory.join file).normalize ∉ frame.opened)
      (hload : project.library.load (frame.directory.join file).normalize.path = .ok (some node))
      (hread : readSequence node = .ok elements)
      (hbody : Runs project (frame.entering file) elements
        (s.logged frame.opened (.loaded (frame.directory.join file).normalize.path)) result s') :
    Runs project frame [.sequence place file] s
      (result.map fun body => s'.keeps (inlined place file body)) s'
  | counterLoop {frame : Frame} {place : Place} {iterations : UInt32} {children : List Element}
      {s s' : Session} {result : Except Error (List Code)} (hc : s.cancelled = false)
      (hbody : Runs project frame children s result s') :
    Runs project frame [.counterLoop place iterations children] s
      (result.map fun body =>
        s'.keeps (Code.ofComment place.comment ++ [.count iterations body])) s'
  | conditional {frame : Frame} {place : Place} {spec : SensorSpec} {ifRepeats elseRepeats : Bool}
      {ifBranch elseBranch : List Element} {ifTest elseTest : Condition} {s s₁ s' : Session}
      {ifBody : List Code} {result : Except Error (List Code)} (hc : s.cancelled = false)
      (hconditions : spec.conditions = .ok (ifTest, elseTest))
      (hif : Runs project frame ifBranch s (.ok ifBody) s₁)
      (helse : Runs project frame elseBranch s₁ result s') :
    Runs project frame [.conditional place spec ifRepeats elseRepeats ifBranch elseBranch] s
      (result.map fun elseBody => s'.keeps (Code.ofComment place.comment ++
        (LoopShape.ofRepeats ifRepeats elseRepeats).arrange ifTest elseTest ifBody elseBody)) s'
  | ifBranchFails {frame : Frame} {place : Place} {spec : SensorSpec}
      {ifRepeats elseRepeats : Bool} {ifBranch elseBranch : List Element}
      {tests : Condition × Condition} {s s' : Session} {error : Error} (hc : s.cancelled = false)
      (hconditions : spec.conditions = .ok tests)
      (hif : Runs project frame ifBranch s (.error error) s') :
    Runs project frame [.conditional place spec ifRepeats elseRepeats ifBranch elseBranch] s
      (.error error) s'

/-- What is compiled by the rules is what `compileList` computes. -/
theorem Runs.runFrom_eq {elements : List Element} {result : Except Error (List Code)}
    (h : project.Runs frame elements s result s') :
    (project.compileList frame elements).runFrom s = (result, s') := by
  induction h with
  | nil => rw [compileList_nil]; rfl
  | cancelled hc => exact compileList_of_cancelled _ _ _ hc
  | cons hfirst hrest ihfirst ihrest =>
    rw [runFrom_cons, ihfirst]
    simp only [ihrest]
  | fails hfirst ih => rw [runFrom_cons, ih]
  | step hc hstep => rw [runFrom_singleton _ hc, hstep.runFrom_eq]
  | @document frame place file node elements s s' result hc hclosed hload hread hbody ih =>
    rw [runFrom_singleton _ hc]
    unfold elementCode
    rw [runFrom_sequenceCode_of_not_mem _ hclosed, hload]
    simp only [hread]
    rw [runFrom_bind_ok (ofDefect_ok.2 ⟨rfl, rfl⟩), runFrom_bind, ih]
    rcases result with error | body <;> rfl
  | @counterLoop frame place iterations children s s' result hc hbody ih =>
    rw [runFrom_singleton _ hc]
    unfold elementCode counterCode
    rw [runFrom_bind, ih]
    rcases result with error | body <;> rfl
  | @conditional frame place spec ifRepeats elseRepeats ifBranch elseBranch ifTest elseTest s s₁ s'
      ifBody result hc hconditions hif helse ihif ihelse =>
    rw [runFrom_singleton _ hc]
    unfold elementCode conditionalCode
    simp only [hconditions]
    rw [runFrom_bind_ok ihif, runFrom_bind, ihelse]
    rcases result with error | body <;> rfl
  | ifBranchFails hc hconditions hif ih =>
    rw [runFrom_singleton _ hc]
    unfold elementCode conditionalCode
    simp only [hconditions]
    exact runFrom_bind_error ih _

/-! ## Every list has an outcome -/

/-- A reference to an expression comes to something at once. -/
theorem exists_step_expression (project : Project) (frame : Frame) (place : Place) (file : String)
    (delay : UInt32) (s : Session) :
    ∃ result s', project.Step frame (.expression place file delay) s result s' := by
  cases hget : s.registry.get? file with
  | some method => exact ⟨_, _, .again hget⟩
  | none =>
    rcases hload : project.library.load (project.expressionPath frame.directory file) with
      error | (- | node)
    · exact ⟨_, _, .unloadable (.expression hget) hload⟩
    · exact ⟨_, _, .absent (.expression hget) hload⟩
    · cases hread : (Expression.read node).bind (·.body) with
      | error defect => exact ⟨_, _, .malformedExpression hget hload hread⟩
      | ok body => exact ⟨_, _, .first hget hload hread⟩

theorem exists_runs_cons {element : Element} {rest : List Element}
    (hfirst : ∃ result s₁, project.Runs frame [element] s result s₁)
    (hrest : ∀ s₁, ∃ result s', project.Runs frame rest s₁ result s') :
    ∃ result s', project.Runs frame (element :: rest) s result s' := by
  obtain ⟨error | code, s₁, hfirst⟩ := hfirst
  · exact ⟨_, _, .fails hfirst⟩
  · obtain ⟨result, s', hrest⟩ := hrest s₁
    exact ⟨_, _, .cons hfirst hrest⟩

/-- Whatever the documents refer to, compiling a list of elements comes to an end: a document is
entered only while it is closed, and opening it leaves fewer closed. -/
theorem exists_runs (project : Project) (frame : Frame) (elements : List Element) (s : Session) :
    ∃ result s', project.Runs frame elements s result s' := by
  cases hc : s.cancelled with
  | true => exact ⟨_, _, .cancelled hc⟩
  | false =>
    match elements with
    | [] => exact ⟨_, _, .nil⟩
    | .expression place file delay :: rest =>
      obtain ⟨_, _, hstep⟩ := exists_step_expression project frame place file delay s
      exact exists_runs_cons ⟨_, _, .step hc hstep⟩ (exists_runs project frame rest)
    | .sequence place file :: rest =>
      refine exists_runs_cons ?_ (exists_runs project frame rest)
      by_cases hopened : (frame.directory.join file).normalize ∈ frame.opened
      · exact ⟨_, _, .step hc (.selfReference hopened)⟩
      · rcases hload : project.library.load (frame.directory.join file).normalize.path with
          error | (- | node)
        · exact ⟨_, _, .step hc (.unloadable (.sequence hopened) hload)⟩
        · exact ⟨_, _, .step hc (.absent (.sequence hopened) hload)⟩
        · cases hread : readSequence node with
          | error defect => exact ⟨_, _, .step hc (.malformedSequence hopened hload hread)⟩
          | ok inner =>
            have hclosed : project.library.closed (frame.entering file).opened <
                project.library.closed frame.opened := Library.closed_lt hload hopened
            obtain ⟨_, _, hbody⟩ := exists_runs project (frame.entering file) inner
              (s.logged frame.opened (.loaded (frame.directory.join file).normalize.path))
            exact ⟨_, _, .document hc hopened hload hread hbody⟩
    | .counterLoop place iterations children :: rest =>
      refine exists_runs_cons ?_ (exists_runs project frame rest)
      obtain ⟨_, _, hbody⟩ := exists_runs project frame children s
      exact ⟨_, _, .counterLoop hc hbody⟩
    | .conditional place spec ifRepeats elseRepeats ifBranch elseBranch :: rest =>
      refine exists_runs_cons ?_ (exists_runs project frame rest)
      rcases hconditions : spec.conditions with error | ⟨ifTest, elseTest⟩
      · exact ⟨_, _, .step hc (.unknownSensor hconditions)⟩
      · obtain ⟨error | ifBody, s₁, hif⟩ := exists_runs project frame ifBranch s
        · exact ⟨_, _, .ifBranchFails hc hconditions hif⟩
        · obtain ⟨_, _, helse⟩ := exists_runs project frame elseBranch s₁
          exact ⟨_, _, .conditional hc hconditions hif helse⟩
termination_by (project.library.closed frame.opened, sizeOf elements)

/-- The rules and `compileList` agree. -/
theorem runs_iff {elements : List Element} {result : Except Error (List Code)} :
    project.Runs frame elements s result s' ↔
      (project.compileList frame elements).runFrom s = (result, s') := by
  refine ⟨Runs.runFrom_eq, fun h => ?_⟩
  obtain ⟨result', s'', hruns⟩ := exists_runs project frame elements s
  cases hruns.runFrom_eq.symm.trans h
  exact hruns

/-- A list is compiled in one way only. -/
theorem Runs.unique {elements : List Element} {result₁ result₂ : Except Error (List Code)}
    {s₁ s₂ : Session} (h₁ : project.Runs frame elements s result₁ s₁)
    (h₂ : project.Runs frame elements s result₂ s₂) : result₁ = result₂ ∧ s₁ = s₂ := by
  cases h₁.runFrom_eq.symm.trans h₂.runFrom_eq
  exact ⟨rfl, rfl⟩

theorem Runs.eq_of_cancelled {elements : List Element} {result : Except Error (List Code)}
    (h : project.Runs frame elements s result s') (hc : s.cancelled = true) :
    result = .ok [] ∧ s' = s := h.unique (.cancelled hc)

theorem Runs.of_cons {element : Element} {rest : List Element} {code : List Code}
    (h : project.Runs frame (element :: rest) s (.ok code) s') :
    ∃ code₁ s₁ code₂, project.Runs frame [element] s (.ok code₁) s₁ ∧
      project.Runs frame rest s₁ (.ok code₂) s' ∧ code₁ ++ code₂ = code := by
  have hrun := h.runFrom_eq
  obtain ⟨error | code₁, s₁, hfirst⟩ := exists_runs project frame [element] s
  · cases (Runs.fails hfirst).runFrom_eq.symm.trans hrun
  · obtain ⟨result, s₂, hrest⟩ := exists_runs project frame rest s₁
    have heq := (Runs.cons hfirst hrest).runFrom_eq.symm.trans hrun
    rcases result with error | code₂
    · cases heq
    · cases heq
      exact ⟨code₁, s₁, code₂, hfirst, hrest, rfl⟩

/-- Lists one after the other are compiled one after the other. -/
theorem Runs.append {first second : List Element} {code : List Code}
    {result : Except Error (List Code)} (h₁ : project.Runs frame first s (.ok code) s₁)
    (h₂ : project.Runs frame second s₁ result s') :
    project.Runs frame (first ++ second) s (result.map (code ++ ·)) s' := by
  induction first generalizing s code with
  | nil =>
    obtain ⟨hcode, rfl⟩ := h₁.unique .nil
    cases hcode
    rcases result with error | more <;> exact h₂
  | cons element rest ih =>
    obtain ⟨code₁, t, code₂, hfirst, hrest, rfl⟩ := h₁.of_cons
    have happend := Runs.cons hfirst (ih hrest)
    rcases result with error | more
    · exact happend
    · simpa [Except.map] using happend

/-- A sequence document is compiled: it is read, and then its elements are. -/
inductive RunsDocument (project : Project) (document : Node) (name : String) (directory : Path)
    (s : Session) : Except Error (List Code) × Session → Prop where
  | malformed {defect : Defect} (hread : readSequence document = .error defect) :
    RunsDocument project document name directory s (.error (defect.inFile name), s)
  | elements {elements : List Element} {result : Except Error (List Code)} {s' : Session}
      (hread : readSequence document = .ok elements)
      (hruns : project.Runs ⟨directory, name, [(directory.join name).normalize]⟩ elements s result
        s') :
    RunsDocument project document name directory s (result, s')

theorem runsDocument_iff {document : Node} {name : String} {directory : Path}
    {outcome : Except Error (List Code) × Session} :
    project.RunsDocument document name directory s outcome ↔
      (project.compileSequence document name directory).runFrom s = outcome := by
  unfold compileSequence
  cases hread : readSequence document with
  | error defect =>
    constructor
    · rintro (h | ⟨h, -⟩)
      · cases h.symm.trans hread
        rfl
      · cases h.symm.trans hread
    · rintro rfl
      exact .malformed hread
  | ok elements =>
    rw [runFrom_bind_ok (ofDefect_ok.2 ⟨rfl, rfl⟩)]
    constructor
    · rintro (h | ⟨h, hruns⟩)
      · cases h.symm.trans hread
      · cases h.symm.trans hread
        exact hruns.runFrom_eq
    · rintro rfl
      exact .elements hread (runs_iff.2 rfl)

/-! ## Calls -/

/-- An element opens a block of its own, in a session that has come to the element. -/
inductive Opens (project : Project) (frame : Frame) (s : Session) : Element → Call → Prop where
  | children {place : Place} {iterations : UInt32} {children : List Element} :
    Opens project frame s (.counterLoop place iterations children) ⟨frame, children, s⟩
  | ifBranch {place : Place} {spec : SensorSpec} {ifRepeats elseRepeats : Bool}
      {ifBranch elseBranch : List Element} {tests : Condition × Condition}
      (hconditions : spec.conditions = .ok tests) :
    Opens project frame s (.conditional place spec ifRepeats elseRepeats ifBranch elseBranch)
      ⟨frame, ifBranch, s⟩
  | elseBranch {place : Place} {spec : SensorSpec} {ifRepeats elseRepeats : Bool}
      {ifBranch elseBranch : List Element} {tests : Condition × Condition} {ifBody : List Code}
      {s₁ : Session} (hconditions : spec.conditions = .ok tests)
      (hif : project.Runs frame ifBranch s (.ok ifBody) s₁) :
    Opens project frame s (.conditional place spec ifRepeats elseRepeats ifBranch elseBranch)
      ⟨frame, elseBranch, s₁⟩
  | document {place : Place} {file : String} {node : Node} {elements : List Element}
      (hclosed : (frame.directory.join file).normalize ∉ frame.opened)
      (hload : project.library.load (frame.directory.join file).normalize.path = .ok (some node))
      (hread : readSequence node = .ok elements) :
    Opens project frame s (.sequence place file) ⟨frame.entering file, elements,
      s.logged frame.opened (.loaded (frame.directory.join file).normalize.path)⟩

/-- An element has no statements if a block that it opens ends with the run being cancelled. -/
theorem Opens.runs_of_cancelled {element : Element} {inner : Call} {body : List Code}
    (h : project.Opens frame s element inner) (hs : s.cancelled = false)
    (hinner : project.Runs inner.frame inner.elements inner.session (.ok body) s')
    (hc : s'.cancelled = true) : project.Runs frame [element] s (.ok []) s' := by
  have hruns : ∃ code, project.Runs frame [element] s (.ok (s'.keeps code)) s' := by
    cases h with
    | children => exact ⟨_, .counterLoop hs hinner⟩
    | ifBranch hconditions => exact ⟨_, .conditional hs hconditions hinner (.cancelled hc)⟩
    | elseBranch hconditions hif => exact ⟨_, .conditional hs hconditions hif hinner⟩
    | document hclosed hload hread => exact ⟨_, .document hs hclosed hload hread hinner⟩
  obtain ⟨code, hruns⟩ := hruns
  rwa [Session.keeps_of_cancelled hc] at hruns

/-- While the elements of one call are compiled, another call is made. The elements in front have
been compiled by then. -/
inductive Calls (project : Project) : Call → Call → Prop where
  | inside {frame : Frame} {before after : List Element} {element : Element} {s s₁ : Session}
      {code : List Code} {inner : Call} (hbefore : project.Runs frame before s (.ok code) s₁)
      (hc : s₁.cancelled = false) (hopens : project.Opens frame s₁ element inner) :
    Calls project ⟨frame, before ++ element :: after, s⟩ inner

/-- An error inside a block is the error of the element that opens the block. -/
theorem Opens.fails {element : Element} {inner : Call} {error : Error}
    (h : project.Opens frame s element inner) (hs : s.cancelled = false)
    (hinner : project.Runs inner.frame inner.elements inner.session (.error error) s') :
    project.Runs frame [element] s (.error error) s' := by
  cases h with
  | children => exact .counterLoop hs hinner
  | ifBranch hconditions => exact .ifBranchFails hs hconditions hinner
  | elseBranch hconditions hif => exact .conditional hs hconditions hif hinner
  | document hclosed hload hread => exact .document hs hclosed hload hread hinner

/-- An error inside a call is the error of the call around it. -/
theorem Calls.fails {outer inner : Call} {error : Error} (h : project.Calls outer inner)
    (hinner : project.Runs inner.frame inner.elements inner.session (.error error) s') :
    project.Runs outer.frame outer.elements outer.session (.error error) s' := by
  obtain ⟨hbefore, hc, hopens⟩ := h
  exact hbefore.append (.fails (hopens.fails hc hinner))

/-! ## Programs -/

/-- Where the sequence at `root` in a directory is looked for. -/
def rootPath (root : String) (directory : Path) : NormalPath := (directory.join root).normalize

/-- The session in which the sequence at `root` is compiled: it has been looked for. -/
def rootSession (root : String) (directory : Path) : Session :=
  Session.logged {} [] (.loaded (rootPath root directory).path)

/-- The elements of the sequence at `root` are compiled. -/
inductive RunsRoot (project : Project) (root : String) (directory : Path) :
    Except Error (List Code) × Session → Prop where
  | unloadable {error : Error}
      (hload : project.library.load (rootPath root directory).path = .error error) :
    RunsRoot project root directory (.error error, rootSession root directory)
  | missing (hload : project.library.load (rootPath root directory).path = .ok none) :
    RunsRoot project root directory
      (.error (.missingReference root directory.text), rootSession root directory)
  | document {node : Node} {outcome : Except Error (List Code) × Session}
      (hload : project.library.load (rootPath root directory).path = .ok (some node))
      (hruns : project.RunsDocument node (rootPath root directory).path.displayName
        ((rootPath root directory).path.parent?.getD ⟨""⟩) (rootSession root directory) outcome) :
    RunsRoot project root directory outcome

/-- The program of some statements, given the session they leave. -/
def programFrom (s : Session) (code : List Code) : Program :=
  if s.cancelled then ⟨"", s.registry.methods, true⟩
  else ⟨Sketch.render (Code.block code) (s.registry.methods.map (·.lines)), s.registry.methods,
    false⟩

@[simp] theorem programFrom_cancelled (s : Session) (code : List Code) :
    (programFrom s code).cancelled = s.cancelled := by
  unfold programFrom
  split <;> simp_all

/-- Compiling a program is compiling the sequence at its root. -/
theorem compileProgram_eq {root : String} {directory : Path} {result : Except Error (List Code)}
    (h : project.RunsRoot root directory (result, s)) :
    project.compileProgram root directory = (result.map (programFrom s), s) := by
  show (project.programOf root directory).runFrom {} = _
  unfold programOf
  simp only
  rw [runFrom_record_bind]
  cases h with
  | unloadable hload => simp only [rootPath] at hload; rw [hload]; rfl
  | missing hload => simp only [rootPath] at hload; rw [hload]; rfl
  | document hload hruns =>
    simp only [rootPath] at hload
    rw [hload]
    have hrun := runsDocument_iff.1 hruns
    simp only [rootPath, rootSession] at hrun
    simp only
    rcases result with error | code
    · exact runFrom_bind_error hrun _
    · rw [runFrom_bind_ok hrun, runFrom_get_bind]
      show ((if s.cancelled then pure _ else pure _ : Compile Program).runFrom s) =
        (Except.ok (programFrom s code), s)
      unfold programFrom
      split <;> rfl

theorem exists_runsRoot (project : Project) (root : String) (directory : Path) :
    ∃ result s, project.RunsRoot root directory (result, s) := by
  rcases hload : project.library.load (rootPath root directory).path with error | (- | node)
  · exact ⟨_, _, .unloadable hload⟩
  · exact ⟨_, _, .missing hload⟩
  · exact ⟨_, _, .document hload (runsDocument_iff.2 rfl)⟩

end Project

end RobotSketch
