import RobotSketch.Code
import RobotSketch.Library

/-!
# Compiling sequences

A sequence becomes the statements of a loop. Expressions become subroutines, registered at their
first use; saved sequences are put in place, each read relative to its own directory. A reference
to a document that is not there is a question to the handler; once it answers to stop, the session
is cancelled, and nothing more is loaded, asked, registered or emitted.

A session logs what it does, each event with the documents open at the time, outermost first. A
document that is open is not opened again, so compilation ends: every saved sequence that is put
in place leaves fewer documents of the library closed.
-/
namespace RobotSketch

/-!
## Missing documents

When a document refers to one that is not there, a handler decides whether the run goes on without
it or stops. A handler sees the questions that were put to it before, so it can follow a script.
-/

/-- Which document is missing. -/
structure Question where
  /-- The file, as the reference writes it. -/
  referenced : String
  /-- The sequence that refers to it. -/
  enclosing : String
  deriving DecidableEq, Repr

/-- What to do about a missing document. -/
inductive Decision where
  /-- Leave the reference out. -/
  | proceed
  /-- Stop the run. -/
  | abort
  deriving DecidableEq, Repr

/-- Decides a question, given those asked before. -/
abbrev Handler := List Question → Question → Decision

namespace Handler

def fixed (decision : Decision) : Handler := fun _ _ => decision

/-- Gives the answers in turn, and after them always the same one. -/
def scripted (answers : List Decision) (fallback : Decision) : Handler := fun before _ =>
  answers.getD before.length fallback

/-- The decisions on a list of questions put one after the other. -/
def decisions (handler : Handler) (questions : List Question) : List Decision :=
  (List.range questions.length).filterMap fun n =>
    questions[n]?.map (handler (questions.take n))

end Handler

/-! ## Sessions -/

/-- What a run does to the world around it. -/
inductive Event where
  | loaded (path : Path)
  | asked (question : Question) (decision : Decision)
  | registered (method : String)
  deriving DecidableEq, Repr

/-- An event, with the documents open at the time. -/
structure Record where
  opened : List NormalPath
  event : Event
  deriving DecidableEq, Repr

/-- What the documents of a run have in common. -/
structure Session where
  registry : Registry (List Instruction) := .empty
  cancelled : Bool := false
  log : List Record := []

def Event.question? : Event → Option Question
  | .asked question _ => some question
  | _ => none

def Session.asked (session : Session) : List Question :=
  session.log.filterMap (·.event.question?)

/-- What a run depends on. -/
structure Project where
  library : Library
  handler : Handler
  /-- Where expressions are found; beside the sequence that uses them if there is no such place. -/
  expressions : Option Path := none

/-- The document being compiled. -/
structure Frame where
  directory : Path
  name : String
  /-- The documents open, this one included. -/
  opened : List NormalPath

/-- A part of a compilation: it may fail, and it changes the session in either case. -/
abbrev Compile := ExceptT Error (StateM Session)

namespace Compile

/-- Logs an event. -/
def record (opened : List NormalPath) (event : Event) : Compile Unit :=
  modify fun session => { session with log := session.log ++ [⟨opened, event⟩] }

def cancelled : Compile Bool := return (← get).cancelled

/-- The given statements, or none once the run has been cancelled. -/
def unlessCancelled (code : List Code) : Compile (List Code) :=
  return if (← get).cancelled then [] else code

/-- The statements of two parts one after the other; a part adds nothing once the run has been
cancelled. -/
def thenUnlessCancelled (first second : Compile (List Code)) : Compile (List Code) := do
  if ← cancelled then return []
  return (← first) ++ (← second)

/-- Labels a defect with the document it is in. -/
def ofDefect {α : Type} (file : String) (result : Except Defect α) : Compile α :=
  liftExcept (result.mapError (Defect.inFile file))
where
  /-- A result that leaves the session alone. -/
  liftExcept (result : Except Error α) : Compile α :=
    match result with
    | .ok value => pure value
    | .error error => throw error

end Compile

open Compile

namespace Project

/-- Asks about a document that is missing; the answer may cancel the run. -/
def ask (project : Project) (frame : Frame) (file : String) : Compile Unit := do
  let question : Question := ⟨file, frame.name⟩
  let decision := project.handler (← get).asked question
  record frame.opened (.asked question decision)
  if decision = .abort then modify fun session => { session with cancelled := true }

/-! ## Expressions -/

/-- The subroutine of an expression, registered if it is new. Nothing if its document is
missing. -/
def subroutine? (project : Project) (frame : Frame) (file : String) :
    Compile (Option String) := do
  match (← get).registry.get? file with
  | some method => return some method.name
  | none =>
    let directory := project.expressions.getD frame.directory
    let path := (directory.join file).normalize.path
    record frame.opened (.loaded path)
    match project.library.load path with
    | .error error => throw error
    | .ok none =>
      project.ask frame file
      return none
    | .ok (some node) =>
      let expression ← ofDefect file (Expression.read node)
      let body ← ofDefect file expression.body
      let (method, registry) := (← get).registry.register file body
      modify fun session => { session with registry }
      record frame.opened (.registered method.name)
      return some method.name

/-- The statements of a reference to an expression. -/
def expressionCode (project : Project) (frame : Frame) (place : Place) (file : String)
    (delay : UInt32) : Compile (List Code) := do
  match ← project.subroutine? frame file with
  | none => return []
  | some method =>
    return Code.ofComment place.comment ++ .action (.call method) ::
      if delay = 0 then [] else [.action (.delay delay)]

/-! ## Elements -/

/-- The statements of a saved sequence, given those of its elements. -/
def inlined (place : Place) (file : String) (body : List Code) : List Code :=
  Code.ofComment place.comment ++ .action (.comment s!"Start Seq: {file}") ::
    (body ++ [.action (.comment s!"End Seq: {file}")])

/-- The statements of a reference to a saved sequence, given how the elements of its document are
compiled: in a frame that leaves fewer documents closed. -/
def sequenceCode (project : Project) (frame : Frame) (place : Place) (file : String)
    (compile : (inner : Frame) →
      project.library.closed inner.opened < project.library.closed frame.opened →
      List Element → Compile (List Code)) : Compile (List Code) :=
  let path := frame.directory.join file
  if hopened : path.normalize ∈ frame.opened then
    throw ((Defect.selfReference file).inFile frame.name)
  else do
    record frame.opened (.loaded path.normalize.path)
    match hload : project.library.load path.normalize.path with
    | .error error => throw error
    | .ok none =>
      project.ask frame file
      return []
    | .ok (some node) =>
      let elements ← ofDefect file (readSequence node)
      let body ← compile
        ⟨path.normalize.path.parent?.getD ⟨""⟩, file, frame.opened ++ [path.normalize]⟩
        (Library.closed_lt hload hopened) elements
      unlessCancelled (inlined place file body)

/-- The statements of a conditional, given those of its branches. -/
def conditionalCode (frame : Frame) (place : Place) (spec : SensorSpec) (shape : LoopShape)
    (ifBranch elseBranch : Compile (List Code)) : Compile (List Code) :=
  match spec.conditions with
  | .error error => throw (error.inSequence frame.name)
  | .ok (ifTest, elseTest) => do
    let ifBody ← ifBranch
    let elseBody ← elseBranch
    unlessCancelled
      (Code.ofComment place.comment ++ shape.arrange ifTest elseTest ifBody elseBody)

/-- The statements of a counter loop, given those of its body. -/
def counterCode (place : Place) (iterations : UInt32) (children : Compile (List Code)) :
    Compile (List Code) := do
  let body ← children
  unlessCancelled (Code.ofComment place.comment ++ [.count iterations body])

/-- The statements of a list of elements, up to the one at which the run is cancelled. -/
def compileList (project : Project) (frame : Frame) (elements : List Element) :
    Compile (List Code) :=
  match elements with
  | [] => return []
  | element :: rest =>
    let first : Compile (List Code) :=
      match element with
      | .expression place file delay => project.expressionCode frame place file delay
      | .sequence place file =>
        project.sequenceCode frame place file fun inner _ elements =>
          compileList project inner elements
      | .counterLoop place iterations children =>
        counterCode place iterations (compileList project frame children)
      | .conditional place spec ifRepeats elseRepeats ifBranch elseBranch =>
        conditionalCode frame place spec (.ofRepeats ifRepeats elseRepeats)
          (compileList project frame ifBranch) (compileList project frame elseBranch)
    first.thenUnlessCancelled (compileList project frame rest)
termination_by (project.library.closed frame.opened, sizeOf elements)

/-- The statements of a sequence document called `name` in a directory. -/
def compileSequence (project : Project) (document : Node) (name : String) (directory : Path) :
    Compile (List Code) := do
  let elements ← ofDefect name (readSequence document)
  project.compileList ⟨directory, name, [(directory.join name).normalize]⟩ elements

end Project

end RobotSketch
