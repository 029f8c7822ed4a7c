import RobotSketch.Session

/-!
# Programs

Two routes lead to a sketch: a sequence becomes its loop, with a subroutine for each expression;
an expression alone has its instructions in the loop.
-/
namespace RobotSketch

/-- What becomes of a sequence. -/
structure Program where
  /-- The sketch; empty if the run was cancelled. -/
  source : String
  methods : List (Method (List Instruction))
  cancelled : Bool

/-- A subroutine with its instructions as lines. -/
def Method.lines (method : Method (List Instruction)) : Method (List String) :=
  { method with body := method.body.map Instruction.line }

namespace Project

/-- Compiles the sequence at `root` in a directory. -/
def programOf (project : Project) (root : String) (directory : Path) : Compile Program := do
  let path := (directory.join root).normalize.path
  Compile.record [] (.loaded path)
  match project.library.load path with
  | .error error => throw error
  | .ok none => throw (.missingReference root directory.text)
  | .ok (some document) =>
    let code ← project.compileSequence document path.displayName (path.parent?.getD ⟨""⟩)
    let session ← get
    let methods := session.registry.methods
    if session.cancelled then return ⟨"", methods, true⟩
    return ⟨Sketch.render (Code.block code) (methods.map (·.lines)), methods, false⟩

/-- Compiles a sequence in a fresh session; the session shows what was done on the way. -/
def compileProgram (project : Project) (root : String) (directory : Path) :
    Except Error Program × Session :=
  (project.programOf root directory).run {}

end Project

/-- The sketch of a single expression, given what loading its document gives. -/
def expressionSketch (file : Path) (loaded : Except Error (Option Node)) : Except Error String := do
  let name := file.displayName
  match ← loaded with
  | none => throw (.missingReference name ((file.parent?.map (·.text)).getD ""))
  | some document =>
    let body ← ((Expression.read document).bind (·.body)).mapError (Defect.inFile name)
    return Sketch.render (.ofTexts (body.map (·.line))) []

/-- The sketch of a single expression of a library. -/
def compileExpression (library : Library) (file : Path) : Except Error String :=
  expressionSketch file (library.load file)

/-!
## Writing sketches

A sketch is written to a hidden sibling of its path and then moved into place, so that no reader
ever finds half of one. A run that fails or is cancelled leaves no sketch at its path, since one
found there would be stale.
-/

/-- Where the sketch of a document goes below a directory; with folders, into one of its own
name. -/
def sketchPath (directory : Path) (file : String) (folders : Bool) : Path :=
  let stem := (⟨file⟩ : Path).fileStem?.getD "sketch"
  let name := s!"{stem}.ino"
  if folders then (directory.join stem).join name else directory.join name

/-- The hidden sibling that a sketch is written to first. -/
def hiddenSibling (path : Path) : Path := path.withFileName s!".{path.displayName}.partial"

variable {m : Type → Type} [Monad m] [Files m]

/-- The error that reports a fault at a path. -/
def Fault.at (path : Path) (fault : Fault) : Error := .io path.text fault.message

/-- Makes the directory that a path is in. -/
def makeParent (path : Path) : m (Except Error Unit) :=
  match path.parent? with
  | some parent =>
    if parent.text = "" then return .ok ()
    else return (← Files.makeDirectories parent).mapError (Fault.at parent)
  | none => return .ok ()

/-- Writes a text to one path and then moves it to another. -/
def writeThrough (sibling path : Path) (text : String) : m (Except Fault Unit) := do
  match ← Files.write sibling text with
  | .ok () => Files.rename sibling path
  | .error fault => return .error fault

/-- Writes a sketch, with the directories it needs. On failure the sibling is removed. -/
def writeSketch (source : String) (path : Path) : m (Except Error Unit) := do
  match ← makeParent path with
  | .error error => return .error error
  | .ok () =>
    match ← writeThrough (hiddenSibling path) path source with
    | .ok () => return .ok ()
    | .error fault =>
      let _ ← Files.remove (hiddenSibling path)
      return .error (fault.at path)

/-- Removes a file that may be missing. -/
def removeStale (path : Path) : m (Except Error Unit) := do
  match ← Files.remove path with
  | .ok () | .error .notFound => return .ok ()
  | .error fault => return .error (fault.at path)

/-- Writes a program and says whether there is one to write; a cancelled one removes the sketch at
its path. -/
def writeProgram (program : Program) (path : Path) : m (Except Error Bool) := do
  if program.cancelled then return (← removeStale path).map fun _ => false
  else return (← writeSketch program.source path).map fun _ => true

/-- Writes what came of a compilation. A failed one removes the sketch at its path, as far as it
can. -/
def persist (compiled : Except Error Program) (path : Path) : m (Except Error Program) := do
  match compiled with
  | .error error =>
    let _ ← Files.remove path
    return .error error
  | .ok program => return (← writeProgram program path).map fun _ => program

end RobotSketch
