import RobotSketch.Command

/-!
# The command line program

The program on the machine that it is started on: files and answers are found out while a sequence is
compiled.
-/
namespace RobotSketch

/-!
## Compiling step by step

On a real machine, files are read and questions are put while a sequence is compiled. Compilation
itself is a function of what is known, so it is run with what is known so far; its log shows the
first file or answer that is still needed, and once nothing is needed its result stands.
-/

/-- What is known of the world: what reading files gave, and the answers to questions. -/
structure Known where
  files : List (Path × Except Fault String) := []
  answers : List Decision := []

/-- What has to be found out next. -/
inductive Need where
  | file (path : Path)
  | answer (question : Question)
  deriving DecidableEq, Repr

namespace Known

/-- What reading a file gave, if that is known. -/
def file? (known : Known) (path : Path) : Option (Except Fault String) :=
  (known.files.find? (·.1 == path)).map (·.2)

theorem mem_of_file? {known : Known} {path : Path} {result : Except Fault String}
    (h : known.file? path = some result) : path.normalize ∈ known.files.map (·.1.normalize) := by
  obtain ⟨entry, hentry, -⟩ := Option.map_eq_some_iff.1 h
  have hpath : entry.1 = path := by simpa using List.find?_some hentry
  exact List.mem_map.2 ⟨entry, List.mem_of_find?_eq_some hentry, by rw [hpath]⟩

/-- The document at a path; one that is not known counts as missing. -/
def load (known : Known) (path : Path) : Except Error (Option Node) :=
  match known.file? path with
  | some result => documentOfRead path result
  | none => .ok none

/-- The documents that are known. -/
def library (known : Known) : Library where
  load := known.load
  finite := by
    refine ⟨known.files.map (·.1.normalize), fun path node h => ?_⟩
    unfold load at h
    split at h
    · rename_i result hfile
      exact path.normalize_path_normalize ▸ mem_of_file? hfile
    · simp at h

/-- The handler of a policy; questions that are not answered yet stop the run. -/
def handler (known : Known) : Policy → Handler
  | .prompt => .scripted known.answers .abort
  | .skip => .fixed .proceed
  | .abort => .fixed .abort

/-- Runs a job with what is known. -/
def attempt (known : Known) (job : Job) : Except Error Program × Session :=
  ({ library := known.library
     handler := known.handler job.policy
     expressions := job.expressions } : Project).compileProgram job.root job.directory

/-- The first thing that a log needs and that is not known; `answered` is how many questions the
log has passed. -/
def need? (known : Known) (policy : Policy) (answered : Nat) : List Record → Option Need
  | [] => none
  | ⟨_, .loaded path⟩ :: log =>
    if (known.file? path).isSome then known.need? policy answered log else some (.file path)
  | ⟨_, .asked question _⟩ :: log =>
    if policy = .prompt ∧ known.answers.length ≤ answered then some (.answer question)
    else known.need? policy (answered + 1) log
  | _ :: log => known.need? policy answered log

end Known

/-! ## The machine it runs on -/

/-- The fault that an error of the system is. -/
def Fault.ofError : IO.Error → Fault
  | .noFileOrDirectory .. => .notFound
  | .alreadyExists .. => .alreadyExists
  | .resourceBusy .. => .busy
  | .inappropriateType _ 20 _ => .notADirectory
  | .inappropriateType _ 21 _ => .isADirectory
  | .invalidArgument _ 36 _ => .nameTooLong
  | error => .other (toString error)

/-- Carries out an action and catches its fault. -/
def caught {α : Type} (action : IO α) : IO (Except Fault α) := do
  match ← action.toBaseIO with
  | .ok value => return .ok value
  | .error error => return .error (.ofError error)

def readFile (path : Path) : IO (Except Fault String) := do
  match ← caught (IO.FS.readBinFile ⟨path.text⟩) with
  | .error fault => return .error fault
  | .ok bytes =>
    match String.fromUTF8? bytes with
    | some text => return .ok text
    | none => return .error .notText

/-- Takes a line of the input, with its line feed. -/
partial def readLine (input : IO.FS.Stream) (taken : List UInt8) : IO (List UInt8) := do
  let bytes ← input.read 1
  match bytes.toList with
  | [] => return taken.reverse
  | [10] => return (10 :: taken).reverse
  | bytes => readLine input (bytes.reverse ++ taken)

/-- Compiles a sequence, finding out what is needed on the way. -/
partial def compileWith (known : Known) (job : Job) : IO (Except Error Program) := do
  let (result, session) := known.attempt job
  match known.need? job.policy 0 session.log with
  | none => return result
  | some (.file path) =>
    compileWith { known with files := (path, ← readFile path) :: known.files } job
  | some (.answer question) =>
    let errors ← IO.getStderr
    errors.putStr (Prompt.text job.colours question)
    errors.flush
    let line ← readLine (← IO.getStdin) []
    compileWith { known with answers := known.answers ++ [Prompt.decisionOf line] } job

instance : Machine IO where
  read := readFile
  write path text := caught (IO.FS.writeFile ⟨path.text⟩ text)
  rename source destination := caught (IO.FS.rename ⟨source.text⟩ ⟨destination.text⟩)
  remove path := caught (IO.FS.removeFile ⟨path.text⟩)
  makeDirectories path :=
    if path.text = "" then return .ok () else caught (IO.FS.createDirAll ⟨path.text⟩)
  isDirectory path := do ((← IO.currentDir) / path.text).isDir
  hasEntry path := do ((← IO.currentDir) / path.text).pathExists
  environment := do
    let names := ["HOME", "USERPROFILE", "CLICOLOR", "CLICOLOR_FORCE", "NO_COLOR",
      "CHIRP_OUTPUT_DIR", "CHIRP_EXPRESSIONS_DIR", "CHIRP_ON_MISSING", "CHIRP_SKETCH_FOLDERS"]
    let values ← names.mapM fun name => return (name, ← IO.getEnv name)
    return fun name => (values.lookup name).join
  describe := return fun _ => "the text is no configuration"
  atTerminal := do (← IO.getStdout).isTty
  print text := do (← IO.getStdout).putStr text
  printError text := do (← IO.getStderr).putStr text
  compile := compileWith {}

end RobotSketch

def main (arguments : List String) : IO UInt32 := do
  return (← RobotSketch.Command.run arguments : UInt8).toUInt32
