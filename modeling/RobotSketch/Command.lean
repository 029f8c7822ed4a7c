import RobotSketch.Command.Arguments
import RobotSketch.Program
import RobotSketch.Prompt

/-!
# The program

What the program does for each command, on any machine that offers files, variables, output and
the compilation of sequences. It ends with 0 when all went well, with 1 after an error, and with 2
when a run was cancelled or the arguments make no sense.
-/
namespace RobotSketch

/-- A sequence to compile. -/
structure Job where
  root : String
  directory : Path
  expressions : Option Path
  policy : Policy
  colours : Bool

/-- What the program needs of the machine it runs on. -/
class Machine (m : Type → Type) extends Files m where
  environment : m Environment
  /-- How the reader of configuration files words what is wrong with a text. -/
  describe : m (String → String)
  /-- Whether the output goes to a terminal. -/
  atTerminal : m Bool
  print : String → m Unit
  printError : String → m Unit
  /-- Compiles a sequence that is in files, with questions put at the terminal if they are to be
  put. -/
  compile : Job → m (Except Error Program)

/-- The handler of a policy, given the input that answers questions. -/
def Policy.handler (input : List UInt8) : Policy → Handler
  | .prompt => Prompt.handler input
  | .skip => .fixed .proceed
  | .abort => .fixed .abort

/-- How a command ends if it does not fail. -/
inductive Outcome where
  | done
  | cancelled
  deriving DecidableEq, Repr

namespace Command

variable {m : Type → Type} [Monad m] [Machine m]

/-! ## Documents -/

/-- The directory and the name of a document. -/
def splitDocument (path : Path) : Except Error (Path × String) :=
  match path.fileName? with
  | none => .error (.missingReference path.text ".")
  | some name =>
    let directory := path.parent?.getD ⟨""⟩
    .ok (if directory.text = "" then ⟨"."⟩ else directory, name)

/-- Where the expressions of a sequence are: in the given directory if its path is absolute, else
in the one of that name beside the sequence or one level up, whichever is there. -/
def findExpressions (configured directory : Path) : m (Option Path) := do
  if configured.isAbsolute then return some configured
  let beside := directory.join configured.text
  if ← Files.isDirectory beside then return some beside
  match directory.parent? with
  | none => return none
  | some parent =>
    let above := parent.join configured.text
    return if ← Files.isDirectory above then some above else none

/-! ## Commands -/

/-- The line that reports a file that was written. -/
def wroteLine (colours : Bool) (path : Path) (more : String) : String :=
  let mark := Terminal.greenBold colours "✓"
  s!"  {mark} Wrote {Terminal.bold colours path.text}{more}\n"

/-- Compiles a sequence with given settings. A directory of expressions that was given as an
argument is taken as it is, and any other is looked for around the sequence. -/
def compileWith (settings : Config) (asGiven : Bool) (output : Option Path) (print colours : Bool)
    (document : Path) : m (Except Error Outcome) := do
  match splitDocument document with
  | .error error => return .error error
  | .ok (directory, root) =>
    let expressions ←
      if asGiven then pure (some settings.expressions)
      else findExpressions settings.expressions directory
    let compiled ← Machine.compile ⟨root, directory, expressions, settings.onMissing, colours⟩
    if print then
      match compiled with
      | .error error => return .error error
      | .ok program =>
        if program.cancelled then return .ok .cancelled
        Machine.print program.source
        return .ok .done
    else
      let path := output.getD (sketchPath settings.outputDirectory root settings.sketchFolders)
      match ← persist compiled path with
      | .error error => return .error error
      | .ok program =>
        if program.cancelled then return .ok .cancelled
        let count := Text.ofNat program.methods.length
        Machine.print (wroteLine colours path s!" ({count} subroutine(s))")
        return .ok .done

/-- Compiles a sequence, with the arguments on top of the loaded settings. -/
def runCompile (config : Config) (colours : Bool) (document : Path) (arguments : Arguments) :
    m (Except Error Outcome) :=
  let settings : Config :=
    { config with
      expressions := arguments.expressions.getD config.expressions
      onMissing := arguments.onMissing.getD config.onMissing }
  compileWith settings arguments.expressions.isSome arguments.output arguments.print colours document

/-- Compiles an expression. -/
def runExpression (config : Config) (colours : Bool) (document : Path) (arguments : Arguments) :
    m (Except Error Outcome) := do
  match splitDocument document with
  | .error error => return .error error
  | .ok (_, name) =>
    match expressionSketch document (documentOfRead document (← Files.read document)) with
    | .error error => return .error error
    | .ok source =>
      if arguments.print then
        Machine.print source
        return .ok .done
      let path := arguments.output.getD
        (sketchPath config.outputDirectory name config.sketchFolders)
      match ← writeSketch source path with
      | .error error => return .error error
      | .ok () =>
        Machine.print (wroteLine colours path "")
        return .ok .done

def sensorRow (style : String → String) (name aliases range inverted : String) : String :=
  "  " ++ style (Terminal.left 14 name) ++ " " ++ style (Terminal.left 20 aliases) ++ " " ++
    style (Terminal.right 10 range) ++ "  " ++ style inverted ++ "\n"

def sensorTable (colours : Bool) : String :=
  sensorRow (Terminal.bold colours) "sensor" "aliases" "range" "inverted" ++
    String.join (sensorCatalogue.map fun profile =>
      sensorRow id profile.name (String.intercalate ", " profile.aliases)
        s!"{Text.ofInt profile.nativeMin}–{Text.ofInt profile.nativeMax}"
        (if profile.inverted then "yes" else "no"))

/-- The settings as the program shows them. -/
def configListing (colours : Bool) (path : Path) (config : Config) : String :=
  let lines := (Text.pieces (· == '\n') config.render.toList).dropLast
  s!"  # {Terminal.dimmed colours path.text}\n" ++
    String.join (lines.map fun line => "  " ++ String.ofList line ++ "\n")

/-- Shows the settings, after writing the configuration file if that is asked for and there is
none. -/
def runConfig (config : Config) (colours create : Bool) : m (Except ConfigError Outcome) := do
  let path := Config.pathFor (← Machine.environment)
  let written ← if create then createConfig path else pure (.ok ())
  match written with
  | .error error => return .error error
  | .ok () =>
    Machine.print (configListing colours path config)
    return .ok .done
where
  /-- Writes the default settings, unless there is a file. -/
  createConfig (path : Path) : m (Except ConfigError Unit) := do
    let shown := Terminal.bold colours path.text
    if ← Files.hasEntry path then
      Machine.print s!"  Config already exists at {shown}\n"
      return .ok ()
    match ← Config.save {} path with
    | .error error => return .error error
    | .ok () =>
      let mark := Terminal.greenBold colours "✓"
      Machine.print s!"  {mark} Config saved to {shown}\n"
      return .ok ()

/-! ## Running -/

def versionLine : String := "chirp 0.1.0\n"

/-- How the program is used. -/
def usage : String :=
  "Usage: chirp <COMMAND>\n\nCommands:\n" ++
    "  compile <SEQUENCE>       Compile a sequence and everything it refers to into one sketch\n" ++
    "      -o, --output <PATH>          Where the sketch is written\n" ++
    "      --on-missing <POLICY>        prompt, skip or abort\n" ++
    "      --expressions-dir <PATH>     Where expressions are found\n" ++
    "      --stdout                     Print the sketch\n" ++
    "  expression <EXPRESSION>  Compile a single expression into a sketch\n" ++
    "      -o, --output <PATH>          Where the sketch is written\n" ++
    "      --stdout                     Print the sketch\n" ++
    "  sensors                  List the sensors and their ranges\n" ++
    "  config                   Show the settings\n" ++
    "      --init                       Write the configuration file if there is none\n" ++
    "  help [COMMAND]           Show this text\n"

/-- Reports how a command ended, and gives the code the program ends with. -/
def report (colours : Bool) : Except String Outcome → m UInt8
  | .ok .done => return 0
  | .ok .cancelled => do
    let mark := Terminal.yellowBold colours "⚠"
    Machine.printError s!"  {mark} Compilation cancelled; no sketch was written.\n"
    return 2
  | .error message => do
    let label := Terminal.redBold colours "Error"
    Machine.printError s!"{label}: {message}\n"
    return 1

/-- The settings in use. If the configuration file cannot be used, that is reported and the
built-in defaults are taken. -/
def settings (colours : Bool) : m Config := do
  match ← Config.loadOrDefault (← Machine.describe) (← Machine.environment) with
  | .ok config => return config
  | .error error =>
    let label := Terminal.red colours "Config error"
    Machine.printError s!"{label}: {error.message}\n  Using default configuration.\n"
    return {}

def run (arguments : List String) : m UInt8 := do
  let colours := Terminal.coloursOn (← Machine.environment) (← Machine.atTerminal)
  match Invocation.parse arguments with
  | .help =>
    Machine.print usage
    return 0
  | .version =>
    Machine.print versionLine
    return 0
  | .misuse =>
    Machine.printError ("error: the arguments make no sense\n\n" ++ usage)
    return 2
  | .compile document arguments =>
    let config ← settings colours
    report colours ((← runCompile config colours document arguments).mapError Error.message)
  | .expression document arguments =>
    let config ← settings colours
    report colours ((← runExpression config colours document arguments).mapError Error.message)
  | .sensors =>
    let _ ← settings colours
    Machine.print (sensorTable colours)
    report colours (.ok .done)
  | .config arguments =>
    let config ← settings colours
    report colours ((← runConfig config colours arguments.create).mapError ConfigError.message)

end Command

/-!
## The program on a simulated machine

A machine whose files are a tree and whose variables, input and output are values. Its output is
never a terminal.
-/

structure Simulation where
  tree : Tree
  /-- The variables that are set. -/
  settings : List (String × String) := []
  /-- How the reader of configuration files words what is wrong with a text. -/
  describe : String → String := fun _ => ""
  input : List UInt8 := []
  output : String := ""
  errors : String := ""

namespace Simulation

/-- An operation on the files of the machine. -/
def onTree {α : Type} (operation : StateM Tree α) : StateM Simulation α := fun simulation =>
  let (value, tree) := operation simulation.tree
  (value, { simulation with tree })

/-- Compiles a sequence in the files of the machine. Questions are answered from its input. -/
def compile (job : Job) : StateM Simulation (Except Error Program) := do
  let simulation ← get
  let project : Project :=
    ⟨simulation.tree.library, job.policy.handler simulation.input, job.expressions⟩
  let (result, session) := project.compileProgram job.root job.directory
  if job.policy = .prompt then
    set { simulation with errors := simulation.errors ++ Prompt.shown job.colours session.asked }
  return result

instance : Machine (StateM Simulation) where
  read path := onTree (Files.read path)
  write path text := onTree (Files.write path text)
  rename source destination := onTree (Files.rename source destination)
  remove path := onTree (Files.remove path)
  makeDirectories path := onTree (Files.makeDirectories path)
  isDirectory path := onTree (Files.isDirectory path)
  hasEntry path := onTree (Files.hasEntry path)
  environment := do
    let simulation ← get
    return fun name => simulation.settings.lookup name
  describe := return (← get).describe
  atTerminal := return false
  print text := modify fun simulation => { simulation with output := simulation.output ++ text }
  printError text := modify fun simulation => { simulation with errors := simulation.errors ++ text }
  compile := compile

def run (simulation : Simulation) (arguments : List String) : UInt8 × Simulation :=
  (Command.run arguments : StateM Simulation UInt8) simulation

end Simulation

end RobotSketch
