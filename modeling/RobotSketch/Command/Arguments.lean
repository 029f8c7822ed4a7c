import RobotSketch.Config

/-!
# The command line

What the arguments of the program ask for. They are taken one after the other, and the first one
that asks for help or makes no sense decides; what is missing is noticed at the end.
-/
namespace RobotSketch

/-- What the arguments of a command say. -/
structure Arguments where
  document : Option Path := none
  /-- Where the sketch is written. -/
  output : Option Path := none
  onMissing : Option Policy := none
  /-- Where expressions are found. -/
  expressions : Option Path := none
  /-- Whether the sketch is printed instead of written. -/
  print : Bool := false
  /-- Whether the configuration file is written. -/
  create : Bool := false
  deriving DecidableEq, Repr

/-- What the arguments of the program ask for. -/
inductive Invocation where
  | compile (document : Path) (arguments : Arguments)
  | expression (document : Path) (arguments : Arguments)
  | sensors
  | config (arguments : Arguments)
  | help
  | version
  /-- The arguments make no sense. -/
  | misuse
  deriving DecidableEq, Repr

/-! ## Switches -/

/-- The options of the program's commands. -/
inductive Switch where
  | output
  | onMissing
  | expressions
  | print
  | create
  deriving DecidableEq, Repr

namespace Switch

def name : Switch → String
  | .output => "output"
  | .onMissing => "on-missing"
  | .expressions => "expressions-dir"
  | .print => "stdout"
  | .create => "init"

def takesValue : Switch → Bool
  | .print | .create => false
  | _ => true

end Switch

/-- A path, which must not be empty. -/
def pathArgument? (text : String) : Option Path := if text = "" then none else some ⟨text⟩

namespace Arguments

/-- Adds a switch with its value, which is empty for one that takes none. No switch is given
twice. -/
def add? (arguments : Arguments) (switch : Switch) (value : String) : Option Arguments :=
  match switch with
  | .output => do
    guard arguments.output.isNone
    return { arguments with output := some (← pathArgument? value) }
  | .onMissing => do
    guard arguments.onMissing.isNone
    return { arguments with onMissing := some (← Policy.ofWord? value) }
  | .expressions => do
    guard arguments.expressions.isNone
    return { arguments with expressions := some (← pathArgument? value) }
  | .print => if arguments.print then none else some { arguments with print := true }
  | .create => if arguments.create then none else some { arguments with create := true }

/-- Adds the document, if there is to be one and it is not yet given. -/
def addDocument? (wanted : Bool) (arguments : Arguments) (text : String) : Option Arguments := do
  guard (wanted && arguments.document.isNone)
  return { arguments with document := some (← pathArgument? text) }

end Arguments

/-! ## Commands -/

/-- A command: its switches, whether it takes a document, and what it asks for. -/
structure Command where
  switches : List Switch
  document : Bool
  invocation : Arguments → Invocation

def command? : String → Option Command
  | "compile" => some ⟨[.output, .onMissing, .expressions, .print], true, fun arguments =>
      arguments.document.elim .misuse (.compile · arguments)⟩
  | "expression" => some ⟨[.output, .print], true, fun arguments =>
      arguments.document.elim .misuse (.expression · arguments)⟩
  | "sensors" => some ⟨[], false, fun _ => .sensors⟩
  | "config" => some ⟨[.create], false, .config⟩
  | _ => none

/-- What a single argument says. -/
inductive Reading where
  | help
  | unknown
  | document (text : String)
  /-- A switch with its value. -/
  | complete (switch : Switch) (value : String)
  /-- A switch whose value is the next argument. -/
  | awaiting (switch : Switch)

/-- Whether an argument looks like an option: a hyphen and more. -/
def looksLikeOption : List Char → Bool
  | '-' :: _ :: _ => true
  | _ => false

namespace Command

/-- What an argument with two hyphens says. -/
def readLong (command : Command) (text : List Char) : Reading :=
  let name := String.ofList (text.takeWhile (· != '='))
  let value := (text.dropWhile (· != '=')).tail?.map String.ofList
  if name = "help" then if value.isSome then .unknown else .help
  else
    match command.switches.find? (·.name == name), value with
    | none, _ => .unknown
    | some switch, none => if switch.takesValue then .awaiting switch else .complete switch ""
    | some switch, some value => if switch.takesValue then .complete switch value else .unknown

/-- What an argument with one hyphen says. -/
def readShort (command : Command) : List Char → Reading
  | 'h' :: _ => .help
  | 'o' :: rest =>
    if command.switches.contains .output then
      match rest with
      | [] => .awaiting .output
      | '=' :: value => .complete .output (String.ofList value)
      | value => .complete .output (String.ofList value)
    else .unknown
  | _ => .unknown

def read (command : Command) (argument : String) : Reading :=
  match argument.toList with
  | '-' :: '-' :: text => command.readLong text
  | '-' :: c :: text => command.readShort (c :: text)
  | _ => .document argument

/-- Adds arguments to those already taken. After two hyphens alone, all are documents. -/
def collect (command : Command) (taken : Arguments) : List String → Except Invocation Arguments
  | [] => .ok taken
  | "--" :: rest => orMisuse (rest.foldlM (·.addDocument? command.document) taken)
  | argument :: rest =>
    match command.read argument with
    | .help => .error .help
    | .unknown => .error .misuse
    | .document text => do
      collect command (← orMisuse (taken.addDocument? command.document text)) rest
    | .complete switch value => do
      collect command (← orMisuse (taken.add? switch value)) rest
    | .awaiting switch =>
      match rest with
      | [] => .error .misuse
      | value :: rest =>
        if looksLikeOption value.toList then .error .misuse
        else do collect command (← orMisuse (taken.add? switch value)) rest
where
  /-- What was taken, or misuse if it makes no sense. -/
  orMisuse (result : Option Arguments) : Except Invocation Arguments :=
    result.elim (.error .misuse) .ok

/-- What the arguments of a command ask for. -/
def invoke (command : Command) (arguments : List String) : Invocation :=
  match command.collect {} arguments with
  | .ok arguments => command.invocation arguments
  | .error invocation => invocation

end Command

/-- What a request for help asks for, given the commands it names. -/
def helpOn : List String → Invocation
  | [] => .help
  | [name] => if name = "help" ∨ (command? name).isSome then .help else .misuse
  | _ => .misuse

/-- What the arguments of the program ask for. -/
def Invocation.parse : List String → Invocation
  | [] => .misuse
  | "help" :: names => helpOn names
  | "--help" :: _ => .help
  | "--version" :: _ => .version
  | name :: arguments =>
    match command? name, name.toList with
    | some command, _ => command.invoke arguments
    | none, '-' :: 'h' :: _ => .help
    | none, '-' :: 'V' :: _ => .version
    | none, _ => .misuse

end RobotSketch
