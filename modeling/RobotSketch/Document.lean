import RobotSketch.Xml.Doctype
import RobotSketch.Xml.Tree

/-!
# Reading documents

A document is read as XML once its document type declaration is cut out. A `Defect` says what is
wrong with a document; an `Error` is what a run reports, with the document, sensor or path concerned.
Each has one `message`, and no other place words them.
-/
namespace RobotSketch

/-! ## What can go wrong -/

/-- What is wrong with a document. -/
inductive Defect where
  /-- The text is not well-formed XML. -/
  | notWellFormed (fault : Xml.Fault)
  | wrongRoot (expected found : String)
  | missingAttribute (node key : String)
  | invalidValue (node key raw : String)
  | notBoolean (node key raw : String)
  /-- A counter loop that would run no time. -/
  | noIterations
  | noSensor
  | sensorOutOfRange
  | deviceOutOfRange (device : UInt32)
  /-- No parameter of a device has a name that starts with `start`. -/
  | noSuchParameter (service operation : String) (device : UInt32) (start : String)
  | noParameters (service operation : String) (device : UInt32)
  | notAnInteger (raw : String)
  /-- A saved sequence that is already being inlined. -/
  | selfReference (file : String)
  deriving DecidableEq, Repr

def Defect.message : Defect → String
  | .notWellFormed fault => fault.message
  | .wrongRoot expected found => s!"expected <{expected}> root, found <{found}>"
  | .missingAttribute node key => s!"<{node}> is missing attribute '{key}'"
  | .invalidValue node key raw => s!"<{node}> attribute '{key}' has invalid value '{raw}'"
  | .notBoolean node key raw => s!"<{node}> attribute '{key}' is not a boolean: '{raw}'"
  | .noIterations => "counter-loop iterations must be at least 1"
  | .noSensor => "loopable-conditional has no <sensor>"
  | .sensorOutOfRange => "sensor device-id out of range"
  | .deviceOutOfRange device => s!"device id {Text.ofNat device.toNat} is out of range"
  | .noSuchParameter service operation device start =>
    s!"{service}.{operation} on device {Text.ofNat device.toNat} has no '{start}…' parameter"
  | .noParameters service operation device =>
    s!"{service}.{operation} on device {Text.ofNat device.toNat} has no parameters"
  | .notAnInteger raw => s!"parameter value '{raw}' is not an integer"
  | .selfReference file => s!"sequence '{file}' references itself"

/-- What a run reports when it cannot go on. -/
inductive Error where
  /-- The document that a run starts from does not exist. -/
  | missingReference (file enclosing : String)
  | unknownSensor (sensor sequence : String)
  | malformed (file details : String)
  | io (path details : String)
  deriving DecidableEq, Repr

namespace Error

def message : Error → String
  | .missingReference file enclosing =>
    s!"Missing reference: '{file}' referenced from '{enclosing}' does not exist"
  | .unknownSensor sensor sequence => s!"Unknown sensor type '{sensor}' in sequence '{sequence}'"
  | .malformed file details => s!"Malformed document '{file}': {details}"
  | .io path details => s!"I/O error on {path}: {details}"

/-- Names the sequence in which an unknown sensor was met; other errors stay. -/
def inSequence (name : String) : Error → Error
  | .unknownSensor sensor _ => .unknownSensor sensor name
  | error => error

end Error

/-- The error that reports a defect of the document called `file`. -/
def Defect.inFile (file : String) (defect : Defect) : Error := .malformed file defect.message

/-! ## Parsing -/

def Node.parse (source : String) : Except Defect Node :=
  (Xml.parse (Xml.stripDoctype source.toList)).mapError .notWellFormed

/-- The tree of the text of the document called `file`. -/
def Node.parseFile (source file : String) : Except Error Node :=
  (Node.parse source).mapError (Defect.inFile file)

/-!
## Fields of an element

Attributes read as texts, numbers and truth values. An attribute that is absent and one whose
value does not read are different defects.
-/

namespace Node

/-- The value of an attribute that has to be present. -/
def required (node : Node) (key : String) : Except Defect String :=
  match node.attribute? key with
  | some value => .ok value
  | none => .error (.missingAttribute node.name key)

/-- The number that an attribute holds, read without the blanks at its ends. -/
def number? {α : Type} (read : List Char → Option α) (node : Node) (key : String) :
    Except Defect (Option α) :=
  match node.attribute? key with
  | none => .ok none
  | some raw =>
    match read (Text.trim raw.toList) with
    | some value => .ok (some value)
    | none => .error (.invalidValue node.name key raw)

/-- The number of an attribute that has to be present. -/
def number {α : Type} (read : List Char → Option α) (node : Node) (key : String) :
    Except Defect α :=
  match number? read node key with
  | .ok (some value) => .ok value
  | .ok none => .error (.missingAttribute node.name key)
  | .error defect => .error defect

/-- The truth value that a text stands for, apart from case and blanks at its ends. -/
def flagOf? (raw : String) : Option Bool :=
  match Text.asciiLowered (Text.trimmed raw) with
  | "true" | "yes" | "1" => some true
  | "false" | "no" | "0" => some false
  | _ => none

/-- The truth value of an attribute; false when it is absent. -/
def flag (node : Node) (key : String) : Except Defect Bool :=
  match node.attribute? key with
  | none => .ok false
  | some raw =>
    match flagOf? raw with
    | some value => .ok value
    | none => .error (.notBoolean node.name key raw)

end Node

end RobotSketch
