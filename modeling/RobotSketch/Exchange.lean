import RobotSketch.Json
import RobotSketch.Session

/-!
# The exchange format

Encoders and decoders of what the program works on, as values of JSON.
-/
namespace RobotSketch

/-!
## Devices and expressions in JSON

Encoders and decoders of device commands, expressions and sensor specifications. Decoders refuse
what is no record of the right fields; a threshold outside 0 to 100 is read as the nearer end.
-/

open Json (ofNat)

/-- A decoder applied to a field that has to be there. -/
def Json.decoded {json : Json} {α : Type} (field : Option (Json.Part json))
    (decode : Json → Option α) : Option α :=
  field.bind fun part => decode part.1

/-- Decodes every item of an array. -/
def Json.list? {α : Type} (json : Json) (decode : Json → Option α) : Option (List α) :=
  json.items?.bind (·.mapM fun part => decode part.1)

def Json.uint8? (json : Json) : Option UInt8 := (json.nat? UInt8.size).map UInt8.ofNat

def Json.uint32? (json : Json) : Option UInt32 := (json.nat? UInt32.size).map UInt32.ofNat

/-! ### Parameters and commands -/

def Parameter.encode (parameter : Parameter) : Json :=
  .object [("name", .string parameter.name), ("value", .string parameter.value)]

def Parameter.decode? (json : Json) : Option Parameter := do
  match ← json.fields? ["name", "value"] with
  | [name, value] => return ⟨← Json.decoded name Json.string?, ← Json.decoded value Json.string?⟩
  | _ => none

def DeviceCommand.encode (command : DeviceCommand) : Json :=
  .object [
    ("service_type", .string command.serviceType),
    ("operation", .string command.operation),
    ("device_id", ofNat command.deviceId.toNat),
    ("parameters", .ofList Parameter.encode command.parameters)]

def DeviceCommand.decode? (json : Json) : Option DeviceCommand := do
  match ← json.fields? ["service_type", "operation", "device_id", "parameters"] with
  | [serviceType, operation, deviceId, parameters] =>
    return ⟨← Json.decoded serviceType Json.string?, ← Json.decoded operation Json.string?,
      ← Json.decoded deviceId Json.uint32?,
      ← Json.decoded parameters (·.list? Parameter.decode?)⟩
  | _ => none

/-! ### Expressions -/

def Expression.encode (expression : Expression) : Json :=
  .object [
    ("commands", .ofList DeviceCommand.encode expression.commands),
    ("delay_millis", ofNat expression.delay.toNat)]

def Expression.decode? (json : Json) : Option Expression := do
  match ← json.fields? ["commands", "delay_millis"] with
  | [commands, delay] =>
    return ⟨← Json.decoded commands (·.list? DeviceCommand.decode?),
      ← Json.decoded delay Json.uint32?⟩
  | _ => none

/-! ### Sensor specifications -/

def SensorSpec.encode (spec : SensorSpec) : Json :=
  .object [
    ("sensor_type", .string spec.sensor),
    ("port", ofNat spec.slot.toNat),
    ("threshold_percentage", ofNat spec.threshold.value)]

def SensorSpec.decode? (json : Json) : Option SensorSpec := do
  match ← json.fields? ["sensor_type", "port", "threshold_percentage"] with
  | [sensor, slot, threshold] =>
    return ⟨← Json.decoded sensor Json.string?, ← Json.decoded slot Json.uint8?,
      .nearest (← Json.decoded threshold (Json.integer? (-9223372036854775808) 9223372036854775807))⟩
  | _ => none

/-!
## Elements in JSON

An element is a record of its position, its comment and its kind; the kind is a record of a tag
and of the data that goes with it. The decoder follows the nesting of the value. Data that come
before their tag are held back until the tag is known; tags inside data that were held back may be
written in more ways.
-/

namespace Element

/-- An element, given its place and its kind. -/
def encodeRecord (place : Place) (tag : String) (data : List (String × Json)) : Json :=
  .object [
    ("position", ofNat place.position),
    ("comment", .ofOption .string place.comment),
    ("kind", .object [("kind", .string tag), ("data", .object data)])]

mutual

/-- An element as an object. -/
def encode : Element → Json
  | .expression place file delay =>
    encodeRecord place "Expression" [("file", .string file), ("delay_millis", ofNat delay.toNat)]
  | .sequence place file => encodeRecord place "Sequence" [("file", .string file)]
  | .counterLoop place iterations children =>
    encodeRecord place "CounterLoop"
      [("iterations", ofNat iterations.toNat), ("children", .array (encodeAll children))]
  | .conditional place spec ifRepeats elseRepeats ifBranch elseBranch =>
    encodeRecord place "ConditionalLoop" [
      ("sensor", spec.encode),
      ("if_repeats", .bool ifRepeats),
      ("else_repeats", .bool elseRepeats),
      ("if_branch", .array (encodeAll ifBranch)),
      ("else_branch", .array (encodeAll elseBranch))]

def encodeAll : List Element → List Json
  | [] => []
  | element :: rest => element.encode :: encodeAll rest

end

/-- Reads a comment; null and absence both stand for none. -/
def decodeComment? {json : Json} : Option (Json.Part json) → Option (Option String)
  | none => some none
  | some ⟨.null, _⟩ => some none
  | some ⟨.string comment, _⟩ => some (some comment)
  | some _ => none

/-! ### Tags -/

/-- The tags of the kinds, in the order of their numbers. -/
def tags : List String := ["Expression", "Sequence", "CounterLoop", "ConditionalLoop"]

/-- The tag of a kind that is an object: a string, or an object with one member, of that name, that
is null or, in data that were held back, an empty object. -/
def memberTag? (held : Bool) : Json → Option String
  | .object [(name, .object [])] => if held then some name else none
  | json => json.caseName?

/-- The tag of a kind that is an array: a string or, in data that were held back, its number. -/
def itemTag? (held : Bool) : Json → Option String
  | .integer (.ofNat number) => if held then tags[number]? else none
  | json => json.string?

/-- How the tag of a kind is read. -/
def tagOf? (held : Bool) (kind : Json) : Json → Option String :=
  match kind with
  | .array _ => itemTag? held
  | _ => memberTag? held

/-- Whether the data of a kind come before its tag. -/
def dataComeFirst : Json → Bool
  | .object members =>
    (members.map Prod.fst).find? (fun name => name == "kind" || name == "data") == some "data"
  | _ => false

/-! ### Records -/

/-- How the elements inside a value are read, which are smaller than the value. -/
abbrev Inner (json : Json) := (part : Json) → sizeOf part < sizeOf json → Option Element

/-- Reads a field that is a list of elements. -/
def decodeField? {json : Json} (field : Option (Json.Part json)) (inner : Inner json) :
    Option (List Element) := do
  let ⟨list, hlist⟩ ← field
  let items ← list.items?
  items.mapM fun ⟨item, hitem⟩ => inner item (Nat.lt_trans hitem hlist)

/-- Reads the data of a kind. -/
def decodeData? (place : Place) (tag : String) (data : Json) (inner : Inner data) :
    Option Element :=
  match tag with
  | "Expression" => do
    match ← data.fields? ["file", "delay_millis"] with
    | [file, delay] =>
      return .expression place (← Json.decoded file Json.string?) (← Json.decoded delay Json.uint32?)
    | _ => none
  | "Sequence" => do
    match ← data.fields? ["file"] with
    | [file] => return .sequence place (← Json.decoded file Json.string?)
    | _ => none
  | "CounterLoop" => do
    match ← data.fields? ["iterations", "children"] with
    | [iterations, children] =>
      return .counterLoop place (← Json.decoded iterations Json.uint32?)
        (← decodeField? children inner)
    | _ => none
  | "ConditionalLoop" => do
    match ← data.fields? ["sensor", "if_repeats", "else_repeats", "if_branch", "else_branch"] with
    | [sensor, ifRepeats, elseRepeats, ifBranch, elseBranch] =>
      return .conditional place (← Json.decoded sensor SensorSpec.decode?)
        (← Json.decoded ifRepeats Json.bool?) (← Json.decoded elseRepeats Json.bool?)
        (← decodeField? ifBranch inner) (← decodeField? elseBranch inner)
    | _ => none
  | _ => none

/-- Reads the kind of an element, given whether it is part of data that were held back. All data
that are held back are read, also members that are not asked for. -/
def decodeKind? (held : Bool) (place : Place) (kind : Json) (inner : Bool → Inner kind) :
    Option Element := do
  match ← kind.fields? ["kind", "data"] with
  | [tag, data] =>
    let tag ← Json.decoded tag (tagOf? held kind)
    let ⟨data, hdata⟩ ← data
    guard (!dataComeFirst kind || data.isRead)
    decodeData? place tag data fun part hpart =>
      inner (held || dataComeFirst kind) part (Nat.lt_trans hpart hdata)
  | _ => none

/-- Reads the record of an element, given whether it is part of data that were held back. -/
def decodeRecord? (held : Bool) (json : Json) (inner : Bool → Inner json) : Option Element := do
  match ← json.fields? ["position", "comment", "kind"] with
  | [position, comment, kind] =>
    let place : Place :=
      ⟨← Json.decoded position (Json.nat? UInt64.size), ← decodeComment? comment⟩
    let ⟨kind, hkind⟩ ← kind
    decodeKind? held place kind fun held part hpart => inner held part (Nat.lt_trans hpart hkind)
  | _ => none

/-- Reads an element, given whether it is part of data that were held back. -/
def decodeWithin? (held : Bool) (json : Json) : Option Element :=
  decodeRecord? held json fun held part _ => decodeWithin? held part
termination_by sizeOf json

def decode? (json : Json) : Option Element := decodeWithin? false json

end Element

/-!
## Decisions and errors in JSON
-/

/-! ### Decisions -/

def Decision.word : Decision → String
  | .proceed => "continue"
  | .abort => "abort"

def Decision.encode (decision : Decision) : Json := .string decision.word

def Decision.decode? (json : Json) : Option Decision :=
  match json.caseName? with
  | some "continue" => some .proceed
  | some "abort" => some .abort
  | _ => none

/-! ### Errors -/

namespace Error

def kind : Error → String
  | .missingReference .. => "MissingReference"
  | .unknownSensor .. => "UnknownSensor"
  | .malformed .. => "MalformedDocument"
  | .io .. => "Io"

/-- An error as an object of one member, which is named for its kind. -/
def encode (error : Error) : Json :=
  .object [(error.kind, .object (match error with
    | .missingReference file enclosing => [("file", .string file), ("enclosing", .string enclosing)]
    | .unknownSensor sensor sequence => [("sensor", .string sensor), ("sequence", .string sequence)]
    | .malformed file details => [("file", .string file), ("details", .string details)]
    | .io path details => [("path", .string path), ("details", .string details)]))]

/-- Reads a record of two texts. -/
def decodePair? (first second : String) (json : Json) : Option (String × String) := do
  match ← json.fields? [first, second] with
  | [a, b] => return (← Json.decoded a Json.string?, ← Json.decoded b Json.string?)
  | _ => none

def decode? : Json → Option Error
  | .object [("MissingReference", data)] =>
    (decodePair? "file" "enclosing" data).map fun (file, enclosing) =>
      .missingReference file enclosing
  | .object [("UnknownSensor", data)] =>
    (decodePair? "sensor" "sequence" data).map fun (sensor, sequence) =>
      .unknownSensor sensor sequence
  | .object [("MalformedDocument", data)] =>
    (decodePair? "file" "details" data).map fun (file, details) => .malformed file details
  | .object [("Io", data)] =>
    (decodePair? "path" "details" data).map fun (path, details) => .io path details
  | _ => none

end Error

end RobotSketch
