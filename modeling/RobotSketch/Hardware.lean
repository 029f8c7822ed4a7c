import RobotSketch.Text
import RobotSketch.Document

/-!
# The hardware

The board that a sketch runs on, the sensors that it reads and the devices that it drives.
-/
namespace RobotSketch.Board

/-!
## The board's side of a sketch

The fixed texts of a sketch for the Hummingbird board, and the texts of the statements that every
sketch is made of. Text of documents enters a sketch only through `commentLine`, which keeps it on
one line and keeps its end from continuing that line.
-/

def indent : String := "   "

def includeLine : String := "#include <Hummingbird.h>"

def deviceClass : String := "Hummingbird"

def deviceHandle : String := "hummingbird"

def declaration : String := s!"{deviceClass} {deviceHandle};"

def initCall : String := s!"{deviceHandle}.init();"

/-- The expression that reads a sensor. -/
def sensorRead (slot : UInt8) : String :=
  s!"{deviceHandle}.readSensorValue({Text.ofNat slot.toNat})"

def delayCall (millis : UInt32) : String := s!"delay({Text.ofNat millis.toNat});"

/-- The text that stays on a comment line: control characters become blanks, blanks at the ends are
dropped, and so are backslashes at the end, which would join the next line to the comment. -/
def flatten (cs : List Char) : List Char :=
  Text.dropEndWhile (fun c => c == '\\' || Text.isBlank c)
    (Text.trimStart (cs.map fun c => if Text.isControl c then ' ' else c))

/-- The comment line of a text. -/
def commentLine (text : String) : String :=
  match flatten text.toList with
  | [] => "//"
  | flat => "// " ++ String.ofList flat

end RobotSketch.Board

/-!
## Sensors and their thresholds

The catalogue of sensors and the threshold that a percentage stands for. A profile gives the range
of raw readings; native readings stretch the raw range 0 to 255 over 0 to 1023. An inverted sensor
reads low when much is measured, so its comparison is flipped and its threshold mirrored in its
native range.
-/

namespace RobotSketch

/-! ### The catalogue -/

structure SensorProfile where
  name : String
  aliases : List String
  rawMin : UInt8
  rawMax : UInt8
  inverted : Bool
  deriving DecidableEq, Repr

def sensorCatalogue : List SensorProfile := [
  ⟨"light", [], 0, 255, false⟩,
  ⟨"temperature", [], 0, 255, false⟩,
  ⟨"sound", [], 0, 255, false⟩,
  ⟨"potentiometer", ["knob", "rotary"], 0, 255, false⟩,
  ⟨"distance", ["infrared"], 20, 235, true⟩]

/-- The profile with a given name or alias, apart from case and blanks at the ends. -/
def SensorProfile.find? (sensor : String) : Option SensorProfile :=
  let wanted := Text.asciiLowered (Text.trimmed sensor)
  sensorCatalogue.find? fun profile => profile.name == wanted || profile.aliases.contains wanted

/-! ### Scaling -/

/-- Brings `value` into the range from `low` to `high`. -/
def clamp (low high value : Int) : Int := max low (min high value)

/-- The native reading of a raw one, rounded down. -/
def nativeReading (raw : UInt8) : Int := ((raw.toNat * 1023 / 255 : Nat) : Int)

/-- The value so many hundredths of the way from `first` to `last`, rounded toward zero.
Percentages outside 0 to 100 count as the nearer end. -/
def valueAtPercentage (percentage first last : Int) : Int :=
  let exact100 := 100 * first + (last - first) * clamp 0 100 percentage
  clamp (min first last) (max first last) (exact100.tdiv 100)

namespace SensorProfile

def nativeMin (profile : SensorProfile) : Int := nativeReading profile.rawMin

def nativeMax (profile : SensorProfile) : Int := nativeReading profile.rawMax

end SensorProfile

/-! ### Thresholds -/

/-- How a reading is compared with a threshold. -/
inductive Comparison where
  | less
  | greater
  deriving DecidableEq, Repr

namespace Comparison

def flipped : Comparison → Comparison
  | .less => .greater
  | .greater => .less

def symbol : Comparison → String
  | .less => "<"
  | .greater => ">"

end Comparison

/-- A comparison with a native reading. -/
structure Threshold where
  value : Int
  comparison : Comparison
  deriving DecidableEq, Repr

/-- The threshold of a sensor at a percentage: the if-branch asks for less, the else-branch for
more. -/
def SensorProfile.threshold (profile : SensorProfile) (percentage : Int) (branchIsIf : Bool) :
    Threshold :=
  let low := profile.nativeMin
  let high := profile.nativeMax
  let value := valueAtPercentage percentage low high
  let comparison : Comparison := if branchIsIf then .less else .greater
  if profile.inverted then ⟨high - value + low, comparison.flipped⟩ else ⟨value, comparison⟩

/-- The threshold of the sensor called `sensor`. The error leaves the sequence open. -/
def sensorThreshold (sensor : String) (percentage : Int) (branchIsIf : Bool) :
    Except Error Threshold :=
  match SensorProfile.find? sensor with
  | some profile => .ok (profile.threshold percentage branchIsIf)
  | none => .error (.unknownSensor sensor "")

/-!
## Device commands and the board's calls

A `DeviceCommand` is one device of one operation of one service, as an expression writes it. The
board knows five services; `DeviceCommand.render` turns a command for one of them into a
`DeviceCall` whose arguments lie in the range of the hardware, and a command for any other service
into a comment.
-/

/-! ### Commands -/

/-- A named value given to a device. -/
structure Parameter where
  name : String
  value : String
  deriving DecidableEq, Repr

/-- What one device is told to do. -/
structure DeviceCommand where
  serviceType : String
  operation : String
  deviceId : UInt32
  parameters : List Parameter
  deriving DecidableEq, Repr

/-- The value of the first parameter whose name starts with `start`, apart from ASCII case. -/
def DeviceCommand.parameterStarting (command : DeviceCommand) (start : String) : Option String :=
  (command.parameters.find? fun parameter =>
    (Text.asciiLower start.toList).isPrefixOf (Text.asciiLower parameter.name.toList)).map (·.value)

/-! ### Services -/

/-- The services that the board offers. -/
inductive Service where
  | triColorLed
  | led
  | motor
  | servo
  | vibration
  deriving DecidableEq, Repr

namespace Service

/-- The last segment of a service type, whose segments are divided by double colons. -/
def shortName (serviceType : String) : String :=
  match Text.afterLast [':', ':'] serviceType.toList with
  | some segment => String.ofList segment
  | none => serviceType

/-- The service of a service type; only its last segment counts, apart from case and blanks. -/
def ofType? (serviceType : String) : Option Service :=
  match Text.asciiLowered (Text.trimmed (shortName serviceType)) with
  | "fullcolorledservice" => some .triColorLed
  | "simpleledservice" | "ledservice" => some .led
  | "velocitycontrollablemotorservice" | "motorservice" => some .motor
  | "simpleservoservice" | "servoservice" => some .servo
  | "vibrationmotorservice" | "vibrationservice" => some .vibration
  | _ => none

/-- The board's function for a service. -/
def setter : Service → String
  | .triColorLed => "setTriColorLED"
  | .led => "setLED"
  | .motor => "setMotor"
  | .servo => "setServo"
  | .vibration => "setVibration"

/-- The argument that a value becomes: brought into the range of the hardware, and for a servo
turned from 0 to 255 into 0 to 180 degrees. -/
def argument (service : Service) (value : Int) : Int :=
  match service with
  | .motor => clamp (-255) 255 value
  | .servo => clamp 0 255 value * 180 / 255
  | _ => clamp 0 255 value

end Service

/-! ### Calls -/

/-- A call of one of the board's functions. -/
structure DeviceCall where
  service : Service
  slot : Nat
  arguments : List Int
  deriving DecidableEq, Repr

def DeviceCall.line (call : DeviceCall) : String :=
  let arguments := String.intercalate ", " (Text.ofNat call.slot :: call.arguments.map Text.ofInt)
  s!"{Board.deviceHandle}.{call.service.setter}({arguments});"

/-- What becomes of a command: a call, or a comment line for a service the board lacks. -/
inductive Rendering where
  | supported (call : DeviceCall)
  | unsupported (line : String)
  deriving DecidableEq, Repr

def Rendering.line : Rendering → String
  | .supported call => call.line
  | .unsupported line => line

namespace DeviceCommand

/-- The integer that the text of a parameter stands for. -/
def integerValue (raw : String) : Except Defect Int :=
  match Text.readInt64? (Text.trim raw.toList) with
  | some value => .ok value
  | none => .error (.notAnInteger raw)

/-- The value of the parameter whose name starts with `start`. -/
def valueStarting (command : DeviceCommand) (start : String) : Except Defect Int :=
  match command.parameterStarting start with
  | some raw => integerValue raw
  | none =>
    .error (.noSuchParameter (Service.shortName command.serviceType) command.operation
      command.deviceId start)

def firstValue (command : DeviceCommand) : Except Defect Int :=
  match command.parameters with
  | parameter :: _ => integerValue parameter.value
  | [] =>
    .error (.noParameters (Service.shortName command.serviceType) command.operation
      command.deviceId)

/-- The values that a service takes from a command, in the order of its arguments. -/
def values (command : DeviceCommand) : Service → Except Defect (List Int)
  | .triColorLed => do
    let red ← command.valueStarting "r"
    let green ← command.valueStarting "g"
    let blue ← command.valueStarting "b"
    return [red, green, blue]
  | _ => do return [← command.firstValue]

/-- Turns a command into code. Slots count from one, device ids from zero. -/
def render (command : DeviceCommand) : Except Defect Rendering := do
  match Service.ofType? command.serviceType with
  | none =>
    let name := Service.shortName command.serviceType
    return .unsupported
      (Board.commentLine s!"{name}.{command.operation} is not available on the Hummingbird")
  | some service =>
    let slot := command.deviceId.toNat + 1
    if slot ≥ UInt32.size then throw (.deviceOutOfRange command.deviceId)
    let values ← command.values service
    return .supported ⟨service, slot, values.map service.argument⟩

end DeviceCommand

end RobotSketch
