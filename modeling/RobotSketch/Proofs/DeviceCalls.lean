import RobotSketch.Hardware
import RobotSketch.Proofs.Numerals
import RobotSketch.Proofs.Reading
import RobotSketch.Proofs.Scaling

/-!
# Device calls

What a command becomes, said without the functions that render it: which service its type names
(`Service.NamedBy`), which values its parameters supply (`Supplies`), and which call that makes
(`DeviceCommand.Makes`). A command for a service that the board lacks becomes a comment. Any other
becomes the call it makes, or fails if it makes none, and the arguments of a call never leave the
range of the hardware. The main statement is `device_calls_in_range`.
-/
namespace RobotSketch

/-! ## Services -/

namespace Service

/-- The names of a service, in lower case. -/
def names : Service → List String
  | .triColorLed => ["fullcolorledservice"]
  | .led => ["simpleledservice", "ledservice"]
  | .motor => ["velocitycontrollablemotorservice", "motorservice"]
  | .servo => ["simpleservoservice", "servoservice"]
  | .vibration => ["vibrationmotorservice", "vibrationservice"]

/-- The last segment of a service type is what follows its last double colon, or all of it if there
is none. -/
def LastSegment (serviceType segment : String) : Prop :=
  Text.IsAfterLast [':', ':'] serviceType.toList segment.toList ∨
    ¬[':', ':'] <:+: serviceType.toList ∧ segment = serviceType

/-- The last segment of a service type is a name of the service, apart from case and blanks. -/
def NamedBy (service : Service) (serviceType : String) : Prop :=
  ∃ segment, LastSegment serviceType segment ∧
    Text.asciiLowered (Text.trimmed segment) ∈ service.names

theorem lastSegment_iff {serviceType segment : String} :
    LastSegment serviceType segment ↔ segment = shortName serviceType := by
  have hword : [':', ':'] ≠ [] := by decide
  unfold LastSegment shortName
  rw [← Text.afterLast_eq_some_iff hword, ← Text.afterLast_eq_none_iff hword]
  cases Text.afterLast [':', ':'] serviceType.toList with
  | none => simp
  | some rest =>
    simp only [Option.some.injEq, reduceCtorEq, false_and, or_false]
    constructor
    · rintro rfl
      exact String.ofList_toList.symm
    · rintro rfl
      exact String.toList_ofList.symm

theorem ofType?_eq_some_iff {serviceType : String} {service : Service} :
    ofType? serviceType = some service ↔ service.NamedBy serviceType := by
  simp only [NamedBy, lastSegment_iff, exists_eq_left]
  unfold ofType?
  generalize Text.asciiLowered (Text.trimmed (shortName serviceType)) = name
  split
  all_goals cases service <;> simp_all [names]

theorem ofType?_eq_none_iff {serviceType : String} :
    ofType? serviceType = none ↔ ∀ service : Service, ¬service.NamedBy serviceType := by
  simp only [← ofType?_eq_some_iff, Option.eq_none_iff_forall_ne_some, ne_eq]

/-! ## Arguments -/

/-- The range of the hardware for the arguments of a service. -/
def range : Service → Int × Int
  | .motor => (-255, 255)
  | .servo => (0, 180)
  | .triColorLed | .led | .vibration => (0, 255)

theorem argument_mem_range (service : Service) (value : Int) :
    service.range.1 ≤ service.argument value ∧ service.argument value ≤ service.range.2 := by
  cases service <;> simp only [range, argument, clamp] <;> omega

theorem argument_servo_mono : Monotone (argument .servo) := by
  intro a b hab
  have hclamp := clamp_mono 0 255 hab
  simp only [argument]
  omega

/-- A servo turns by whole degrees, rounded down. -/
theorem argument_servo_eq_floor (value : Int) :
    argument .servo value = ⌊((clamp 0 255 value : Int) : ℚ) * 180 / 255⌋ := by
  have hfloor := Rat.floor_intCast_div_natCast (clamp 0 255 value * 180) 255
  push_cast at hfloor
  exact hfloor.symm

end Service

/-! ## Parameters -/

/-- A text stands for an integer of sixty-four bits, apart from blanks at its ends. -/
def Denotes (raw : String) (value : Int) : Prop :=
  Text.Signed (Text.trim raw.toList) value ∧
    -9223372036854775808 ≤ value ∧ value < 9223372036854775808

/-- The name of a parameter starts with a small letter, apart from case. -/
def Parameter.StartsWith (parameter : Parameter) (letter : Char) : Prop :=
  ∃ c rest, parameter.name.toList = c :: rest ∧ Text.asciiLowerChar c = letter

/-- A parameter is the first whose name starts with a letter. -/
def IsFirstStarting (parameters : List Parameter) (letter : Char) (parameter : Parameter) : Prop :=
  ∃ before after, parameters = before ++ parameter :: after ∧ parameter.StartsWith letter ∧
    ∀ earlier ∈ before, ¬earlier.StartsWith letter

/-- The values that a service takes from parameters, in the order of its arguments: those of three
colours, or that of the first parameter. -/
inductive Supplies (parameters : List Parameter) : Service → List Int → Prop where
  | colours {red green blue : Parameter} {redValue greenValue blueValue : Int}
      (hred : IsFirstStarting parameters 'r' red) (hredValue : Denotes red.value redValue)
      (hgreen : IsFirstStarting parameters 'g' green) (hgreenValue : Denotes green.value greenValue)
      (hblue : IsFirstStarting parameters 'b' blue) (hblueValue : Denotes blue.value blueValue) :
    Supplies parameters .triColorLed [redValue, greenValue, blueValue]
  | first {service : Service} (hservice : service ≠ .triColorLed) {parameter : Parameter}
      {rest : List Parameter} (hfirst : parameters = parameter :: rest) {value : Int}
      (hvalue : Denotes parameter.value value) :
    Supplies parameters service [value]

/-- A comment line starts with two slashes. -/
theorem Board.isPrefix_commentLine (text : String) :
    ['/', '/'] <+: (commentLine text).toList := by
  rcases commentLine_toList text with h | ⟨flat, h, -, -⟩
  · exact ⟨[], h.symm⟩
  · exact ⟨' ' :: flat, h.symm⟩

namespace DeviceCommand

theorem integerValue_eq_ok_iff {raw : String} {value : Int} :
    integerValue raw = .ok value ↔ Denotes raw value := by
  rw [Denotes, ← Text.readInt64?_eq_some_iff, integerValue]
  cases Text.readInt64? (Text.trim raw.toList) <;> simp

/-- The search for a text of one small letter looks for a name that starts with the letter. -/
theorem isPrefixOf_asciiLower_iff {start : String} {letter : Char}
    (hstart : start.toList = [letter]) (hletter : Text.asciiLowerChar letter = letter)
    (parameter : Parameter) :
    (Text.asciiLower start.toList).isPrefixOf (Text.asciiLower parameter.name.toList) = true ↔
      parameter.StartsWith letter := by
  rw [hstart, Parameter.StartsWith]
  cases parameter.name.toList with
  | nil => simp [Text.asciiLower]
  | cons c rest =>
    have hsame : letter = Text.asciiLowerChar c ↔ Text.asciiLowerChar c = letter := eq_comm
    simp [Text.asciiLower, hletter, hsame]

theorem find?_starting_eq_some_iff {start : String} {letter : Char}
    (hstart : start.toList = [letter]) (hletter : Text.asciiLowerChar letter = letter)
    {parameters : List Parameter} {parameter : Parameter} :
    (parameters.find? fun parameter =>
      (Text.asciiLower start.toList).isPrefixOf (Text.asciiLower parameter.name.toList)) =
        some parameter ↔ IsFirstStarting parameters letter parameter := by
  have hiff := isPrefixOf_asciiLower_iff hstart hletter
  rw [List.find?_eq_some_iff_append, hiff]
  constructor
  · rintro ⟨hstarts, before, after, hparts, hbefore⟩
    refine ⟨before, after, hparts, hstarts, fun earlier hearlier => ?_⟩
    rw [← hiff, Bool.not_eq_true]
    simpa using hbefore earlier hearlier
  · rintro ⟨before, after, hparts, hstarts, hbefore⟩
    refine ⟨hstarts, before, after, hparts, fun earlier hearlier => ?_⟩
    have hnot := hbefore earlier hearlier
    rw [← hiff, Bool.not_eq_true] at hnot
    simpa using hnot

section Values

variable {command : DeviceCommand} {value : Int}

theorem valueStarting_eq_ok_iff (start : String) (letter : Char) (hstart : start.toList = [letter])
    (hletter : Text.asciiLowerChar letter = letter) :
    command.valueStarting start = .ok value ↔
      ∃ parameter, IsFirstStarting command.parameters letter parameter ∧
        Denotes parameter.value value := by
  unfold valueStarting parameterStarting
  simp only [← find?_starting_eq_some_iff hstart hletter]
  cases command.parameters.find? _ with
  | none => simp
  | some parameter => simp [integerValue_eq_ok_iff]

theorem firstValue_eq_ok_iff :
    command.firstValue = .ok value ↔
      ∃ parameter rest, command.parameters = parameter :: rest ∧
        Denotes parameter.value value := by
  unfold firstValue
  cases command.parameters with
  | nil => simp
  | cons parameter rest => simp [integerValue_eq_ok_iff]

theorem values_eq_ok_iff {service : Service} {values : List Int} :
    command.values service = .ok values ↔ Supplies command.parameters service values := by
  constructor
  · intro h
    unfold DeviceCommand.values at h
    split at h
    · obtain ⟨red, hred, h⟩ := except_bind_eq_ok.1 h
      obtain ⟨green, hgreen, h⟩ := except_bind_eq_ok.1 h
      obtain ⟨blue, hblue, h⟩ := except_bind_eq_ok.1 h
      cases h
      obtain ⟨_, hred, hredValue⟩ := (valueStarting_eq_ok_iff "r" 'r' rfl rfl).1 hred
      obtain ⟨_, hgreen, hgreenValue⟩ := (valueStarting_eq_ok_iff "g" 'g' rfl rfl).1 hgreen
      obtain ⟨_, hblue, hblueValue⟩ := (valueStarting_eq_ok_iff "b" 'b' rfl rfl).1 hblue
      exact .colours hred hredValue hgreen hgreenValue hblue hblueValue
    · rename_i hservice
      obtain ⟨value, hvalue, h⟩ := except_bind_eq_ok.1 h
      cases h
      obtain ⟨parameter, rest, hfirst, hvalue⟩ := firstValue_eq_ok_iff.1 hvalue
      exact .first hservice hfirst hvalue
  · intro h
    cases h with
    | colours hred hredValue hgreen hgreenValue hblue hblueValue =>
      unfold DeviceCommand.values
      dsimp only
      rw [(valueStarting_eq_ok_iff "r" 'r' rfl rfl).2 ⟨_, hred, hredValue⟩,
        (valueStarting_eq_ok_iff "g" 'g' rfl rfl).2 ⟨_, hgreen, hgreenValue⟩,
        (valueStarting_eq_ok_iff "b" 'b' rfl rfl).2 ⟨_, hblue, hblueValue⟩]
      rfl
    | first hservice hfirst hvalue =>
      have hvalue := firstValue_eq_ok_iff.2 ⟨_, _, hfirst, hvalue⟩
      unfold DeviceCommand.values
      split
      · exact absurd rfl hservice
      · rw [hvalue]
        rfl

end Values

/-! ## Calls -/

/-- The call that a command for a service makes: on the slot behind its device, with what its
parameters supply brought into the range of the hardware. -/
structure Makes (command : DeviceCommand) (service : Service) (call : DeviceCall) : Prop where
  service_eq : call.service = service
  slot_eq : call.slot = command.deviceId.toNat + 1
  slot_lt : call.slot < UInt32.size
  arguments : ∃ values, Supplies command.parameters service values ∧
    call.arguments = values.map service.argument

theorem render_eq_ok_iff {command : DeviceCommand} {service : Service}
    (hservice : service.NamedBy command.serviceType) {rendering : Rendering} :
    command.render = .ok rendering ↔
      ∃ call, command.Makes service call ∧ rendering = .supported call := by
  rw [← Service.ofType?_eq_some_iff] at hservice
  unfold render
  rw [hservice]
  dsimp only
  constructor
  · intro h
    split at h
    · cases h
    · rename_i hslot
      obtain ⟨values, hvalues, h⟩ := except_bind_eq_ok.1 h
      cases h
      exact ⟨_, ⟨rfl, rfl, Nat.lt_of_not_ge hslot, values, values_eq_ok_iff.1 hvalues, rfl⟩, rfl⟩
  · rintro ⟨⟨_, slot, arguments⟩, ⟨hcall, hslot, hlt, values, hvalues, harguments⟩, rfl⟩
    dsimp only at hcall hslot hlt harguments
    subst hcall hslot harguments
    rw [if_neg (Nat.not_le_of_lt hlt), values_eq_ok_iff.2 hvalues]
    rfl

/-- A command for a service that the board lacks becomes a comment, whatever it says of devices and
parameters. -/
theorem render_of_not_namedBy {command : DeviceCommand}
    (h : ∀ service : Service, ¬service.NamedBy command.serviceType) :
    command.render = .ok (.unsupported (Board.commentLine (Service.shortName command.serviceType ++
      "." ++ command.operation ++ " is not available on the Hummingbird"))) := by
  unfold render
  rw [Service.ofType?_eq_none_iff.2 h]
  rfl

end DeviceCommand

/-- **Device calls are in range.** A command whose type names no service of the board becomes a
comment, whatever its device and its parameters are. Any other has a result exactly if its device
has a slot and its parameters supply what the service takes. The result is then the call of the
service on that slot, with arguments in the range of the hardware: values beyond it count as the
nearer end, and those of a servo are turned into whole degrees. All failures are defects of the
document. -/
theorem device_calls_in_range (command : DeviceCommand) (file : String) :
    ((∀ service : Service, ¬service.NamedBy command.serviceType) →
      ∃ segment line, Service.LastSegment command.serviceType segment ∧
        line = Board.commentLine
          (segment ++ "." ++ command.operation ++ " is not available on the Hummingbird") ∧
        ['/', '/'] <+: line.toList ∧ '\n' ∉ line.toList ∧
        ∀ deviceId parameters,
          (DeviceCommand.render ⟨command.serviceType, command.operation, deviceId,
            parameters⟩).mapError (Defect.inFile file) = .ok (.unsupported line)) ∧
    (∀ service : Service, service.NamedBy command.serviceType →
      ((∃ rendering, command.render.mapError (Defect.inFile file) = .ok rendering) ↔
        command.deviceId.toNat < 4294967295 ∧
          ∃ values, Supplies command.parameters service values) ∧
      ∀ rendering, command.render.mapError (Defect.inFile file) = .ok rendering →
        ∃ call, command.Makes service call ∧ rendering = .supported call ∧
          rendering.line = "hummingbird." ++ service.setter ++ "(" ++
            String.intercalate ", " (Text.ofNat call.slot :: call.arguments.map Text.ofInt) ++
            ");" ∧
          ∀ argument ∈ call.arguments,
            service.range.1 ≤ argument ∧ argument ≤ service.range.2) ∧
    (∀ error, command.render.mapError (Defect.inFile file) = .error error →
      ∃ details, error = .malformed file details) ∧
    (∀ value : Int, Service.argument .motor value = max (-255) (min 255 value) ∧
      Service.argument .servo value = ⌊((max 0 (min 255 value) : Int) : ℚ) * 180 / 255⌋ ∧
      0 ≤ max 0 (min 255 value) * 180 ∧ max 0 (min 255 value) * 180 < 9223372036854775808 ∧
      ∀ service : Service, service ≠ .motor → service ≠ .servo →
        service.argument value = max 0 (min 255 value)) ∧
    Monotone (Service.argument .servo) ∧ Service.argument .servo 0 = 0 ∧
      Service.argument .servo 255 = 180 := by
  refine ⟨fun h => ?_, fun service hservice => ⟨?_, fun rendering h => ?_⟩, fun error h => ?_,
    fun value => ?_, Service.argument_servo_mono, by decide, by decide⟩
  · refine ⟨_, _, Service.lastSegment_iff.2 rfl, rfl, Board.isPrefix_commentLine _,
      Board.newline_not_mem_commentLine _, fun deviceId parameters => ?_⟩
    exact mapError_eq_ok.2 (DeviceCommand.render_of_not_namedBy h)
  · have hsize : UInt32.size = 4294967296 := rfl
    simp only [mapError_eq_ok, DeviceCommand.render_eq_ok_iff hservice]
    constructor
    · rintro ⟨_, call, ⟨-, hslot, hlt, values, hvalues, -⟩, -⟩
      exact ⟨by omega, values, hvalues⟩
    · rintro ⟨hdevice, values, hvalues⟩
      have hslot : command.deviceId.toNat + 1 < UInt32.size := by omega
      exact ⟨_, ⟨service, command.deviceId.toNat + 1, values.map service.argument⟩,
        ⟨rfl, rfl, hslot, values, hvalues, rfl⟩, rfl⟩
  · obtain ⟨call, hcall, rfl⟩ := (DeviceCommand.render_eq_ok_iff hservice).1 (mapError_eq_ok.1 h)
    refine ⟨call, hcall, rfl, ?_, fun argument hargument => ?_⟩
    · rw [← hcall.service_eq]
      rfl
    · obtain ⟨values, -, harguments⟩ := hcall.arguments
      rw [harguments] at hargument
      obtain ⟨value, -, rfl⟩ := List.mem_map.1 hargument
      exact service.argument_mem_range value
  · obtain ⟨defect, -, rfl⟩ := mapError_eq_error.1 h
    exact ⟨defect.message, rfl⟩
  · refine ⟨rfl, Service.argument_servo_eq_floor value, by omega, by omega,
      fun service hmotor hservo => ?_⟩
    cases service with
    | motor => exact absurd rfl hmotor
    | servo => exact absurd rfl hservo
    | _ => rfl

/-- A servo that is told to turn past its end turns to the end. No slot is left behind the last
device, and a speaker, which the board lacks, becomes a comment even there. -/
theorem servo_call_in_range :
    (Service.NamedBy .servo "::TeRK:::SimpleServoService " ∧
      (DeviceCommand.render ⟨"::TeRK:::SimpleServoService ", "turn", 3,
        [⟨"position", " +300 "⟩]⟩).mapError (Defect.inFile "turn.xml") =
          .ok (.supported ⟨.servo, 4, [180]⟩) ∧
      Rendering.line (.supported ⟨.servo, 4, [180]⟩) = "hummingbird." ++ "setServo" ++ "(" ++
        String.intercalate ", " ["4", "180"] ++ ");") ∧
    (∃ error details, (DeviceCommand.render ⟨"ServoService", "turn", 4294967295,
      [⟨"position", "0"⟩]⟩).mapError (Defect.inFile "turn.xml") = .error error ∧
        error = .malformed "turn.xml" details) ∧
    (∀ service : Service, ¬service.NamedBy "::TeRK::audio::AudioService") ∧
    ∃ line, (DeviceCommand.render ⟨"::TeRK::audio::AudioService", "play", 4294967295,
      []⟩).mapError (Defect.inFile "turn.xml") = .ok (.unsupported line) := by
  have hservo : Service.NamedBy .servo "::TeRK:::SimpleServoService " :=
    Service.ofType?_eq_some_iff.1 (by decide)
  have hspeaker : ∀ service : Service, ¬service.NamedBy "::TeRK::audio::AudioService" :=
    Service.ofType?_eq_none_iff.1 (by decide)
  have hrender : (DeviceCommand.render ⟨"::TeRK:::SimpleServoService ", "turn", 3,
      [⟨"position", " +300 "⟩]⟩).mapError (Defect.inFile "turn.xml") =
        .ok (.supported ⟨.servo, 4, [180]⟩) := by decide
  obtain ⟨_, -, hcall, hline, -⟩ :=
    ((device_calls_in_range ⟨"::TeRK:::SimpleServoService ", "turn", 3, [⟨"position", " +300 "⟩]⟩
      "turn.xml").2.1 .servo hservo).2 _ hrender
  cases hcall
  refine ⟨⟨hservo, hrender, hline⟩, ?_, hspeaker, ?_⟩
  · have hfails : (DeviceCommand.render ⟨"ServoService", "turn", 4294967295,
        [⟨"position", "0"⟩]⟩).mapError (Defect.inFile "turn.xml") =
          .error ((Defect.deviceOutOfRange 4294967295).inFile "turn.xml") := by decide
    obtain ⟨details, hdetails⟩ := (device_calls_in_range _ "turn.xml").2.2.1 _ hfails
    exact ⟨_, details, hfails, hdetails⟩
  · obtain ⟨_, line, -, -, -, -, hline⟩ := (device_calls_in_range
      ⟨"::TeRK::audio::AudioService", "play", 0, []⟩ "turn.xml").1 hspeaker
    exact ⟨line, hline 4294967295 []⟩

end RobotSketch
