import RobotSketch.Exchange

/-!
# Round trips through JSON

What is written as JSON reads back, and what is read from any JSON reads back too once it is
written (`RoundTrips`). Records are written as objects with a member for each field; a decoder finds
these again whatever it does about other objects and about arrays (`fields?_object`). Elements nest,
so their round trip is by induction on the element (`decodeWithin?_encode`), while what is known of
an element that was read is by induction on the size of the value (`readFrom_of_decodeWithin?`): its
positions have 64 bits, and its thresholds are numbers of the value brought into 0 to 100. The main
statement is `exchange_round_trips`.
-/
namespace RobotSketch

/-! ## Records -/

namespace Json

theorem mapM_eq_some_map {α β : Type} {decode : α → Option β} {value : α → β} {list : List α}
    (h : ∀ a ∈ list, decode a = some (value a)) : list.mapM decode = some (list.map value) := by
  induction list with
  | nil => rfl
  | cons a list ih =>
    rw [List.mapM_cons, h a List.mem_cons_self, ih fun b hb => h b (List.mem_cons_of_mem _ hb)]
    rfl

theorem mem_of_mapM {α β : Type} {decode : α → Option β} {list : List α} {values : List β}
    (h : list.mapM decode = some values) {value : β} (hvalue : value ∈ values) :
    ∃ a ∈ list, decode a = some value := by
  induction list generalizing values with
  | nil =>
    obtain rfl := Option.some.inj h
    cases hvalue
  | cons a list ih =>
    rw [List.mapM_cons] at h
    obtain ⟨first, hfirst, h⟩ := Option.bind_eq_some_iff.1 h
    obtain ⟨rest, hrest, h⟩ := Option.bind_eq_some_iff.1 h
    obtain rfl := Option.some.inj h
    cases hvalue with
    | head => exact ⟨a, List.mem_cons_self, hfirst⟩
    | tail _ hvalue =>
      obtain ⟨b, hb, hdecode⟩ := ih hrest hvalue
      exact ⟨b, List.mem_cons_of_mem _ hb, hdecode⟩

/-- The members of an object as the fields of a record. -/
def ownFields (members : List (String × Json)) : List (Option (Part (.object members))) :=
  members.attach.map fun ⟨member, h⟩ => some ⟨member.2, sizeOf_lt_of_mem_members h⟩

/-- The value of a member, if it has a given name. -/
def valueNamed? (name : String) (member : String × Json) : Option Json :=
  if member.1 == name then some member.2 else none

theorem map_membersNamed (members : List (String × Json)) (name : String) :
    (membersNamed members name).map (·.1) = members.filterMap (valueNamed? name) := by
  have hvalue : (membersNamed members name).map (·.1) =
      (members.attach.map Subtype.val).filterMap (valueNamed? name) := by
    rw [membersNamed, List.map_filterMap, List.filterMap_map]
    congr 1
    funext ⟨member, hmember⟩
    simp only [Function.comp_apply, valueNamed?]
    split <;> rfl
  rw [hvalue, List.attach_map_subtype_val]

theorem filterMap_valueNamed? {members : List (String × Json)} {member : String × Json}
    (hnames : (members.map (·.1)).Nodup) (h : member ∈ members) :
    members.filterMap (valueNamed? member.1) = [member.2] := by
  induction members with
  | nil => cases h
  | cons first members ih =>
    rw [List.map_cons, List.nodup_cons] at hnames
    obtain ⟨hfirst, hnames⟩ := hnames
    rcases List.mem_cons.1 h with rfl | h
    · have hnone : members.filterMap (valueNamed? member.1) = [] := by
        refine List.filterMap_eq_nil_iff.2 fun other hother => if_neg fun hname => hfirst ?_
        rw [← beq_iff_eq.1 hname]
        exact List.mem_map_of_mem hother
      rw [List.filterMap_cons_some (by rw [valueNamed?, if_pos (beq_self_eq_true _)]), hnone]
    · have hother : valueNamed? member.1 first = none := by
        refine if_neg fun hname => hfirst ?_
        rw [beq_iff_eq.1 hname]
        exact List.mem_map_of_mem h
      rw [List.filterMap_cons_none hother, ih hnames h]

/-- An object with a member for each field of a record, in their order, has these fields. -/
theorem fields?_object {members : List (String × Json)} {names : List String}
    (hmembers : members.map (·.1) = names) (h : names.Nodup) :
    (Json.object members).fields? names = some (ownFields members) := by
  subst hmembers
  have hnames : members.map (·.1) = members.attach.map fun member => member.1.1 := by
    rw [List.attach_map_val]
  show (members.map (·.1)).mapM (fun name => atMostOne (membersNamed members name)) = _
  rw [hnames, List.mapM_map]
  refine mapM_eq_some_map fun ⟨member, hmember⟩ _ => ?_
  have hvalue := map_membersNamed members member.1
  rw [filterMap_valueNamed? h hmember] at hvalue
  obtain ⟨part, hpart, hmap⟩ := List.map_eq_singleton_iff.1 hvalue
  show atMostOne (membersNamed members member.1) = _
  rw [hpart]
  exact congrArg (fun part => some (some part)) (Subtype.ext hmap)

/-! ### Values inside others -/

/-- One value is inside another, at any depth. -/
inductive Inside : Json → Json → Prop where
  | item {item : Json} {items : List Json} : item ∈ items → Inside item (.array items)
  | member {member : String × Json} {members : List (String × Json)} :
    member ∈ members → Inside member.2 (.object members)
  | trans {a b c : Json} : Inside a b → Inside b c → Inside a c

theorem inside_of_items? {json : Json} {parts : List (Part json)} (h : json.items? = some parts)
    {part : Part json} (hpart : part ∈ parts) : part.1.Inside json := by
  cases json with
  | array items =>
    obtain rfl := Option.some.inj h
    obtain ⟨⟨item, hitem⟩, -, rfl⟩ := List.mem_map.1 hpart
    exact .item hitem
  | _ => cases h

theorem mem_of_atMostOne {α : Type} {list : List α} {value : α}
    (h : atMostOne list = some (some value)) : value ∈ list := by
  unfold atMostOne at h
  split at h
  · cases h
  · obtain rfl := Option.some.inj (Option.some.inj h)
    exact List.mem_cons_self
  · cases h

/-- The fields of a record are values inside it. -/
theorem inside_of_fields? {json : Json} {names : List String} {fields : List (Option (Part json))}
    (h : json.fields? names = some fields) {part : Part json} (hpart : some part ∈ fields) :
    part.1.Inside json := by
  cases json with
  | array items =>
    change (if items.length = names.length then _ else none) = some fields at h
    split at h
    · obtain rfl := Option.some.inj h
      obtain ⟨⟨item, hitem⟩, -, heq⟩ := List.mem_map.1 hpart
      obtain rfl := Option.some.inj heq
      exact .item hitem
    · cases h
  | object members =>
    obtain ⟨name, -, hname⟩ := mem_of_mapM h hpart
    obtain ⟨⟨member, hmember⟩, -, heq⟩ := List.mem_filterMap.1 (mem_of_atMostOne hname)
    dsimp only at heq
    split at heq
    · obtain rfl := Option.some.inj heq
      exact .member hmember
    · cases heq
  | _ => cases h

/-! ### Numbers and lists -/

theorem nat?_ofNat {bound n : Nat} (h : n < bound) : (ofNat n).nat? bound = some n := if_pos h

theorem lt_of_nat? {json : Json} {bound n : Nat} (h : json.nat? bound = some n) : n < bound := by
  unfold nat? at h
  split at h
  · split at h
    · rename_i hbound
      obtain rfl := Option.some.inj h
      exact hbound
    · cases h
  · cases h

theorem uint8?_ofNat (n : UInt8) : (ofNat n.toNat).uint8? = some n := by
  rw [uint8?, nat?_ofNat n.toNat_lt, Option.map_some, UInt8.ofNat_toNat]

theorem uint32?_ofNat (n : UInt32) : (ofNat n.toNat).uint32? = some n := by
  rw [uint32?, nat?_ofNat n.toNat_lt, Option.map_some, UInt32.ofNat_toNat]

theorem list?_array {α : Type} (items : List Json) (decode : Json → Option α) :
    (Json.array items).list? decode = items.mapM decode := by
  have hitems : items.mapM decode = (items.attach.map Subtype.val).mapM decode := by
    rw [List.attach_map_subtype_val]
  rw [hitems, List.mapM_map]
  exact List.mapM_map

theorem list?_ofList {α : Type} {encode : α → Json} {decode : Json → Option α}
    (h : ∀ value, decode (encode value) = some value) (values : List α) :
    (ofList encode values).list? decode = some values := by
  have hall : values.mapM (decode ∘ encode) = some (values.map id) :=
    mapM_eq_some_map fun value _ => h value
  rw [ofList, list?_array, List.mapM_map, hall, List.map_id]

theorem eq_integer_of_integer? {json : Json} {low high number : Int}
    (h : json.integer? low high = some number) : json = .integer number := by
  unfold integer? at h
  split at h
  · split at h
    · rw [Option.some.inj h]
    · cases h
  · cases h

end Json

open Json (ofNat)

theorem Parameter.decode?_encode (parameter : Parameter) :
    decode? parameter.encode = some parameter := by
  have hfields : parameter.encode.fields? ["name", "value"] = some (Json.ownFields _) :=
    Json.fields?_object rfl (by decide)
  rw [decode?, hfields]
  rfl

theorem DeviceCommand.decode?_encode (command : DeviceCommand) :
    decode? command.encode = some command := by
  have hfields : command.encode.fields? ["service_type", "operation", "device_id", "parameters"] =
      some (Json.ownFields _) := Json.fields?_object rfl (by decide)
  rw [decode?, hfields]
  show (do
    let deviceId ← (ofNat command.deviceId.toNat).uint32?
    let parameters ← (Json.ofList Parameter.encode command.parameters).list? Parameter.decode?
    return ⟨command.serviceType, command.operation, deviceId, parameters⟩) = some command
  rw [Json.uint32?_ofNat, Json.list?_ofList Parameter.decode?_encode]
  rfl

theorem Expression.decode?_encode (expression : Expression) :
    decode? expression.encode = some expression := by
  have hfields : expression.encode.fields? ["commands", "delay_millis"] =
      some (Json.ownFields _) := Json.fields?_object rfl (by decide)
  rw [decode?, hfields]
  show (do
    let commands ← (Json.ofList DeviceCommand.encode expression.commands).list?
      DeviceCommand.decode?
    let delay ← (ofNat expression.delay.toNat).uint32?
    return ⟨commands, delay⟩) = some expression
  rw [Json.uint32?_ofNat, Json.list?_ofList DeviceCommand.decode?_encode]
  rfl

/-- The record of a sensor with any number for its threshold. -/
def SensorSpec.record (sensor : String) (slot : UInt8) (number : Int) : Json :=
  .object [
    ("sensor_type", .string sensor),
    ("port", ofNat slot.toNat),
    ("threshold_percentage", .integer number)]

/-- The threshold of a sensor is the percentage nearest to the number in its record. -/
theorem SensorSpec.decode?_record (sensor : String) (slot : UInt8) {number : Int}
    (h : -9223372036854775808 ≤ number ∧ number ≤ 9223372036854775807) :
    decode? (record sensor slot number) = some ⟨sensor, slot, .nearest number⟩ := by
  have hfields : (record sensor slot number).fields?
      ["sensor_type", "port", "threshold_percentage"] = some (Json.ownFields _) :=
    Json.fields?_object rfl (by decide)
  have hnumber : (Json.integer number).integer? (-9223372036854775808) 9223372036854775807 =
      some number := if_pos h
  rw [decode?, hfields]
  show (do
    let slot ← (ofNat slot.toNat).uint8?
    let number ← (Json.integer number).integer? (-9223372036854775808) 9223372036854775807
    return ⟨sensor, slot, .nearest number⟩ : Option SensorSpec) = _
  rw [Json.uint8?_ofNat, hnumber]
  rfl

theorem SensorSpec.decode?_encode (spec : SensorSpec) : decode? spec.encode = some spec := by
  have hvalue := spec.threshold.le_hundred
  have hrecord : spec.encode = record spec.sensor spec.slot spec.threshold.value := rfl
  rw [hrecord, decode?_record _ _ (by omega), Percent.nearest_value]

/-- The threshold of a sensor is a number of a value, brought into 0 to 100. -/
def SensorSpec.ReadFrom (json : Json) (spec : SensorSpec) : Prop :=
  ∃ number : Int, (Json.integer number).Inside json ∧
    (spec.threshold.value : Int) = max 0 (min 100 number)

theorem SensorSpec.ReadFrom.of_inside {part json : Json} {spec : SensorSpec}
    (hpart : part.Inside json) (h : spec.ReadFrom part) : spec.ReadFrom json := by
  obtain ⟨number, hnumber, hthreshold⟩ := h
  exact ⟨number, hnumber.trans hpart, hthreshold⟩

theorem SensorSpec.readFrom_of_decode? {json : Json} {spec : SensorSpec}
    (h : decode? json = some spec) : spec.ReadFrom json := by
  unfold decode? at h
  obtain ⟨fields, hfields, h⟩ := Option.bind_eq_some_iff.1 h
  split at h
  next sensor slot threshold =>
    obtain ⟨sensor, -, h⟩ := Option.bind_eq_some_iff.1 h
    obtain ⟨slot, -, h⟩ := Option.bind_eq_some_iff.1 h
    obtain ⟨number, hnumber, h⟩ := Option.bind_eq_some_iff.1 h
    obtain rfl := Option.some.inj h
    obtain ⟨part, rfl, hnumber⟩ := Option.bind_eq_some_iff.1 hnumber
    have hpart : part.1.Inside json := Json.inside_of_fields? hfields (by simp)
    rw [Json.eq_integer_of_integer? hnumber] at hpart
    exact ⟨number, hpart, Percent.value_nearest number⟩
  next => cases h

theorem Decision.decode?_encode (decision : Decision) :
    decode? decision.encode = some decision := by
  cases decision <;> rfl

namespace Error

theorem decodePair?_object {first second : String} (h : first ≠ second) (a b : String) :
    decodePair? first second (.object [(first, .string a), (second, .string b)]) = some (a, b) := by
  have hfields : (Json.object [(first, .string a), (second, .string b)]).fields? [first, second] =
      some (Json.ownFields _) := Json.fields?_object rfl (by simpa using h)
  rw [decodePair?, hfields]
  rfl

theorem decode?_encode (error : Error) : decode? error.encode = some error := by
  cases error
  all_goals
    simp only [encode, kind, decode?]
    rw [decodePair?_object (by decide)]
    rfl

end Error

/-! ## Elements -/

namespace Element

mutual

/-- The positions of an element and of those in it have 64 bits. -/
def Fits : Element → Prop
  | .expression place _ _ => place.position < UInt64.size
  | .sequence place _ => place.position < UInt64.size
  | .counterLoop place _ children => place.position < UInt64.size ∧ AllFit children
  | .conditional place _ _ _ ifBranch elseBranch =>
    place.position < UInt64.size ∧ AllFit ifBranch ∧ AllFit elseBranch

/-- The positions of elements and of those in them have 64 bits. -/
def AllFit : List Element → Prop
  | [] => True
  | element :: rest => element.Fits ∧ AllFit rest

end

mutual

def sensors : Element → List SensorSpec
  | .expression _ _ _ => []
  | .sequence _ _ => []
  | .counterLoop _ _ children => sensorsAll children
  | .conditional _ spec _ _ ifBranch elseBranch =>
    spec :: (sensorsAll ifBranch ++ sensorsAll elseBranch)

def sensorsAll : List Element → List SensorSpec
  | [] => []
  | element :: rest => element.sensors ++ sensorsAll rest

end

/-! ### What is written reads back -/

theorem decodeField?_array {json : Json} {items : List Json}
    {hitems : sizeOf (Json.array items) < sizeOf json} {decode : Json → Option Element}
    {elements : List Element} (h : items.mapM decode = some elements) :
    decodeField? (some ⟨.array items, hitems⟩ : Option (Json.Part json))
      (fun part _ => decode part) = some elements := by
  show (Json.array items).list? decode = _
  rw [Json.list?_array, h]

theorem decodeKind?_object (place : Place) (tag : String) (data : List (String × Json))
    (decode : Bool → Json → Option Element) :
    decodeKind? false place (.object [("kind", .string tag), ("data", .object data)])
        (fun held part _ => decode held part) =
      decodeData? place tag (.object data) (fun part _ => decode false part) := by
  have hfields : (Json.object [("kind", .string tag), ("data", .object data)]).fields?
      ["kind", "data"] = some (Json.ownFields _) := Json.fields?_object rfl (by decide)
  rw [decodeKind?, hfields]
  rfl

/-- The record of an element comes down to its data, read as they are written. -/
theorem decodeRecord?_encodeRecord {place : Place} (h : place.position < UInt64.size)
    (tag : String) (data : List (String × Json)) (decode : Bool → Json → Option Element) :
    decodeRecord? false (encodeRecord place tag data) (fun held part _ => decode held part) =
      decodeData? place tag (.object data) (fun part _ => decode false part) := by
  have hfields : (encodeRecord place tag data).fields? ["position", "comment", "kind"] =
      some (Json.ownFields _) := Json.fields?_object rfl (by decide)
  rw [decodeRecord?, hfields]
  show ((ofNat place.position).nat? UInt64.size >>= _) = _
  rw [Json.nat?_ofNat h]
  obtain ⟨position, comment⟩ := place
  -- the comment is a string or null
  cases comment with
  | none => exact decodeKind?_object _ tag data decode
  | some comment => exact decodeKind?_object _ tag data decode

mutual

theorem decodeWithin?_encode : ∀ {element : Element}, element.Fits →
    decodeWithin? false element.encode = some element
  | .expression place file delay, h => by
    rw [Fits] at h
    have hfields : (Json.object [("file", .string file),
        ("delay_millis", ofNat delay.toNat)]).fields? ["file", "delay_millis"] =
          some (Json.ownFields _) := Json.fields?_object rfl (by decide)
    rw [decodeWithin?, encode, decodeRecord?_encodeRecord h, decodeData?, hfields]
    show ((ofNat delay.toNat).uint32? >>= _) = _
    rw [Json.uint32?_ofNat]
    rfl
  | .sequence place file, h => by
    rw [Fits] at h
    have hfields : (Json.object [("file", .string file)]).fields? ["file"] =
        some (Json.ownFields _) := Json.fields?_object rfl (by decide)
    rw [decodeWithin?, encode, decodeRecord?_encodeRecord h, decodeData?, hfields]
    rfl
  | .counterLoop place iterations children, h => by
    rw [Fits] at h
    obtain ⟨hplace, hchildren⟩ := h
    have hlist := mapM_decodeWithin?_encodeAll hchildren
    have hfields : (Json.object [("iterations", ofNat iterations.toNat),
        ("children", .array (encodeAll children))]).fields? ["iterations", "children"] =
          some (Json.ownFields _) := Json.fields?_object rfl (by decide)
    rw [decodeWithin?, encode, decodeRecord?_encodeRecord hplace, decodeData?, hfields]
    show ((ofNat iterations.toNat).uint32? >>= _) = _
    rw [Json.uint32?_ofNat]
    show (decodeField? (some ⟨.array (encodeAll children), _⟩) _ >>= _) = _
    rw [decodeField?_array hlist]
    rfl
  | .conditional place spec ifRepeats elseRepeats ifBranch elseBranch, h => by
    rw [Fits] at h
    obtain ⟨hplace, hif, helse⟩ := h
    have hifList := mapM_decodeWithin?_encodeAll hif
    have helseList := mapM_decodeWithin?_encodeAll helse
    have hfields : (Json.object [("sensor", spec.encode), ("if_repeats", .bool ifRepeats),
        ("else_repeats", .bool elseRepeats), ("if_branch", .array (encodeAll ifBranch)),
        ("else_branch", .array (encodeAll elseBranch))]).fields?
          ["sensor", "if_repeats", "else_repeats", "if_branch", "else_branch"] =
            some (Json.ownFields _) := Json.fields?_object rfl (by decide)
    rw [decodeWithin?, encode, decodeRecord?_encodeRecord hplace, decodeData?, hfields]
    show (SensorSpec.decode? spec.encode >>= _) = _
    rw [SensorSpec.decode?_encode]
    show (decodeField? (some ⟨.array (encodeAll ifBranch), _⟩) _ >>= _) = _
    rw [decodeField?_array hifList]
    show (decodeField? (some ⟨.array (encodeAll elseBranch), _⟩) _ >>= _) = _
    rw [decodeField?_array helseList]
    rfl

theorem mapM_decodeWithin?_encodeAll : ∀ {elements : List Element}, AllFit elements →
    (encodeAll elements).mapM (decodeWithin? false) = some elements
  | [], _ => by
    rw [encodeAll]
    rfl
  | element :: rest, h => by
    rw [AllFit] at h
    rw [encodeAll, List.mapM_cons, decodeWithin?_encode h.1, mapM_decodeWithin?_encodeAll h.2]
    rfl

end

/-! ### What is read -/

theorem allFit_iff {elements : List Element} :
    AllFit elements ↔ ∀ element ∈ elements, element.Fits := by
  induction elements with
  | nil => simp [AllFit]
  | cons element rest ih => simp [AllFit, ih]

theorem mem_sensorsAll {spec : SensorSpec} {elements : List Element} :
    spec ∈ sensorsAll elements ↔ ∃ element ∈ elements, spec ∈ element.sensors := by
  induction elements with
  | nil => simp [sensorsAll]
  | cons element rest ih => simp [sensorsAll, ih]

/-- What is known of an element that was read from a value, or from a value inside it. -/
structure ReadFrom (json : Json) (element : Element) : Prop where
  fits : element.Fits
  sensors : ∀ spec ∈ element.sensors, spec.ReadFrom json

theorem ReadFrom.of_inside {part json : Json} {element : Element} (hpart : part.Inside json)
    (h : element.ReadFrom part) : element.ReadFrom json where
  fits := h.fits
  sensors := fun spec hspec => (h.sensors spec hspec).of_inside hpart

section

variable {json : Json} {place : Place} {ifBranch elseBranch elements : List Element}

theorem allFit_of_readFrom (h : ∀ element ∈ elements, element.ReadFrom json) : AllFit elements :=
  allFit_iff.2 fun element helement => (h element helement).fits

theorem readFrom_of_mem_sensorsAll (h : ∀ element ∈ elements, element.ReadFrom json)
    {spec : SensorSpec} (hspec : spec ∈ sensorsAll elements) : spec.ReadFrom json := by
  obtain ⟨element, helement, hspec⟩ := mem_sensorsAll.1 hspec
  exact (h element helement).sensors spec hspec

theorem readFrom_counterLoop (hplace : place.position < UInt64.size) (iterations : UInt32)
    (h : ∀ element ∈ elements, element.ReadFrom json) :
    (counterLoop place iterations elements).ReadFrom json :=
  ⟨⟨hplace, allFit_of_readFrom h⟩, fun _ => readFrom_of_mem_sensorsAll h⟩

theorem readFrom_conditional (hplace : place.position < UInt64.size) {spec : SensorSpec}
    (hspec : spec.ReadFrom json) (ifRepeats elseRepeats : Bool)
    (hif : ∀ element ∈ ifBranch, element.ReadFrom json)
    (helse : ∀ element ∈ elseBranch, element.ReadFrom json) :
    (conditional place spec ifRepeats elseRepeats ifBranch elseBranch).ReadFrom json := by
  refine ⟨⟨hplace, allFit_of_readFrom hif, allFit_of_readFrom helse⟩, fun other hother => ?_⟩
  rw [Element.sensors, List.mem_cons, List.mem_append] at hother
  obtain rfl | hother | hother := hother
  · exact hspec
  · exact readFrom_of_mem_sensorsAll hif hother
  · exact readFrom_of_mem_sensorsAll helse hother

end

/-- What is known of the elements inside a value. -/
def Inner.Sound {json : Json} (inner : Inner json) : Prop :=
  ∀ {part : Json} {hpart : sizeOf part < sizeOf json} {element : Element},
    inner part hpart = some element → element.ReadFrom part

theorem readFrom_of_decodeField? {json : Json} {inner : Inner json} (hinner : inner.Sound)
    {names : List String} {fields : List (Option (Json.Part json))}
    (hfields : json.fields? names = some fields) {field : Option (Json.Part json)}
    (hfield : field ∈ fields) {elements : List Element}
    (h : decodeField? field inner = some elements) :
    ∀ element ∈ elements, element.ReadFrom json := by
  intro element helement
  obtain ⟨list, rfl, h⟩ := Option.bind_eq_some_iff.1 h
  obtain ⟨items, hitems, h⟩ := Option.bind_eq_some_iff.1 h
  obtain ⟨item, hitem, h⟩ := Json.mem_of_mapM h helement
  have hlist := Json.inside_of_fields? hfields hfield
  exact (hinner h).of_inside ((Json.inside_of_items? hitems hitem).trans hlist)

theorem readFrom_of_decodeData? {place : Place} (hplace : place.position < UInt64.size)
    {tag : String} {data : Json} {inner : Inner data} (hinner : inner.Sound) {element : Element}
    (h : decodeData? place tag data inner = some element) : element.ReadFrom data := by
  unfold decodeData? at h
  split at h
  -- an expression
  · obtain ⟨fields, -, h⟩ := Option.bind_eq_some_iff.1 h
    split at h
    · obtain ⟨file, -, h⟩ := Option.bind_eq_some_iff.1 h
      obtain ⟨delay, -, h⟩ := Option.bind_eq_some_iff.1 h
      obtain rfl := Option.some.inj h
      exact ⟨hplace, nofun⟩
    · cases h
  -- a sequence
  · obtain ⟨fields, -, h⟩ := Option.bind_eq_some_iff.1 h
    split at h
    · obtain ⟨file, -, h⟩ := Option.bind_eq_some_iff.1 h
      obtain rfl := Option.some.inj h
      exact ⟨hplace, nofun⟩
    · cases h
  -- a counter loop
  · obtain ⟨fields, hfields, h⟩ := Option.bind_eq_some_iff.1 h
    split at h
    · obtain ⟨iterations, -, h⟩ := Option.bind_eq_some_iff.1 h
      obtain ⟨children, hchildren, h⟩ := Option.bind_eq_some_iff.1 h
      obtain rfl := Option.some.inj h
      exact readFrom_counterLoop hplace iterations
        (readFrom_of_decodeField? hinner hfields (by simp) hchildren)
    · cases h
  -- a conditional
  · obtain ⟨fields, hfields, h⟩ := Option.bind_eq_some_iff.1 h
    split at h
    · obtain ⟨spec, hspec, h⟩ := Option.bind_eq_some_iff.1 h
      obtain ⟨ifRepeats, -, h⟩ := Option.bind_eq_some_iff.1 h
      obtain ⟨elseRepeats, -, h⟩ := Option.bind_eq_some_iff.1 h
      obtain ⟨ifBranch, hif, h⟩ := Option.bind_eq_some_iff.1 h
      obtain ⟨elseBranch, helse, h⟩ := Option.bind_eq_some_iff.1 h
      obtain rfl := Option.some.inj h
      obtain ⟨part, rfl, hspec⟩ := Option.bind_eq_some_iff.1 hspec
      have hpart : part.1.Inside data := Json.inside_of_fields? hfields (by simp)
      exact readFrom_conditional hplace ((SensorSpec.readFrom_of_decode? hspec).of_inside hpart)
        ifRepeats elseRepeats (readFrom_of_decodeField? hinner hfields (by simp) hif)
        (readFrom_of_decodeField? hinner hfields (by simp) helse)
    · cases h
  · cases h

theorem readFrom_of_decodeKind? {held : Bool} {place : Place}
    (hplace : place.position < UInt64.size) {kind : Json} {inner : Bool → Inner kind}
    (hinner : ∀ held, (inner held).Sound) {element : Element}
    (h : decodeKind? held place kind inner = some element) : element.ReadFrom kind := by
  obtain ⟨fields, hfields, h⟩ := Option.bind_eq_some_iff.1 h
  match fields with
  | [tag, data] =>
    obtain ⟨tag, -, h⟩ := Option.bind_eq_some_iff.1 h
    obtain ⟨part, hdata, h⟩ := Option.bind_eq_some_iff.1 h
    obtain ⟨-, -, h⟩ := Option.bind_eq_some_iff.1 h
    have hpart : part.1.Inside kind := Json.inside_of_fields? hfields (by simp [hdata])
    exact (readFrom_of_decodeData? hplace (hinner _) h).of_inside hpart
  | [] | [_] | _ :: _ :: _ :: _ => cases h

theorem readFrom_of_decodeRecord? {held : Bool} {json : Json} {inner : Bool → Inner json}
    (hinner : ∀ held, (inner held).Sound) {element : Element}
    (h : decodeRecord? held json inner = some element) : element.ReadFrom json := by
  obtain ⟨fields, hfields, h⟩ := Option.bind_eq_some_iff.1 h
  split at h
  next position comment kind =>
    obtain ⟨position, hposition, h⟩ := Option.bind_eq_some_iff.1 h
    obtain ⟨comment, -, h⟩ := Option.bind_eq_some_iff.1 h
    obtain ⟨part, hkind, h⟩ := Option.bind_eq_some_iff.1 h
    obtain ⟨_, -, hposition⟩ := Option.bind_eq_some_iff.1 hposition
    have hplace : (Place.mk position comment).position < UInt64.size := Json.lt_of_nat? hposition
    have hpart : part.1.Inside json := Json.inside_of_fields? hfields (by simp [hkind])
    exact (readFrom_of_decodeKind? hplace (fun held => hinner held) h).of_inside hpart
  next => cases h

/-- What is read has positions of 64 bits, and its thresholds are from the value. -/
theorem readFrom_of_decodeWithin? {held : Bool} {json : Json} {element : Element}
    (h : decodeWithin? held json = some element) : element.ReadFrom json := by
  rw [decodeWithin?] at h
  exact readFrom_of_decodeRecord? (fun _ _ _ _ hpart => readFrom_of_decodeWithin? hpart) h
termination_by sizeOf json

end Element

/-! ## Round trips -/

/-- What can be built is written so that it reads back, and all that is read can be built, so that
it reads back too. -/
structure RoundTrips {α : Type} (encode : α → Json) (decode? : Json → Option α)
    (Built : α → Prop) : Prop where
  written : ∀ value, Built value → decode? (encode value) = some value
  read : ∀ json value, decode? json = some value →
    Built value ∧ decode? (encode value) = some value

theorem RoundTrips.of_built {α : Type} {encode : α → Json} {decode? : Json → Option α}
    {Built : α → Prop} (hwritten : ∀ value, Built value → decode? (encode value) = some value)
    (hread : ∀ json value, decode? json = some value → Built value) :
    RoundTrips encode decode? Built where
  written := hwritten
  read := fun json value h => ⟨hread json value h, hwritten value (hread json value h)⟩

theorem RoundTrips.of_all {α : Type} {encode : α → Json} {decode? : Json → Option α}
    (h : ∀ value, decode? (encode value) = some value) :
    RoundTrips encode decode? (fun _ => True) :=
  .of_built (fun value _ => h value) fun _ _ _ => trivial

/-- All that the exchange format carries makes the round trip, elements of any depth with positions
of 64 bits among it. Wherever a sensor is read, any 64-bit number is taken for its threshold and is
brought into 0 to 100. -/
theorem exchange_round_trips :
    RoundTrips Element.encode Element.decode? Element.Fits ∧
      RoundTrips SensorSpec.encode SensorSpec.decode? (fun _ => True) ∧
      RoundTrips Expression.encode Expression.decode? (fun _ => True) ∧
      RoundTrips DeviceCommand.encode DeviceCommand.decode? (fun _ => True) ∧
      RoundTrips Decision.encode Decision.decode? (fun _ => True) ∧
      RoundTrips Error.encode Error.decode? (fun _ => True) ∧
      (∀ json element, Element.decode? json = some element → ∀ spec ∈ element.sensors,
        spec.threshold.value ≤ 100 ∧ spec.ReadFrom json) ∧
      (∀ json spec, SensorSpec.decode? json = some spec →
        spec.threshold.value ≤ 100 ∧ spec.ReadFrom json) ∧
      ∀ sensor slot (number : Int), -9223372036854775808 ≤ number ∧ number ≤ 9223372036854775807 →
        SensorSpec.decode? (SensorSpec.record sensor slot number) =
          some ⟨sensor, slot, .nearest number⟩ := by
  refine ⟨.of_built ?_ ?_, .of_all SensorSpec.decode?_encode, .of_all Expression.decode?_encode,
    .of_all DeviceCommand.decode?_encode, .of_all Decision.decode?_encode,
    .of_all Error.decode?_encode, ?_, ?_, ?_⟩
  · intro element helement
    exact Element.decodeWithin?_encode helement
  · intro json element h
    exact (Element.readFrom_of_decodeWithin? h).fits
  · intro json element h spec hspec
    exact ⟨spec.threshold.le_hundred, (Element.readFrom_of_decodeWithin? h).sensors spec hspec⟩
  · intro json spec h
    exact ⟨spec.threshold.le_hundred, SensorSpec.readFrom_of_decode? h⟩
  · intro sensor slot number h
    exact SensorSpec.decode?_record sensor slot h

end RobotSketch
