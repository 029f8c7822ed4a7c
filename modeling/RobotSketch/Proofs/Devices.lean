import Mathlib.Data.List.Forall2
import RobotSketch.Sequence
import RobotSketch.Proofs.Defects
import RobotSketch.Proofs.Numerals
import RobotSketch.Proofs.Reading

/-!
# The devices of an expression document

An expression document names services, their operations and the devices of these. Its devices, in
document order, are a list (`Expression.sites`), and a document that can be read
(`Expression.Formed`) has one command for each of them, in that order (`Expression.Tells`). Any
other document has a flaw (`Expression.Flaw`), which is what its reader reports. The main statement
is `devices_read_in_order`.
-/
namespace RobotSketch

/-! ## Lists of results -/

/-- Reading a list succeeds exactly if reading each of its members does. -/
theorem mapM_eq_ok_iff {ε α β : Type} {read : α → Except ε β} {as : List α} {bs : List β} :
    as.mapM read = .ok bs ↔ List.Forall₂ (fun a b => read a = .ok b) as bs := by
  induction as generalizing bs with
  | nil =>
    rw [List.mapM_nil, List.forall₂_nil_left_iff]
    exact ⟨fun h => (Except.ok.inj h).symm, fun h => congrArg Except.ok h.symm⟩
  | cons a as ih =>
    rw [List.mapM_cons, except_bind_eq_ok, List.forall₂_cons_left_iff]
    constructor
    · rintro ⟨b, hb, h⟩
      obtain ⟨bs, hbs, h⟩ := except_bind_eq_ok.1 h
      exact ⟨b, bs, hb, ih.1 hbs, (Except.ok.inj h).symm⟩
    · rintro ⟨b, bs, hb, hbs, rfl⟩
      exact ⟨b, hb, except_bind_eq_ok.2 ⟨bs, ih.2 hbs, rfl⟩⟩

theorem forall_of_forall₂ {α β : Type} {R : α → β → Prop} {p : α → Prop} {as : List α} {bs : List β}
    (h : List.Forall₂ R as bs) (hp : ∀ a b, R a b → p a) : ∀ a ∈ as, p a :=
  ((List.forall₂_and_left as bs).1 (h.imp fun a b hab => ⟨hp a b hab, hab⟩)).1

/-- Lists that are made of matching parts match. -/
theorem forall₂_flatMap {α β γ : Type} {R : β → γ → Prop} {parts : α → List β} {as : List α}
    {css : List (List γ)} (h : List.Forall₂ (fun a cs => List.Forall₂ R (parts a) cs) as css) :
    List.Forall₂ R (as.flatMap parts) css.flatten := by
  rw [List.flatMap_def]
  exact List.rel_flatten (List.forall₂_map_left_iff.2 h)

/-! ## Fields -/

namespace Node

variable {node : Node} {key : String}

/-- An attribute holds a number of thirty-two bits, apart from blanks at its ends. -/
def HoldsNumber (node : Node) (key : String) (n : UInt32) : Prop :=
  ∃ raw, node.attribute? key = some raw ∧ Text.Unsigned (Text.trim raw.toList) n.toNat

/-- A defect says that an attribute is missing. -/
def Lacks (node : Node) (key : String) (defect : Defect) : Prop :=
  node.attribute? key = none ∧ defect = .missingAttribute node.name key

/-- A defect says that an attribute does not hold a number. -/
def Misstates (node : Node) (key : String) (defect : Defect) : Prop :=
  ∃ raw, node.attribute? key = some raw ∧ (∀ n, ¬node.HoldsNumber key n) ∧
    defect = .invalidValue node.name key raw

theorem required_eq_ok {value : String} (h : node.required key = .ok value) :
    node.attribute? key = some value := by
  unfold required at h
  split at h
  · rename_i value hvalue
    obtain rfl := Except.ok.inj h
    exact hvalue
  · cases h

theorem reports_lacks (node : Node) (key : String) :
    Reports (node.required key) (node.Lacks key) := by
  unfold required
  split
  · exact .ok _
  · rename_i hnone
    exact .error ⟨hnone, rfl⟩

/-- An attribute is absent, holds a number, or holds something else. -/
theorem number?_cases (node : Node) (key : String) :
    (node.attribute? key = none ∧ number? Text.readUInt32? node key = .ok none) ∨
      (∃ n, node.HoldsNumber key n ∧ number? Text.readUInt32? node key = .ok (some n)) ∨
      ∃ defect, node.Misstates key defect ∧
        number? Text.readUInt32? node key = .error defect := by
  unfold number?
  cases hraw : node.attribute? key with
  | none => exact Or.inl ⟨rfl, rfl⟩
  | some raw =>
    have hiff (n : UInt32) : Text.readUInt32? (Text.trim raw.toList) = some n ↔
        node.HoldsNumber key n := by
      simp [HoldsNumber, hraw, Text.readUInt32?_eq_some_iff]
    dsimp only
    cases hread : Text.readUInt32? (Text.trim raw.toList) with
    | some n => exact Or.inr (Or.inl ⟨n, (hiff n).1 hread, rfl⟩)
    | none =>
      refine Or.inr (Or.inr ⟨_, ⟨raw, hraw, fun n hn => ?_, rfl⟩, rfl⟩)
      rw [(hiff n).2 hn] at hread
      cases hread

theorem number?_eq_ok {value : Option UInt32}
    (h : number? Text.readUInt32? node key = .ok value) :
    (node.attribute? key = none ∧ value = none) ∨ ∃ n, node.HoldsNumber key n ∧ value = some n := by
  rcases number?_cases node key with ⟨hnone, hread⟩ | ⟨n, hn, hread⟩ | ⟨defect, -, hread⟩
  · exact Or.inl ⟨hnone, (Except.ok.inj (hread.symm.trans h)).symm⟩
  · exact Or.inr ⟨n, hn, (Except.ok.inj (hread.symm.trans h)).symm⟩
  · cases hread.symm.trans h

theorem reports_misstates (node : Node) (key : String) :
    Reports (number? Text.readUInt32? node key) (node.Misstates key) := by
  rcases number?_cases node key with ⟨-, hread⟩ | ⟨n, -, hread⟩ | ⟨defect, hdefect, hread⟩
  · exact hread ▸ .ok _
  · exact hread ▸ .ok _
  · exact hread ▸ .error hdefect

theorem number_eq_ok {n : UInt32} (h : number Text.readUInt32? node key = .ok n) :
    node.HoldsNumber key n := by
  unfold number at h
  split at h
  · rename_i value hvalue
    obtain rfl := Except.ok.inj h
    rcases number?_eq_ok hvalue with ⟨-, hnone⟩ | ⟨n, hn, hsome⟩
    · cases hnone
    · rwa [Option.some.inj hsome]
  · cases h
  · cases h

theorem reports_lacks_or_misstates (node : Node) (key : String) :
    Reports (number Text.readUInt32? node key)
      (fun defect => node.Lacks key defect ∨ node.Misstates key defect) := by
  unfold number
  split
  · exact .ok _
  · rename_i hvalue
    rcases number?_eq_ok hvalue with ⟨hnone, -⟩ | ⟨n, -, hsome⟩
    · exact .error (Or.inl ⟨hnone, rfl⟩)
    · cases hsome
  · rename_i defect hnumber
    exact .error (Or.inr (reports_misstates node key defect hnumber))

end Node

/-! ## Documents that can be read -/

/-- A node stands for a parameter. Its value is its text or, when that is empty, the text of its
first `value` child; without such a child it is empty. -/
structure Parameter.GivenBy (parameter : Parameter) (node : Node) : Prop where
  name_eq : node.attribute? "name" = some parameter.name
  value_eq : parameter.value =
    if node.text = "" then (node.child? "value").elim "" (·.text) else node.text

namespace Expression

/-- A device of an expression document, with the operation and the service it stands in. -/
structure Site where
  service : Node
  operation : Node
  device : Node

/-- The devices of an operation of a service, in document order. -/
def sitesIn (service operation : Node) : List Site :=
  (operation.childrenNamed "device").map fun device => ⟨service, operation, device⟩

/-- The devices of a service, in document order. -/
def sitesOf (service : Node) : List Site :=
  (service.childrenNamed "operation").flatMap (sitesIn service)

/-- The devices of an expression document, in document order. -/
def sites (root : Node) : List Site := (servicesOf root).flatMap sitesOf

/-- A document that can be read: its root, its services, operations and devices, the parameters of
these and its delay all have the attributes that are asked for. -/
structure Formed (root : Node) : Prop where
  name_eq : root.name = "expression"
  services : ∀ service ∈ servicesOf root, ∃ serviceType,
    service.attribute? "type" = some serviceType
  operations : ∀ service ∈ servicesOf root, ∀ operation ∈ service.childrenNamed "operation",
    ∃ name, operation.attribute? "name" = some name
  devices : ∀ site ∈ sites root, ∃ deviceId, site.device.HoldsNumber "id" deviceId
  parameters : ∀ site ∈ sites root, ∀ node ∈ site.device.childrenNamed "parameter",
    ∃ name, node.attribute? "name" = some name
  delay : root.attribute? "delay-millis" = none ∨ ∃ millis, root.HoldsNumber "delay-millis" millis

/-- What a device is told to do. -/
structure Tells (site : Site) (command : DeviceCommand) : Prop where
  serviceType_eq : site.service.attribute? "type" = some command.serviceType
  operation_eq : site.operation.attribute? "name" = some command.operation
  deviceId_eq : site.device.HoldsNumber "id" command.deviceId
  parameters : List.Forall₂ (fun node parameter => parameter.GivenBy node)
    (site.device.childrenNamed "parameter") command.parameters

/-- What keeps a document from being read. -/
inductive Flaw (root : Node) : Defect → Prop where
  | root (h : root.name ≠ "expression") : Flaw root (.wrongRoot "expression" root.name)
  | service {service : Node} {defect : Defect} (hservice : service ∈ servicesOf root)
      (h : service.Lacks "type" defect) : Flaw root defect
  | operation {service operation : Node} {defect : Defect} (hservice : service ∈ servicesOf root)
      (hoperation : operation ∈ service.childrenNamed "operation")
      (h : operation.Lacks "name" defect) : Flaw root defect
  | device {site : Site} {defect : Defect} (hsite : site ∈ sites root)
      (h : site.device.Lacks "id" defect ∨ site.device.Misstates "id" defect) : Flaw root defect
  | parameter {site : Site} {node : Node} {defect : Defect} (hsite : site ∈ sites root)
      (hnode : node ∈ site.device.childrenNamed "parameter") (h : node.Lacks "name" defect) :
    Flaw root defect
  | delay {defect : Defect} (h : root.Misstates "delay-millis" defect) : Flaw root defect

theorem mem_sites {root service operation device : Node} (hservice : service ∈ servicesOf root)
    (hoperation : operation ∈ service.childrenNamed "operation")
    (hdevice : device ∈ operation.childrenNamed "device") :
    ⟨service, operation, device⟩ ∈ sites root :=
  List.mem_flatMap.2 ⟨service, hservice, List.mem_flatMap.2 ⟨operation, hoperation,
    List.mem_map.2 ⟨device, hdevice, rfl⟩⟩⟩

theorem Formed.not_flaw {root : Node} (h : Formed root) (defect : Defect) : ¬Flaw root defect := by
  have hlacks : ∀ {node : Node} {key value : String}, node.attribute? key = some value →
      ¬node.Lacks key defect := by
    rintro node key value hvalue ⟨hnone, -⟩
    rw [hvalue] at hnone
    cases hnone
  have hmisstates : ∀ {node : Node} {key : String} {n : UInt32}, node.HoldsNumber key n →
      ¬node.Misstates key defect := by
    rintro node key n hn ⟨-, -, hnot, -⟩
    exact hnot n hn
  intro hflaw
  cases hflaw with
  | root hname => exact hname h.name_eq
  | service hservice hflaw =>
    obtain ⟨_, hvalue⟩ := h.services _ hservice
    exact hlacks hvalue hflaw
  | operation hservice hoperation hflaw =>
    obtain ⟨_, hvalue⟩ := h.operations _ hservice _ hoperation
    exact hlacks hvalue hflaw
  | device hsite hflaw =>
    obtain ⟨_, hid⟩ := h.devices _ hsite
    rcases hflaw with hflaw | hflaw
    · obtain ⟨raw, hraw, -⟩ := hid
      exact hlacks hraw hflaw
    · exact hmisstates hid hflaw
  | parameter hsite hnode hflaw =>
    obtain ⟨_, hvalue⟩ := h.parameters _ hsite _ hnode
    exact hlacks hvalue hflaw
  | delay hflaw =>
    rcases h.delay with hnone | ⟨_, hdelay⟩
    · obtain ⟨raw, hraw, -⟩ := hflaw
      rw [hnone] at hraw
      cases hraw
    · exact hmisstates hdelay hflaw

/-! ## Reading a document -/

theorem readParameter_eq_ok {node : Node} {parameter : Parameter}
    (h : readParameter node = .ok parameter) : parameter.GivenBy node := by
  obtain ⟨name, hname, h⟩ := except_bind_eq_ok.1 h
  obtain rfl := Except.ok.inj h
  refine ⟨Node.required_eq_ok hname, ?_⟩
  rw [Node.textAt?_of_stepsOf (by decide)]
  cases node.child? "value" <;> rfl

theorem readDevice_eq_ok {service operation device : Node} {serviceType name : String}
    {command : DeviceCommand} (htype : service.attribute? "type" = some serviceType)
    (hname : operation.attribute? "name" = some name)
    (h : readDevice serviceType name device = .ok command) :
    Tells ⟨service, operation, device⟩ command := by
  obtain ⟨parameters, hparameters, h⟩ := except_bind_eq_ok.1 h
  obtain ⟨deviceId, hid, h⟩ := except_bind_eq_ok.1 h
  obtain rfl := Except.ok.inj h
  refine ⟨htype, hname, Node.number_eq_ok hid, ?_⟩
  exact (mapM_eq_ok_iff.1 hparameters).imp fun _ _ => readParameter_eq_ok

theorem readOperation_eq_ok {service operation : Node} {serviceType : String}
    {commands : List DeviceCommand} (htype : service.attribute? "type" = some serviceType)
    (h : readOperation serviceType operation = .ok commands) :
    (∃ name, operation.attribute? "name" = some name) ∧
      List.Forall₂ Tells (sitesIn service operation) commands := by
  obtain ⟨name, hname, h⟩ := except_bind_eq_ok.1 h
  replace hname := Node.required_eq_ok hname
  refine ⟨⟨name, hname⟩, List.forall₂_map_left_iff.2 ?_⟩
  exact (mapM_eq_ok_iff.1 h).imp fun _ _ => readDevice_eq_ok htype hname

theorem readService_eq_ok {service : Node} {commands : List DeviceCommand}
    (h : readService service = .ok commands) :
    ((∃ serviceType, service.attribute? "type" = some serviceType) ∧
      ∀ operation ∈ service.childrenNamed "operation",
        ∃ name, operation.attribute? "name" = some name) ∧
      List.Forall₂ Tells (sitesOf service) commands := by
  obtain ⟨serviceType, htype, h⟩ := except_bind_eq_ok.1 h
  obtain ⟨parts, hparts, h⟩ := except_bind_eq_ok.1 h
  obtain rfl := Except.ok.inj h
  replace htype := Node.required_eq_ok htype
  obtain ⟨hnames, htells⟩ := (List.forall₂_and_left _ _).1
    ((mapM_eq_ok_iff.1 hparts).imp fun _ _ => readOperation_eq_ok htype)
  exact ⟨⟨⟨serviceType, htype⟩, hnames⟩, forall₂_flatMap htells⟩

/-- What a document says when it can be read. -/
theorem read_eq_ok {root : Node} {expression : Expression} (h : read root = .ok expression) :
    Formed root ∧ List.Forall₂ Tells (sites root) expression.commands ∧
      ((root.attribute? "delay-millis" = none ∧ expression.delay = 0) ∨
        root.HoldsNumber "delay-millis" expression.delay) := by
  unfold read at h
  split at h
  · cases h
  rename_i hname
  obtain ⟨parts, hparts, h⟩ := except_bind_eq_ok.1 h
  obtain ⟨delay, hdelay, h⟩ := except_bind_eq_ok.1 h
  obtain rfl := Except.ok.inj h
  obtain ⟨hservices, htells⟩ := (List.forall₂_and_left _ _).1
    ((mapM_eq_ok_iff.1 hparts).imp fun _ _ => readService_eq_ok)
  replace htells : List.Forall₂ Tells (sites root) parts.flatten := forall₂_flatMap htells
  have hdelay : (root.attribute? "delay-millis" = none ∧ delay.getD 0 = 0) ∨
      root.HoldsNumber "delay-millis" (delay.getD 0) := by
    rcases Node.number?_eq_ok hdelay with ⟨hnone, rfl⟩ | ⟨millis, hmillis, rfl⟩
    · exact Or.inl ⟨hnone, rfl⟩
    · exact Or.inr hmillis
  refine ⟨⟨not_not.1 hname, fun service hservice => (hservices service hservice).1,
    fun service hservice => (hservices service hservice).2, ?_, ?_, ?_⟩, htells, hdelay⟩
  · exact forall_of_forall₂ htells fun site command h => ⟨_, h.deviceId_eq⟩
  · exact forall_of_forall₂ htells fun site command h =>
      forall_of_forall₂ h.parameters fun node parameter h => ⟨_, h.name_eq⟩
  · exact hdelay.imp And.left fun h => ⟨_, h⟩

theorem reports_flaw (root : Node) : Reports (read root) (Flaw root) := by
  unfold read
  split
  · rename_i hname
    exact .error (.root hname)
  refine (Reports.mapM_of_mem fun service hservice => ?_).bind fun parts => ?_
  · refine Reports.bind (fun defect h => ?_) fun serviceType => ?_
    · exact .service hservice (Node.reports_lacks service "type" defect h)
    refine (Reports.mapM_of_mem fun operation hoperation => ?_).bind fun parts => .ok _
    refine Reports.bind (fun defect h => ?_) fun name => ?_
    · exact .operation hservice hoperation (Node.reports_lacks operation "name" defect h)
    refine Reports.mapM_of_mem fun device hdevice => ?_
    have hsite := mem_sites hservice hoperation hdevice
    refine (Reports.mapM_of_mem fun node hnode => ?_).bind fun parameters => ?_
    · refine Reports.bind (fun defect h => ?_) fun name => .ok _
      exact .parameter hsite hnode (Node.reports_lacks node "name" defect h)
    · refine Reports.bind (fun defect h => ?_) fun deviceId => .ok _
      exact .device hsite (Node.reports_lacks_or_misstates device "id" defect h)
  · refine Reports.bind (fun defect h => ?_) fun delay => .ok _
    exact .delay (Node.reports_misstates root "delay-millis" defect h)

end Expression

/-- An expression document can be read exactly if its parts have the attributes that are asked for.
It then has one command for each of its devices, in document order, and the delay that it asks for
or none. Any other document has a flaw, which is reported with the label of the file. -/
theorem devices_read_in_order (root : Node) (file : String) :
    ((∃ expression, (Expression.read root).mapError (Defect.inFile file) = .ok expression) ↔
      Expression.Formed root) ∧
    (∀ expression, (Expression.read root).mapError (Defect.inFile file) = .ok expression →
      List.Forall₂ Expression.Tells (Expression.sites root) expression.commands ∧
      ((root.attribute? "delay-millis" = none ∧ expression.delay = 0) ∨
        root.HoldsNumber "delay-millis" expression.delay)) ∧
    ∀ error, (Expression.read root).mapError (Defect.inFile file) = .error error →
      ∃ defect, Expression.Flaw root defect ∧ error = .malformed file defect.message := by
  simp only [mapError_eq_ok, mapError_eq_error]
  refine ⟨⟨?_, fun hformed => ?_⟩, fun expression h => (Expression.read_eq_ok h).2, ?_⟩
  · rintro ⟨expression, h⟩
    exact (Expression.read_eq_ok h).1
  · cases hread : Expression.read root with
    | ok expression => exact ⟨expression, rfl⟩
    | error defect =>
      exact absurd (Expression.reports_flaw root defect hread) (hformed.not_flaw defect)
  · rintro error ⟨defect, h, rfl⟩
    exact ⟨defect, Expression.reports_flaw root defect h, rfl⟩

/-- Two lamps under the second of two services. The value of a parameter stands in a child, and the
second `services` child is not read. -/
def twoLamps : Node :=
  ⟨"expression", [("delay-millis", " 20")], "", [
    ⟨"services", [], "", [
      ⟨"service", [("type", "MotorService")], "", []⟩,
      ⟨"service", [("type", "SimpleLEDService")], "", [
        ⟨"operation", [("name", "setIntensity")], "", [
          ⟨"device", [("id", "+1")], "", [
            ⟨"parameter", [("name", "intensity")], "", [⟨"value", [], "255", []⟩]⟩]⟩,
          ⟨"device", [("id", "0")], "", []⟩]⟩]⟩]⟩,
    ⟨"services", [], "", [⟨"service", [], "", []⟩]⟩]⟩

/-- The lamps are read in the order in which they stand, and a delay that is no number is
reported. -/
theorem lamps_read_in_order :
    ((Expression.read twoLamps).mapError (Defect.inFile "lamps.xml") =
      .ok ⟨[⟨"SimpleLEDService", "setIntensity", 1, [⟨"intensity", "255"⟩]⟩,
        ⟨"SimpleLEDService", "setIntensity", 0, []⟩], 20⟩ ∧
      Expression.Formed twoLamps ∧
      List.Forall₂ Expression.Tells (Expression.sites twoLamps)
        [⟨"SimpleLEDService", "setIntensity", 1, [⟨"intensity", "255"⟩]⟩,
          ⟨"SimpleLEDService", "setIntensity", 0, []⟩]) ∧
    ∃ error defect,
      (Expression.read ⟨"expression", [("delay-millis", "soon")], "", []⟩).mapError
        (Defect.inFile "lamps.xml") = .error error ∧
      Expression.Flaw ⟨"expression", [("delay-millis", "soon")], "", []⟩ defect ∧
      error = .malformed "lamps.xml" defect.message := by
  have hread : (Expression.read twoLamps).mapError (Defect.inFile "lamps.xml") =
      .ok ⟨[⟨"SimpleLEDService", "setIntensity", 1, [⟨"intensity", "255"⟩]⟩,
        ⟨"SimpleLEDService", "setIntensity", 0, []⟩], 20⟩ := by decide
  have hfails : (Expression.read ⟨"expression", [("delay-millis", "soon")], "", []⟩).mapError
      (Defect.inFile "lamps.xml") =
        .error ((Defect.invalidValue "expression" "delay-millis" "soon").inFile "lamps.xml") := by
    decide
  obtain ⟨hformed, htells, -⟩ := devices_read_in_order twoLamps "lamps.xml"
  obtain ⟨defect, hflaw, hdefect⟩ := (devices_read_in_order _ "lamps.xml").2.2 _ hfails
  exact ⟨⟨hread, hformed.1 ⟨_, hread⟩, (htells _ hread).1⟩, _, defect, hfails, hflaw, hdefect⟩

end RobotSketch
