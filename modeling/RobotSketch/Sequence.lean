import RobotSketch.Hardware

/-!
# Sequences and expressions

The two kinds of document that describe a behaviour, and how they are read.
-/
namespace RobotSketch

/-!
## Sequences

A sequence is a list of elements: references to expressions and to other sequences, loops that
count, and loops and branches that watch a sensor.
-/

/-- A percentage from 0 to 100. -/
structure Percent where
  value : Nat
  le_hundred : value ≤ 100
  deriving DecidableEq, Repr

/-- The percentage nearest to a number. -/
def Percent.nearest (number : Int) : Percent where
  value := (clamp 0 100 number).toNat
  le_hundred := by unfold clamp; omega

theorem Percent.value_nearest (number : Int) :
    ((nearest number).value : Int) = max 0 (min 100 number) := by
  simp only [nearest, clamp]
  omega

theorem Percent.nearest_value (percent : Percent) : nearest percent.value = percent := by
  obtain ⟨value, hvalue⟩ := percent
  simp only [nearest, clamp, mk.injEq]
  omega

/-- Which sensor a conditional watches, and at which percentage it changes branch. -/
structure SensorSpec where
  sensor : String
  slot : UInt8
  threshold : Percent
  deriving DecidableEq, Repr

/-- Where an element stands in its list, and its comment. -/
structure Place where
  position : Nat
  comment : Option String
  deriving DecidableEq, Repr

/-- An element of a sequence. -/
inductive Element where
  /-- Runs an expression, then waits. -/
  | expression (place : Place) (file : String) (delay : UInt32)
  /-- Runs a saved sequence. -/
  | sequence (place : Place) (file : String)
  /-- Runs its children a number of times. -/
  | counterLoop (place : Place) (iterations : UInt32) (children : List Element)
  /-- Runs one of two branches, either of which may repeat. -/
  | conditional (place : Place) (spec : SensorSpec) (ifRepeats elseRepeats : Bool)
      (ifBranch elseBranch : List Element)
  deriving Repr

def Element.place : Element → Place
  | .expression place .. => place
  | .sequence place .. => place
  | .counterLoop place .. => place
  | .conditional place .. => place

/-!
## Reading sequences

A sequence document holds `expression`, `saved-sequence`, `counter-loop` and
`loopable-conditional` elements; anything else in its lists is passed over and takes no position.
The first defect in document order is the one reported.
-/

theorem Node.child?_mem {node child : Node} {name : String} (h : node.child? name = some child) :
    child ∈ node.children := List.mem_of_find?_eq_some h

theorem Node.sizeOf_children_lt (node : Node) : sizeOf node.children < sizeOf node := by
  obtain ⟨name, attributes, text, children⟩ := node
  show sizeOf children < _
  rw [Node.mk.sizeOf_spec]
  omega

/-- The children of a child are smaller than the element. -/
theorem Node.sizeOf_grandchildren_lt {node child : Node} {name : String}
    (h : node.child? name = some child) : sizeOf child.children < sizeOf node := by
  have h₁ := List.sizeOf_lt_of_mem (Node.child?_mem h)
  have h₂ := child.sizeOf_children_lt
  have h₃ := node.sizeOf_children_lt
  omega

namespace Element

/-- The place of an element: its comment is the text of its first `comment` child, unless that is
empty. -/
def placeOf (position : Nat) (node : Node) : Place where
  position := position
  comment := (node.textAt? "comment").filter (· != "")

/-- The sensor of a conditional. Slots count from one, device ids from zero. -/
def readSensor (node : Node) : Except Defect SensorSpec := do
  let some spec := node.child? "sensor" | throw .noSensor
  let deviceId := (← spec.number? Text.readUInt8? "device-id").getD 0
  if deviceId.toNat + 1 ≥ UInt8.size then throw .sensorOutOfRange
  let sensor ← spec.required "type"
  let percentage ← spec.number Text.readInt64? "threshold-percentage"
  return ⟨sensor, deviceId + 1, .nearest percentage⟩

/-- Reads a list of elements, the first of which takes the given position. -/
def readList (position : Nat) (nodes : List Node) : Except Defect (List Element) :=
  match nodes with
  | [] => .ok []
  | node :: rest => do
    let place := placeOf position node
    match node.name with
    | "expression" =>
      let file ← node.required "file"
      let delay := (← node.number? Text.readUInt32? "delay-millis").getD 0
      return .expression place file delay :: (← readList (position + 1) rest)
    | "saved-sequence" =>
      let file ← node.required "file"
      return .sequence place file :: (← readList (position + 1) rest)
    | "counter-loop" =>
      let iterations ← node.number Text.readUInt32? "iterations"
      if iterations = 0 then throw .noIterations
      have := node.sizeOf_children_lt
      let children ← readList 0 node.children
      return .counterLoop place iterations children :: (← readList (position + 1) rest)
    | "loopable-conditional" =>
      let spec ← readSensor node
      let (ifRepeats, ifBranch) ←
        match h : node.child? "if-branch" with
        | none => pure (false, [])
        | some branch => do
          have := Node.sizeOf_grandchildren_lt h
          pure (← branch.flag "should-repeat", ← readList 0 branch.children)
      let (elseRepeats, elseBranch) ←
        match h : node.child? "else-branch" with
        | none => pure (false, [])
        | some branch => do
          have := Node.sizeOf_grandchildren_lt h
          pure (← branch.flag "should-repeat", ← readList 0 branch.children)
      return .conditional place spec ifRepeats elseRepeats ifBranch elseBranch ::
        (← readList (position + 1) rest)
    | _ => readList position rest
termination_by sizeOf nodes
decreasing_by
  all_goals
    simp only [List.cons.sizeOf_spec]
    omega

end Element

/-- The elements of a sequence document. -/
def readSequence (root : Node) : Except Defect (List Element) :=
  if root.name = "sequence" then Element.readList 0 root.children
  else .error (.wrongRoot "sequence" root.name)

/-!
## Expressions

An expression document lists, by service and operation, what devices are told to do. Its body is
one instruction for each device, in document order, and a delay at the end if it asks for one.
-/

/-- What an expression document says. -/
structure Expression where
  commands : List DeviceCommand
  delay : UInt32
  deriving DecidableEq, Repr

/-! ### Reading -/

namespace Expression

/-- A parameter of a device: its value is its text or, when that is empty, the text of its first
`value` child. -/
def readParameter (node : Node) : Except Defect Parameter := do
  let name ← node.required "name"
  return ⟨name, if node.text = "" then (node.textAt? "value").getD "" else node.text⟩

def readDevice (serviceType operation : String) (device : Node) : Except Defect DeviceCommand := do
  let parameters ← (device.childrenNamed "parameter").mapM readParameter
  let deviceId ← device.number Text.readUInt32? "id"
  return ⟨serviceType, operation, deviceId, parameters⟩

def readOperation (serviceType : String) (operation : Node) :
    Except Defect (List DeviceCommand) := do
  let name ← operation.required "name"
  (operation.childrenNamed "device").mapM (readDevice serviceType name)

def readService (service : Node) : Except Defect (List DeviceCommand) := do
  let serviceType ← service.required "type"
  return (← (service.childrenNamed "operation").mapM (readOperation serviceType)).flatten

/-- The services of an expression document: those of its first `services` child. -/
def servicesOf (root : Node) : List Node :=
  match root.child? "services" with
  | some services => services.childrenNamed "service"
  | none => []

def read (root : Node) : Except Defect Expression := do
  if root.name ≠ "expression" then throw (.wrongRoot "expression" root.name)
  let commands ← (servicesOf root).mapM readService
  let delay ← root.number? Text.readUInt32? "delay-millis"
  return ⟨commands.flatten, delay.getD 0⟩

end Expression

/-! ### Bodies -/

/-- A line of the body of an expression. -/
inductive Instruction where
  | device (rendering : Rendering)
  | delay (millis : UInt32)
  deriving DecidableEq, Repr

def Instruction.line : Instruction → String
  | .device rendering => rendering.line
  | .delay millis => Board.delayCall millis

def Expression.body (expression : Expression) : Except Defect (List Instruction) := do
  let devices ← expression.commands.mapM (·.render)
  return devices.map .device ++ if expression.delay = 0 then [] else [.delay expression.delay]

end RobotSketch
