import RobotSketch.Sequence

/-!
# Elements one by one

A list of elements is read one element after the other (`readList_cons_of_mem`), and what is not an
element is passed over (`readList_cons_of_not_mem`). There is a reader for each of the four kinds of
elements, and `readNode` chooses among them.
-/
namespace RobotSketch

theorem except_bind_eq_ok {ε α β : Type} {result : Except ε α} {next : α → Except ε β} {b : β} :
    (result >>= next) = .ok b ↔ ∃ a, result = .ok a ∧ next a = .ok b := by
  cases result with
  | error e => simp [bind, Except.bind]
  | ok a => simp [bind, Except.bind]

/-- Naming the document of a defect changes no result. -/
theorem mapError_eq_ok {ε δ α : Type} {name : ε → δ} {result : Except ε α} {a : α} :
    result.mapError name = .ok a ↔ result = .ok a := by
  cases result with
  | error e => constructor <;> intro h <;> cases h
  | ok a =>
    constructor
    · intro h
      exact congrArg Except.ok (Except.ok.inj h)
    · intro h
      exact congrArg Except.ok (Except.ok.inj h)

theorem mapError_eq_error {ε δ α : Type} {name : ε → δ} {result : Except ε α} {d : δ} :
    result.mapError name = .error d ↔ ∃ e, result = .error e ∧ name e = d := by
  cases result with
  | error e =>
    constructor
    · intro h
      exact ⟨e, rfl, Except.error.inj h⟩
    · rintro ⟨_, h, rfl⟩
      obtain rfl := Except.error.inj h
      rfl
  | ok a =>
    constructor
    · intro h
      cases h
    · rintro ⟨_, h, -⟩
      cases h

/-- A path of one step leads to a child. -/
theorem Node.textAt?_of_stepsOf {name : String} (h : stepsOf name = [name]) (node : Node) :
    node.textAt? name = (node.child? name).map (·.text) := by
  simp [textAt?, find?, h]

namespace Element

def names : List String := ["expression", "saved-sequence", "counter-loop", "loopable-conditional"]

def readExpression (position : Nat) (node : Node) : Except Defect Element := do
  let file ← node.required "file"
  let delay ← node.number? Text.readUInt32? "delay-millis"
  return .expression (placeOf position node) file (delay.getD 0)

def readSaved (position : Nat) (node : Node) : Except Defect Element := do
  let file ← node.required "file"
  return .sequence (placeOf position node) file

def readCounterLoop (position : Nat) (node : Node) : Except Defect Element := do
  let iterations ← node.number Text.readUInt32? "iterations"
  if iterations = 0 then throw .noIterations
  let children ← readList 0 node.children
  return .counterLoop (placeOf position node) iterations children

/-- A branch of a conditional: whether it repeats, and its elements. -/
def readBranch (node : Node) (name : String) : Except Defect (Bool × List Element) :=
  match node.child? name with
  | none => .ok (false, [])
  | some branch => do
    let repeats ← branch.flag "should-repeat"
    let children ← readList 0 branch.children
    return (repeats, children)

def readConditional (position : Nat) (node : Node) : Except Defect Element := do
  let spec ← readSensor node
  let ifPart ← readBranch node "if-branch"
  let elsePart ← readBranch node "else-branch"
  return .conditional (placeOf position node) spec ifPart.1 elsePart.1 ifPart.2 elsePart.2

def readNode (position : Nat) (node : Node) : Except Defect Element :=
  if node.name = "expression" then readExpression position node
  else if node.name = "saved-sequence" then readSaved position node
  else if node.name = "counter-loop" then readCounterLoop position node
  else readConditional position node

section Kinds

variable {node : Node} (position : Nat)

theorem readNode_expression (h : node.name = "expression") :
    readNode position node = readExpression position node := by
  simp [readNode, h]

theorem readNode_saved (h : node.name = "saved-sequence") :
    readNode position node = readSaved position node := by
  simp [readNode, h]

theorem readNode_counterLoop (h : node.name = "counter-loop") :
    readNode position node = readCounterLoop position node := by
  simp [readNode, h]

theorem readNode_conditional (h : node.name = "loopable-conditional") :
    readNode position node = readConditional position node := by
  simp [readNode, h]

end Kinds

/-- An element is read, and then the others. -/
theorem readList_cons_of_mem {node : Node} (h : node.name ∈ names) (position : Nat)
    (rest : List Node) : readList position (node :: rest) = (do
      let element ← readNode position node
      let elements ← readList (position + 1) rest
      return element :: elements) := by
  simp only [names, List.mem_cons, List.not_mem_nil, or_false] at h
  rw [readList.eq_def]
  rcases h with hname | hname | hname | hname
  · rw [readNode_expression position hname]
    simp only [hname, readExpression, bind_assoc, pure_bind]
  · rw [readNode_saved position hname]
    simp only [hname, readSaved, bind_assoc, pure_bind]
  · rw [readNode_counterLoop position hname]
    simp only [hname, readCounterLoop, bind_assoc]
    congr 1
    funext iterations
    split
    · rfl
    · simp only [bind_assoc, pure_bind]
  · rw [readNode_conditional position hname]
    simp only [hname, readConditional, readBranch, bind_assoc, pure_bind]
    congr 1
    funext spec
    split
    · rename_i hif
      simp only [hif]
      split
      · rename_i helse
        simp only [helse]
        rfl
      · rename_i branch helse
        simp only [helse, bind_assoc, pure_bind]
        rfl
    · rename_i branch hif
      simp only [hif]
      split
      · rename_i helse
        simp only [helse, bind_assoc, pure_bind]
        rfl
      · rename_i branch helse
        simp only [helse, bind_assoc, pure_bind]

/-- What is not an element is passed over. -/
theorem readList_cons_of_not_mem {node : Node} (h : node.name ∉ names) (position : Nat)
    (rest : List Node) : readList position (node :: rest) = readList position rest := by
  rw [readList.eq_def]
  dsimp only
  split
  all_goals simp_all [names]

end Element

end RobotSketch
