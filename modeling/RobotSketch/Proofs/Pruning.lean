import RobotSketch.Proofs.Deleting

/-!
# Pruning documents

What is no element and no comment may stand in any list of elements and is passed over there.
`Node.withoutUnknown` removes it: from the list of a document, from the lists of counter loops, and
from the branches that conditionals read, at any depth. What is left is clean (`Node.Clean`), and it
reads as before, to the same elements or with the same defect: `unknown_elements_invisible`.

Pruning never touches what is looked up by name, since it keeps comments and leaves the other
children of a conditional alone. So each kind of element reads alike, given that
the lists inside do.
-/
namespace RobotSketch

/-! ## Documents without what is unknown -/

namespace Node

/-- What a list of elements may hold. -/
def listed : List String := "comment" :: Element.names

/-- The children of a conditional that are lists of elements. -/
def branchNames : List String := ["if-branch", "else-branch"]

mutual

/-- A list of elements without what is unknown, at any depth. -/
def pruneAll : List Node → List Node
  | [] => []
  | node :: rest => if node.name ∈ listed then prune node :: pruneAll rest else pruneAll rest

/-- An element, whose own lists are without what is unknown. -/
def prune : Node → Node
  | ⟨name, attributes, text, children⟩ =>
    ⟨name, attributes, text,
      if name = "counter-loop" then pruneAll children
      else if name = "loopable-conditional" then pruneBranches branchNames children
      else children⟩

/-- The children of a conditional: of each name that is due, the first one is a list of elements. -/
def pruneBranches (due : List String) : List Node → List Node
  | [] => []
  | ⟨name, attributes, text, children⟩ :: rest =>
    if name ∈ due then
      ⟨name, attributes, text, pruneAll children⟩ :: pruneBranches (due.erase name) rest
    else ⟨name, attributes, text, children⟩ :: pruneBranches due rest

end

/-- A document whose element lists hold no unknown elements. -/
def withoutUnknown (node : Node) : Node := { node with children := pruneAll node.children }

/-- A list that holds elements and comments only, and so do the lists inside. -/
inductive Clean : List Node → Prop where
  | intro {nodes : List Node} (hlisted : ∀ node ∈ nodes, node.name ∈ listed)
      (hloops : ∀ node ∈ nodes, node.name = "counter-loop" → Clean node.children)
      (hbranches : ∀ node ∈ nodes, node.name = "loopable-conditional" →
        ∀ name ∈ branchNames, ∀ branch, node.child? name = some branch → Clean branch.children) :
    Clean nodes

/-! ## What pruning keeps -/

@[simp] theorem name_withoutUnknown (node : Node) : node.withoutUnknown.name = node.name := rfl

@[simp] theorem flag_withoutUnknown (node : Node) (key : String) :
    node.withoutUnknown.flag key = node.flag key := by
  simp only [flag, attribute?, withoutUnknown]

theorem prune_eq (node : Node) : node.prune =
    { node with children :=
      if node.name = "counter-loop" then pruneAll node.children
      else if node.name = "loopable-conditional" then pruneBranches branchNames node.children
      else node.children } := by
  obtain ⟨name, attributes, text, children⟩ := node
  rw [prune]

@[simp] theorem name_prune (node : Node) : node.prune.name = node.name := by
  rw [prune_eq]

theorem number_prune {α : Type} (read : List Char → Option α) (node : Node) (key : String) :
    number read node.prune key = number read node key := by
  rw [prune_eq]
  rfl

theorem prune_of_plain {node : Node} (hloop : node.name ≠ "counter-loop")
    (hconditional : node.name ≠ "loopable-conditional") : node.prune = node := by
  rw [prune_eq, if_neg hloop, if_neg hconditional]
  cases node
  rfl

theorem children_prune_loop {node : Node} (h : node.name = "counter-loop") :
    node.prune.children = pruneAll node.children := by
  rw [prune_eq, if_pos h]

theorem children_prune_conditional {node : Node} (h : node.name = "loopable-conditional") :
    node.prune.children = pruneBranches branchNames node.children := by
  have hloop : node.name ≠ "counter-loop" := by simp [h]
  rw [prune_eq, if_neg hloop, if_pos h]

theorem pruneBranches_cons (due : List String) (node : Node) (rest : List Node) :
    pruneBranches due (node :: rest) =
      if node.name ∈ due then node.withoutUnknown :: pruneBranches (due.erase node.name) rest
      else node :: pruneBranches due rest := by
  obtain ⟨name, attributes, text, children⟩ := node
  rw [pruneBranches]
  rfl

theorem find?_name_cons (name : String) (node : Node) (rest : List Node) :
    (node :: rest).find? (·.name == name) =
      if node.name = name then some node else rest.find? (·.name == name) := by
  by_cases h : node.name = name <;> simp [h]

/-- A comment in a list of elements stays. -/
theorem find?_comment_pruneAll (nodes : List Node) :
    (pruneAll nodes).find? (·.name == "comment") = nodes.find? (·.name == "comment") := by
  induction nodes with
  | nil => rw [pruneAll]
  | cons node rest ih =>
    rw [pruneAll, find?_name_cons]
    by_cases hcomment : node.name = "comment"
    · have hplain : node.prune = node :=
        prune_of_plain (by simp [hcomment]) (by simp [hcomment])
      rw [if_pos hcomment, if_pos (by simp [hcomment, listed]), hplain, find?_name_cons,
        if_pos hcomment]
    · rw [if_neg hcomment]
      split
      · rw [find?_name_cons, name_prune, if_neg hcomment, ih]
      · exact ih

/-- The first child of a name that is due is pruned, and any other one stays. -/
theorem find?_pruneBranches (name : String) (due : List String) (nodes : List Node) :
    (pruneBranches due nodes).find? (·.name == name) =
      (nodes.find? (·.name == name)).map fun node =>
        if name ∈ due then node.withoutUnknown else node := by
  induction nodes generalizing due with
  | nil =>
    rw [pruneBranches]
    rfl
  | cons node rest ih =>
    rw [pruneBranches_cons, find?_name_cons]
    by_cases hname : node.name = name
    · rw [if_pos hname, hname]
      split
      · rw [find?_name_cons, name_withoutUnknown, if_pos hname]
        rfl
      · rw [find?_name_cons, if_pos hname]
        rfl
    · have hother : name ∈ due.erase node.name ↔ name ∈ due :=
        List.mem_erase_of_ne (Ne.symm hname)
      rw [if_neg hname]
      split
      · rw [find?_name_cons, name_withoutUnknown, if_neg hname, ih]
        simp only [hother]
      · rw [find?_name_cons, if_neg hname, ih]

theorem child?_prune_conditional {node : Node} (h : node.name = "loopable-conditional")
    (name : String) : node.prune.child? name =
      (node.child? name).map fun child =>
        if name ∈ branchNames then child.withoutUnknown else child := by
  unfold child?
  rw [children_prune_conditional h]
  exact find?_pruneBranches name branchNames node.children

/-- The comment of an element stays. -/
theorem child?_comment_prune (node : Node) :
    node.prune.child? "comment" = node.child? "comment" := by
  by_cases hloop : node.name = "counter-loop"
  · unfold child?
    rw [children_prune_loop hloop]
    exact find?_comment_pruneAll node.children
  · by_cases hconditional : node.name = "loopable-conditional"
    · have hbranch : "comment" ∉ branchNames := by decide
      rw [child?_prune_conditional hconditional]
      simp only [if_neg hbranch, Option.map_id']
    · rw [prune_of_plain hloop hconditional]

theorem placeOf_prune (position : Nat) (node : Node) :
    Element.placeOf position node.prune = Element.placeOf position node := by
  unfold Element.placeOf
  rw [textAt?_comment, textAt?_comment, child?_comment_prune]

/-! ## Nothing unknown is left -/

theorem clean_nil : Clean [] := by
  refine .intro ?_ ?_ ?_
  all_goals
    intro node hnode
    cases hnode

theorem clean_cons {node : Node} {rest : List Node} (hlisted : node.name ∈ listed)
    (hloop : node.name = "counter-loop" → Clean node.children)
    (hbranches : node.name = "loopable-conditional" → ∀ name ∈ branchNames,
      ∀ branch, node.child? name = some branch → Clean branch.children) (hrest : Clean rest) :
    Clean (node :: rest) := by
  cases hrest with
  | intro hlisted' hloops' hbranches' =>
    refine .intro ?_ ?_ ?_
    · intro other hother
      rcases List.mem_cons.1 hother with rfl | hother
      · exact hlisted
      · exact hlisted' other hother
    · intro other hother
      rcases List.mem_cons.1 hother with rfl | hother
      · exact hloop
      · exact hloops' other hother
    · intro other hother
      rcases List.mem_cons.1 hother with rfl | hother
      · exact hbranches
      · exact hbranches' other hother

/-- Pruning leaves nothing unknown in a list, whatever stands in it. -/
theorem clean_pruneAll (nodes : List Node) : Clean (pruneAll nodes) := by
  match nodes with
  | [] =>
    rw [pruneAll]
    exact clean_nil
  | node :: rest =>
    have hrest := clean_pruneAll rest
    have hnode := node.sizeOf_children_lt
    rw [pruneAll]
    split
    · rename_i hlisted
      refine clean_cons (by rwa [name_prune]) (fun hname => ?_) (fun hname => ?_) hrest
      · rw [name_prune] at hname
        rw [children_prune_loop hname]
        exact clean_pruneAll node.children
      · intro name hbranch branch hfound
        rw [name_prune] at hname
        rw [child?_prune_conditional hname] at hfound
        obtain ⟨child, hchild, hpruned⟩ := Option.map_eq_some_iff.1 hfound
        rw [if_pos hbranch] at hpruned
        have := Node.sizeOf_grandchildren_lt hchild
        rw [← hpruned]
        exact clean_pruneAll child.children
    · exact hrest
termination_by sizeOf nodes
decreasing_by
  all_goals
    simp only [List.cons.sizeOf_spec]
    omega

end Node

/-! ## Reading what is left -/

namespace Element

open Node (pruneAll)

/-- A list reads alike without what is unknown in it, wherever it starts. -/
def ReadsPruned (nodes : List Node) : Prop :=
  ∀ position, readList position (pruneAll nodes) = readList position nodes

section Kinds

variable {node : Node} (position : Nat)

theorem readCounterLoop_prune (hname : node.name = "counter-loop")
    (hchildren : ReadsPruned node.children) :
    readCounterLoop position node.prune = readCounterLoop position node := by
  unfold readCounterLoop
  rw [Node.number_prune, Node.placeOf_prune, Node.children_prune_loop hname, hchildren 0]

theorem readSensor_prune (hname : node.name = "loopable-conditional") :
    readSensor node.prune = readSensor node := by
  have hbranch : "sensor" ∉ Node.branchNames := by decide
  have hsensor : node.prune.child? "sensor" = node.child? "sensor" := by
    rw [Node.child?_prune_conditional hname]
    simp only [if_neg hbranch, Option.map_id']
  unfold readSensor
  rw [hsensor]

theorem readBranch_prune (hname : node.name = "loopable-conditional") {branch : String}
    (hbranch : branch ∈ Node.branchNames)
    (hchildren : ∀ child ∈ node.children, ReadsPruned child.children) :
    readBranch node.prune branch = readBranch node branch := by
  unfold readBranch
  rw [Node.child?_prune_conditional hname]
  cases hchild : node.child? branch with
  | none => rfl
  | some child =>
    have hread := hchildren child (Node.child?_mem hchild) 0
    have hlist : child.withoutUnknown.children = pruneAll child.children := rfl
    rw [Option.map_some, if_pos hbranch]
    dsimp only
    rw [Node.flag_withoutUnknown, hlist, hread]

theorem readConditional_prune (hname : node.name = "loopable-conditional")
    (hchildren : ∀ child ∈ node.children, ReadsPruned child.children) :
    readConditional position node.prune = readConditional position node := by
  have hif : readBranch node.prune "if-branch" = readBranch node "if-branch" :=
    readBranch_prune hname (by decide) hchildren
  have helse : readBranch node.prune "else-branch" = readBranch node "else-branch" :=
    readBranch_prune hname (by decide) hchildren
  unfold readConditional
  rw [readSensor_prune hname, hif, helse, Node.placeOf_prune]

end Kinds

/-- An element reads alike without what is unknown in it, given that the lists in it do. -/
theorem readNode_prune {node : Node} (position : Nat) (hlist : ReadsPruned node.children)
    (hbranches : ∀ child ∈ node.children, ReadsPruned child.children) :
    readNode position node.prune = readNode position node := by
  by_cases hloop : node.name = "counter-loop"
  · rw [readNode_counterLoop _ hloop, readNode_counterLoop _ (by rwa [Node.name_prune])]
    exact readCounterLoop_prune position hloop hlist
  · by_cases hconditional : node.name = "loopable-conditional"
    · rw [readNode_conditional _ hconditional, readNode_conditional _ (by rwa [Node.name_prune])]
      exact readConditional_prune position hconditional hbranches
    · rw [Node.prune_of_plain hloop hconditional]

/-- Every list reads alike without what is unknown in it. -/
theorem readsPruned (nodes : List Node) : ReadsPruned nodes := by
  intro position
  match nodes with
  | [] => rw [pruneAll]
  | node :: rest =>
    rw [pruneAll]
    by_cases hname : node.name ∈ names
    · -- an element keeps its place in front of the others
      have hnodeSize := node.sizeOf_children_lt
      have hlist := readsPruned node.children
      have hbranches : ∀ child ∈ node.children, ReadsPruned child.children := by
        intro child hchild
        have hchildSize := List.sizeOf_lt_of_mem hchild
        have hbranchSize := child.sizeOf_children_lt
        exact readsPruned child.children
      have hlisted : node.name ∈ Node.listed := List.mem_cons_of_mem _ hname
      rw [if_pos hlisted, readList_cons_of_mem (by rwa [Node.name_prune]),
        readList_cons_of_mem hname, readNode_prune position hlist hbranches,
        readsPruned rest (position + 1)]
    · -- a comment and what is removed are both passed over
      have hrest := readsPruned rest position
      rw [readList_cons_of_not_mem hname]
      split
      · rw [readList_cons_of_not_mem (by rwa [Node.name_prune]), hrest]
      · exact hrest
termination_by sizeOf nodes
decreasing_by
  all_goals
    simp only [List.cons.sizeOf_spec]
    omega

end Element

theorem readSequence_withoutUnknown (node : Node) :
    readSequence node.withoutUnknown = readSequence node := by
  have hread : Element.readList 0 node.withoutUnknown.children =
      Element.readList 0 node.children := Element.readsPruned node.children 0
  unfold readSequence
  rw [hread]
  rfl

/-- **Unknown elements are invisible.** A document without them reads as the document does: to the
same elements, with their positions and comments, or with the same error under the name of its file.
And nothing unknown is left in any of its lists. -/
theorem unknown_elements_invisible (node : Node) (file : String) :
    (readSequence node.withoutUnknown).mapError (Defect.inFile file) =
        (readSequence node).mapError (Defect.inFile file) ∧
      Node.Clean node.withoutUnknown.children := by
  refine ⟨?_, Node.clean_pruneAll node.children⟩
  rw [readSequence_withoutUnknown]

end RobotSketch
