import RobotSketch.Sequence
import RobotSketch.Proofs.Reading

/-!
# Deleting saved sequences

`Node.withoutMissing` deletes the saved sequences of certain files from a sequence document: from the
list of its elements, and from the lists inside counter loops and branches, at any depth.

A document that reads still does so afterwards, and what it reads as are the elements that are kept,
in their order: `exists_readSequence_withoutMissing`. Only positions change. The proof is for one
kind of element at a time (`readExpression_delete` and so on), given the lists inside.
-/
namespace RobotSketch

/-! ## Documents without what is missing -/

namespace Node

/-- Whether an element refers to a saved sequence that is missing. -/
def isMissing (missing : String → Bool) (node : Node) : Bool :=
  node.name == "saved-sequence" && (node.attribute? "file").any missing

mutual

/-- A list of elements without the saved sequences that are missing, at any depth. -/
def deleteAll (missing : String → Bool) : List Node → List Node
  | [] => []
  | node :: rest =>
    if node.isMissing missing then deleteAll missing rest
    else delete missing node :: deleteAll missing rest

/-- An element, whose own lists are without the saved sequences that are missing. -/
def delete (missing : String → Bool) : Node → Node
  | ⟨name, attributes, text, children⟩ =>
    ⟨name, attributes, text,
      if name = "counter-loop" then deleteAll missing children
      else if name = "loopable-conditional" then deleteBranches missing children
      else children⟩

/-- The children of a conditional: only its branches are lists of elements. -/
def deleteBranches (missing : String → Bool) : List Node → List Node
  | [] => []
  | ⟨name, attributes, text, children⟩ :: rest =>
    ⟨name, attributes, text,
      if name = "if-branch" ∨ name = "else-branch" then deleteAll missing children
      else children⟩ :: deleteBranches missing rest

end

variable {missing : String → Bool}

/-- A child of a conditional, without the saved sequences that are missing if it is a branch. -/
def deleteBranch (missing : String → Bool) (node : Node) : Node :=
  { node with children :=
    if node.name = "if-branch" ∨ node.name = "else-branch" then deleteAll missing node.children
    else node.children }

theorem deleteBranches_eq_map (nodes : List Node) :
    deleteBranches missing nodes = nodes.map (deleteBranch missing) := by
  induction nodes with
  | nil => rw [deleteBranches]; rfl
  | cons node rest ih =>
    obtain ⟨name, attributes, text, children⟩ := node
    rw [deleteBranches, ih]
    rfl

@[simp] theorem flag_deleteBranch (node : Node) (key : String) :
    (deleteBranch missing node).flag key = node.flag key := by
  simp only [flag, attribute?, deleteBranch]

theorem delete_eq (node : Node) : delete missing node =
    { node with children :=
      if node.name = "counter-loop" then deleteAll missing node.children
      else if node.name = "loopable-conditional" then node.children.map (deleteBranch missing)
      else node.children } := by
  obtain ⟨name, attributes, text, children⟩ := node
  rw [delete, deleteBranches_eq_map]

@[simp] theorem name_delete (node : Node) : (delete missing node).name = node.name := by
  rw [delete_eq]

@[simp] theorem attribute?_delete (node : Node) (key : String) :
    (delete missing node).attribute? key = node.attribute? key := by
  rw [delete_eq]
  rfl

@[simp] theorem required_delete (node : Node) (key : String) :
    (delete missing node).required key = node.required key := by
  simp [required]

@[simp] theorem number?_delete {α : Type} (read : List Char → Option α) (node : Node)
    (key : String) : number? read (delete missing node) key = number? read node key := by
  simp [number?]

@[simp] theorem number_delete {α : Type} (read : List Char → Option α) (node : Node)
    (key : String) : number read (delete missing node) key = number read node key := by
  simp [number]

theorem name_of_isMissing {node : Node} (h : node.isMissing missing = true) :
    node.name = "saved-sequence" := by
  simp only [isMissing, Bool.and_eq_true, beq_iff_eq] at h
  exact h.1

theorem isMissing_eq {node : Node} {file : String} (hname : node.name = "saved-sequence")
    (hfile : node.required "file" = .ok file) : node.isMissing missing = missing file := by
  have hattribute : node.attribute? "file" = some file := by
    unfold required at hfile
    split at hfile
    · rename_i value hvalue
      cases hfile
      exact hvalue
    · cases hfile
  simp [isMissing, hname, hattribute]

theorem delete_of_not_mem {node : Node} (h : node.name ∉ Element.names) :
    delete missing node = node := by
  simp only [Element.names, List.mem_cons, not_or] at h
  rw [delete_eq, if_neg h.2.2.1, if_neg h.2.2.2.1]
  cases node
  rfl

/-- Deleting elements leaves every other child where it is. -/
theorem find?_deleteAll {name : String} (hname : name ∉ Element.names) (nodes : List Node) :
    (deleteAll missing nodes).find? (·.name == name) = nodes.find? (·.name == name) := by
  induction nodes with
  | nil => rw [deleteAll]
  | cons node rest ih =>
    rw [deleteAll]
    by_cases hnode : node.name = name
    · have hkept : node.isMissing missing = false := by
        have hsaved : node.name ≠ "saved-sequence" := by
          rintro hsaved
          rw [← hnode, hsaved] at hname
          simp [Element.names] at hname
        simp [isMissing, hsaved]
      rw [hkept, if_neg Bool.false_ne_true, delete_of_not_mem (hnode ▸ hname)]
      simp [hnode]
    · have hskip : ∀ other : Node, other.name = node.name → ∀ others : List Node,
          (other :: others).find? (·.name == name) = others.find? (·.name == name) :=
        fun other hother others => List.find?_cons_of_neg (by simpa [hother] using hnode)
      rw [hskip node rfl]
      split
      · exact ih
      · rw [hskip _ (name_delete node), ih]

/-- What an element holds besides elements and branches is left as it is. -/
theorem child?_delete {name : String} (hname : name ∉ Element.names)
    (hbranch : ¬(name = "if-branch" ∨ name = "else-branch")) (node : Node) :
    (delete missing node).child? name = node.child? name := by
  have hmap : (node.children.map (deleteBranch missing)).find? (·.name == name) =
      node.children.find? (·.name == name) := by
    rw [List.find?_map]
    show (node.children.find? (·.name == name)).map _ = _
    cases hfind : node.children.find? (·.name == name) with
    | none => rfl
    | some child =>
      have hchild : child.name = name := by simpa using List.find?_some hfind
      rw [Option.map_some, deleteBranch, if_neg (hchild ▸ hbranch)]
      cases child
      rfl
  unfold child?
  rw [delete_eq]
  dsimp only
  split
  · exact find?_deleteAll hname _
  · split
    · exact hmap
    · rfl

theorem child?_delete_conditional {node : Node} (h : node.name = "loopable-conditional")
    (name : String) :
    (delete missing node).child? name = (node.child? name).map (deleteBranch missing) := by
  have hloop : node.name ≠ "counter-loop" := by simp [h]
  rw [delete_eq, if_neg hloop, if_pos h]
  unfold child?
  dsimp only
  rw [List.find?_map]
  rfl

theorem textAt?_comment (node : Node) :
    node.textAt? "comment" = (node.child? "comment").map (·.text) :=
  textAt?_of_stepsOf (by decide) node

end Node

/-! ## Reading what is kept -/

namespace Element

variable {missing : String → Bool}

theorem comment_placeOf_delete (position position' : Nat) (node : Node) :
    (placeOf position (node.delete missing)).comment = (placeOf position' node).comment := by
  have hcomment : (node.delete missing).child? "comment" = node.child? "comment" :=
    Node.child?_delete (by decide) (by decide) node
  simp only [placeOf, Node.textAt?_comment, hcomment]

theorem readSensor_delete (node : Node) : readSensor (node.delete missing) = readSensor node := by
  have hsensor : (node.delete missing).child? "sensor" = node.child? "sensor" :=
    Node.child?_delete (by decide) (by decide) node
  unfold readSensor
  rw [hsensor]

/-- Of a list of elements, those are kept that are not missing, with what they hold. Their positions
may change. -/
inductive Kept (missing : String → Bool) : List Element → List Element → Prop where
  | nil : Kept missing [] []
  | deleted {place : Place} {file : String} {elements elements' : List Element}
      (hmissing : missing file = true) (rest : Kept missing elements elements') :
    Kept missing (.sequence place file :: elements) elements'
  | expression {place place' : Place} {file : String} {delay : UInt32}
      {elements elements' : List Element} (hcomment : place'.comment = place.comment)
      (rest : Kept missing elements elements') :
    Kept missing (.expression place file delay :: elements)
      (.expression place' file delay :: elements')
  | sequence {place place' : Place} {file : String} {elements elements' : List Element}
      (hcomment : place'.comment = place.comment) (hfound : missing file = false)
      (rest : Kept missing elements elements') :
    Kept missing (.sequence place file :: elements) (.sequence place' file :: elements')
  | counterLoop {place place' : Place} {iterations : UInt32}
      {children children' elements elements' : List Element}
      (hcomment : place'.comment = place.comment) (hchildren : Kept missing children children')
      (rest : Kept missing elements elements') :
    Kept missing (.counterLoop place iterations children :: elements)
      (.counterLoop place' iterations children' :: elements')
  | conditional {place place' : Place} {spec : SensorSpec} {ifRepeats elseRepeats : Bool}
      {ifBranch ifBranch' elseBranch elseBranch' elements elements' : List Element}
      (hcomment : place'.comment = place.comment) (hif : Kept missing ifBranch ifBranch')
      (helse : Kept missing elseBranch elseBranch') (rest : Kept missing elements elements') :
    Kept missing (.conditional place spec ifRepeats elseRepeats ifBranch elseBranch :: elements)
      (.conditional place' spec ifRepeats elseRepeats ifBranch' elseBranch' :: elements')

/-- A list reads without what is deleted from it. -/
def ReadsKept (missing : String → Bool) (nodes : List Node) : Prop :=
  ∀ position position' elements, readList position nodes = .ok elements →
    ∃ elements', readList position' (Node.deleteAll missing nodes) = .ok elements' ∧
      Kept missing elements elements'

/-- An element is kept, in front of whatever is kept of the others. -/
def KeptAs (missing : String → Bool) (element element' : Element) : Prop :=
  ∀ elements elements', Kept missing elements elements' →
    Kept missing (element :: elements) (element' :: elements')

section Kinds

variable {node : Node} {position : Nat} {element : Element}

theorem readExpression_delete (position' : Nat) (h : readExpression position node = .ok element) :
    ∃ element', readExpression position' (node.delete missing) = .ok element' ∧
      KeptAs missing element element' := by
  obtain ⟨file, hfile, h⟩ := except_bind_eq_ok.1 h
  obtain ⟨delay, hdelay, h⟩ := except_bind_eq_ok.1 h
  cases h
  refine ⟨.expression (placeOf position' (node.delete missing)) file (delay.getD 0), ?_, ?_⟩
  · rw [readExpression, Node.required_delete, hfile, Node.number?_delete, hdelay]
    rfl
  · exact fun _ _ => .expression (comment_placeOf_delete ..)

theorem readSaved_delete (position' : Nat) (hname : node.name = "saved-sequence")
    (hkept : node.isMissing missing = false) (h : readSaved position node = .ok element) :
    ∃ element', readSaved position' (node.delete missing) = .ok element' ∧
      KeptAs missing element element' := by
  obtain ⟨file, hfile, h⟩ := except_bind_eq_ok.1 h
  cases h
  refine ⟨.sequence (placeOf position' (node.delete missing)) file, ?_, ?_⟩
  · rw [readSaved, Node.required_delete, hfile]
    rfl
  · rw [Node.isMissing_eq hname hfile] at hkept
    exact fun _ _ => .sequence (comment_placeOf_delete ..) hkept

theorem readCounterLoop_delete (position' : Nat) (hname : node.name = "counter-loop")
    (hchildren : ReadsKept missing node.children) (h : readCounterLoop position node = .ok element) :
    ∃ element', readCounterLoop position' (node.delete missing) = .ok element' ∧
      KeptAs missing element element' := by
  obtain ⟨iterations, hiterations, h⟩ := except_bind_eq_ok.1 h
  have hpositive : ¬iterations = 0 := by
    intro hzero
    rw [if_pos hzero] at h
    cases h
  rw [if_neg hpositive] at h
  obtain ⟨children, hread, h⟩ := except_bind_eq_ok.1 h
  cases h
  obtain ⟨children', hread', hkept⟩ := hchildren 0 0 children hread
  refine ⟨.counterLoop (placeOf position' (node.delete missing)) iterations children', ?_, ?_⟩
  · have hlist : (node.delete missing).children = Node.deleteAll missing node.children := by
      rw [Node.delete_eq, if_pos hname]
    rw [readCounterLoop, Node.number_delete, hiterations, hlist, hread']
    show (if iterations = 0 then _ else _) = _
    rw [if_neg hpositive]
    rfl
  · exact fun _ _ => .counterLoop (comment_placeOf_delete ..) hkept

theorem readBranch_delete (hname : node.name = "loopable-conditional") {branch : String}
    (hbranch : branch = "if-branch" ∨ branch = "else-branch")
    (hchildren : ∀ child ∈ node.children, ReadsKept missing child.children)
    {part : Bool × List Element} (h : readBranch node branch = .ok part) :
    ∃ children', readBranch (node.delete missing) branch = .ok (part.1, children') ∧
      Kept missing part.2 children' := by
  unfold readBranch at h ⊢
  rw [Node.child?_delete_conditional hname]
  cases hchild : node.child? branch with
  | none =>
    rw [hchild] at h
    cases h
    exact ⟨[], rfl, .nil⟩
  | some child =>
    rw [hchild] at h
    obtain ⟨repeats, hflag, h⟩ := except_bind_eq_ok.1 h
    obtain ⟨children, hread, h⟩ := except_bind_eq_ok.1 h
    cases h
    obtain ⟨children', hread', hkept⟩ :=
      hchildren child (Node.child?_mem hchild) 0 0 children hread
    refine ⟨children', ?_, hkept⟩
    have hchildName : child.name = branch := by simpa using List.find?_some hchild
    rw [← hchildName] at hbranch
    have hlist : (child.deleteBranch missing).children = Node.deleteAll missing child.children := by
      rw [Node.deleteBranch, if_pos hbranch]
    rw [Option.map_some]
    dsimp only
    rw [Node.flag_deleteBranch, hflag, hlist, hread']
    rfl

theorem readConditional_delete (position' : Nat) (hname : node.name = "loopable-conditional")
    (hchildren : ∀ child ∈ node.children, ReadsKept missing child.children)
    (h : readConditional position node = .ok element) :
    ∃ element', readConditional position' (node.delete missing) = .ok element' ∧
      KeptAs missing element element' := by
  obtain ⟨spec, hspec, h⟩ := except_bind_eq_ok.1 h
  obtain ⟨ifPart, hif, h⟩ := except_bind_eq_ok.1 h
  obtain ⟨elsePart, helse, h⟩ := except_bind_eq_ok.1 h
  cases h
  obtain ⟨ifBranch', hif', hifKept⟩ := readBranch_delete hname (.inl rfl) hchildren hif
  obtain ⟨elseBranch', helse', helseKept⟩ := readBranch_delete hname (.inr rfl) hchildren helse
  refine ⟨.conditional (placeOf position' (node.delete missing)) spec ifPart.1 elsePart.1 ifBranch'
    elseBranch', ?_, ?_⟩
  · rw [readConditional, readSensor_delete, hspec, hif', helse']
    rfl
  · exact fun _ _ => .conditional (comment_placeOf_delete ..) hifKept helseKept

end Kinds

/-- An element that is not missing is kept, given what becomes of the lists in it. -/
theorem readNode_delete {node : Node} {position : Nat} {element : Element} (position' : Nat)
    (hname : node.name ∈ names) (hkept : node.isMissing missing = false)
    (hlist : ReadsKept missing node.children)
    (hbranches : ∀ child ∈ node.children, ReadsKept missing child.children)
    (h : readNode position node = .ok element) :
    ∃ element', readNode position' (node.delete missing) = .ok element' ∧
      KeptAs missing element element' := by
  simp only [names, List.mem_cons, List.not_mem_nil, or_false] at hname
  rcases hname with hname | hname | hname | hname
  · rw [readNode_expression _ hname] at h
    rw [readNode_expression _ (by rwa [Node.name_delete])]
    exact readExpression_delete position' h
  · rw [readNode_saved _ hname] at h
    rw [readNode_saved _ (by rwa [Node.name_delete])]
    exact readSaved_delete position' hname hkept h
  · rw [readNode_counterLoop _ hname] at h
    rw [readNode_counterLoop _ (by rwa [Node.name_delete])]
    exact readCounterLoop_delete position' hname hlist h
  · rw [readNode_conditional _ hname] at h
    rw [readNode_conditional _ (by rwa [Node.name_delete])]
    exact readConditional_delete position' hname hbranches h

/-- A list that reads also does without the saved sequences that are missing. -/
theorem readsKept (missing : String → Bool) (nodes : List Node) : ReadsKept missing nodes := by
  intro position position' elements h
  match nodes with
  | [] =>
    rw [readList.eq_def] at h
    cases h
    exact ⟨[], by rw [Node.deleteAll, readList.eq_def], .nil⟩
  | node :: rest =>
    rw [Node.deleteAll]
    by_cases hname : node.name ∈ names
    · rw [readList_cons_of_mem hname] at h
      obtain ⟨element, hnode, h⟩ := except_bind_eq_ok.1 h
      obtain ⟨others, hrest, h⟩ := except_bind_eq_ok.1 h
      cases h
      split
      · rename_i hmissing
        have hsaved := Node.name_of_isMissing hmissing
        rw [readNode_saved _ hsaved] at hnode
        obtain ⟨file, hfile, hnode⟩ := except_bind_eq_ok.1 hnode
        cases hnode
        rw [Node.isMissing_eq hsaved hfile] at hmissing
        obtain ⟨others', hrest', hothers⟩ := readsKept missing rest _ position' others hrest
        exact ⟨others', hrest', .deleted hmissing hothers⟩
      · rename_i hkept
        have hnodeSize := node.sizeOf_children_lt
        have hlist := readsKept missing node.children
        have hbranches : ∀ child ∈ node.children, ReadsKept missing child.children := by
          intro child hchild
          have hchildSize := List.sizeOf_lt_of_mem hchild
          have hbranchSize := child.sizeOf_children_lt
          exact readsKept missing child.children
        obtain ⟨element', hnode', hkeptAs⟩ :=
          readNode_delete position' hname (by simpa using hkept) hlist hbranches hnode
        obtain ⟨others', hrest', hothers⟩ := readsKept missing rest _ (position' + 1) others hrest
        refine ⟨element' :: others', ?_, hkeptAs others others' hothers⟩
        rw [readList_cons_of_mem (by rwa [Node.name_delete]), hnode', hrest']
        rfl
    · rw [readList_cons_of_not_mem hname] at h
      have hkept : ¬node.isMissing missing = true := by
        intro hmissing
        rw [Node.name_of_isMissing hmissing] at hname
        simp [names] at hname
      rw [if_neg hkept, readList_cons_of_not_mem (by rwa [Node.name_delete])]
      exact readsKept missing rest position position' elements h
termination_by sizeOf nodes
decreasing_by
  all_goals
    simp only [List.cons.sizeOf_spec]
    omega

end Element

/-! ## Sequence documents -/

/-- A sequence document without the saved sequences that are missing. Any other document is left as
it is. -/
def Node.withoutMissing (missing : String → Bool) (node : Node) : Node :=
  if node.name = "sequence" then { node with children := deleteAll missing node.children } else node

theorem exists_readSequence_withoutMissing (missing : String → Bool) {node : Node}
    {elements : List Element} (h : readSequence node = .ok elements) :
    ∃ elements', readSequence (node.withoutMissing missing) = .ok elements' ∧
      Element.Kept missing elements elements' := by
  unfold readSequence at h
  split at h
  · rename_i hname
    obtain ⟨elements', hread, hkept⟩ := Element.readsKept missing node.children 0 0 elements h
    refine ⟨elements', ?_, hkept⟩
    rw [Node.withoutMissing, if_pos hname, readSequence, if_pos hname, hread]
  · cases h

theorem Expression.withoutMissing_of_read (missing : String → Bool) {node : Node}
    {expression : Expression} (h : Expression.read node = .ok expression) :
    node.withoutMissing missing = node := by
  have hname : ¬node.name = "sequence" := by
    intro hname
    unfold Expression.read at h
    rw [if_pos (by simp [hname])] at h
    cases h
  rw [Node.withoutMissing, if_neg hname]

end RobotSketch
