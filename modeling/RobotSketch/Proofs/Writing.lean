import RobotSketch.Document
import RobotSketch.Proofs.Deleting
import RobotSketch.Proofs.Text

/-!
# Writing sequences

The lists of elements that sequence documents hold, said without the reader: `Element.FormedFrom`
counts their positions and bounds what they carry, at every depth. A reader gives such lists only
(`formedFrom_of_readList`), and each of them is written by `Element.toNodes` as a list that reads
back (`readList_toNodes`). So the reader gives exactly these lists:
`readSequence_gives_formed_lists`.

Comments are texts of documents, which have no blanks at their ends (`Node.Trimmed`). Whatever text
a document is parsed from, its tree is of this kind (`trimmed_of_parse`).
-/
namespace RobotSketch

/-! ## What readers give -/

namespace Xml

/-- Every value that a reader may give satisfies `P`. -/
def Reader.Yields {α : Type} (reader : Reader α) (P : α → Prop) : Prop :=
  ∀ cs value rest, reader cs = .ok (value, rest) → P value

namespace Reader.Yields

variable {α β : Type} {P : α → Prop} {Q : β → Prop}

theorem pure {value : α} (h : P value) : Yields (pure value : Reader α) P := by
  intro cs other rest heq
  cases heq
  exact h

theorem refuseAt (place : List Char) (complaint : Complaint) :
    Yields (refuseAt place complaint : Reader α) P := by
  intro cs value rest heq
  cases heq

theorem refuse (complaint : Complaint) : Yields (refuse complaint : Reader α) P := by
  intro cs value rest heq
  cases heq

theorem lift {result : Except Refusal α} (h : ∀ value, result = .ok value → P value) :
    Yields (liftM result : Reader α) P := by
  intro cs value rest heq
  cases result with
  | error refusal => cases heq
  | ok other =>
    cases heq
    exact h value rfl

theorem bind {reader : Reader α} {next : α → Reader β} (h : Yields reader P)
    (hnext : ∀ value, P value → Yields (next value) Q) : Yields (reader >>= next) Q := by
  intro cs value rest heq
  change (reader cs >>= fun (first, after) => next first after) = _ at heq
  cases hfirst : reader cs with
  | error refusal =>
    rw [hfirst] at heq
    cases heq
  | ok pair =>
    rw [hfirst] at heq
    exact hnext pair.1 (h cs pair.1 pair.2 hfirst) pair.2 value rest heq

/-- Whatever a first reader gives, the next one yields what is asked for. -/
theorem after {reader : Reader α} {next : α → Reader β} (hnext : ∀ value, Yields (next value) Q) :
    Yields (reader >>= next) Q :=
  bind (P := fun _ => True) (fun _ _ _ _ => trivial) fun value _ => hnext value

theorem ite {c : Prop} [Decidable c] {first second : Reader α} (hfirst : Yields first P)
    (hsecond : Yields second P) : Yields (if c then first else second) P := by
  split
  · exact hfirst
  · exact hsecond

end Reader.Yields

end Xml

/-! ## Trimmed documents -/

/-- The texts of an element and of all elements in it have no blanks at their ends. -/
inductive Node.Trimmed : Node → Prop where
  | intro {node : Node} (htext : Text.trimmed node.text = node.text)
      (hchildren : ∀ child ∈ node.children, Trimmed child) : Trimmed node

namespace Xml

open Reader

/-- The elements that are finished inside an open one are trimmed. -/
def OpenElement.Trimmed (element : OpenElement) : Prop := ∀ child ∈ element.children, child.Trimmed

/-- The elements that are finished so far are trimmed. -/
def Progress.Trimmed : Progress → Prop
  | .inside innermost around => ∀ element ∈ innermost :: around, element.Trimmed
  | .after root => root.Trimmed

theorem OpenElement.Trimmed.node {element : OpenElement} (h : element.Trimmed) :
    element.node.Trimmed := by
  refine .intro ?_ fun child hchild => h child (List.mem_reverse.1 hchild)
  show Text.trimmed (String.ofList (Text.trim element.text)) =
    String.ofList (Text.trim element.text)
  rw [Text.trimmed, String.toList_ofList, Text.trim_trim]

theorem OpenElement.trimmed_of_openElement {outer : Bindings} {name : QName} {place : List Char}
    {tag : Tag} {element : OpenElement}
    (h : openElement outer name place tag = .ok element) : element.Trimmed := by
  have hchildren : element.children = [] := by
    unfold openElement at h
    dsimp only at h
    cases hcheck : Bindings.check (tag.bound ++ outer) [] tag.attributes with
    | error refusal =>
      rw [hcheck] at h
      cases h
    | ok _ =>
      rw [hcheck] at h
      dsimp only [bind, Except.bind] at h
      split at h
      · split at h
        · cases h
        · cases h
          rfl
      · cases h
        rfl
  rw [OpenElement.Trimmed, hchildren]
  exact List.forall_mem_nil _

namespace Progress

theorem trimmed_finish {node : Node} {around : List OpenElement} (hnode : node.Trimmed)
    (haround : ∀ element ∈ around, element.Trimmed) : (finish node around).Trimmed := by
  cases around with
  | nil => exact hnode
  | cons element around =>
    obtain ⟨helement, haround⟩ := List.forall_mem_cons.1 haround
    refine List.forall_mem_cons.2 ⟨fun child hchild => ?_, haround⟩
    rcases List.mem_cons.1 hchild with rfl | hchild
    · exact hnode
    · exact helement child hchild

theorem trimmed_start {element : OpenElement} {around : List OpenElement} (helement : element.Trimmed)
    (haround : ∀ element ∈ around, element.Trimmed) (closed : Bool) :
    (start element closed around).Trimmed := by
  unfold start
  split
  · exact trimmed_finish helement.node haround
  · exact List.forall_mem_cons.2 ⟨helement, haround⟩

end Progress

theorem yields_readStart {around : List OpenElement}
    (haround : ∀ element ∈ around, element.Trimmed) :
    (readStart around).Yields fun progress? => ∀ progress ∈ progress?, progress.Trimmed := by
  unfold readStart
  refine .after fun _ => .after fun place => .after fun name => ?_
  dsimp only
  split
  · exact .bind (.refuseAt _ _) fun _ => False.elim
  · refine .after fun (tag, ending) => ?_
    dsimp only
    split
    · exact .pure (by simp)
    · refine .bind (.lift fun _ => OpenElement.trimmed_of_openElement) fun element helement => ?_
      refine .pure fun progress hprogress => ?_
      obtain rfl := Option.some.inj hprogress
      exact Progress.trimmed_start helement haround _

theorem yields_readEnd {element : OpenElement} {around : List OpenElement}
    (h : Progress.Trimmed (.inside element around)) :
    (readEnd element around).Yields Progress.Trimmed := by
  obtain ⟨helement, haround⟩ := List.forall_mem_cons.1 h
  unfold readEnd
  refine .after fun place => .after fun _ => .after fun name => .after fun _ => .after fun _ => ?_
  dsimp only
  split
  · exact .bind (.refuseAt _ _) fun _ => False.elim
  · exact .pure (Progress.trimmed_finish helement.node haround)

theorem yields_readPart {element : OpenElement} {around : List OpenElement}
    (h : Progress.Trimmed (.inside element around)) :
    (readPart element around).Yields Progress.Trimmed := by
  have htext (content : List Char) :
      Progress.Trimmed (.inside { element with text := element.text ++ content } around) := by
    obtain ⟨helement, haround⟩ := List.forall_mem_cons.1 h
    exact List.forall_mem_cons.2 ⟨helement, haround⟩
  unfold readPart
  refine .after fun _ => .ite (.after fun _ => .pure h) (.after fun _ => ?_)
  refine .ite (.after fun content => .pure (htext content)) (.after fun _ => ?_)
  refine .ite (.refuse _) (.after fun _ => .ite (.after fun _ => .pure h) (.after fun _ => ?_))
  refine .ite (yields_readEnd h) (.after fun _ => .ite (.refuse _) (.after fun _ => ?_))
  refine .ite (.bind (yields_readStart h) fun progress? hprogress => .pure ?_)
    (.after fun content => .pure (htext content))
  cases progress? with
  | none => exact h
  | some progress => exact hprogress progress rfl

theorem yields_readContent {progress : Progress} (h : progress.Trimmed) (count : Nat) :
    (readContent count progress).Yields Progress.Trimmed := by
  induction count generalizing progress with
  | zero => exact .pure h
  | succ count ih =>
    cases progress with
    | after root => exact .pure h
    | inside element around =>
      refine .after fun _ => .ite (.pure h) ?_
      exact (yields_readPart h).bind fun _ => ih

theorem yields_readRoot :
    readRoot.Yields fun progress? => ∀ progress ∈ progress?, progress.Trimmed := by
  unfold readRoot
  refine .after fun _ => .ite (.pure (by simp)) ?_
  refine (yields_readStart (List.forall_mem_nil _)).bind fun progress? hprogress => ?_
  cases progress? with
  | none => exact .pure hprogress
  | some progress =>
    refine .after fun rest => ?_
    refine (yields_readContent (hprogress progress rfl) rest.length).bind fun last hlast => .pure ?_
    simpa using hlast

theorem yields_rootOf {root : Option Progress} (h : ∀ progress ∈ root, progress.Trimmed) :
    (rootOf root).Yields Node.Trimmed :=
  match root with
  | none => .refuse _
  | some (.inside _ _) => .refuse _
  | some (.after _) => .pure (h _ rfl)

theorem yields_readDocument : readDocument.Yields Node.Trimmed := by
  unfold readDocument
  refine .after fun _ => .after fun _ => yields_readRoot.bind fun root hroot => ?_
  refine .after fun _ => .after fun _ => ?_
  dsimp only
  split
  · exact .bind (.refuse _) fun _ => False.elim
  · exact yields_rootOf hroot

end Xml

/-- The tree of every text is trimmed. -/
theorem trimmed_of_parse {source : String} {node : Node} (h : Node.parse source = .ok node) :
    node.Trimmed := by
  unfold Node.parse Xml.parse at h
  split at h
  · rename_i root rest hroot
    obtain rfl := Except.ok.inj h
    exact Xml.yields_readDocument _ _ _ hroot
  · cases h

/-! ## Lists of elements -/

/-- A comment that an element can have: it is not empty and has no blank at either end. -/
structure IsComment (text : String) : Prop where
  nonempty : text ≠ ""
  start : ∀ c ∈ text.toList.head?, Text.isBlank c = false
  finish : ∀ c ∈ text.toList.getLast?, Text.isBlank c = false

/-- The place of an element that stands at a position. -/
structure Place.Formed (position : Nat) (place : Place) : Prop where
  position_eq : place.position = position
  isComment : ∀ comment ∈ place.comment, IsComment comment

namespace Element

mutual

/-- What an element carries besides its place. Delays, numbers of iterations, slots and thresholds
have types that bound them from above. -/
def Formed : Element → Prop
  | .expression _ _ _ => True
  | .sequence _ _ => True
  | .counterLoop _ iterations children => 1 ≤ iterations.toNat ∧ FormedFrom 0 children
  | .conditional _ spec _ _ ifBranch elseBranch =>
    1 ≤ spec.slot.toNat ∧ FormedFrom 0 ifBranch ∧ FormedFrom 0 elseBranch

/-- A list of elements whose positions count up from `position`. -/
def FormedFrom (position : Nat) : List Element → Prop
  | [] => True
  | element :: rest =>
    element.place.Formed position ∧ element.Formed ∧ FormedFrom (position + 1) rest

end

/-! ## What is read is formed -/

section Reading

variable {position : Nat} {node : Node} {element : Element}

theorem formed_placeOf (position : Nat) (h : node.Trimmed) :
    (placeOf position node).Formed position := by
  refine ⟨rfl, fun comment hcomment => ?_⟩
  obtain ⟨hfound, hne⟩ := Option.filter_eq_some_iff.1 (Option.mem_def.1 hcomment)
  rw [Node.textAt?_comment] at hfound
  obtain ⟨child, hchild, rfl⟩ := Option.map_eq_some_iff.1 hfound
  cases h with
  | intro _ hchildren =>
    cases hchildren child (Node.child?_mem hchild) with
    | intro htext _ =>
      have htrim : Text.trim child.text.toList = child.text.toList := by
        rw [← String.toList_ofList (l := Text.trim child.text.toList)]
        exact congrArg String.toList htext
      obtain ⟨hstart, hfinish⟩ := Text.trim_eq_self_iff.1 htrim
      exact ⟨by simpa using hne, hstart, hfinish⟩

theorem readExpression_eq_ok (h : readExpression position node = .ok element) :
    element.place = placeOf position node ∧ element.Formed := by
  obtain ⟨file, -, h⟩ := except_bind_eq_ok.1 h
  obtain ⟨delay, -, h⟩ := except_bind_eq_ok.1 h
  cases h
  exact ⟨rfl, by rw [Formed]; trivial⟩

theorem readSaved_eq_ok (h : readSaved position node = .ok element) :
    element.place = placeOf position node ∧ element.Formed := by
  obtain ⟨file, -, h⟩ := except_bind_eq_ok.1 h
  cases h
  exact ⟨rfl, by rw [Formed]; trivial⟩

theorem readCounterLoop_eq_ok
    (hlist : ∀ children, readList 0 node.children = .ok children → FormedFrom 0 children)
    (h : readCounterLoop position node = .ok element) :
    element.place = placeOf position node ∧ element.Formed := by
  obtain ⟨iterations, -, h⟩ := except_bind_eq_ok.1 h
  have hpositive : ¬iterations = 0 := by
    intro hzero
    rw [if_pos hzero] at h
    cases h
  rw [if_neg hpositive] at h
  obtain ⟨children, hchildren, h⟩ := except_bind_eq_ok.1 h
  cases h
  refine ⟨rfl, ?_⟩
  rw [Formed]
  have hne : iterations.toNat ≠ 0 := fun hzero => hpositive (UInt32.toNat_inj.1 hzero)
  exact ⟨by omega, hlist children hchildren⟩

theorem readSensor_slot {spec : SensorSpec} (h : readSensor node = .ok spec) :
    1 ≤ spec.slot.toNat := by
  unfold readSensor at h
  split at h
  · obtain ⟨deviceId, -, h⟩ := except_bind_eq_ok.1 h
    dsimp only at h
    split at h
    · cases h
    · rename_i hrange
      obtain ⟨sensor, -, h⟩ := except_bind_eq_ok.1 h
      obtain ⟨percentage, -, h⟩ := except_bind_eq_ok.1 h
      cases h
      show 1 ≤ (deviceId.getD 0 + 1).toNat
      rw [UInt8.toNat_add]
      have hsize : UInt8.size = 256 := rfl
      have hone : (1 : UInt8).toNat = 1 := rfl
      omega
  · cases h

theorem readBranch_eq_ok {branch : String} {part : Bool × List Element}
    (hlists : ∀ child ∈ node.children, ∀ children,
      readList 0 child.children = .ok children → FormedFrom 0 children)
    (h : readBranch node branch = .ok part) : FormedFrom 0 part.2 := by
  unfold readBranch at h
  split at h
  · cases h
    rw [FormedFrom]
    trivial
  · rename_i child hchild
    obtain ⟨repeats, -, h⟩ := except_bind_eq_ok.1 h
    obtain ⟨children, hchildren, h⟩ := except_bind_eq_ok.1 h
    cases h
    exact hlists child (Node.child?_mem hchild) children hchildren

theorem readConditional_eq_ok
    (hlists : ∀ child ∈ node.children, ∀ children,
      readList 0 child.children = .ok children → FormedFrom 0 children)
    (h : readConditional position node = .ok element) :
    element.place = placeOf position node ∧ element.Formed := by
  obtain ⟨spec, hspec, h⟩ := except_bind_eq_ok.1 h
  obtain ⟨ifPart, hif, h⟩ := except_bind_eq_ok.1 h
  obtain ⟨elsePart, helse, h⟩ := except_bind_eq_ok.1 h
  cases h
  refine ⟨rfl, ?_⟩
  rw [Formed]
  exact ⟨readSensor_slot hspec, readBranch_eq_ok hlists hif, readBranch_eq_ok hlists helse⟩

end Reading

/-- An element that is read takes its place and is formed, given that the lists in it are. -/
theorem readNode_eq_ok {position : Nat} {node : Node} {element : Element}
    (hlist : ∀ children, readList 0 node.children = .ok children → FormedFrom 0 children)
    (hlists : ∀ child ∈ node.children, ∀ children,
      readList 0 child.children = .ok children → FormedFrom 0 children)
    (h : readNode position node = .ok element) :
    element.place = placeOf position node ∧ element.Formed := by
  unfold readNode at h
  split at h
  · exact readExpression_eq_ok h
  · split at h
    · exact readSaved_eq_ok h
    · split at h
      · exact readCounterLoop_eq_ok hlist h
      · exact readConditional_eq_ok hlists h

/-- Every list that is read is formed. -/
theorem formedFrom_of_readList {position : Nat} {nodes : List Node} {elements : List Element}
    (htrimmed : ∀ node ∈ nodes, node.Trimmed) (h : readList position nodes = .ok elements) :
    FormedFrom position elements := by
  match nodes with
  | [] =>
    rw [readList.eq_def] at h
    cases h
    rw [FormedFrom]
    trivial
  | node :: rest =>
    obtain ⟨hnode, hrest⟩ := List.forall_mem_cons.1 htrimmed
    by_cases hname : node.name ∈ names
    · have hnodeSize := node.sizeOf_children_lt
      have hchildren : ∀ child ∈ node.children, child.Trimmed := by
        cases hnode with
        | intro _ hchildren => exact hchildren
      have hlist : ∀ children, readList 0 node.children = .ok children → FormedFrom 0 children :=
        fun children hread => formedFrom_of_readList hchildren hread
      have hlists : ∀ child ∈ node.children, ∀ children,
          readList 0 child.children = .ok children → FormedFrom 0 children := by
        intro child hchild children hread
        have hchildSize := List.sizeOf_lt_of_mem hchild
        have hbranchSize := child.sizeOf_children_lt
        cases hchildren child hchild with
        | intro _ hgrandchildren => exact formedFrom_of_readList hgrandchildren hread
      rw [readList_cons_of_mem hname] at h
      obtain ⟨element, hread, h⟩ := except_bind_eq_ok.1 h
      obtain ⟨others, hothers, h⟩ := except_bind_eq_ok.1 h
      cases h
      obtain ⟨hplace, hformed⟩ := readNode_eq_ok hlist hlists hread
      rw [FormedFrom, hplace]
      exact ⟨formed_placeOf position hnode, hformed, formedFrom_of_readList hrest hothers⟩
    · -- what is no element takes no position
      rw [readList_cons_of_not_mem hname] at h
      exact formedFrom_of_readList hrest h
termination_by sizeOf nodes
decreasing_by
  all_goals
    simp only [List.cons.sizeOf_spec]
    omega

/-! ## Documents of elements -/

/-- The comment of an element, as a child of it. -/
def commentNodes (place : Place) : List Node :=
  place.comment.toList.map fun comment => ⟨"comment", [], comment, []⟩

def sensorNode (spec : SensorSpec) : Node :=
  ⟨"sensor", [
    ("type", spec.sensor),
    ("device-id", Text.ofNat (spec.slot - 1).toNat),
    ("threshold-percentage", Text.ofNat spec.threshold.value)], "", []⟩

def branchNode (name : String) (repeats : Bool) (children : List Node) : Node :=
  ⟨name, [("should-repeat", if repeats then "true" else "false")], "", children⟩

mutual

/-- The element of a document that says the same. -/
def toNode : Element → Node
  | .expression place file delay =>
    ⟨"expression", [("file", file), ("delay-millis", Text.ofNat delay.toNat)], "",
      commentNodes place⟩
  | .sequence place file => ⟨"saved-sequence", [("file", file)], "", commentNodes place⟩
  | .counterLoop place iterations children =>
    ⟨"counter-loop", [("iterations", Text.ofNat iterations.toNat)], "",
      commentNodes place ++ toNodes children⟩
  | .conditional place spec ifRepeats elseRepeats ifBranch elseBranch =>
    ⟨"loopable-conditional", [], "", commentNodes place ++ [
      sensorNode spec,
      branchNode "if-branch" ifRepeats (toNodes ifBranch),
      branchNode "else-branch" elseRepeats (toNodes elseBranch)]⟩

/-- The elements of a document that say the same. -/
def toNodes : List Element → List Node
  | [] => []
  | element :: rest => element.toNode :: toNodes rest

end

theorem name_toNode_mem (element : Element) : element.toNode.name ∈ names := by
  cases element <;> simp [toNode, names]

theorem name_mem_of_mem_toNodes {elements : List Element} {node : Node}
    (h : node ∈ toNodes elements) : node.name ∈ names := by
  induction elements with
  | nil =>
    rw [toNodes] at h
    cases h
  | cons element rest ih =>
    rw [toNodes] at h
    rcases List.mem_cons.1 h with rfl | h
    · exact name_toNode_mem element
    · exact ih h

/-! ## What is written reads back -/

theorem number?_of_attribute? {α : Type} {read : List Char → Option α} {node : Node}
    {key : String} {n : Nat} {value : α} (hkey : node.attribute? key = some (Text.ofNat n))
    (hread : read (Text.digits n) = some value) :
    Node.number? read node key = .ok (some value) := by
  simp only [Node.number?, hkey, Text.toList_ofNat, Text.trim_digits, hread]

theorem number_of_attribute? {α : Type} {read : List Char → Option α} {node : Node}
    {key : String} {n : Nat} {value : α} (hkey : node.attribute? key = some (Text.ofNat n))
    (hread : read (Text.digits n) = some value) : Node.number read node key = .ok value := by
  simp only [Node.number, number?_of_attribute? hkey hread]

theorem required_of_attribute? {node : Node} {key value : String}
    (h : node.attribute? key = some value) : node.required key = .ok value := by
  simp only [Node.required, h]

theorem flag_branchNode (name : String) (repeats : Bool) (children : List Node) :
    (branchNode name repeats children).flag "should-repeat" = .ok repeats := by
  have htrue : Node.flagOf? "true" = some true := by decide +kernel
  have hfalse : Node.flagOf? "false" = some false := by decide +kernel
  cases repeats with
  | true => simp [Node.flag, Node.attribute?, branchNode, htrue]
  | false => simp [Node.flag, Node.attribute?, branchNode, hfalse]

/-- An element whose children are its comment and others that are none has its place back. -/
theorem placeOf_eq {place : Place} {position : Nat} {node : Node} {others : List Node}
    (hplace : place.Formed position) (hchildren : node.children = commentNodes place ++ others)
    (hothers : ∀ other ∈ others, other.name ≠ "comment") : placeOf position node = place := by
  have hnone : others.find? (·.name == "comment") = none :=
    List.find?_eq_none.2 fun other hother => by simpa using hothers other hother
  obtain ⟨own, comment⟩ := place
  obtain ⟨rfl, hcomment⟩ := hplace
  unfold placeOf
  rw [Node.textAt?_comment, Node.child?, hchildren]
  cases comment with
  | none => simp [commentNodes, hnone]
  | some comment =>
    have hne : comment ≠ "" := (hcomment comment rfl).nonempty
    simp [commentNodes, hne]

/-- A comment in front of a list is passed over. -/
theorem readList_commentNodes_append (position : Nat) (place : Place) (nodes : List Node) :
    readList position (commentNodes place ++ nodes) = readList position nodes := by
  unfold commentNodes
  cases place.comment with
  | none => rfl
  | some comment => exact readList_cons_of_not_mem (by simp [names]) position nodes

/-- A child that is no comment is found behind the comment. -/
theorem find?_commentNodes_append {name : String} (hname : name ≠ "comment") (place : Place)
    (nodes : List Node) :
    (commentNodes place ++ nodes).find? (·.name == name) = nodes.find? (·.name == name) := by
  unfold commentNodes
  cases place.comment with
  | none => rfl
  | some comment => exact List.find?_cons_of_neg (by simpa using Ne.symm hname)

theorem readSensor_of_child? {node : Node} {spec : SensorSpec} (hslot : 1 ≤ spec.slot.toNat)
    (h : node.child? "sensor" = some (sensorNode spec)) : readSensor node = .ok spec := by
  have hdevice : Node.number? Text.readUInt8? (sensorNode spec) "device-id" =
      .ok (some (spec.slot - 1)) := number?_of_attribute? rfl (Text.readUInt8?_digits _)
  have htype : (sensorNode spec).required "type" = .ok spec.sensor := required_of_attribute? rfl
  have hread : Text.readInt64? (Text.digits spec.threshold.value) =
      some (spec.threshold.value : Int) := by
    have hle := spec.threshold.le_hundred
    rw [Text.readInt64?, Text.readInt?_digits, Option.filter_some]
    simp only [Bool.and_eq_true, decide_eq_true_eq]
    rw [if_pos (by omega)]
  have hthreshold : Node.number Text.readInt64? (sensorNode spec) "threshold-percentage" =
      .ok (spec.threshold.value : Int) := number_of_attribute? rfl hread
  have hone : (1 : UInt8).toNat = 1 := rfl
  have hbefore : (spec.slot - 1).toNat = spec.slot.toNat - 1 :=
    UInt8.toNat_sub_of_le _ _ (by rw [UInt8.le_iff_toNat_le, hone]; exact hslot)
  have hrange : ¬(spec.slot - 1).toNat + 1 ≥ UInt8.size := by
    have := spec.slot.toNat_lt
    have hsize : UInt8.size = 256 := rfl
    omega
  unfold readSensor
  rw [h]
  dsimp only
  rw [hdevice]
  show (if (spec.slot - 1).toNat + 1 ≥ UInt8.size then _ else _) = _
  rw [if_neg hrange, htype, hthreshold]
  show Except.ok (SensorSpec.mk spec.sensor (spec.slot - 1 + 1)
    (.nearest spec.threshold.value)) = _
  rw [UInt8.sub_add_cancel, Percent.nearest_value]

theorem readBranch_of_child? {node : Node} {name : String} {repeats : Bool}
    {elements : List Element}
    (h : node.child? name = some (branchNode name repeats (toNodes elements)))
    (hread : readList 0 (toNodes elements) = .ok elements) :
    readBranch node name = .ok (repeats, elements) := by
  unfold readBranch
  rw [h]
  dsimp only
  rw [flag_branchNode]
  show (readList 0 (toNodes elements) >>= fun children => _) = _
  rw [hread]
  rfl

mutual

theorem readNode_toNode {position : Nat} : ∀ {element : Element}, element.place.Formed position →
    element.Formed → readNode position element.toNode = .ok element
  | .expression place file delay, hplace, _ => by
    rw [readNode_expression _ (by rw [toNode]), toNode, readExpression,
      placeOf_eq hplace (List.append_nil _).symm (by simp), required_of_attribute? rfl,
      number?_of_attribute? rfl (Text.readUInt32?_digits delay)]
    rfl
  | .sequence place file, hplace, _ => by
    rw [readNode_saved _ (by rw [toNode]), toNode, readSaved,
      placeOf_eq hplace (List.append_nil _).symm (by simp), required_of_attribute? rfl]
    rfl
  | .counterLoop place iterations children, hplace, hformed => by
    rw [Formed] at hformed
    obtain ⟨hiterations, hchildren⟩ := hformed
    have hread := readList_toNodes hchildren
    have hothers : ∀ other ∈ toNodes children, other.name ≠ "comment" := by
      intro other hother hname
      have := name_mem_of_mem_toNodes hother
      rw [hname] at this
      simp [names] at this
    have hpositive : ¬iterations = 0 := by
      rintro rfl
      exact absurd hiterations (by decide)
    rw [readNode_counterLoop _ (by rw [toNode]), toNode, readCounterLoop,
      placeOf_eq hplace rfl hothers, number_of_attribute? rfl (Text.readUInt32?_digits iterations)]
    show (if iterations = 0 then _ else _) = _
    rw [if_neg hpositive, readList_commentNodes_append, hread]
    rfl
  | .conditional place spec ifRepeats elseRepeats ifBranch elseBranch, hplace, hformed => by
    rw [Formed] at hformed
    obtain ⟨hslot, hif, helse⟩ := hformed
    have hreadIf := readList_toNodes hif
    have hreadElse := readList_toNodes helse
    rw [readNode_conditional _ (by rw [toNode]), toNode]
    generalize hnode : Node.mk "loopable-conditional" [] "" _ = node
    have hchildren : node.children = commentNodes place ++ [sensorNode spec,
        branchNode "if-branch" ifRepeats (toNodes ifBranch),
        branchNode "else-branch" elseRepeats (toNodes elseBranch)] := by rw [← hnode]
    have hsensor : node.child? "sensor" = some (sensorNode spec) := by
      rw [Node.child?, hchildren, find?_commentNodes_append (by decide)]
      rfl
    have hifChild : node.child? "if-branch" =
        some (branchNode "if-branch" ifRepeats (toNodes ifBranch)) := by
      rw [Node.child?, hchildren, find?_commentNodes_append (by decide)]
      rfl
    have helseChild : node.child? "else-branch" =
        some (branchNode "else-branch" elseRepeats (toNodes elseBranch)) := by
      rw [Node.child?, hchildren, find?_commentNodes_append (by decide)]
      rfl
    rw [readConditional, placeOf_eq hplace hchildren (by simp [sensorNode, branchNode]),
      readSensor_of_child? hslot hsensor, readBranch_of_child? hifChild hreadIf,
      readBranch_of_child? helseChild hreadElse]
    rfl

/-- A list that is written reads back. -/
theorem readList_toNodes {position : Nat} : ∀ {elements : List Element},
    FormedFrom position elements → readList position (toNodes elements) = .ok elements
  | [], _ => by rw [toNodes, readList.eq_def]
  | element :: rest, h => by
    rw [FormedFrom] at h
    obtain ⟨hplace, hformed, hrest⟩ := h
    rw [toNodes, readList_cons_of_mem (name_toNode_mem element), readNode_toNode hplace hformed,
      readList_toNodes hrest]
    rfl

end

/-! ## What is written is trimmed -/

theorem trimmed_of_blank {name : String} {attributes : List (String × String)}
    {children : List Node} (h : ∀ child ∈ children, child.Trimmed) :
    Node.Trimmed ⟨name, attributes, "", children⟩ := .intro rfl h

theorem trimmed_commentNodes {position : Nat} {place : Place} (h : place.Formed position) :
    ∀ node ∈ commentNodes place, node.Trimmed := by
  intro node hnode
  obtain ⟨comment, hcomment, rfl⟩ := List.mem_map.1 hnode
  have hformed := h.isComment comment (Option.mem_toList.1 hcomment)
  refine .intro ?_ (by simp)
  show Text.trimmed comment = comment
  rw [Text.trimmed, Text.trim_eq_self_iff.2 ⟨hformed.start, hformed.finish⟩, String.ofList_toList]

mutual

theorem trimmed_toNode {position : Nat} : ∀ {element : Element}, element.place.Formed position →
    element.Formed → element.toNode.Trimmed
  | .expression place file delay, hplace, _ => by
    rw [toNode]
    exact trimmed_of_blank (trimmed_commentNodes hplace)
  | .sequence place file, hplace, _ => by
    rw [toNode]
    exact trimmed_of_blank (trimmed_commentNodes hplace)
  | .counterLoop place iterations children, hplace, hformed => by
    rw [Formed] at hformed
    rw [toNode]
    exact trimmed_of_blank
      (List.forall_mem_append.2 ⟨trimmed_commentNodes hplace, trimmed_toNodes hformed.2⟩)
  | .conditional place spec ifRepeats elseRepeats ifBranch elseBranch, hplace, hformed => by
    rw [Formed] at hformed
    have hif := trimmed_toNodes hformed.2.1
    have helse := trimmed_toNodes hformed.2.2
    rw [toNode]
    refine trimmed_of_blank (List.forall_mem_append.2 ⟨trimmed_commentNodes hplace, ?_⟩)
    simp only [List.forall_mem_cons]
    exact ⟨trimmed_of_blank (by simp), trimmed_of_blank hif, trimmed_of_blank helse, by simp⟩

theorem trimmed_toNodes {position : Nat} : ∀ {elements : List Element},
    FormedFrom position elements → ∀ node ∈ toNodes elements, node.Trimmed
  | [], _ => by simp [toNodes]
  | element :: rest, h => by
    rw [FormedFrom] at h
    obtain ⟨hplace, hformed, hrest⟩ := h
    rw [toNodes]
    exact List.forall_mem_cons.2 ⟨trimmed_toNode hplace hformed, trimmed_toNodes hrest⟩

end

end Element

/-! ## The lists of all documents -/

/-- **Sequences that can be read.** The lists that come of reading trimmed documents are exactly the
formed ones: each list that is read is formed, and each formed list is read from some document. The
trees of texts are trimmed documents. -/
theorem readSequence_gives_formed_lists (elements : List Element) :
    ((∃ root : Node, root.Trimmed ∧ readSequence root = .ok elements) ↔
      Element.FormedFrom 0 elements) ∧
    ∀ source root, Node.parse source = .ok root → root.Trimmed := by
  refine ⟨⟨?_, ?_⟩, fun source root => trimmed_of_parse⟩
  · rintro ⟨root, htrimmed, hread⟩
    cases htrimmed with
    | intro _ hchildren =>
      unfold readSequence at hread
      split at hread
      · exact Element.formedFrom_of_readList hchildren hread
      · cases hread
  · intro hformed
    refine ⟨⟨"sequence", [], "", Element.toNodes elements⟩,
      Element.trimmed_of_blank (Element.trimmed_toNodes hformed), ?_⟩
    rw [readSequence, if_pos rfl]
    exact Element.readList_toNodes hformed

end RobotSketch
