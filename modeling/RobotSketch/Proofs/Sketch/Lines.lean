import RobotSketch.Code
import RobotSketch.Sequence
import RobotSketch.Program
import RobotSketch.Proofs.Registry
import RobotSketch.Proofs.Text

/-!
# The lines of a sketch

A sketch is text, and whoever takes it in again starts from its lines. This module says what the
lines are: for every kind of statement, for a function and for a whole sketch.

The main statement is `Sketch.splitOn_render`: cut at its line ends, the text of a sketch is the
list `Sketch.charLines`. It asks that subroutines have identifiers for names and that their bodies
come from expressions, so that no line holds a line end of its own.
-/
namespace RobotSketch

/-! ## Induction on statements -/

namespace Statement

variable {κ α : Type}

/-- Induction on statements one after the other, with the bodies of the first one. -/
@[elab_as_elim]
theorem inductionAll {motive : List (Statement κ α) → Prop} (nil : motive [])
    (action : ∀ act rest, motive rest → motive (.action act :: rest))
    (count : ∀ times body rest, motive body → motive rest → motive (.count times body :: rest))
    (branch : ∀ test yes no rest, motive yes → motive no → motive rest →
      motive (.branch test yes no :: rest))
    (loopWhile : ∀ test body rest, motive body → motive rest →
      motive (.loopWhile test body :: rest))
    (forever : ∀ body rest, motive body → motive rest → motive (.forever body :: rest))
    (statements : List (Statement κ α)) : motive statements :=
  match statements with
  | [] => nil
  | .action act :: rest =>
    action act rest (inductionAll nil action count branch loopWhile forever rest)
  | .count times body :: rest =>
    count times body rest (inductionAll nil action count branch loopWhile forever body)
      (inductionAll nil action count branch loopWhile forever rest)
  | .branch test yes no :: rest =>
    branch test yes no rest (inductionAll nil action count branch loopWhile forever yes)
      (inductionAll nil action count branch loopWhile forever no)
      (inductionAll nil action count branch loopWhile forever rest)
  | .loopWhile test body :: rest =>
    loopWhile test body rest (inductionAll nil action count branch loopWhile forever body)
      (inductionAll nil action count branch loopWhile forever rest)
  | .forever body :: rest =>
    forever body rest (inductionAll nil action count branch loopWhile forever body)
      (inductionAll nil action count branch loopWhile forever rest)
termination_by sizeOf statements

mutual

/-- The plain actions of a statement, in the order of the text. -/
def actions : Statement κ α → List α
  | .action act => [act]
  | .count _ body => actionsAll body
  | .branch _ yes no => actionsAll yes ++ actionsAll no
  | .loopWhile _ body => actionsAll body
  | .forever body => actionsAll body

def actionsAll : List (Statement κ α) → List α
  | [] => []
  | statement :: rest => actions statement ++ actionsAll rest

end

@[simp] theorem actionsAll_append (first second : List (Statement κ α)) :
    actionsAll (first ++ second) = actionsAll first ++ actionsAll second := by
  induction first with
  | nil => rfl
  | cons statement rest ih => simp [actionsAll, ih]

end Statement

/-- The subroutine that an action calls. -/
def Action.call? : Action → Option String
  | .call method => some method
  | _ => none

/-- The subroutines that statements call, in the order of the text. -/
def Code.calls (code : List Code) : List String :=
  (Statement.actionsAll code).filterMap Action.call?

@[simp] theorem Code.calls_append (first second : List Code) :
    Code.calls (first ++ second) = Code.calls first ++ Code.calls second := by
  simp [Code.calls]

@[simp] theorem Code.calls_action (act : Action) (rest : List Code) :
    Code.calls (.action act :: rest) = act.call?.toList ++ Code.calls rest := by
  cases act <;> rfl

@[simp] theorem Code.calls_count (times : UInt32) (body rest : List Code) :
    Code.calls (.count times body :: rest) = Code.calls body ++ Code.calls rest := by
  simp [Code.calls, Statement.actionsAll, Statement.actions]

@[simp] theorem Code.calls_branch (test : Condition) (yes no rest : List Code) :
    Code.calls (.branch test yes no :: rest) = Code.calls yes ++ (Code.calls no ++ Code.calls rest) := by
  simp [Code.calls, Statement.actionsAll, Statement.actions]

@[simp] theorem Code.calls_loopWhile (test : Condition) (body rest : List Code) :
    Code.calls (.loopWhile test body :: rest) = Code.calls body ++ Code.calls rest := by
  simp [Code.calls, Statement.actionsAll, Statement.actions]

@[simp] theorem Code.calls_forever (body rest : List Code) :
    Code.calls (.forever body :: rest) = Code.calls body ++ Code.calls rest := by
  simp [Code.calls, Statement.actionsAll, Statement.actions]

/-! ## Blocks -/

/-- A line so many levels deep. -/
def indented (depth : Nat) (cs : List Char) : List Char := List.replicate (3 * depth) ' ' ++ cs

theorem toList_join_indent (n : Nat) :
    (String.join (List.replicate n Board.indent)).toList = List.replicate (3 * n) ' ' := by
  induction n with
  | zero => rfl
  | succ n ih =>
    rw [List.replicate_succ, String.join_cons, String.toList_append, ih, Nat.mul_succ, Nat.add_comm,
      ← List.replicate_append_replicate]
    rfl

theorem Line.toList_render (depth : Nat) (line : Line) :
    (line.render depth).toList = indented (depth + line.depth) line.text.toList ++ ['\n'] := by
  rw [Line.render, String.toList_append, String.toList_append, toList_join_indent]
  rfl

namespace Block

def charLines (depth : Nat) (block : Block) : List (List Char) :=
  block.lines.map fun line => indented (depth + line.depth) line.text.toList

@[simp] theorem charLines_append (depth : Nat) (first second : Block) :
    (first ++ second).charLines depth = first.charLines depth ++ second.charLines depth := by
  show (first.append second).charLines depth = _
  simp [charLines, append]

@[simp] theorem charLines_ofTexts (depth : Nat) (texts : List String) :
    (ofTexts texts).charLines depth = texts.map fun text => indented depth text.toList := by
  simp [charLines, ofTexts, Function.comp_def]

@[simp] theorem charLines_nested (depth : Nat) (block : Block) :
    block.nested.charLines depth = block.charLines (depth + 1) := by
  simp only [charLines, nested, List.map_map, List.map_inj_left]
  intro line _
  simp [Nat.add_assoc, Nat.add_comm 1]

/-- A construct takes its header, its body one level deeper, and the brace that closes it. -/
theorem charLines_braced (depth : Nat) (header : String) (body : Block) :
    (braced header body).charLines depth =
      indented depth header.toList :: (body.charLines (depth + 1) ++ [indented depth ['\x7d']]) := by
  simp [braced]

/-- The text of a block is its lines, each with a line end. -/
theorem toList_render (depth : Nat) (block : Block) :
    (block.render depth).toList = (block.charLines depth).flatMap (· ++ ['\n']) := by
  simp [render, charLines, String.toList_join, List.flatMap_map, Line.toList_render]

end Block

/-! ## Statements -/

/-- What a `for` header says. -/
def countHeader (times : UInt32) : List Char :=
  "for (int counter = 0; counter < ".toList ++ Text.digits times.toNat ++
    "; counter++) \x7b".toList

def Condition.chars (condition : Condition) : List Char :=
  Board.deviceHandle.toList ++ ".readSensorValue(".toList ++ Text.digits condition.slot.toNat ++
    ")".toList ++ " ".toList ++ condition.threshold.comparison.symbol.toList ++ " ".toList ++
      (Text.ofInt condition.threshold.value).toList

/-- What a header with a condition says, after its keyword. -/
def testHeader (keyword : String) (condition : Condition) : List Char :=
  keyword.toList ++ " (".toList ++ condition.chars ++ ") \x7b".toList

theorem toList_countHeader (times : UInt32) :
    (s!"for (int counter = 0; counter < {Text.ofNat times.toNat}; counter++) \x7b").toList =
      countHeader times := by
  show ("for (int counter = 0; counter < " ++ Text.ofNat times.toNat ++
    "; counter++) \x7b").toList = _
  rw [String.toList_append, String.toList_append, Text.toList_ofNat]
  rfl

theorem Condition.toList_text (condition : Condition) : condition.text.toList = condition.chars := by
  show (Board.deviceHandle ++ ".readSensorValue(" ++ Text.ofNat condition.slot.toNat ++ ")" ++ " " ++
    condition.threshold.comparison.symbol ++ " " ++
      Text.ofInt condition.threshold.value).toList = _
  iterate 7 rw [String.toList_append]
  rw [Text.toList_ofNat]
  rfl

theorem toList_ifHeader (condition : Condition) :
    (s!"if ({condition.text}) \x7b").toList = testHeader "if" condition := by
  show ("if (" ++ condition.text ++ ") \x7b").toList = _
  rw [String.toList_append, String.toList_append, Condition.toList_text]
  rfl

theorem toList_whileHeader (condition : Condition) :
    (s!"while ({condition.text}) \x7b").toList = testHeader "while" condition := by
  show ("while (" ++ condition.text ++ ") \x7b").toList = _
  rw [String.toList_append, String.toList_append, Condition.toList_text]
  rfl

namespace Code

def charLines (depth : Nat) (code : List Code) : List (List Char) := (Code.block code).charLines depth

@[simp] theorem charLines_nil (depth : Nat) : charLines depth [] = [] := rfl

theorem charLines_action (depth : Nat) (action : Action) (rest : List Code) :
    charLines depth (.action action :: rest) =
      indented depth action.line.toList :: charLines depth rest := by
  simp [charLines, block, Statement.layoutAll, Statement.layout]

theorem charLines_count (depth : Nat) (times : UInt32) (body rest : List Code) :
    charLines depth (.count times body :: rest) =
      indented depth (countHeader times) ::
        (charLines (depth + 1) body ++ indented depth ['\x7d'] :: charLines depth rest) := by
  simp only [charLines, block, Statement.layoutAll, Statement.layout, Block.charLines_append,
    Block.charLines_braced, toList_countHeader, List.cons_append, List.append_assoc, List.nil_append]

theorem charLines_branch (depth : Nat) (test : Condition) (yes no rest : List Code) :
    charLines depth (.branch test yes no :: rest) =
      indented depth (testHeader "if" test) ::
        (charLines (depth + 1) yes ++ indented depth ['\x7d'] ::
          indented depth "else \x7b".toList ::
            (charLines (depth + 1) no ++ indented depth ['\x7d'] :: charLines depth rest)) := by
  simp only [charLines, block, Statement.layoutAll, Statement.layout, Block.charLines_append,
    Block.charLines_braced, toList_ifHeader, List.cons_append, List.append_assoc, List.nil_append]

theorem charLines_loopWhile (depth : Nat) (test : Condition) (body rest : List Code) :
    charLines depth (.loopWhile test body :: rest) =
      indented depth (testHeader "while" test) ::
        (charLines (depth + 1) body ++ indented depth ['\x7d'] :: charLines depth rest) := by
  simp only [charLines, block, Statement.layoutAll, Statement.layout, Block.charLines_append,
    Block.charLines_braced, toList_whileHeader, List.cons_append, List.append_assoc, List.nil_append]

theorem charLines_forever (depth : Nat) (body rest : List Code) :
    charLines depth (.forever body :: rest) =
      indented depth "while (true) \x7b".toList ::
        (charLines (depth + 1) body ++ indented depth ['\x7d'] :: charLines depth rest) := by
  simp only [charLines, block, Statement.layoutAll, Statement.layout, Block.charLines_append,
    Block.charLines_braced, List.cons_append, List.append_assoc, List.nil_append]

end Code

/-! ## Sketches -/

/-- An instruction as expressions have it: what the board lacks is a comment. -/
def Instruction.IsRendered : Instruction → Prop
  | .device (.unsupported line) => ∃ text, line = Board.commentLine text
  | _ => True

namespace Sketch

/-- The lines up to the end of the setup. -/
def preambleLines : List (List Char) := [
  Board.includeLine.toList, [], Board.declaration.toList, [], "void setup() \x7b".toList,
  indented 1 Board.initCall.toList, ['\x7d']]

/-- What the header of a function says. -/
def functionHeader (name : String) : List Char :=
  "void ".toList ++ name.toList ++ "() \x7b".toList

/-- The lines of a function, given those of its body. -/
def functionLines (name : String) (body : List (List Char)) : List (List Char) :=
  [] :: functionHeader name :: (body ++ [['\x7d']])

def methodLines (method : Method (List Instruction)) : List (List Char) :=
  functionLines method.name (method.body.map fun instruction => indented 1 instruction.line.toList)

def charLines (code : List Code) (methods : List (Method (List Instruction))) : List (List Char) :=
  preambleLines ++ functionLines "loop" (Code.charLines 1 code) ++ methods.flatMap methodLines

theorem toList_preamble : preamble.toList = preambleLines.flatMap (· ++ ['\n']) := by
  decide +kernel

theorem toList_function (name : String) (body : Block) :
    (function name body).toList = (functionLines name (body.charLines 1)).flatMap (· ++ ['\n']) := by
  have htext : function name body =
      "\nvoid " ++ name ++ "() \x7b\n" ++ body.render 1 ++ "\x7d\n" := rfl
  have hstart : "\nvoid ".toList = '\n' :: "void ".toList := by decide
  have hopen : "() \x7b\n".toList = "() \x7b".toList ++ ['\n'] := by decide
  have hclose : "\x7d\n".toList = ['\x7d', '\n'] := by decide
  rw [htext]
  iterate 4 rw [String.toList_append]
  rw [Block.toList_render, hstart, hopen, hclose]
  unfold functionLines functionHeader
  simp only [List.flatMap_cons, List.flatMap_append, List.flatMap_nil, List.append_assoc,
    List.cons_append, List.nil_append]

/-- The lines of a sketch whose loop and subroutines are blocks of any kind. -/
def linesOf (loop : Block) (methods : List (Method (List String))) : List (List Char) :=
  preambleLines ++ functionLines "loop" (loop.charLines 1) ++ methods.flatMap fun method =>
    functionLines method.name ((Block.ofTexts method.body).charLines 1)

/-- The text of a sketch is its lines, each with a line end. -/
theorem toList_render (loop : Block) (methods : List (Method (List String))) :
    (render loop methods).toList = (linesOf loop methods).flatMap (· ++ ['\n']) := by
  rw [render, linesOf, String.toList_append, String.toList_append, toList_preamble,
    toList_function, String.toList_join, List.flatMap_append, List.flatMap_append,
    List.flatMap_assoc, List.flatMap_map]
  simp only [toList_function]

theorem linesOf_block (code : List Code) (methods : List (Method (List Instruction))) :
    linesOf (Code.block code) (methods.map (·.lines)) = charLines code methods := by
  have hmethod : ∀ method : Method (List Instruction),
      (Block.ofTexts method.lines.body).charLines 1 =
        method.body.map fun instruction => indented 1 instruction.line.toList := by
    intro method
    simp [Method.lines, Function.comp_def]
  rw [linesOf, charLines, List.flatMap_map]
  simp only [hmethod]
  rfl

/-- What a run of the compiler makes sure of: calls and functions have identifiers for names, and
bodies come from expressions. -/
structure IsWellFormed (code : List Code) (methods : List (Method (List Instruction))) : Prop where
  calls : ∀ method ∈ Code.calls code, Identifier.IsIdentifier method.toList
  names : ∀ method ∈ methods, Identifier.IsIdentifier method.name.toList
  bodies : ∀ method ∈ methods, ∀ instruction ∈ method.body, instruction.IsRendered

end Sketch

/-! ## Line ends -/

theorem newline_not_mem_indented {depth : Nat} {cs : List Char} :
    '\n' ∉ indented depth cs ↔ '\n' ∉ cs := by
  simp [indented]

theorem Identifier.IsIdentifier.newline_not_mem {cs : List Char} (h : IsIdentifier cs) :
    '\n' ∉ cs := by
  intro hmem
  exact absurd (h.parts _ hmem) (by decide)

theorem Board.newline_not_mem_commentLine (text : String) : '\n' ∉ (commentLine text).toList := by
  rcases commentLine_toList text with h | ⟨flat, h, -, hflat⟩
  · rw [h]
    decide
  · rw [h]
    simpa using newline_not_mem_of_isFlat hflat

theorem toList_callStatement (name : String) :
    (callStatement name).toList = name.toList ++ "();".toList := by
  show (name ++ "();").toList = _
  rw [String.toList_append]

theorem Board.toList_delayCall (millis : UInt32) :
    (delayCall millis).toList = "delay(".toList ++ Text.digits millis.toNat ++ ");".toList := by
  show ("delay(" ++ Text.ofNat millis.toNat ++ ");").toList = _
  rw [String.toList_append, String.toList_append, Text.toList_ofNat]

/-- The arguments of a call, as texts. -/
def DeviceCall.argumentChars (call : DeviceCall) : List (List Char) :=
  ((call.slot : Int) :: call.arguments).map fun value => (Text.ofInt value).toList

theorem DeviceCall.toList_line (call : DeviceCall) :
    call.line.toList = Board.deviceHandle.toList ++ ".".toList ++ call.service.setter.toList ++
      "(".toList ++ ", ".toList.intercalate call.argumentChars ++ ");".toList := by
  show (Board.deviceHandle ++ "." ++ call.service.setter ++ "(" ++
    String.intercalate ", " (Text.ofNat call.slot :: call.arguments.map Text.ofInt) ++ ");").toList = _
  iterate 5 rw [String.toList_append]
  rw [String.toList_intercalate, List.map_cons, List.map_map]
  rfl

theorem not_mem_intercalate {c : Char} {separator : List Char} {pieces : List (List Char)}
    (hseparator : c ∉ separator) (h : ∀ piece ∈ pieces, c ∉ piece) :
    c ∉ separator.intercalate pieces := by
  induction pieces with
  | nil => simp
  | cons piece rest ih =>
    have hpiece : c ∉ piece := h piece (by simp)
    cases rest with
    | nil => simpa using hpiece
    | cons next rest =>
      rw [List.intercalate_cons_cons, List.mem_append, List.mem_append, not_or, not_or]
      exact ⟨⟨hpiece, hseparator⟩, ih fun other hother => h other (by simp [hother])⟩

theorem DeviceCall.newline_not_mem_line (call : DeviceCall) : '\n' ∉ call.line.toList := by
  have harguments : '\n' ∉ ", ".toList.intercalate call.argumentChars := by
    apply not_mem_intercalate (by decide)
    intro piece hpiece
    obtain ⟨value, -, rfl⟩ := List.mem_map.1 hpiece
    exact Text.not_mem_ofInt (by decide) (by decide)
  have hsetter : '\n' ∉ call.service.setter.toList := by
    cases call.service <;> decide +kernel
  have hhandle : '\n' ∉ Board.deviceHandle.toList := by decide +kernel
  rw [DeviceCall.toList_line]
  simp only [List.mem_append, harguments, hsetter, hhandle]
  decide

theorem Board.newline_not_mem_delayCall (millis : UInt32) : '\n' ∉ (delayCall millis).toList := by
  rw [toList_delayCall]
  simp only [List.mem_append, Text.not_mem_digits (n := millis.toNat) (c := '\n') (by decide)]
  decide

theorem Instruction.IsRendered.newline_not_mem {instruction : Instruction}
    (h : instruction.IsRendered) : '\n' ∉ instruction.line.toList := by
  match instruction with
  | .device (.supported call) => exact call.newline_not_mem_line
  | .device (.unsupported line) =>
    obtain ⟨text, rfl⟩ := h
    exact Board.newline_not_mem_commentLine text
  | .delay millis => exact Board.newline_not_mem_delayCall millis

theorem newline_not_mem_countHeader (times : UInt32) : '\n' ∉ countHeader times := by
  have hdigits := Text.not_mem_digits (n := times.toNat) (c := '\n') (by decide)
  have hstart : '\n' ∉ "for (int counter = 0; counter < ".toList := by decide +kernel
  have hend : '\n' ∉ "; counter++) \x7b".toList := by decide +kernel
  unfold countHeader
  rw [List.mem_append, List.mem_append, not_or, not_or]
  exact ⟨⟨hstart, hdigits⟩, hend⟩

theorem Condition.newline_not_mem_chars (condition : Condition) : '\n' ∉ condition.chars := by
  have hdigits := Text.not_mem_digits (n := condition.slot.toNat) (c := '\n') (by decide)
  have hvalue := Text.not_mem_ofInt (n := condition.threshold.value) (c := '\n') (by decide)
    (by decide)
  have hsymbol : '\n' ∉ condition.threshold.comparison.symbol.toList := by
    cases condition.threshold.comparison <;> decide +kernel
  have hread : '\n' ∉ Board.deviceHandle.toList ++ ".readSensorValue(".toList := by decide +kernel
  unfold Condition.chars
  simp only [List.mem_append, hdigits, hvalue, hsymbol] at hread ⊢
  simp only [hread]
  decide

theorem newline_not_mem_testHeader {keyword : String} (condition : Condition)
    (h : '\n' ∉ keyword.toList) : '\n' ∉ testHeader keyword condition := by
  unfold testHeader
  simp only [List.mem_append, h, condition.newline_not_mem_chars]
  decide

/-- A line that every construct ends with. -/
theorem newline_not_mem_close (depth : Nat) : '\n' ∉ indented depth ['\x7d'] :=
  newline_not_mem_indented.2 (by decide)

/-- Statements whose calls have identifiers for names stand on lines of their own. -/
theorem Code.newline_not_mem_charLines {code : List Code} (depth : Nat)
    (h : ∀ method ∈ calls code, Identifier.IsIdentifier method.toList) :
    ∀ line ∈ charLines depth code, '\n' ∉ line := by
  induction code using Statement.inductionAll generalizing depth with
  | nil => simp
  | action act rest ih =>
    simp only [calls_action, List.forall_mem_append, Option.mem_toList] at h
    have hline : '\n' ∉ act.line.toList := by
      cases act with
      | comment text => exact Board.newline_not_mem_commentLine text
      | delay millis => exact Board.newline_not_mem_delayCall millis
      | call method =>
        have hmethod := h.1 method rfl
        rw [Action.line, toList_callStatement, List.mem_append, not_or]
        exact ⟨hmethod.newline_not_mem, by decide⟩
    rw [charLines_action, List.forall_mem_cons]
    exact ⟨newline_not_mem_indented.2 hline, ih depth h.2⟩
  | count times body rest ihbody ih =>
    simp only [calls_count, List.forall_mem_append] at h
    rw [charLines_count, List.forall_mem_cons, List.forall_mem_append, List.forall_mem_cons]
    exact ⟨newline_not_mem_indented.2 (newline_not_mem_countHeader times), ihbody (depth + 1) h.1,
      newline_not_mem_close depth, ih depth h.2⟩
  | branch test yes no rest ihyes ihno ih =>
    simp only [calls_branch, List.forall_mem_append] at h
    rw [charLines_branch]
    simp only [List.forall_mem_cons, List.forall_mem_append]
    exact ⟨newline_not_mem_indented.2 (newline_not_mem_testHeader test (by decide)),
      ihyes (depth + 1) h.1, newline_not_mem_close depth, newline_not_mem_indented.2 (by decide),
      ihno (depth + 1) h.2.1, newline_not_mem_close depth, ih depth h.2.2⟩
  | loopWhile test body rest ihbody ih =>
    simp only [calls_loopWhile, List.forall_mem_append] at h
    rw [charLines_loopWhile, List.forall_mem_cons, List.forall_mem_append, List.forall_mem_cons]
    exact ⟨newline_not_mem_indented.2 (newline_not_mem_testHeader test (by decide)),
      ihbody (depth + 1) h.1, newline_not_mem_close depth, ih depth h.2⟩
  | forever body rest ihbody ih =>
    simp only [calls_forever, List.forall_mem_append] at h
    rw [charLines_forever, List.forall_mem_cons, List.forall_mem_append, List.forall_mem_cons]
    exact ⟨newline_not_mem_indented.2 (by decide), ihbody (depth + 1) h.1,
      newline_not_mem_close depth, ih depth h.2⟩

namespace Sketch

theorem newline_not_mem_functionLines {name : String} {body : List (List Char)}
    (hname : '\n' ∉ name.toList) (hbody : ∀ line ∈ body, '\n' ∉ line) :
    ∀ line ∈ functionLines name body, '\n' ∉ line := by
  have hheader : '\n' ∉ functionHeader name := by
    unfold functionHeader
    simp only [List.mem_append, hname]
    decide
  simp only [functionLines, List.forall_mem_cons, List.forall_mem_append]
  exact ⟨by decide, hheader, hbody, by decide, by simp⟩

/-- Lines that hold no line end are found again by cutting at the line ends. -/
theorem splitOn_flatMap {lines : List (List Char)} (h : ∀ line ∈ lines, '\n' ∉ line) :
    (lines.flatMap (· ++ ['\n'])).splitOn '\n' = lines ++ [[]] := by
  induction lines with
  | nil => rfl
  | cons line rest ih =>
    rw [List.forall_mem_cons] at h
    have hline : ∀ c ∈ line, (c == '\n') = false := by
      intro c hc
      rw [beq_eq_false_iff_ne]
      rintro rfl
      exact h.1 hc
    rw [List.flatMap_cons, List.append_assoc, List.singleton_append, List.splitOn_eq_splitOnP,
      List.splitOnP_append_cons_of_forall_mem hline '\n' (by decide), ← List.splitOn_eq_splitOnP,
      ih h.2]
    rfl

/-- Cut at its line ends, the text of a sketch is the list of its lines if no name and no statement
has a line end inside. -/
theorem splitOn_render_linesOf {loop : Block} {methods : List (Method (List String))}
    (hloop : ∀ line ∈ loop.charLines 1, '\n' ∉ line)
    (hnames : ∀ method ∈ methods, '\n' ∉ method.name.toList)
    (hbodies : ∀ method ∈ methods, ∀ text ∈ method.body, '\n' ∉ text.toList) :
    (render loop methods).toList.splitOn '\n' = linesOf loop methods ++ [[]] := by
  rw [toList_render]
  apply splitOn_flatMap
  rw [linesOf]
  simp only [List.forall_mem_append]
  refine ⟨⟨by decide +kernel, newline_not_mem_functionLines (by decide) hloop⟩, ?_⟩
  intro line hline
  obtain ⟨method, hmethod, hline⟩ := List.mem_flatMap.1 hline
  refine newline_not_mem_functionLines (hnames method hmethod) (fun inner hinner => ?_) line hline
  rw [Block.charLines_ofTexts] at hinner
  obtain ⟨text, htext, rfl⟩ := List.mem_map.1 hinner
  exact newline_not_mem_indented.2 (hbodies method hmethod text htext)

/-- Cut at its line ends, the text of a well-formed sketch is the list of its lines. -/
theorem splitOn_render {code : List Code} {methods : List (Method (List Instruction))}
    (h : IsWellFormed code methods) :
    (render (Code.block code) (methods.map (·.lines))).toList.splitOn '\n' =
      charLines code methods ++ [[]] := by
  rw [splitOn_render_linesOf (Code.newline_not_mem_charLines 1 h.calls), linesOf_block]
  · intro method hmethod
    obtain ⟨method, hmem, rfl⟩ := List.mem_map.1 hmethod
    exact (h.names method hmem).newline_not_mem
  · intro method hmethod text htext
    obtain ⟨method, hmem, rfl⟩ := List.mem_map.1 hmethod
    obtain ⟨instruction, hinstruction, rfl⟩ := List.mem_map.1 htext
    exact (h.bodies method hmem instruction hinstruction).newline_not_mem

end Sketch

end RobotSketch
