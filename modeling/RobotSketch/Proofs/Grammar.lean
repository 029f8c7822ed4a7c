import RobotSketch.Proofs.Linking

/-!
# The grammar of sketches

Text of documents reaches a sketch as comments, as names and as numbers. This module writes down what
a sketch may look like, line by line: a grammar in which free text has no place but behind two
slashes, on a line that ends where the text does. Every line stands three blanks deeper than the
construct around it.

The main statement is `Project.sketch_follows_grammar`: whatever its documents say, a compiled sketch
is derived from the grammar.
-/
namespace RobotSketch

namespace Grammar

/-! ## Lines -/

/-- A row of decimal digits. -/
structure IsNatural (cs : List Char) : Prop where
  ne_nil : cs ≠ []
  digits : ∀ c ∈ cs, Text.isDigit c = true

/-- A decimal integer. -/
inductive IsInteger : List Char → Prop where
  | natural {cs : List Char} (h : IsNatural cs) : IsInteger cs
  | negative {cs : List Char} (h : IsNatural cs) : IsInteger ('-' :: cs)

/-- A comment, whose text has no control character, no blank at either end, and no backslash at its
end. -/
inductive IsComment : List Char → Prop where
  | empty : IsComment ['/', '/']
  | text {cs : List Char} (hne : cs ≠ []) (hflat : Board.IsFlat cs) :
    IsComment ('/' :: '/' :: ' ' :: cs)

inductive IsDelay : List Char → Prop where
  | mk {millis : List Char} (h : IsNatural millis) :
    IsDelay ("delay(".toList ++ millis ++ ");".toList)

/-- A line of the main loop that opens nothing. -/
inductive IsStatement : List Char → Prop where
  | comment {cs : List Char} (h : IsComment cs) : IsStatement cs
  | delay {cs : List Char} (h : IsDelay cs) : IsStatement cs
  | call {name : List Char} (h : Identifier.IsIdentifier name) :
    IsStatement (name ++ "();".toList)

/-- A line of a subroutine. -/
inductive IsInstruction : List Char → Prop where
  | comment {cs : List Char} (h : IsComment cs) : IsInstruction cs
  | delay {cs : List Char} (h : IsDelay cs) : IsInstruction cs
  | device {setter : String} {arguments : List (List Char)}
      (hsetter : setter ∈ ["setTriColorLED", "setLED", "setMotor", "setServo", "setVibration"])
      (hne : arguments ≠ []) (harguments : ∀ argument ∈ arguments, IsInteger argument) :
    IsInstruction ("hummingbird.".toList ++ setter.toList ++ "(".toList ++
      ", ".toList.intercalate arguments ++ ");".toList)

/-- The comparison of a sensor with a number. -/
inductive IsTest : List Char → Prop where
  | mk {slot value : List Char} {symbol : String} (hslot : IsNatural slot)
      (hsymbol : symbol ∈ ["<", ">"]) (hvalue : IsInteger value) :
    IsTest ("hummingbird.readSensorValue(".toList ++ slot ++ ") ".toList ++ symbol.toList ++
      " ".toList ++ value)

/-- The header of a loop. -/
inductive IsLoop : List Char → Prop where
  | count {bound : List Char} (h : IsNatural bound) :
    IsLoop ("for (int counter = 0; counter < ".toList ++ bound ++ "; counter++) \x7b".toList)
  | test {test : List Char} (h : IsTest test) :
    IsLoop ("while (".toList ++ test ++ ") \x7b".toList)
  | forever : IsLoop "while (true) \x7b".toList

/-! ## Sketches -/

/-- Lines that stand so many levels deep. -/
inductive IsBlock : Nat → List (List Char) → Prop where
  | nil (depth : Nat) : IsBlock depth []
  | statement {depth : Nat} {cs : List Char} {rest : List (List Char)} (h : IsStatement cs)
      (hrest : IsBlock depth rest) : IsBlock depth (indented depth cs :: rest)
  | loop {depth : Nat} {header : List Char} {body rest : List (List Char)} (h : IsLoop header)
      (hbody : IsBlock (depth + 1) body) (hrest : IsBlock depth rest) :
    IsBlock depth (indented depth header :: (body ++ indented depth ['\x7d'] :: rest))
  | branch {depth : Nat} {test : List Char} {yes no rest : List (List Char)} (h : IsTest test)
      (hyes : IsBlock (depth + 1) yes) (hno : IsBlock (depth + 1) no)
      (hrest : IsBlock depth rest) :
    IsBlock depth (indented depth ("if (".toList ++ test ++ ") \x7b".toList) ::
      (yes ++ indented depth ['\x7d'] :: indented depth "else \x7b".toList ::
        (no ++ indented depth ['\x7d'] :: rest)))

/-- The functions of subroutines, under these names and in this order. -/
inductive AreFunctions : List String → List (List Char) → Prop where
  | nil : AreFunctions [] []
  | cons {name : String} {names : List String} {body : List (List Char)}
      {rest : List (List Char)} (hname : Identifier.IsIdentifier name.toList)
      (hbody : ∀ line ∈ body, IsInstruction line) (hrest : AreFunctions names rest) :
    AreFunctions (name :: names)
      ([] :: ("void ".toList ++ name.toList ++ "() \x7b".toList) ::
        (body.map (indented 1) ++ ['\x7d'] :: rest))

/-- The lines that every sketch starts with. -/
def preamble : List (List Char) :=
  ["#include <Hummingbird.h>", "", "Hummingbird hummingbird;", "", "void setup() \x7b",
    "   hummingbird.init();", "\x7d"].map (·.toList)

/-- The lines of a sketch with these subroutines. -/
inductive IsSketch (names : List String) : List (List Char) → Prop where
  | mk {loop functions : List (List Char)} (hloop : IsBlock 1 loop)
      (hfunctions : AreFunctions names functions) :
    IsSketch names (preamble ++ [] :: "void loop() \x7b".toList ::
      (loop ++ ['\x7d'] :: functions))

/-! ## Lines that are printed -/

theorem isNatural_digits (n : Nat) : IsNatural (Text.digits n) :=
  ⟨Text.digits_ne_nil n, fun _ hc => Text.isDigit_of_mem_digits hc⟩

theorem isInteger_ofInt (value : Int) : IsInteger (Text.ofInt value).toList := by
  cases value with
  | ofNat n =>
    rw [Text.ofInt, Text.toList_ofNat]
    exact .natural (isNatural_digits n)
  | negSucc n =>
    rw [Text.ofInt, String.toList_ofList]
    exact .negative (isNatural_digits (n + 1))

theorem isComment_commentLine (text : String) : IsComment (Board.commentLine text).toList := by
  rcases Board.commentLine_toList text with h | ⟨flat, h, hne, hflat⟩
  · rw [h]
    exact .empty
  · rw [h]
    exact .text hne hflat

theorem isDelay_delayCall (millis : UInt32) : IsDelay (Board.delayCall millis).toList := by
  rw [Board.toList_delayCall]
  exact .mk (isNatural_digits _)

theorem isStatement_line {action : Action}
    (h : ∀ name ∈ action.call?, Identifier.IsIdentifier name.toList) :
    IsStatement action.line.toList := by
  cases action with
  | comment text => exact .comment (isComment_commentLine text)
  | call name =>
    show IsStatement (callStatement name).toList
    rw [toList_callStatement]
    exact .call (h name rfl)
  | delay millis => exact .delay (isDelay_delayCall millis)

theorem isInstruction_line {instruction : Instruction} (h : instruction.IsRendered) :
    IsInstruction instruction.line.toList := by
  match instruction with
  | .device (.supported call) =>
    have hsetter : call.service.setter ∈
        ["setTriColorLED", "setLED", "setMotor", "setServo", "setVibration"] := by
      cases call.service <;> simp [Service.setter]
    show IsInstruction call.line.toList
    rw [call.toList_line]
    refine .device hsetter (by simp [DeviceCall.argumentChars]) fun argument hargument => ?_
    obtain ⟨value, -, rfl⟩ := List.mem_map.1 hargument
    exact isInteger_ofInt value
  | .device (.unsupported line) =>
    obtain ⟨text, rfl⟩ := h
    exact .comment (isComment_commentLine text)
  | .delay millis => exact .delay (isDelay_delayCall millis)

theorem isTest_chars (condition : Condition) : IsTest condition.chars := by
  have hsymbol : condition.threshold.comparison.symbol ∈ ["<", ">"] := by
    cases condition.threshold.comparison <;> simp [Comparison.symbol]
  have hread : Board.deviceHandle.toList ++ ".readSensorValue(".toList =
      "hummingbird.readSensorValue(".toList := by decide
  have hclose : ")".toList ++ " ".toList = ") ".toList := by decide
  unfold Condition.chars
  rw [hread, List.append_assoc _ ")".toList " ".toList, hclose]
  exact .mk (isNatural_digits _) hsymbol (isInteger_ofInt _)

theorem testHeader_if (condition : Condition) :
    testHeader "if" condition = "if (".toList ++ condition.chars ++ ") \x7b".toList := by
  have hstart : "if".toList ++ " (".toList = "if (".toList := by decide
  rw [testHeader, hstart]

theorem isLoop_whileHeader (condition : Condition) : IsLoop (testHeader "while" condition) := by
  have hstart : "while".toList ++ " (".toList = "while (".toList := by decide
  rw [testHeader, hstart]
  exact .test (isTest_chars condition)

/-- Statements whose calls have identifiers for names are printed as a block. -/
theorem isBlock_charLines {code : List Code} (depth : Nat)
    (h : ∀ name ∈ Code.calls code, Identifier.IsIdentifier name.toList) :
    IsBlock depth (Code.charLines depth code) := by
  induction code using Statement.inductionAll generalizing depth with
  | nil => exact .nil depth
  | action act rest ih =>
    simp only [Code.calls_action, List.forall_mem_append, Option.mem_toList] at h
    rw [Code.charLines_action]
    exact .statement (isStatement_line h.1) (ih depth h.2)
  | count times body rest ihbody ih =>
    simp only [Code.calls_count, List.forall_mem_append] at h
    rw [Code.charLines_count]
    exact .loop (.count (isNatural_digits _)) (ihbody (depth + 1) h.1) (ih depth h.2)
  | branch test yes no rest ihyes ihno ih =>
    simp only [Code.calls_branch, List.forall_mem_append] at h
    rw [Code.charLines_branch, testHeader_if]
    exact .branch (isTest_chars test) (ihyes (depth + 1) h.1) (ihno (depth + 1) h.2.1)
      (ih depth h.2.2)
  | loopWhile test body rest ihbody ih =>
    simp only [Code.calls_loopWhile, List.forall_mem_append] at h
    rw [Code.charLines_loopWhile]
    exact .loop (isLoop_whileHeader test) (ihbody (depth + 1) h.1) (ih depth h.2)
  | forever body rest ihbody ih =>
    simp only [Code.calls_forever, List.forall_mem_append] at h
    rw [Code.charLines_forever]
    exact .loop .forever (ihbody (depth + 1) h.1) (ih depth h.2)

theorem areFunctions_methodLines {methods : List (Method (List Instruction))}
    (hnames : ∀ method ∈ methods, Identifier.IsIdentifier method.name.toList)
    (hbodies : ∀ method ∈ methods, ∀ instruction ∈ method.body, instruction.IsRendered) :
    AreFunctions (methods.map (·.name)) (methods.flatMap Sketch.methodLines) := by
  induction methods with
  | nil => exact .nil
  | cons method rest ih =>
    rw [List.forall_mem_cons] at hnames hbodies
    have hbody : ∀ line ∈ method.body.map (·.line.toList), IsInstruction line := by
      intro line hline
      obtain ⟨instruction, hinstruction, rfl⟩ := List.mem_map.1 hline
      exact isInstruction_line (hbodies.1 instruction hinstruction)
    have hfunctions := AreFunctions.cons hnames.1 hbody (ih hnames.2 hbodies.2)
    rw [List.map_map] at hfunctions
    rw [List.map_cons, List.flatMap_cons, Sketch.methodLines, Sketch.functionLines,
      List.cons_append, List.cons_append, List.append_assoc]
    exact hfunctions

/-- The lines of a well-formed sketch are derived from the grammar. -/
theorem isSketch_charLines {code : List Code} {methods : List (Method (List Instruction))}
    (h : Sketch.IsWellFormed code methods) :
    IsSketch (methods.map (·.name)) (Sketch.charLines code methods) := by
  have hpreamble : Sketch.preambleLines = preamble := by decide
  have hheader : Sketch.functionHeader "loop" = "void loop() \x7b".toList := by decide
  have hsketch := IsSketch.mk (isBlock_charLines 1 h.calls)
    (areFunctions_methodLines h.names h.bodies)
  rw [Sketch.charLines, Sketch.functionLines, hpreamble, hheader, List.append_assoc,
    List.cons_append, List.cons_append, List.append_assoc]
  exact hsketch

end Grammar

namespace Project

variable {project : Project} {root : String} {directory : Path} {program : Program}
variable {session : Session}

/-- No text of a document becomes code. Cut at its line ends, the text of a compiled sketch is derived
from the grammar, with one function for each method, in order; only an empty piece follows, behind
the last line end. -/
theorem sketch_follows_grammar
    (h : project.compileProgram root directory = (.ok program, session))
    (hc : program.cancelled = false) :
    ∃ lines, program.source.toList.splitOn '\n' = lines ++ [[]] ∧
      Grammar.IsSketch (program.methods.map (·.name)) lines := by
  obtain ⟨trees, hexplained⟩ := compileProgram_explained h hc
  refine ⟨_, ?_, Grammar.isSketch_charLines hexplained.isWellFormed⟩
  rw [hexplained.source]
  exact Sketch.splitOn_render hexplained.isWellFormed

/-- The sample follows the grammar. -/
theorem sample_sketch_follows_grammar : ∃ program session lines,
    Sample.project.compileProgram "main.xml" ⟨"p"⟩ = (.ok program, session) ∧
    program.cancelled = false ∧ program.source.toList.splitOn '\n' = lines ++ [[]] ∧
    Grammar.IsSketch (program.methods.map (·.name)) lines := by
  obtain ⟨program, session, h, hc⟩ := Sample.compiles
  obtain ⟨lines, hsplit, hsketch⟩ := sketch_follows_grammar h hc
  exact ⟨program, session, lines, h, hc, hsplit, hsketch⟩

end Project

end RobotSketch
