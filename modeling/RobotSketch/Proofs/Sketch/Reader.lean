import RobotSketch.Proofs.Sketch.Lines

/-!
# Reading a sketch

A reader for the part of the language that sketches are written in. It takes in one line after the
other: a header opens a scope, a brace closes the innermost one, and a plain statement is added to
it. Indentation, comments and blank lines mean nothing.

The main statement is `Sketch.read?_render`: what is read from the text of a well-formed sketch is
its setup, its loop without the comments, and one function for each subroutine.
-/
namespace RobotSketch.Sketch

/-! ## What is read -/

/-- What a running sketch shows: calls of the board, and pauses. -/
inductive Output where
  | device (line : String)
  | delay (millis : UInt32)
  deriving DecidableEq, Repr

/-- A plain statement. -/
inductive Step where
  | emit (output : Output)
  | call (function : String)
  deriving DecidableEq, Repr

structure Function where
  name : String
  body : List (Statement Condition Step)

/-! ## Lines -/

/-- What a line says. -/
inductive Token where
  /-- Nothing: it is empty or a comment. -/
  | blank
  /-- Something about the whole sketch, outside of its functions. -/
  | global
  | step (step : Step)
  | function (name : String)
  | count (times : UInt32)
  | test (condition : Condition)
  | otherwise
  | loopWhile (condition : Condition)
  | forever
  | close
  deriving DecidableEq, Repr

/-- The text between two others. -/
def between? (before after cs : List Char) : Option (List Char) :=
  if before.isPrefixOf cs && after.isSuffixOf (cs.drop before.length) then
    some ((cs.drop before.length).take (cs.length - before.length - after.length))
  else none

def readName? (cs : List Char) : Option String :=
  if cs.isEmpty || !cs.all Identifier.isPart || cs.head?.any Identifier.isFigure then none
  else some (String.ofList cs)

/-- Reads a condition: a reading of a sensor, a comparison and an integer. -/
def readCondition? (cs : List Char) : Option Condition :=
  match cs.splitOn ' ' with
  | [reading, symbol, value] => do
    let slot ← between? (Board.deviceHandle.toList ++ ".readSensorValue(".toList) ")".toList reading
    let comparison ← [Comparison.less, .greater].find? (·.symbol.toList == symbol)
    return ⟨← Text.readUInt8? slot, ⟨← Text.readInt? value, comparison⟩⟩
  | _ => none

namespace Token

/-- What a line says that starts with a word and a blank. -/
def ofHeader? (word rest : List Char) : Option Token :=
  match String.ofList word with
  | "for" => do
    let times ← between? "(int counter = 0; counter < ".toList "; counter++) \x7b".toList rest
    return .count (← Text.readUInt32? times)
  | "if" => do return .test (← readCondition? (← between? "(".toList ") \x7b".toList rest))
  | "else" => if rest = "\x7b".toList then some .otherwise else none
  | "while" =>
    if rest = "(true) \x7b".toList then some .forever
    else do return .loopWhile (← readCondition? (← between? "(".toList ") \x7b".toList rest))
  | "void" => do return .function (← readName? (← between? [] "() \x7b".toList rest))
  | "Hummingbird" => if rest = "hummingbird;".toList then some .global else none
  | _ => none

/-- What a line says that starts with a word: it calls the board, it calls a function, it waits or
it is a header. -/
def ofWord? (word : List Char) : List Char → Option Token
  | '.' :: rest =>
    if word = Board.deviceHandle.toList && ");".toList.isSuffixOf rest then
      some (.step (.emit (.device (String.ofList (word ++ '.' :: rest)))))
    else none
  | '(' :: rest => do
    match ← between? [] ");".toList rest with
    | [] => return .step (.call (← readName? word))
    | millis =>
      if word = "delay".toList then return .step (.emit (.delay (← Text.readUInt32? millis)))
      else none
  | ' ' :: rest => ofHeader? word rest
  | _ => none

/-- What a line says, without its indentation. -/
def ofLine? (cs : List Char) : Option Token :=
  match cs with
  | [] => some .blank
  | '/' :: '/' :: _ => some .blank
  | ['\x7d'] => some .close
  | '#' :: _ => some .global
  | cs => ofWord? (cs.takeWhile Identifier.isPart) (cs.dropWhile Identifier.isPart)

end Token

/-! ## Scopes -/

/-- What has been opened and not yet closed. -/
inductive Opening where
  | function (name : String)
  | count (times : UInt32)
  | yes (test : Condition)
  /-- A conditional whose first body is closed and whose other one is still to come. -/
  | due (test : Condition) (yes : List (Statement Condition Step))
  | no (test : Condition) (yes : List (Statement Condition Step))
  | loopWhile (test : Condition)
  | forever

/-- Whether statements may come next. -/
def Opening.takesStatements : Opening → Bool
  | .due _ _ => false
  | _ => true

/-- Something open, with the statements it has so far. -/
structure Scope where
  opening : Opening
  body : List (Statement Condition Step)

/-- How far reading has come: the functions read, and what is open, the innermost first. -/
structure Reading where
  functions : List Function
  scopes : List Scope

namespace Reading

/-- Adds a statement. -/
def add (reading : Reading) (statement : Statement Condition Step) : Option Reading :=
  match reading.scopes with
  | [] => none
  | ⟨opening, body⟩ :: outer =>
    if opening.takesStatements then
      some { reading with scopes := ⟨opening, body ++ [statement]⟩ :: outer }
    else none

/-- Opens a construct. -/
def enter (reading : Reading) (opening : Opening) : Option Reading :=
  match reading.scopes with
  | [] => none
  | scope :: _ =>
    if scope.opening.takesStatements then
      some { reading with scopes := ⟨opening, []⟩ :: reading.scopes }
    else none

/-- Closes what is innermost. -/
def leave (reading : Reading) : Option Reading :=
  match reading.scopes with
  | [] => none
  | ⟨opening, body⟩ :: outer =>
    let reading := { reading with scopes := outer }
    match opening with
    | .function name => some { reading with functions := reading.functions ++ [⟨name, body⟩] }
    | .count times => reading.add (.count times body)
    | .yes test => some { reading with scopes := ⟨.due test body, []⟩ :: outer }
    | .due _ _ => none
    | .no test yes => reading.add (.branch test yes body)
    | .loopWhile test => reading.add (.loopWhile test body)
    | .forever => reading.add (.forever body)

/-- Takes in what a line says. -/
def take (reading : Reading) : Token → Option Reading
  | .blank => some reading
  | .global => if reading.scopes.isEmpty then some reading else none
  | .step step => reading.add (.action step)
  | .function name =>
    if reading.scopes.isEmpty then some { reading with scopes := [⟨.function name, []⟩] } else none
  | .count times => reading.enter (.count times)
  | .test condition => reading.enter (.yes condition)
  | .otherwise =>
    match reading.scopes with
    | ⟨.due test yes, _⟩ :: outer => some { reading with scopes := ⟨.no test yes, []⟩ :: outer }
    | _ => none
  | .loopWhile condition => reading.enter (.loopWhile condition)
  | .forever => reading.enter .forever
  | .close => reading.leave

def line? (reading : Reading) (line : List Char) : Option Reading :=
  (Token.ofLine? (line.dropWhile (· == ' '))).bind reading.take

def lines? (reading : Reading) (lines : List (List Char)) : Option Reading :=
  lines.foldlM line? reading

end Reading

/-- Reads a sketch: all that is opened must be closed. -/
def read? (text : String) : Option (List Function) := do
  let reading ← (⟨[], []⟩ : Reading).lines? (text.toList.splitOn '\n')
  if reading.scopes.isEmpty then return reading.functions else none

/-! ## Lines read back -/

theorem between?_append (before middle after : List Char) :
    between? before after (before ++ middle ++ after) = some middle := by
  simp [between?]

theorem readName?_of_isIdentifier {name : String} (h : Identifier.IsIdentifier name.toList) :
    readName? name.toList = some name := by
  have hempty : name.toList.isEmpty = false := List.isEmpty_eq_false_iff.2 h.ne_nil
  have hall : name.toList.all Identifier.isPart = true := List.all_eq_true.2 h.parts
  have hstart : name.toList.head?.any Identifier.isFigure = false :=
    (Option.any_eq_false _ _).2 fun c hc => by simpa using h.start c hc
  simp [readName?, hempty, hall, hstart]

namespace Token

/-- A line that starts with a word is told by the word and what follows it. -/
theorem ofLine?_word {word : List Char} (hne : word ≠ [])
    (hall : word.all Identifier.isPart = true) {next : Char} (hnext : Identifier.isPart next = false) (rest : List Char) :
    ofLine? (word ++ next :: rest) = ofWord? word (next :: rest) := by
  have hword := List.all_eq_true.1 hall
  have htake : (word ++ next :: rest).takeWhile Identifier.isPart = word := by
    rw [List.takeWhile_append_of_pos hword, List.takeWhile_cons_of_neg (by simp [hnext]),
      List.append_nil]
  have hdrop : (word ++ next :: rest).dropWhile Identifier.isPart = next :: rest := by
    rw [List.dropWhile_append_of_pos hword, List.dropWhile_cons_of_neg (by simp [hnext])]
  obtain ⟨c, word, rfl⟩ := List.exists_cons_of_ne_nil hne
  have hc := hword c (by simp)
  have hslash : c ≠ '/' := by rintro rfl; exact absurd hc (by decide)
  have hbrace : c ≠ '\x7d' := by rintro rfl; exact absurd hc (by decide)
  have hsharp : c ≠ '#' := by rintro rfl; exact absurd hc (by decide)
  unfold ofLine?
  split
  · rename_i heq; simp at heq
  · rename_i heq; exact absurd (List.cons.inj heq).1 hslash
  · rename_i heq; exact absurd (List.cons.inj heq).1 hbrace
  · rename_i heq; exact absurd (List.cons.inj heq).1 hsharp
  · rw [htake, hdrop]

/-- No line says anything that starts with a blank. -/
theorem ofLine?_blank (cs : List Char) : ofLine? (' ' :: cs) = none := by
  have hword : ofLine? (' ' :: cs) = ofWord? [] (' ' :: cs) := by
    unfold ofLine?
    simp [show Identifier.isPart ' ' = false by decide]
  rw [hword]
  rfl

theorem ofWord?_blank (word rest : List Char) : ofWord? word (' ' :: rest) = ofHeader? word rest := rfl

theorem ofLine?_comment (text : String) : ofLine? (Board.commentLine text).toList = some .blank := by
  rcases Board.commentLine_toList text with h | ⟨flat, h, -, -⟩
  · rw [h]
    rfl
  · rw [h]
    rfl

theorem ofLine?_call {name : String} (h : Identifier.IsIdentifier name.toList) :
    ofLine? (callStatement name).toList = some (.step (.call name)) := by
  rw [toList_callStatement]
  show ofLine? (name.toList ++ '(' :: [')', ';']) = _
  rw [ofLine?_word h.ne_nil (List.all_eq_true.2 h.parts) (by decide)]
  have hnone : between? [] ");".toList [')', ';'] = some [] := by decide
  simp only [ofWord?, hnone, readName?_of_isIdentifier h]
  rfl

theorem ofLine?_delay (millis : UInt32) :
    ofLine? (Board.delayCall millis).toList = some (.step (.emit (.delay millis))) := by
  rw [Board.toList_delayCall]
  show ofLine? ("delay".toList ++ '(' :: (Text.digits millis.toNat ++ [')', ';'])) = _
  rw [ofLine?_word (by decide) (by decide) (by decide)]
  show (between? [] [')', ';'] ([] ++ Text.digits millis.toNat ++ [')', ';'])).bind _ = _
  rw [between?_append]
  obtain ⟨digit, rest, heq⟩ := List.exists_cons_of_ne_nil (Text.digits_ne_nil millis.toNat)
  have hread := Text.readUInt32?_digits millis
  rw [heq] at hread ⊢
  simp [hread]

/-- A call of the board is read as it stands. -/
theorem ofLine?_board {line : String} {rest : List Char}
    (hline : line.toList = Board.deviceHandle.toList ++ '.' :: rest) (hend : ");".toList <:+ rest) :
    ofLine? line.toList = some (.step (.emit (.device line))) := by
  have hsuffix : ");".toList.isSuffixOf rest = true := List.isSuffixOf_iff_suffix.2 hend
  rw [hline, ofLine?_word (by decide +kernel) (by decide +kernel) (by decide)]
  show (if (decide (Board.deviceHandle.toList = Board.deviceHandle.toList) &&
    ");".toList.isSuffixOf rest) = true then _ else _) = _
  rw [hsuffix, decide_eq_true rfl, ← hline, String.ofList_toList]
  rfl

theorem ofLine?_device (call : DeviceCall) :
    ofLine? call.line.toList = some (.step (.emit (.device call.line))) := by
  have hline : call.line.toList = Board.deviceHandle.toList ++ '.' :: (call.service.setter.toList ++
      "(".toList ++ ", ".toList.intercalate call.argumentChars ++ ");".toList) := by
    rw [DeviceCall.toList_line]
    simp only [List.append_assoc]
    rfl
  exact ofLine?_board hline (List.suffix_append ..)

theorem ofLine?_init :
    ofLine? Board.initCall.toList = some (.step (.emit (.device Board.initCall))) := by
  have hline : Board.initCall.toList = Board.deviceHandle.toList ++ '.' :: "init();".toList := by
    decide +kernel
  exact ofLine?_board hline ⟨"init(".toList, by decide⟩

theorem ofLine?_countHeader (times : UInt32) : ofLine? (countHeader times) = some (.count times) := by
  unfold countHeader
  show ofLine? ("for".toList ++ ' ' :: ("(int counter = 0; counter < ".toList ++
    Text.digits times.toNat ++ "; counter++) \x7b".toList)) = _
  rw [ofLine?_word (by decide) (by decide) (by decide), ofWord?_blank]
  unfold ofHeader?
  rw [between?_append]
  simp [Text.readUInt32?_digits]

end Token

theorem Token.ofLine?_else : Token.ofLine? "else \x7b".toList = some .otherwise := by decide +kernel

theorem Token.ofLine?_forever : Token.ofLine? "while (true) \x7b".toList = some .forever := by
  decide +kernel

/-- A condition reads back from its text. -/
theorem readCondition?_chars (condition : Condition) :
    readCondition? condition.chars = some condition := by
  have hslot : ' ' ∉ Board.deviceHandle.toList ++ ".readSensorValue(".toList ++
      Text.digits condition.slot.toNat ++ ")".toList := by
    have hstart : ' ' ∉ Board.deviceHandle.toList ++ ".readSensorValue(".toList := by decide +kernel
    rw [List.mem_append, List.mem_append, not_or, not_or]
    exact ⟨⟨hstart, Text.not_mem_digits (by decide)⟩, by decide⟩
  have hsymbol : ' ' ∉ condition.threshold.comparison.symbol.toList := by
    cases condition.threshold.comparison <;> decide
  have hvalue : ' ' ∉ (Text.ofInt condition.threshold.value).toList :=
    Text.not_mem_ofInt (by decide) (by decide)
  have hpieces : ∀ piece ∈ [Board.deviceHandle.toList ++ ".readSensorValue(".toList ++
        Text.digits condition.slot.toNat ++ ")".toList,
      condition.threshold.comparison.symbol.toList,
      (Text.ofInt condition.threshold.value).toList], ' ' ∉ piece := by
    simp only [List.forall_mem_cons]
    exact ⟨hslot, hsymbol, hvalue, by simp⟩
  have hchars : condition.chars = [' '].intercalate
      [Board.deviceHandle.toList ++ ".readSensorValue(".toList ++
        Text.digits condition.slot.toNat ++ ")".toList,
        condition.threshold.comparison.symbol.toList,
        (Text.ofInt condition.threshold.value).toList] := by
    unfold Condition.chars
    rw [List.intercalate_cons_cons, List.intercalate_cons_cons, List.intercalate_singleton]
    simp only [List.append_assoc]
    rfl
  have hcomparison : [Comparison.less, .greater].find?
      (·.symbol.toList == condition.threshold.comparison.symbol.toList) =
        some condition.threshold.comparison := by
    cases condition.threshold.comparison <;> decide
  unfold readCondition?
  rw [hchars, List.splitOn_intercalate ' ' hpieces (by simp)]
  simp only [between?_append, hcomparison, Text.readInt?_ofInt, Option.bind_eq_bind,
    Option.bind_some, Text.readUInt8?_digits]
  rfl

namespace Token

theorem ofLine?_ifHeader (condition : Condition) :
    ofLine? (testHeader "if" condition) = some (.test condition) := by
  unfold testHeader
  show ofLine? ("if".toList ++ ' ' :: ("(".toList ++ condition.chars ++ ") \x7b".toList)) = _
  rw [ofLine?_word (by decide) (by decide) (by decide), ofWord?_blank]
  unfold ofHeader?
  rw [between?_append]
  simp [readCondition?_chars]

theorem ofHeader?_while {rest : List Char} (h : rest ≠ "(true) \x7b".toList) :
    ofHeader? "while".toList rest = do
      return .loopWhile (← readCondition? (← between? "(".toList ") \x7b".toList rest)) :=
  if_neg h

theorem ofLine?_whileHeader (condition : Condition) :
    ofLine? (testHeader "while" condition) = some (.loopWhile condition) := by
  have hne : "(".toList ++ condition.chars ++ ") \x7b".toList ≠ "(true) \x7b".toList := by
    intro heq
    have htrue : "(true) \x7b".toList = "(".toList ++ "true".toList ++ ") \x7b".toList := by decide
    rw [htrue, List.append_cancel_right_eq, List.append_cancel_left_eq] at heq
    -- a condition holds blanks, the word does not
    have hblank : ' ' ∈ condition.chars := by
      unfold Condition.chars
      simp
    rw [heq] at hblank
    exact absurd hblank (by decide)
  unfold testHeader
  show ofLine? ("while".toList ++ ' ' :: ("(".toList ++ condition.chars ++ ") \x7b".toList)) = _
  rw [ofLine?_word (by decide) (by decide) (by decide), ofWord?_blank, ofHeader?_while hne,
    between?_append]
  simp [readCondition?_chars]

theorem ofLine?_functionHeader {name : String} (h : Identifier.IsIdentifier name.toList) :
    ofLine? (functionHeader name) = some (.function name) := by
  unfold functionHeader
  show ofLine? ("void".toList ++ ' ' :: ([] ++ name.toList ++ "() \x7b".toList)) = _
  rw [ofLine?_word (by decide) (by decide) (by decide), ofWord?_blank]
  unfold ofHeader?
  rw [between?_append]
  simp [readName?_of_isIdentifier h]

end Token

/-! ## Statements read back -/

/-- What a plain line of the loop does, if it is no comment. -/
def stepOfAction? : Action → Option Step
  | .comment _ => none
  | .call method => some (.call method)
  | .delay millis => some (.emit (.delay millis))

/-- What an instruction does, if it is no comment. -/
def outputOf? : Instruction → Option Output
  | .device (.supported call) => some (.device call.line)
  | .device (.unsupported _) => none
  | .delay millis => some (.delay millis)

mutual

/-- A statement without its comments. -/
def uncomment : Code → List (Statement Condition Step)
  | .action act => ((stepOfAction? act).map .action).toList
  | .count times body => [.count times (uncommentAll body)]
  | .branch test yes no => [.branch test (uncommentAll yes) (uncommentAll no)]
  | .loopWhile test body => [.loopWhile test (uncommentAll body)]
  | .forever body => [.forever (uncommentAll body)]

def uncommentAll : List Code → List (Statement Condition Step)
  | [] => []
  | statement :: rest => uncomment statement ++ uncommentAll rest

end

@[simp] theorem uncommentAll_append (first second : List Code) :
    uncommentAll (first ++ second) = uncommentAll first ++ uncommentAll second := by
  induction first with
  | nil => rfl
  | cons statement rest ih => simp [uncommentAll, ih]

/-- The lines of a comment say nothing. -/
theorem uncommentAll_ofComment (comment : Option String) :
    uncommentAll (Code.ofComment comment) = [] := by
  cases comment with
  | none => rfl
  | some text =>
    show uncommentAll ((Block.commentTexts text).map fun line => .action (.comment line)) = []
    induction Block.commentTexts text with
    | nil => rfl
    | cons line lines ih =>
      rw [List.map_cons, uncommentAll, ih]
      rfl

/-- The body of the function of a subroutine. -/
def bodyOf (instructions : List Instruction) : List (Statement Condition Step) :=
  (instructions.filterMap outputOf?).map fun output => .action (.emit output)

def functionsOf (code : List Code) (methods : List (Method (List Instruction))) : List Function :=
  ⟨"setup", [.action (.emit (.device Board.initCall))]⟩ :: ⟨"loop", uncommentAll code⟩ ::
    methods.map fun method => ⟨method.name, bodyOf method.body⟩

namespace Reading

/-- A line is taken in as what it says, however deep it stands. -/
theorem line?_indented {reading : Reading} {depth : Nat} {cs : List Char} {token : Token}
    (h : Token.ofLine? cs = some token) :
    reading.line? (indented depth cs) = reading.take token := by
  have hstart : cs.dropWhile (· == ' ') = cs := by
    cases cs with
    | nil => rfl
    | cons c cs =>
      have hc : c ≠ ' ' := by
        rintro rfl
        rw [Token.ofLine?_blank] at h
        exact absurd h (by simp)
      rw [List.dropWhile_cons_of_neg (by simpa using hc)]
  have hdrop : (indented depth cs).dropWhile (· == ' ') = cs := by
    rw [indented, List.dropWhile_append_of_pos (by simp), hstart]
  rw [line?, hdrop, h, Option.bind_some]

theorem lines?_cons {reading reading' : Reading} {line : List Char} {rest : List (List Char)}
    (h : reading.line? line = some reading') :
    reading.lines? (line :: rest) = reading'.lines? rest := by
  simp [lines?, h]

theorem lines?_append {reading reading' : Reading} {first second : List (List Char)}
    (h : reading.lines? first = some reading') :
    reading.lines? (first ++ second) = reading'.lines? second := by
  unfold lines? at h ⊢
  rw [List.foldlM_append, h]
  rfl

/-- A construct takes a reading through its header, its body and its brace. -/
theorem lines?_construct {reading inside full after : Reading} {depth : Nat} {header : List Char}
    {token : Token} {body rest : List (List Char)} (htoken : Token.ofLine? header = some token)
    (henter : reading.take token = some inside) (hbody : inside.lines? body = some full)
    (hleave : full.leave = some after) :
    reading.lines? (indented depth header :: (body ++ indented depth ['\x7d'] :: rest)) =
      after.lines? rest := by
  have hclose : Token.ofLine? ['\x7d'] = some .close := rfl
  rw [lines?_cons ((line?_indented htoken).trans henter), lines?_append hbody,
    lines?_cons ((line?_indented hclose).trans hleave)]

section

variable {functions : List Function} {opening : Opening} {outer : List Scope}
  {body : List (Statement Condition Step)}

theorem add_of_takesStatements (h : opening.takesStatements = true)
    (statement : Statement Condition Step) :
    (⟨functions, ⟨opening, body⟩ :: outer⟩ : Reading).add statement =
      some ⟨functions, ⟨opening, body ++ [statement]⟩ :: outer⟩ := by
  simp [add, h]

theorem enter_of_takesStatements (h : opening.takesStatements = true) (inside : Opening) :
    (⟨functions, ⟨opening, body⟩ :: outer⟩ : Reading).enter inside =
      some ⟨functions, ⟨inside, []⟩ :: ⟨opening, body⟩ :: outer⟩ := by
  simp [enter, h]

/-- Reading the lines of a loop adds the loop, given its body. -/
theorem lines?_loop {depth : Nat} {header : List Char} {token : Token} {inside : Opening}
    {statements : List (Statement Condition Step)} {statement : Statement Condition Step}
    {lines rest : List (List Char)} (h : opening.takesStatements = true)
    (htoken : Token.ofLine? header = some token)
    (henter : ∀ reading : Reading, reading.take token = reading.enter inside)
    (hlines : (⟨functions, ⟨inside, []⟩ :: ⟨opening, body⟩ :: outer⟩ : Reading).lines? lines =
      some ⟨functions, ⟨inside, statements⟩ :: ⟨opening, body⟩ :: outer⟩)
    (hleave : ∀ scopes, (⟨functions, ⟨inside, statements⟩ :: scopes⟩ : Reading).leave =
      (⟨functions, scopes⟩ : Reading).add statement) :
    (⟨functions, ⟨opening, body⟩ :: outer⟩ : Reading).lines?
        (indented depth header :: (lines ++ indented depth ['\x7d'] :: rest)) =
      (⟨functions, ⟨opening, body ++ [statement]⟩ :: outer⟩ : Reading).lines? rest :=
  lines?_construct htoken ((henter _).trans (enter_of_takesStatements h inside)) hlines
    ((hleave _).trans (add_of_takesStatements h statement))

/-- Reading the line of a plain action adds what it does. -/
theorem lines?_action (depth : Nat) {act : Action} {rest : List (List Char)}
    (hname : ∀ method ∈ act.call?, Identifier.IsIdentifier method.toList)
    (h : opening.takesStatements = true) :
    (⟨functions, ⟨opening, body⟩ :: outer⟩ : Reading).lines?
        (indented depth act.line.toList :: rest) =
      (⟨functions, ⟨opening, body ++ uncomment (.action act)⟩ :: outer⟩ : Reading).lines? rest := by
  cases act with
  | comment text =>
    rw [uncomment, stepOfAction?, Option.map_none, Option.toList_none, List.append_nil]
    exact lines?_cons (line?_indented (Token.ofLine?_comment text))
  | call method =>
    have htoken := Token.ofLine?_call (hname method rfl)
    exact lines?_cons ((line?_indented htoken).trans (add_of_takesStatements h _))
  | delay millis =>
    have htoken := Token.ofLine?_delay millis
    exact lines?_cons ((line?_indented htoken).trans (add_of_takesStatements h _))

end

/-- Reading the lines of statements adds the statements to what is innermost. -/
theorem lines?_charLines {code : List Code} {functions : List Function} {opening : Opening}
    {body : List (Statement Condition Step)} {outer : List Scope} (depth : Nat)
    (hcalls : ∀ method ∈ Code.calls code, Identifier.IsIdentifier method.toList)
    (hopening : opening.takesStatements = true) :
    (⟨functions, ⟨opening, body⟩ :: outer⟩ : Reading).lines? (Code.charLines depth code) =
      some ⟨functions, ⟨opening, body ++ uncommentAll code⟩ :: outer⟩ := by
  induction code using Statement.inductionAll generalizing opening body outer depth with
  | nil => simp [uncommentAll, lines?]
  | action act rest ih =>
    simp only [Code.calls_action, List.forall_mem_append, Option.mem_toList] at hcalls
    rw [Code.charLines_action, lines?_action depth hcalls.1 hopening, ih depth hcalls.2 hopening,
      List.append_assoc]
    rfl
  | count times inner rest ihbody ih =>
    simp only [Code.calls_count, List.forall_mem_append] at hcalls
    have hinner : (⟨functions, ⟨.count times, []⟩ :: ⟨opening, body⟩ :: outer⟩ : Reading).lines?
        (Code.charLines (depth + 1) inner) = _ := ihbody (depth + 1) hcalls.1 rfl
    rw [Code.charLines_count, lines?_loop hopening (Token.ofLine?_countHeader times)
      (fun _ => rfl) hinner (fun _ => rfl), ih depth hcalls.2 hopening, List.append_assoc]
    rfl
  | branch test yes no rest ihyes ihno ih =>
    simp only [Code.calls_branch, List.forall_mem_append] at hcalls
    have hyes : (⟨functions, ⟨.yes test, []⟩ :: ⟨opening, body⟩ :: outer⟩ : Reading).lines?
        (Code.charLines (depth + 1) yes) = _ := ihyes (depth + 1) hcalls.1 rfl
    have hno : (⟨functions, ⟨.no test (uncommentAll yes), []⟩ :: ⟨opening, body⟩ :: outer⟩ :
        Reading).lines? (Code.charLines (depth + 1) no) = _ := ihno (depth + 1) hcalls.2.1 rfl
    have henter : (⟨functions, ⟨opening, body⟩ :: outer⟩ : Reading).take (.test test) = _ :=
      enter_of_takesStatements hopening (.yes test)
    have hleave : (⟨functions, ⟨.no test (uncommentAll yes), uncommentAll no⟩ ::
        ⟨opening, body⟩ :: outer⟩ : Reading).leave = _ :=
      add_of_takesStatements hopening (.branch test (uncommentAll yes) (uncommentAll no))
    rw [Code.charLines_branch, lines?_construct (Token.ofLine?_ifHeader test) henter hyes rfl,
      lines?_construct Token.ofLine?_else rfl hno hleave,
      ih depth hcalls.2.2 hopening, List.append_assoc]
    rfl
  | loopWhile test inner rest ihbody ih =>
    simp only [Code.calls_loopWhile, List.forall_mem_append] at hcalls
    have hinner : (⟨functions, ⟨.loopWhile test, []⟩ :: ⟨opening, body⟩ :: outer⟩ : Reading).lines?
        (Code.charLines (depth + 1) inner) = _ := ihbody (depth + 1) hcalls.1 rfl
    rw [Code.charLines_loopWhile, lines?_loop hopening (Token.ofLine?_whileHeader test)
      (fun _ => rfl) hinner (fun _ => rfl), ih depth hcalls.2 hopening, List.append_assoc]
    rfl
  | forever inner rest ihbody ih =>
    simp only [Code.calls_forever, List.forall_mem_append] at hcalls
    have hinner : (⟨functions, ⟨.forever, []⟩ :: ⟨opening, body⟩ :: outer⟩ : Reading).lines?
        (Code.charLines (depth + 1) inner) = _ := ihbody (depth + 1) hcalls.1 rfl
    rw [Code.charLines_forever, lines?_loop hopening Token.ofLine?_forever
      (fun _ => rfl) hinner (fun _ => rfl), ih depth hcalls.2 hopening, List.append_assoc]
    rfl

/-- A line that is not indented is taken in as what it says. -/
theorem line?_of_token {reading : Reading} {cs : List Char} {token : Token}
    (h : Token.ofLine? cs = some token) : reading.line? cs = reading.take token := by
  show reading.line? (indented 0 cs) = _
  exact line?_indented h

/-- Reading the lines of a body adds what its instructions do. -/
theorem lines?_instructions {functions : List Function} {name : String}
    {body : List (Statement Condition Step)} {instructions : List Instruction}
    (h : ∀ instruction ∈ instructions, instruction.IsRendered) :
    (⟨functions, [⟨.function name, body⟩]⟩ : Reading).lines?
        (instructions.map fun instruction => indented 1 instruction.line.toList) =
      some ⟨functions, [⟨.function name, body ++ bodyOf instructions⟩]⟩ := by
  induction instructions generalizing body with
  | nil => simp [bodyOf, lines?]
  | cons instruction rest ih =>
    rw [List.forall_mem_cons] at h
    rw [List.map_cons]
    match instruction with
    | .device (.supported call) =>
      rw [lines?_cons (line?_indented (Token.ofLine?_device call)), ih h.2, List.append_assoc]
      rfl
    | .device (.unsupported line) =>
      obtain ⟨text, rfl⟩ := h.1
      have htoken : Token.ofLine? (Instruction.device (.unsupported
        (Board.commentLine text))).line.toList = some .blank := Token.ofLine?_comment text
      rw [lines?_cons (line?_indented htoken), ih h.2]
      rfl
    | .delay millis =>
      rw [lines?_cons (line?_indented (Token.ofLine?_delay millis)), ih h.2, List.append_assoc]
      rfl

/-- Reading the lines of a function adds the function, given its body. -/
theorem lines?_functionLines {functions : List Function} {name : String} {body rest : List (List Char)}
    {statements : List (Statement Condition Step)} (hname : Identifier.IsIdentifier name.toList)
    (hbody : (⟨functions, [⟨.function name, []⟩]⟩ : Reading).lines? body =
      some ⟨functions, [⟨.function name, statements⟩]⟩) :
    (⟨functions, []⟩ : Reading).lines? (functionLines name body ++ rest) =
      (⟨functions ++ [⟨name, statements⟩], []⟩ : Reading).lines? rest := by
  have hblank : Token.ofLine? [] = some .blank := rfl
  have hclose : Token.ofLine? ['\x7d'] = some .close := rfl
  rw [functionLines, List.cons_append, List.cons_append, List.append_assoc,
    lines?_cons (line?_of_token hblank),
    lines?_cons (line?_of_token (Token.ofLine?_functionHeader hname)), lines?_append hbody]
  exact lines?_cons (line?_of_token hclose)

/-- Reading the lines of functions adds the functions of the subroutines. -/
theorem lines?_methodLines {functions : List Function}
    {methods : List (Method (List Instruction))}
    (hnames : ∀ method ∈ methods, Identifier.IsIdentifier method.name.toList)
    (hbodies : ∀ method ∈ methods, ∀ instruction ∈ method.body, instruction.IsRendered) :
    (⟨functions, []⟩ : Reading).lines? (methods.flatMap methodLines) =
      some ⟨functions ++ methods.map fun method => ⟨method.name, bodyOf method.body⟩, []⟩ := by
  induction methods generalizing functions with
  | nil => simp [lines?]
  | cons method rest ih =>
    rw [List.forall_mem_cons] at hnames hbodies
    rw [List.flatMap_cons, methodLines,
      lines?_functionLines hnames.1 (lines?_instructions hbodies.1), ih hnames.2 hbodies.2,
      List.append_assoc]
    rfl

/-- Reading the start of a sketch adds its setup. -/
theorem lines?_preambleLines (rest : List (List Char)) :
    (⟨[], []⟩ : Reading).lines? (preambleLines ++ rest) =
      (⟨[⟨"setup", [.action (.emit (.device Board.initCall))]⟩], []⟩ : Reading).lines? rest := by
  have hinclude : Token.ofLine? Board.includeLine.toList = some .global := by decide +kernel
  have hdeclaration : Token.ofLine? Board.declaration.toList = some .global := by decide +kernel
  have hblank : Token.ofLine? [] = some .blank := rfl
  have hsetup : Token.ofLine? "void setup() \x7b".toList = some (.function "setup") := by
    decide +kernel
  have hclose : Token.ofLine? ['\x7d'] = some .close := rfl
  unfold preambleLines
  simp only [List.cons_append, List.nil_append]
  rw [lines?_cons (line?_of_token hinclude), lines?_cons (line?_of_token hblank),
    lines?_cons (line?_of_token hdeclaration), lines?_cons (line?_of_token hblank),
    lines?_cons (line?_of_token hsetup), lines?_cons (line?_indented Token.ofLine?_init)]
  exact lines?_cons (line?_of_token hclose)

end Reading

/-- What is read from the text of a well-formed sketch is what it was made from, without the
comments. -/
theorem read?_render {code : List Code} {methods : List (Method (List Instruction))}
    (h : IsWellFormed code methods) :
    read? (render (Code.block code) (methods.map (·.lines))) = some (functionsOf code methods) := by
  have hloop : Identifier.IsIdentifier "loop".toList := by decide +kernel
  have hblank : Token.ofLine? [] = some .blank := rfl
  have hlines : (⟨[], []⟩ : Reading).lines? (charLines code methods) =
      some ⟨functionsOf code methods, []⟩ := by
    rw [charLines, List.append_assoc, Reading.lines?_preambleLines,
      Reading.lines?_functionLines hloop (Reading.lines?_charLines 1 h.calls rfl),
      Reading.lines?_methodLines h.names h.bodies]
    rfl
  unfold read?
  rw [splitOn_render h, Reading.lines?_append hlines,
    Reading.lines?_cons (Reading.line?_of_token hblank)]
  rfl

end RobotSketch.Sketch
