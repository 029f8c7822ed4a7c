import RobotSketch.Toml

/-!
# Reading TOML

A document is read line by line; the lines are then put together to a table. Arrays and tables as
values may be nested 79 deep, and a key may have 79 parts.
-/
namespace RobotSketch.Toml

/-!
## Numbers, dates and truth values of TOML

A value that is no string, array or table is one word. Underscores may stand between digits;
decimal numbers start with a zero only if it is their only digit before the point; integers have
64 bits with a sign.
-/

/-! ### Digits -/

/-- The digits of a word, without the underscores between them. -/
def plainDigits? (isDigit : Char → Bool) (cs : List Char) : Option (List Char) :=
  let groups := Text.pieces (· == '_') cs
  if groups.all fun group => !group.isEmpty && group.all isDigit then some groups.flatten else none

/-- The digits of a decimal number before its point. -/
def leadingDigits? (cs : List Char) : Option (List Char) := do
  let digits ← plainDigits? Text.isDigit cs
  if digits.length > 1 && digits.head? == some '0' then none else return digits

/-- The value of digits in a base. -/
def valueInBase (base : Nat) (digits : List Char) : Nat :=
  digits.foldl (fun value c => value * base + (Text.hexDigit? c).getD 0) 0

/-- Whether a word starts with a minus, and what follows its sign. -/
def splitSign : List Char → Bool × List Char
  | '-' :: cs => (true, cs)
  | '+' :: cs => (false, cs)
  | cs => (false, cs)

/-! ### Numbers -/

/-- The integer that a word stands for, in the base that its start names. -/
def basedInteger? (base : Nat) (cs : List Char) : Option Int := do
  let isDigit := fun c => (Text.hexDigit? c).any (· < base)
  let value := valueInBase base (← plainDigits? isDigit cs)
  if value < 9223372036854775808 then return value else none

def integer? (cs : List Char) : Option Int :=
  match cs with
  | '0' :: 'x' :: digits => basedInteger? 16 digits
  | '0' :: 'o' :: digits => basedInteger? 8 digits
  | '0' :: 'b' :: digits => basedInteger? 2 digits
  | _ => do
    let (negative, rest) := splitSign cs
    let magnitude : Int := valueInBase 10 (← leadingDigits? rest)
    let value := if negative then -magnitude else magnitude
    if -9223372036854775808 ≤ value ∧ value < 9223372036854775808 then return value else none

/-- Whether a decimal number is at least so large that it has no finite binary64 value near it:
`digits` times ten to the power of `exponent`. -/
def isHuge (digits : List Char) (exponent : Int) : Bool :=
  let value := Text.digitsValue digits
  let bound := Nat.pow 2 1024 - Nat.pow 2 970
  if value = 0 then false
  else if exponent > 400 then true
  else if exponent ≥ 0 then value * Nat.pow 10 exponent.toNat ≥ bound
  else if (digits.length : Int) + exponent < 300 then false
  else value ≥ bound * Nat.pow 10 (-exponent).toNat

/-- Cuts a word at the first character that satisfies `p`. -/
def cutAt (p : Char → Bool) (cs : List Char) : List Char × Option (List Char) :=
  match cs.span fun c => !p c with
  | (before, []) => (before, none)
  | (before, _ :: after) => (before, some after)

/-- Whether a word is a number with a fraction or an exponent, or one of the special numbers. -/
def isReal (cs : List Char) : Bool :=
  let (negative, rest) := splitSign cs
  if rest = "inf".toList ∨ rest = "nan".toList then true
  else
    let (mantissa, exponent) := cutAt (fun c => c == 'e' || c == 'E') rest
    let (whole, fraction) := cutAt (· == '.') mantissa
    let result := do
      let whole ← leadingDigits? whole
      let fraction ← fraction.mapM (plainDigits? Text.isDigit)
      let exponent ← exponent.mapM fun cs => do
        let (negative, digits) := splitSign cs
        let magnitude : Int := Text.digitsValue (← plainDigits? Text.isDigit digits)
        return if negative then -magnitude else magnitude
      guard (fraction.isSome || exponent.isSome)
      let digits := whole ++ fraction.getD []
      let scale := exponent.getD 0 - (fraction.getD []).length
      guard (negative || !isHuge digits scale)
    result.isSome

/-! ### Dates -/

/-- The number that a word of so many digits stands for, between two bounds. -/
def field? (count low high : Nat) (cs : List Char) : Option Nat :=
  if cs.length = count ∧ cs.all Text.isDigit then
    let value := Text.digitsValue cs
    if low ≤ value ∧ value ≤ high then some value else none
  else none

def daysIn (year month : Nat) : Nat :=
  if month = 2 then
    if year % 4 = 0 ∧ (year % 100 ≠ 0 ∨ year % 400 = 0) then 29 else 28
  else if month = 4 ∨ month = 6 ∨ month = 9 ∨ month = 11 then 30
  else 31

/-- Whether a word is a date: year, month and day. -/
def isDate (cs : List Char) : Bool :=
  match Text.pieces (· == '-') cs with
  | [year, month, day] =>
    (do
      let year ← field? 4 0 9999 year
      let month ← field? 2 1 12 month
      field? 2 1 (daysIn year month) day).isSome
  | _ => false

/-- Whether a word is a time: hour, minute and second, which may have a fraction. -/
def isTime (cs : List Char) : Bool :=
  let (clock, fraction) := cutAt (· == '.') cs
  let fractionFine := (fraction.map fun digits => !digits.isEmpty && digits.all Text.isDigit).getD true
  match Text.pieces (· == ':') clock with
  | [hour, minute, second] =>
    fractionFine && (field? 2 0 23 hour).isSome && (field? 2 0 59 minute).isSome &&
      (field? 2 0 60 second).isSome
  | _ => false

/-- Whether a word is the distance of a time zone: a sign, hours and minutes. -/
def isOffset (cs : List Char) : Bool :=
  match Text.pieces (· == ':') cs with
  | [hour, minute] => (field? 2 0 23 hour).isSome && (field? 2 0 59 minute).isSome
  | _ => false

/-- Whether a word is a time that may name its time zone. -/
def isZonedTime (cs : List Char) : Bool :=
  match cutAt (fun c => c == '+' || c == '-') cs with
  | (time, some offset) => isTime time && isOffset offset
  | (time, none) =>
    match time.getLast? with
    | some 'Z' | some 'z' => isTime time.dropLast
    | _ => isTime time

/-- Whether a word is a date, a time, or both with a letter between them. -/
def isMoment (cs : List Char) : Bool :=
  match cutAt (fun c => c == 'T' || c == 't') cs with
  | (date, some time) => isDate date && isZonedTime time
  | (word, none) => isDate word || isTime word

/-! ### Words -/

/-- Whether a character may stand in a word. -/
def isWordChar (c : Char) : Bool :=
  c.isAlphanum || c == '+' || c == '-' || c == '_' || c == '.' || c == ':'

/-- The item that a word stands for. -/
def scalar? (cs : List Char) : Option Item :=
  match cs with
  | ['t', 'r', 'u', 'e'] => some (.bool true)
  | ['f', 'a', 'l', 's', 'e'] => some (.bool false)
  | _ =>
    if isMoment cs then some (.date (String.ofList cs))
    else if isReal cs then some (.real (String.ofList cs))
    else (integer? cs).map .integer

/-!
## Reading strings of TOML

There are four kinds of string: with double quotes and escapes or with single quotes and none,
each on one line or on many. A line end in a string of many lines is a line feed, whichever way it
is written, and the first one is dropped if it comes first.
-/

open Text (Reader)
open Text.Reader

/-- Whether a character may stand in a string or a comment: a tab, or none of the control
characters below U+0080. -/
def isPlain (c : Char) : Bool := c == '\t' || (0x20 ≤ c.toNat && c.toNat != 0x7F)

def isSpace (c : Char) : Bool := c == ' ' || c == '\t'

/-- Takes a line end and says whether there is one. -/
def skipNewline : Reader Bool := do
  if ← skip ['\n'] then return true else skip ['\r', '\n']

/-! ### Escapes -/

/-- Takes so many hexadecimal digits, as the code of a character. -/
def readCode (count : Nat) : Reader Char := do
  let digits ← (List.range count).mapM fun _ => one fun c => (Text.hexDigit? c).isSome
  match Text.hexValue? digits with
  | some code => if code.isValidChar then return Char.ofNat code else failure
  | none => failure

/-- Takes what follows a backslash. -/
def readEscape : Reader Char := do
  match ← one fun _ => true with
  | 'b' => return '\x08'
  | 't' => return '\t'
  | 'n' => return '\n'
  | 'f' => return '\x0c'
  | 'r' => return '\r'
  | '"' => return '"'
  | '\\' => return '\\'
  | 'u' => readCode 4
  | 'U' => readCode 8
  | _ => failure

/-- Takes a line end after a backslash, with the white space around it and all that follows. Gives
false, and takes nothing, if there is none. -/
def skipContinuation : Reader Bool := fun cs =>
  let rest := cs.dropWhile isSpace
  if ['\n'].isPrefixOf rest || ['\r', '\n'].isPrefixOf rest then
    (many (do
      let blanks ← run isSpace
      if (← skipNewline) || !blanks.isEmpty then return some () else return none) cs).map
      fun (_, rest) => (true, rest)
  else some (false, cs)

/-! ### Strings -/

/-- Takes the next character of a string of one line, or its closing quote. -/
def readLineChar (quote : Char) : Reader (Option Char) := do
  let c ← one isPlain
  if c == quote then return none
  else if quote == '"' && c == '\\' then return some (← readEscape)
  else return some c

def readLineString (quote : Char) : Reader (List Char) := many (readLineChar quote)

/-- Takes the next part of a string of many lines, unless three quotes end it. -/
def readPart (quote : Char) : Reader (Option (List Char)) := do
  if ← ahead [quote, quote, quote] then return none
  else if ← skipNewline then return some ['\n']
  else
    let c ← one isPlain
    if quote == '"' && c == '\\' then
      if ← skipContinuation then return some []
      else return some [← readEscape]
    else return some [c]

/-- Takes a string of many lines, whose first three quotes are already taken. Up to two quotes may
stand before the last three. -/
def readLongString (quote : Char) : Reader (List Char) := do
  let _ ← skipNewline
  let parts ← many (readPart quote)
  let quotes ← run (· == quote)
  require (quotes.length ≤ 5)
  return parts.flatten ++ quotes.drop 3

/-- Takes a string of one line or of many, which starts with the given quote. -/
def readString (quote : Char) : Reader (List Char) := do
  if ← skip [quote, quote, quote] then readLongString quote
  else
    word [quote]
    readLineString quote

/-! ## Lines -/

/-- How deep values may be nested, and how many parts a key may have. -/
def nesting : Nat := 79

def skipSpaces : Reader Unit := do let _ ← run isSpace

/-- Takes a comment, if there is one, up to the end of its line. -/
def skipComment : Reader Unit := do
  if ← skip ['#'] then let _ ← run isPlain

/-- Takes white space, comments and line ends. -/
def skipLines : Reader Unit := do
  let _ ← many do
    let blanks ← run isSpace
    if ← ahead ['#'] then
      skipComment
      require (← skipNewline)
      return some ()
    else if (← skipNewline) || !blanks.isEmpty then return some ()
    else return none

/-! ## Keys -/

/-- Whether a character may stand in a key without quotes. -/
def isBare (c : Char) : Bool := c.isAlphanum || c == '_' || c == '-'

def readKeyPart : Reader String := do
  if ← skip ['"'] then return String.ofList (← readLineString '"')
  else if ← skip ['\''] then return String.ofList (← readLineString '\'')
  else return String.ofList (← run1 isBare)

/-- Takes the next part of a key, if a dot comes before one. -/
def readNextPart : Reader (Option String) := do
  if ← skip ['.'] then
    skipSpaces
    let part ← readKeyPart
    skipSpaces
    return some part
  else return none

/-- Takes a key: parts with dots between them. Returns the parts before the last, and the last. -/
def readKey : Reader (List String × String) := do
  skipSpaces
  let first ← readKeyPart
  skipSpaces
  let more ← many readNextPart
  require (more.length < nesting)
  let parts := first :: more
  return (parts.dropLast, parts.getLast?.getD first)

/-! ## Values -/

/-- Takes a number, a date or a truth value. A date and a time may have a space between them. -/
def readScalar : Reader Item := do
  let cs ← run1 isWordChar
  if isDate cs && (← ahead [' ']) then
    match ← withTime cs with
    | some item => return item
    | none => return .date (String.ofList cs)
  else (scalar? cs : Option Item)
where
  /-- Takes the time that follows a date, if one does. -/
  withTime (date : List Char) : Reader (Option Item) := fun cs =>
    let (time, rest) := (cs.drop 1).span isWordChar
    if isZonedTime time then some (some (.date (String.ofList (date ++ ' ' :: time))), rest)
    else some (none, cs)

/-- Takes the items of an array, whose bracket is already taken. -/
def readItems (value : Reader Item) : Reader (List Item) :=
  many do
    skipLines
    if ← skip [']'] then return none
    let item ← value
    skipLines
    if !(← ahead [']']) then word [',']
    return some item

def readEntry (value : Reader Item) : Reader (List String × String × Item) := do
  let (path, key) ← readKey
  word ['=']
  skipSpaces
  return (path, key, ← value)

/-- Takes the entries of a table written as a value, whose brace is already taken. -/
def readInline (value : Reader Item) : Reader (List (List String × String × Item)) := do
  skipSpaces
  if ← skip ['\x7d'] then return []
  let first ← readEntry value
  skipSpaces
  let more ← many do
    if ← skip ['\x7d'] then return none
    word [',']
    let entry ← readEntry value
    skipSpaces
    return some entry
  return first :: more

/-- Takes a value; `limit` is how many arrays and tables may still be nested in each other. -/
def readValue (limit : Nat) : Reader Item := do
  match ← peek with
  | some '"' => return .string (String.ofList (← readString '"'))
  | some '\'' => return .string (String.ofList (← readString '\''))
  | some '[' =>
    word ['[']
    match limit with
    | 0 => failure
    | limit + 1 => return .array (← readItems (readValue limit))
  | some '\x7b' =>
    word ['\x7b']
    match limit with
    | 0 => failure
    | limit + 1 =>
      let entries ← readInline (readValue limit)
      return .inline (← (inlineMembers entries : Option Members))
  | _ => readScalar

/-! ## Documents -/

/-- Takes what a line says, if anything, up to its comment. -/
def readStatement : Reader (Option Line) := do
  skipSpaces
  match ← peek with
  | none | some '#' | some '\n' | some '\r' => return none
  | some '[' =>
    word ['[']
    if ← skip ['['] then
      let (path, key) ← readKey
      word [']', ']']
      return some (.tables path key)
    else
      let (path, key) ← readKey
      word [']']
      return some (.table path key)
  | _ =>
    let (path, key, item) ← readEntry (readValue nesting)
    return some (.entry path key item)

def readLine : Reader (Option Line) := do
  let line ← readStatement
  skipSpaces
  skipComment
  let ended ← atEnd
  require (ended || (← skipNewline))
  return line

/-- Takes the next line of a document, if there is one. -/
def readNextLine : Reader (Option (Option Line)) := do
  if ← atEnd then return none else return some (← readLine)

/-- The table that a text stands for. A byte-order mark may stand at its start. -/
def parse? (text : String) : Option Members := do
  let lines ← whole (do
    let _ ← skip [Char.ofNat 0xFEFF]
    many readNextLine) text.toList
  membersOf (lines.filterMap id)

end RobotSketch.Toml
