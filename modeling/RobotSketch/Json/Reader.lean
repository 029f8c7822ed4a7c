import RobotSketch.Json

/-!
# Reading JSON

Text is read as one value with white space around it. Strings hold no control characters. What is
well formed but has no value is read as `unread`: a string whose surrogate escapes do not come in
pairs, a number that is out of range, an object with such a string for a name, and arrays
and objects nested more than 127 deep.
-/
namespace RobotSketch.Json

/-!
## Numbers in JSON

A number is held as a significand of 64 bits and a power of ten; digits that do not fit are left
out. It is out of range if, in the arithmetic of binary64, the significand times the power of ten
is infinite. Both factors are rounded before they are multiplied, so this may happen just below
the exact end of the range.
-/

open Text (Reader)
open Text.Reader

/-! ### The range of numbers -/

/-- Adds digits to a significand as long as the result is below `2 ^ 64`; gives also the digits that
are left. -/
def fitDigits (significand : Nat) : List Char → Nat × List Char
  | [] => (significand, [])
  | c :: cs =>
    let next := significand * 10 + (c.toNat - 48)
    if next < UInt64.size then fitDigits next cs else (significand, c :: cs)

/-- The number of binary64 that is nearest to a natural number below its range: the 53 leading
binary digits, rounded to nearest with ties to even. -/
def nearest (n : Nat) : Nat :=
  let unit := Nat.pow 2 (n.log2 + 1 - 53)
  let quotient := n / unit
  let rest := n % unit
  let up := unit < 2 * rest || (unit == 2 * rest && quotient % 2 == 1)
  (if up then quotient + 1 else quotient) * unit

/-- The least number that is rounded to infinity: halfway from the largest number of binary64 to the
next power of two. -/
def beyond : Nat := Nat.pow 2 1024 - Nat.pow 2 970

/-- The largest power of ten in binary64. -/
def largestPower : Int := 308

/-- Whether a significand times a power of ten is finite in binary64. -/
def isFinite (significand : Nat) (exponent : Int) : Bool :=
  if significand == 0 || exponent < 0 then true
  else if largestPower < exponent then false
  else nearest significand * nearest (Nat.pow 10 exponent.toNat) < beyond

/-- Whether a number is in range, given its digits before and after the point and its exponent.
Digits before the point that do not fit still count as places, and the ones after it do not. -/
def inRange (digits fraction : List Char) (exponent : Int) : Bool :=
  let (significand, left) := fitDigits 0 digits
  let (significand, ignored) := fitDigits significand fraction
  isFinite significand (exponent + left.length - (fraction.length - ignored.length))

/-! ### Reading -/

/-- An exponent: the text that it is written as, and its value. -/
structure Exponent where
  literal : List Char := []
  value : Int := 0

/-- Takes an exponent, if there is one. -/
def readExponent : Reader Exponent := do
  match ← peek with
  | some 'e' | some 'E' =>
    let mark ← one fun _ => true
    let sign ← run fun c => c == '+' || c == '-'
    require (sign.length ≤ 1)
    let digits ← run1 Text.isDigit
    let value : Int := Text.digitsValue digits
    return ⟨mark :: sign ++ digits, if sign == ['-'] then -value else value⟩
  | _ => return {}

/-- Takes a number. A zero in front stands alone. -/
def readNumber : Reader Json := do
  let negative ← skip ['-']
  let digits ← run1 Text.isDigit
  require (digits.length == 1 || digits.head? != some '0')
  let fraction ← if ← skip ['.'] then run1 Text.isDigit else pure []
  let exponent ← readExponent
  let sign := if negative then ['-'] else []
  if !inRange digits fraction exponent.value then return .unread
  else if fraction.isEmpty && exponent.literal.isEmpty && !(negative && digits == ['0']) then
    let value : Int := Text.digitsValue digits
    return .integer (if negative then -value else value)
  else
    let point := if fraction.isEmpty then [] else '.' :: fraction
    return .real (String.ofList (sign ++ digits ++ point ++ exponent.literal))

/-- Takes white space, if there is any. -/
def readSpace : Reader Unit := do
  let _ ← run fun c => c == ' ' || c == '\n' || c == '\t' || c == '\r'

/-! ## Strings -/

/-- A piece of a string: characters, or the code unit of an escape that is written in digits. -/
inductive Piece where
  | chars (cs : List Char)
  | unit (code : Nat)

def readFourHex : Reader Nat := do
  let a ← one fun _ => true
  let b ← one fun _ => true
  let c ← one fun _ => true
  let d ← one fun _ => true
  (Text.hexValue? [a, b, c, d] : Option Nat)

/-- Takes what follows a backslash. -/
def readEscape : Reader Piece := do
  match ← one fun _ => true with
  | '"' => return .chars ['"']
  | '\\' => return .chars ['\\']
  | '/' => return .chars ['/']
  | 'b' => return .chars ['\x08']
  | 'f' => return .chars ['\x0c']
  | 'n' => return .chars ['\n']
  | 'r' => return .chars ['\r']
  | 't' => return .chars ['\t']
  | 'u' => return .unit (← readFourHex)
  | _ => failure

/-- Whether a character of a string stands for itself. -/
def isPlain (c : Char) : Bool := 0x20 ≤ c.toNat && c != '"' && c != '\\'

/-- A string as far as it is put together: the pieces so far, the last one first, and the first
half of a surrogate pair whose second half is due. -/
structure Draft where
  pieces : List (List Char)
  due : Option Nat

/-- Adds a piece; refuses half of a surrogate pair without its other half. -/
def Draft.add (text : Draft) (piece : Piece) : Option Draft :=
  match text.due, piece with
  | none, .chars cs => some ⟨cs :: text.pieces, none⟩
  | none, .unit code =>
    if 0xD800 ≤ code && code < 0xDC00 then some ⟨text.pieces, some code⟩
    else if 0xDC00 ≤ code && code < 0xE000 then none
    else some ⟨[Char.ofNat code] :: text.pieces, none⟩
  | some high, .unit low =>
    if 0xDC00 ≤ low && low < 0xE000 then
      some ⟨[Char.ofNat (0x10000 + (high - 0xD800) * 0x400 + (low - 0xDC00))] :: text.pieces, none⟩
    else none
  | some _, .chars _ => none

/-- The text that pieces stand for, if surrogates come in pairs. -/
def textOf? (pieces : List Piece) : Option String :=
  match pieces.foldlM Draft.add ⟨[], none⟩ with
  | some ⟨pieces, none⟩ => some (String.ofList pieces.reverse.flatten)
  | _ => none

/-- Takes a string, whose first quote is already taken, and gives its text if it has one. -/
def readStringRest : Reader (Option String) := do
  let pieces ← many do
    if ← skip ['"'] then return none
    else if ← skip ['\\'] then return some (← readEscape)
    else return some (.chars (← run1 isPlain))
  return textOf? pieces

/-- Takes the name of a member and the colon after it. -/
def readName : Reader (Option String) := do
  word ['"']
  let name ← readStringRest
  readSpace
  word [':']
  return name

/-! ## Values -/

/-- Takes a value that is neither an array nor an object. -/
def readScalar : Reader Json := do
  if ← skip "null".toList then return .null
  else if ← skip "true".toList then return .bool true
  else if ← skip "false".toList then return .bool false
  else if ← skip ['"'] then
    match ← readStringRest with
    | some text => return .string text
    | none => return .unread
  else readNumber

/-- Takes what separates items: white space and a comma, if an item follows the first. Gives
false at the closing character, which it takes. -/
def readSeparator (first : Bool) (close : Char) : Reader Bool := do
  readSpace
  if ← skip [close] then return false
  if !first then
    word [',']
    readSpace
  return true

/-- Takes items up to a closing character, with commas between them. -/
def readItems {α : Type} (close : Char) (item : Reader α) : Reader (List α) := do
  if ← readSeparator true close then
    let first ← item
    let rest ← many do
      if ← readSeparator false close then return some (← item) else return none
    return first :: rest
  else return []

/-- Takes the rest of arrays and objects in each other, given the characters that close them,
innermost first, in at most so many steps. -/
def passWithin (closers : List Char) (first : Bool) : Nat → Reader Unit
  | 0 => failure
  | steps + 1 =>
    match closers with
    | [] => pure ()
    | close :: outer => do
      if ← readSeparator first close then
        if close == '\x7d' then let _ ← readName
        readSpace
        if ← skip ['['] then passWithin (']' :: closers) true steps
        else if ← skip ['\x7b'] then passWithin ('\x7d' :: closers) true steps
        else
          let _ ← readScalar
          passWithin closers false steps
      else passWithin outer false steps

/-- Takes an array or object whatever it holds, given the character that closes it. Each step takes
at least one character, so there are no more than the text has. -/
def pass (close : Char) : Reader Json := fun cs =>
  (do passWithin [close] true (cs.length + 1); return Json.unread : Reader Json) cs

/-- An object, if its members have names. -/
def ofMembers (members : List (Option String × Json)) : Json :=
  match members.mapM fun (name, value) => name.map (·, value) with
  | some members => .object members
  | none => .unread

/-- Takes a value; `limit` is how many arrays and objects may still be nested in each other. -/
def readValue (limit : Nat) : Reader Json := do
  readSpace
  if ← skip ['['] then
    match limit with
    | 0 => pass ']'
    | limit + 1 => return .array (← readItems ']' (readValue limit))
  else if ← skip ['\x7b'] then
    match limit with
    | 0 => pass '\x7d'
    | limit + 1 =>
      return ofMembers (← readItems '\x7d' do
        let name ← readName
        return (name, ← readValue limit))
  else readScalar

/-- How deep arrays and objects may be nested. -/
def nesting : Nat := 127

def parse? (text : String) : Option Json :=
  whole (do let value ← readValue nesting; readSpace; return value) text.toList

end RobotSketch.Json
