import RobotSketch.Text.CaseTable

/-!
# Texts

Texts are handled as lists of characters: they are cut, trimmed and put into lower case, numbers are
written and read, and readers take values from their start.
-/
namespace RobotSketch.Text

/-!
## Cutting texts at separators

Cuts at a class of characters (`pieces`), at the first occurrence of a word (`splitAfter`) and
at its last occurrence (`afterLast`). `splitAfter` loses nothing: the two parts it returns
concatenate to the text.
-/

/-- The pieces of a text between the characters that satisfy `p`; there is always at least one. -/
def pieces (p : Char → Bool) (cs : List Char) : List (List Char) := cs.splitOnP p

/-- The text up to and including the first occurrence of `word`, and what follows it. -/
def splitAfter (word : List Char) : List Char → Option (List Char × List Char)
  | [] => if word.isEmpty then some ([], []) else none
  | c :: cs =>
    if word.isPrefixOf (c :: cs) then some (word, (c :: cs).drop word.length)
    else (splitAfter word cs).map fun (before, rest) => (c :: before, rest)

/-- What follows the last occurrence of `word`, if it occurs. -/
def afterLast (word : List Char) : List Char → Option (List Char)
  | [] => none
  | c :: cs =>
    match afterLast word cs with
    | some rest => some rest
    | none => if word.isPrefixOf (c :: cs) then some ((c :: cs).drop word.length) else none

theorem eq_append_drop_of_isPrefixOf {word cs : List Char} (h : word.isPrefixOf cs = true) :
    cs = word ++ cs.drop word.length := by
  obtain ⟨rest, rfl⟩ := List.isPrefixOf_iff_prefix.1 h
  simp

/-- The two parts of a cut concatenate to the text. -/
theorem append_of_splitAfter {word cs before rest : List Char}
    (h : splitAfter word cs = some (before, rest)) : cs = before ++ rest := by
  induction cs generalizing before rest with
  | nil =>
    simp only [splitAfter] at h
    split at h <;> simp_all
  | cons c cs ih =>
    simp only [splitAfter] at h
    split at h
    · rename_i hp
      obtain ⟨rfl, rfl⟩ := Prod.mk.inj (Option.some.inj h)
      exact eq_append_drop_of_isPrefixOf hp
    · obtain ⟨⟨b, r⟩, hbr, hr⟩ := Option.map_eq_some_iff.1 h
      obtain ⟨rfl, rfl⟩ := Prod.mk.inj hr
      rw [ih hbr]; rfl

/-- The part up to a word holds the word, so it is at least as long. -/
theorem length_le_of_splitAfter {word cs before rest : List Char}
    (h : splitAfter word cs = some (before, rest)) : word.length ≤ before.length := by
  induction cs generalizing before rest with
  | nil =>
    simp only [splitAfter] at h
    split at h <;> simp_all
  | cons c cs ih =>
    simp only [splitAfter] at h
    split at h
    · obtain ⟨rfl, rfl⟩ := Prod.mk.inj (Option.some.inj h)
      exact Nat.le_refl _
    · obtain ⟨⟨b, r⟩, hbr, hr⟩ := Option.map_eq_some_iff.1 h
      obtain ⟨rfl, rfl⟩ := Prod.mk.inj hr
      exact Nat.le_succ_of_le (ih hbr)

/-!
## Blanks and control characters

Two classes of characters and the cuts made with them. A *blank* has the Unicode property
White_Space; a *control* character has the general category Cc. Texts are cut as lists of
characters, and `trimmed` is the same cut on a string.
-/

/-- Whether a character has the Unicode property White_Space. -/
def isBlank (c : Char) : Bool :=
  let n := c.toNat
  (9 ≤ n && n ≤ 13) || n == 0x20 || n == 0x85 || n == 0xA0 || n == 0x1680 ||
    (0x2000 ≤ n && n ≤ 0x200A) || n == 0x2028 || n == 0x2029 || n == 0x202F || n == 0x205F ||
    n == 0x3000

/-- Whether a character is a control character: U+0000 to U+001F and U+007F to U+009F. -/
def isControl (c : Char) : Bool :=
  let n := c.toNat
  n < 0x20 || (0x7F ≤ n && n < 0xA0)

/-! ### Cuts -/

/-- Drops the characters at the end that satisfy `p`. -/
def dropEndWhile (p : Char → Bool) (cs : List Char) : List Char :=
  (cs.reverse.dropWhile p).reverse

/-- Drops the blanks at the start. -/
def trimStart (cs : List Char) : List Char := cs.dropWhile isBlank

/-- Drops the blanks at both ends. -/
def trim (cs : List Char) : List Char := dropEndWhile isBlank (trimStart cs)

def trimmed (s : String) : String := String.ofList (trim s.toList)

/-!
## Lower case

`asciiLower` maps the letters `A` to `Z` and nothing else. `lower` is the full Unicode mapping of
a text: one capital (dotted I) becomes two characters, and a capital sigma becomes a final sigma
exactly at the end of a word, that is, after a cased letter and not before one, where case-ignorable
characters are passed over on both sides.
-/

/-- The lower-case form of an ASCII capital; any other character stays. -/
def asciiLowerChar (c : Char) : Char :=
  if 'A' ≤ c && c ≤ 'Z' then Char.ofNat (c.toNat + 32) else c

def asciiLower (cs : List Char) : List Char := cs.map asciiLowerChar

def asciiLowered (s : String) : String := String.ofList (asciiLower s.toList)

/-! ### The full mapping -/

/-- Whether a code point lies in one of the inclusive ranges. -/
def inRanges (ranges : List (Nat × Nat)) (n : Nat) : Bool :=
  ranges.any fun (low, high) => low ≤ n && n ≤ high

/-- The lower-case form of a character, apart from the cases that depend on its neighbours. -/
def lowerChar (c : Char) : List Char :=
  if c.toNat < 128 then [asciiLowerChar c]
  else if c.toNat == 0x130 then ['i', Char.ofNat 0x307]
  else
    match lowerRanges.find? fun (low, high, step, _) =>
        low ≤ c.toNat && c.toNat ≤ high && (c.toNat - low) % step == 0 with
    | some (_, _, _, delta) => [Char.ofNat (c.toNat + delta).toNat]
    | none => [c]

/-- Whether the first character that is not passed over is a cased one. -/
def startsCased (cs : List Char) : Bool :=
  match cs.dropWhile fun c => inRanges caseIgnorableRanges c.toNat with
  | c :: _ => inRanges casedRanges c.toNat
  | [] => false

/-- The lower-case form of a text whose preceding characters, last first, are `before`. -/
def lowerAfter (before : List Char) : List Char → List Char
  | [] => []
  | c :: cs =>
    let here :=
      if c.toNat == 0x3A3 then
        [Char.ofNat (if startsCased before && !startsCased cs then 0x3C2 else 0x3C3)]
      else lowerChar c
    here ++ lowerAfter (c :: before) cs

/-- The full lower-case form of a text. -/
def lower (cs : List Char) : List Char := lowerAfter [] cs

/-!
## Decimal integers

The decimal text of an integer, and the integers a text denotes: an optional sign, at least one
ASCII digit, nothing else. Leading zeros are allowed; a minus sign only where negative values
are. The last readers also ask that the value fits a width.
-/

def digitChar (d : Nat) : Char := Char.ofNat (48 + d)

/-- The digits of `n` below the first `fuel` places, in front of `rest`. -/
def digitsOnto : Nat → Nat → List Char → List Char
  | 0, _, rest => rest
  | fuel + 1, n, rest =>
    let rest := digitChar (n % 10) :: rest
    if n < 10 then rest else digitsOnto fuel (n / 10) rest

/-- The decimal digits of a natural number, without leading zeros. -/
def digits (n : Nat) : List Char := digitsOnto (n + 1) n []

def ofNat (n : Nat) : String := String.ofList (digits n)

def ofInt : Int → String
  | .ofNat n => ofNat n
  | .negSucc n => String.ofList ('-' :: digits (n + 1))

def isDigit (c : Char) : Bool := '0' ≤ c && c ≤ '9'

/-- The value of a list of digits, most significant first. -/
def digitsValue (cs : List Char) : Nat := cs.foldl (fun n c => 10 * n + (c.toNat - 48)) 0

/-- The number that a non-empty list of ASCII digits denotes. -/
def readDigits? (cs : List Char) : Option Nat :=
  if cs.isEmpty || !cs.all isDigit then none else some (digitsValue cs)

/-- Reads a number with an optional plus sign. -/
def readNat? : List Char → Option Nat
  | '+' :: cs => readDigits? cs
  | cs => readDigits? cs

/-- Reads a number with an optional sign. -/
def readInt? : List Char → Option Int
  | '-' :: cs => (readDigits? cs).map fun n => -(n : Int)
  | cs => (readNat? cs).map Int.ofNat

/-! ### Readers with a range -/

def readUInt8? (cs : List Char) : Option UInt8 :=
  (readNat? cs).bind fun n => if h : n < UInt8.size then some (UInt8.ofNatLT n h) else none

def readUInt32? (cs : List Char) : Option UInt32 :=
  (readNat? cs).bind fun n => if h : n < UInt32.size then some (UInt32.ofNatLT n h) else none

def readInt64? (cs : List Char) : Option Int :=
  (readInt? cs).filter fun n => -9223372036854775808 ≤ n && n < 9223372036854775808

/-!
## Hexadecimal numbers
-/

/-- The value of a hexadecimal digit. -/
def hexDigit? (c : Char) : Option Nat :=
  let n := c.toNat
  if 0x30 ≤ n && n ≤ 0x39 then some (n - 0x30)
  else if 0x41 ≤ n && n ≤ 0x46 then some (n - 0x37)
  else if 0x61 ≤ n && n ≤ 0x66 then some (n - 0x57)
  else none

/-- The number that hexadecimal digits stand for; there must be at least one. -/
def hexValue? (digits : List Char) : Option Nat :=
  if digits.isEmpty then none
  else digits.foldlM (fun value c => (hexDigit? c).map (value * 16 + ·)) 0

/-- The digit of a value below sixteen, with the letters in upper case. -/
def hexChar (value : Nat) : Char :=
  Char.ofNat (if value < 10 then value + 0x30 else value + 0x37)

/-- The last four hexadecimal digits of a number. -/
def fourHex (value : Nat) : List Char :=
  [hexChar (value / 4096 % 16), hexChar (value / 256 % 16), hexChar (value / 16 % 16),
   hexChar (value % 16)]

/-!
## Readers

A reader takes something from the start of a text and leaves the rest, or refuses. The number of
rounds of a loop is bounded by the length of the text, since each round takes at least one
character.
-/

/-- Takes a value from the start of a text and leaves the rest, or refuses. -/
abbrev Reader := StateT (List Char) Option

namespace Reader

/-- Takes exactly the given word. -/
def word (w : List Char) : Reader Unit := fun cs =>
  if w.isPrefixOf cs then some ((), cs.drop w.length) else none

/-- Takes one character that satisfies `p`. -/
def one (p : Char → Bool) : Reader Char := fun cs =>
  match cs with
  | c :: rest => if p c then some (c, rest) else none
  | [] => none

/-- Takes the longest run of characters that satisfy `p`. -/
def run (p : Char → Bool) : Reader (List Char) := fun cs => some (cs.span p)

/-- Takes the longest run of characters that satisfy `p`, which must not be empty. -/
def run1 (p : Char → Bool) : Reader (List Char) := do
  let taken ← run p
  if taken.isEmpty then failure else return taken

/-- Whether the text goes on with the given word; takes nothing. -/
def ahead (w : List Char) : Reader Bool := fun cs => some (w.isPrefixOf cs, cs)

/-- The next character, if there is one; takes nothing. -/
def peek : Reader (Option Char) := fun cs => some (cs.head?, cs)

/-- Whether the text has come to its end. -/
def atEnd : Reader Bool := fun cs => some (cs.isEmpty, cs)

/-- Takes the given word if the text goes on with it, and says whether it does. -/
def skip (w : List Char) : Reader Bool := fun cs =>
  if w.isPrefixOf cs then some (true, cs.drop w.length) else some (false, cs)

/-- Refuses unless the condition holds. -/
def require (condition : Bool) : Reader Unit := if condition then pure () else failure

/-- Takes at most so many items, until `item` gives none. -/
def manyWithin {α : Type} (item : Reader (Option α)) : Nat → Reader (List α)
  | 0, _ => none
  | count + 1, cs =>
    match item cs with
    | none => none
    | some (none, rest) => some ([], rest)
    | some (some value, rest) =>
      (manyWithin item count rest).map fun (values, rest') => (value :: values, rest')

/-- Takes items until `item` gives none. Each takes at least one character, so there are no more
than the text has characters. -/
def many {α : Type} (item : Reader (Option α)) : Reader (List α) := fun cs =>
  manyWithin item (cs.length + 1) cs

/-- What a reader makes of a whole text. -/
def whole {α : Type} (reader : Reader α) (cs : List Char) : Option α :=
  match reader cs with
  | some (value, []) => some value
  | _ => none

end Reader

end RobotSketch.Text
