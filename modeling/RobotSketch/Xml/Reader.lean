import RobotSketch.Text

/-!
# Reading markup

The small parts of a document's text: characters, names, references and quoted values. A reader
takes a part from the start of a text, or it says what is wrong and where: a `Complaint` is one about
the text from some place on, and a `Fault` has that place as a row and a column.
-/
namespace RobotSketch.Xml

/-!
## Characters

The characters a document may hold, its white space, and the characters of names, as XML 1.0 (fifth
edition) lists them.
-/

/-- Whether a character may stand in a document: tab, line feed, carriage return and everything
from the space on, except U+FFFE and U+FFFF. -/
def isAllowed (c : Char) : Bool :=
  let n := c.toNat
  if n < 0x20 then n == 9 || n == 10 || n == 13 else n != 0xFFFE && n != 0xFFFF

/-- Whether a character is white space of the markup: space, tab, carriage return, line feed. -/
def isSpace (c : Char) : Bool :=
  c == ' ' || c == '\t' || c == '\n' || c == '\r'

/-- The ranges of the characters that start a name. -/
def nameStartRanges : List (Nat × Nat) :=
  [(0x3A, 0x3A), (0x41, 0x5A), (0x5F, 0x5F), (0x61, 0x7A), (0xC0, 0xD6), (0xD8, 0xF6),
   (0xF8, 0x2FF), (0x370, 0x37D), (0x37F, 0x1FFF), (0x200C, 0x200D), (0x2070, 0x218F),
   (0x2C00, 0x2FEF), (0x3001, 0xD7FF), (0xF900, 0xFDCF), (0xFDF0, 0xFFFD), (0x10000, 0xEFFFF)]

/-- The ranges of the characters that a name may hold after its first. -/
def nameOnlyRanges : List (Nat × Nat) :=
  [(0x2D, 0x2E), (0x30, 0x39), (0xB7, 0xB7), (0x300, 0x36F), (0x203F, 0x2040)]

def isNameStart (c : Char) : Bool :=
  nameStartRanges.any fun (first, last) => first ≤ c.toNat && c.toNat ≤ last

def isNameChar (c : Char) : Bool :=
  isNameStart c || nameOnlyRanges.any fun (first, last) => first ≤ c.toNat && c.toNat ≤ last

/-! ## What can be wrong -/

/-- What is wrong with a text, from some place on or as a whole. -/
inductive Complaint where
  /-- The qualifier `xml` is bound to a namespace that is not its own. -/
  | foreignXml
  /-- The namespace of the qualifier `xml` is bound to something else. -/
  | takenXml
  /-- Something is bound to the namespace of declarations. -/
  | boundDeclarations
  /-- An element has the qualifier of declarations. -/
  | reservedQualifier
  | boundTwice (qualifier : String)
  | unbound (qualifier : String)
  | wrongClosing (expected found : String)
  | unknownEntity (name : String)
  | malformedReference
  | repeatedAttribute (name : String)
  /-- A declaration that does not stand at the start. -/
  | lateDeclaration
  | invalidName
  | forbidden (c : Char)
  | expectedChar (expected found : Char)
  | expectedKind (expected : String) (found : Char)
  | expectedWord (expected : String)
  | doubleHyphen
  /-- The end of a verbatim section where there is none. -/
  | sectionEnd
  | unknownMarkup
  | noRoot
  | unclosedRoot
  | doctype
  | endOfText
  deriving DecidableEq, Repr

/-- The first byte of a character in UTF-8, as the character with that code. -/
def leadByte (c : Char) : Char :=
  let n := c.toNat
  Char.ofNat <|
    if n < 0x80 then n
    else if n < 0x800 then 0xC0 + n / 0x40
    else if n < 0x10000 then 0xE0 + n / 0x1000
    else 0xF0 + n / 0x40000

/-- A character that a document may not hold, as an escape. -/
def escaped (c : Char) : String :=
  if c.toNat = 0 then "'\\0'"
  else "'\\u\x7b" ++ String.ofList (Nat.toDigits 16 c.toNat) ++ "\x7d'"

/-- The wording of a complaint about a place. -/
def Complaint.message (place : String) : Complaint → String
  | .foreignXml => s!"'xml' namespace prefix mapped to wrong URI at {place}"
  | .takenXml => s!"the 'xml' namespace URI is used for not 'xml' prefix at {place}"
  | .boundDeclarations => s!"the 'xmlns' URI is used at {place}, but it must not be declared"
  | .reservedQualifier => s!"the 'xmlns' prefix is used at {place}, but it must not be"
  | .boundTwice qualifier => s!"namespace '{qualifier}' at {place} is already defined"
  | .unbound qualifier => s!"an unknown namespace prefix '{qualifier}' at {place}"
  | .wrongClosing expected found => s!"expected '{expected}' tag, not '{found}' at {place}"
  | .unknownEntity name => s!"unknown entity reference '{name}' at {place}"
  | .malformedReference => s!"malformed entity reference at {place}"
  | .repeatedAttribute name => s!"attribute '{name}' at {place} is already defined"
  | .lateDeclaration => s!"unexpected XML declaration at {place}"
  | .invalidName => s!"invalid name token at {place}"
  | .forbidden c => s!"a non-XML character {escaped c} found at {place}"
  | .expectedChar expected found => s!"expected '{expected}' not '{leadByte found}' at {place}"
  | .expectedKind expected found => s!"expected {expected} not '{leadByte found}' at {place}"
  | .expectedWord expected => s!"expected '{expected}' at {place}"
  | .doubleHyphen => s!"comment at {place} contains '--'"
  | .sectionEnd => s!"']]>' is not allowed inside a character data at {place}"
  | .unknownMarkup => s!"unknown token at {place}"
  | .noRoot => "the document does not have a root node"
  | .unclosedRoot => "the root node was opened but never closed"
  | .doctype => "XML with DTD detected"
  | .endOfText => "unexpected end of stream"

/-- What is wrong with a text, and where. -/
structure Fault where
  complaint : Complaint
  row : Nat
  column : Nat
  deriving DecidableEq, Repr

def Fault.message (fault : Fault) : String :=
  fault.complaint.message s!"{Text.ofNat fault.row}:{Text.ofNat fault.column}"

/-- A complaint about a text from a place on. -/
structure Refusal where
  complaint : Complaint
  /-- The text from the place on. -/
  place : List Char

/-- The fault of a text that is refused: rows and columns are counted from one. -/
def Refusal.fault (source : List Char) (refusal : Refusal) : Fault :=
  let taken := source.take (source.length - refusal.place.length)
  { complaint := refusal.complaint
    row := taken.count '\n' + 1
    column := (taken.reverse.takeWhile (· != '\n')).length + 1 }

/-! ## Readers -/

/-- Takes a value from the start of a text and leaves the rest, or refuses. -/
abbrev Reader := StateT (List Char) (Except Refusal)

namespace Reader

variable {α : Type}

def refuse (complaint : Complaint) : Reader α := fun cs => .error ⟨complaint, cs⟩

/-- Refuses with a complaint about a place that has been passed. -/
def refuseAt (place : List Char) (complaint : Complaint) : Reader α := fun _ =>
  .error ⟨complaint, place⟩

def ahead (word : List Char) : Reader Bool := fun cs => .ok (word.isPrefixOf cs, cs)

def peek : Reader (Option Char) := fun cs => .ok (cs.head?, cs)

def advance (count : Nat) : Reader Unit := fun cs => .ok ((), cs.drop count)

/-- Takes the longest run of characters that satisfy `p`. -/
def run (p : Char → Bool) : Reader (List Char) := fun cs => .ok (cs.span p)

def spaces : Reader Unit := do let _ ← run isSpace

def word (expected : String) : Reader Unit := do
  if ← ahead expected.toList then advance expected.length
  else refuse (.expectedWord expected)

def char (expected : Char) : Reader Unit := do
  match ← peek with
  | none => refuse .endOfText
  | some c => if c == expected then advance 1 else refuse (.expectedChar expected c)

/-- Takes the characters of a document up to the place where `stops` holds of the rest. -/
def upTo (stops : List Char → Bool) : Reader (List Char)
  | [] => .ok ([], [])
  | c :: cs =>
    if !isAllowed c then .error ⟨.forbidden c, c :: cs⟩
    else if stops (c :: cs) then .ok ([], c :: cs)
    else (upTo stops cs).map fun (taken, rest) => (c :: taken, rest)

/-- Takes the characters of a document up to a word, and the word. -/
def through (last : String) : Reader (List Char) := do
  let taken ← upTo last.toList.isPrefixOf
  word last
  return taken

end Reader

open Reader

/-!
## Names

The names of elements and attributes are qualified: a base, after an optional qualifier and a colon.
-/

def startsName (cs : List Char) : Bool := cs.head?.any isNameStart

/-- Takes a name that may hold any number of colons. -/
def readName : Reader (List Char) := fun cs =>
  if startsName cs then run isNameChar cs else refuse .invalidName cs

/-- The name of an element or attribute. -/
structure QName where
  /-- What stands before the colon; empty without one. -/
  qualifier : List Char
  base : List Char
  deriving DecidableEq, Repr

def QName.text (name : QName) : String :=
  if name.qualifier.isEmpty then String.ofList name.base
  else String.ofList (name.qualifier ++ ':' :: name.base)

/-- The qualified name that a run of name characters is: at most one colon, a base that starts
like a name, and a qualifier that is empty or starts like one. -/
def QName.ofRun? (run : List Char) : Option QName :=
  match Text.pieces (· == ':') run with
  | [base] => if startsName base then some ⟨[], base⟩ else none
  | [qualifier, base] =>
    if (qualifier.isEmpty || startsName qualifier) && startsName base then some ⟨qualifier, base⟩
    else none
  | _ => none

def readQName : Reader QName := fun cs => do
  let (taken, rest) ← run isNameChar cs
  match QName.ofRun? taken with
  | some name => return (name, rest)
  | none => refuse .invalidName cs

/-!
## Character data

Raw character data becomes a list of *letters*: characters, each marked by whether it was written
as a reference. The mark matters because a carriage return is folded into a line feed, and white
space of an attribute into a space, only where it is written raw.
-/

/-- A character of the content, and whether a reference stands for it in the text. -/
structure Letter where
  char : Char
  referenced : Bool
  deriving DecidableEq, Repr

/-! ### References -/

/-- The character with a code; one that is no character is replaced by U+FFFD, and one that a
document may not hold, or a code of more than 32 bits, is refused. -/
def charOfCode? (code : Nat) : Option Char :=
  if code ≥ UInt32.size then none
  else
    let c := if code.isValidChar then Char.ofNat code else Char.ofNat 0xFFFD
    if isAllowed c then some c else none

/-- The character that a reference stands for, given what it holds between `&` and `;`. -/
def referenced (content : List Char) : Except Complaint Char :=
  let ofCode (code : Option Nat) : Except Complaint Char :=
    ((code >>= charOfCode?).map Except.ok).getD (.error .malformedReference)
  match content with
  | '#' :: 'x' :: digits => ofCode (Text.hexValue? digits)
  | '#' :: digits => ofCode (Text.readDigits? digits)
  | ['l', 't'] => .ok '<'
  | ['g', 't'] => .ok '>'
  | ['a', 'm', 'p'] => .ok '&'
  | ['q', 'u', 'o', 't'] => .ok '"'
  | ['a', 'p', 'o', 's'] => .ok '\''
  | name =>
    if startsName name && name.all isNameChar then .error (.unknownEntity (String.ofList name))
    else .error .malformedReference

/-- A reference that is being read: the raw data from its `&` on, and what was read of it, last
first. -/
structure Pending where
  place : List Char
  read : List Char := []

/-- The letters of raw character data that `after` follows in the text. -/
def lettersFrom (after : List Char) : Option Pending → List Char → Except Refusal (List Letter)
  | none, [] => .ok []
  | some pending, [] => .error ⟨.malformedReference, pending.place ++ after⟩
  | none, c :: cs =>
    if c == '&' then lettersFrom after (some { place := c :: cs }) cs
    else (lettersFrom after none cs).map (⟨c, false⟩ :: ·)
  | some pending, c :: cs =>
    if c == ';' then
      match referenced pending.read.reverse with
      | .ok letter => (lettersFrom after none cs).map (⟨letter, true⟩ :: ·)
      | .error complaint => .error ⟨complaint, pending.place ++ after⟩
    else lettersFrom after (some { pending with read := c :: pending.read }) cs

/-- The letters of raw character data that has been taken; refused when it holds a reference that
stands for no character. -/
def letters (raw after : List Char) : Reader (List Letter) := fun cs =>
  (lettersFrom after none raw).map (·, cs)

/-! ### Folding white space -/

/-- Adds a raw character to a text whose characters so far are given last first. A carriage
return stays until what follows it is known: then it, and a line feed after it, become one line
feed. -/
def pushRaw (c : Char) (atEnd : Bool) : List Char → List Char
  | '\r' :: done =>
    if atEnd && c == '\r' then '\n' :: '\n' :: done
    else if c == '\n' then '\n' :: done
    else c :: '\n' :: done
  | done => (if atEnd && c == '\r' then '\n' else c) :: done

/-- Folds line ends. A referenced character stays as it is, and so does the first raw character
after it; `verbatim` says that the letter before was a referenced one. -/
def foldLines (done : List Char) (verbatim : Bool) : List Letter → List Char
  | [] => done.reverse
  | ⟨c, true⟩ :: rest => foldLines (c :: done) true rest
  | ⟨c, false⟩ :: rest =>
    if verbatim then foldLines (c :: done) false rest
    else foldLines (pushRaw c rest.isEmpty done) false rest

/-- The text of a run of character data. -/
def textOf (letters : List Letter) : List Char := foldLines [] false letters

/-- The value of an attribute: a raw carriage return before a raw line feed is dropped, and other
raw tabs and line ends become spaces. -/
def valueOf : List Letter → List Char
  | [] => []
  | ⟨c, true⟩ :: rest => c :: valueOf rest
  | ⟨'\r', false⟩ :: ⟨'\n', false⟩ :: rest => valueOf (⟨'\n', false⟩ :: rest)
  | ⟨c, false⟩ :: rest =>
    (if c == '\n' || c == '\r' || c == '\t' then ' ' else c) :: valueOf rest

end RobotSketch.Xml
