import RobotSketch.Text

/-!
# TOML documents

The items of a TOML document. Tables remember how they came about, since that decides whether
later lines may add to them. Numbers with a fraction or an exponent, and dates, keep their text.
-/
namespace RobotSketch.Toml

/-- How a table came about. -/
inductive Origin where
  /-- By a header of its own, or as the whole document. -/
  | header
  /-- By the header of a table inside it. -/
  | implied
  /-- By a dotted key. -/
  | dotted
  deriving DecidableEq, Repr

/-- What a key stands for. -/
inductive Item where
  | string (value : String)
  | integer (value : Int)
  | real (literal : String)
  | bool (value : Bool)
  | date (literal : String)
  | array (items : List Item)
  /-- A table written as a value. -/
  | inline (members : List (String × Item))
  | table (origin : Origin) (members : List (String × Item))
  /-- A list of tables, each begun by a header. -/
  | tables (list : List (List (String × Item)))
  deriving Repr

/-- Keys and what they stand for. -/
abbrev Members := List (String × Item)

/-- Gives a key that is present another item. -/
def Members.set (members : Members) (key : String) (item : Item) : Members :=
  members.map fun member => if member.1 = key then (key, item) else member

/-! ## Lines -/

/-- What a line of a document says. -/
inductive Line where
  /-- Gives an item to the key at the end of a path. -/
  | entry (path : List String) (key : String) (item : Item)
  /-- Begins a table. -/
  | table (path : List String) (key : String)
  /-- Begins a table that is the next one of a list. -/
  | tables (path : List String) (key : String)

/-- What is done to a table. -/
abbrev Change := Origin → Members → Option (Origin × Members)

/-- Follows a path and changes the table at its end. Tables missing on the way are made. A list
of tables stands for its last one; a dotted path does not enter a table that has a header, and no
path enters a value. -/
def descend (dotted : Bool) (change : Change) : List String → Change
  | [], origin, members => change origin members
  | key :: path, origin, members =>
    match members.lookup key with
    | none => do
      let (inner, made) ←
        descend dotted change path (if dotted then .dotted else .implied) []
      return (origin, members ++ [(key, .table inner made)])
    | some (.table inner found) =>
      if dotted ∧ inner = .header then none
      else do
        let (inner, changed) ← descend dotted change path inner found
        return (origin, members.set key (.table inner changed))
    | some (.tables list) => do
      let last ← list.getLast?
      let (_, changed) ← descend dotted change path .header last
      return (origin, members.set key (.tables (list.dropLast ++ [changed])))
    | some _ => none

/-- Adds an item under a new key. A dotted path has to end at a table made by dotted keys. -/
def addEntry (path : List String) (key : String) (item : Item) : Change :=
  descend true (fun origin members =>
    if (origin = .dotted) ↔ path = [] then none
    else if (members.lookup key).isSome then none
    else some (origin, members ++ [(key, item)])) path

/-- Begins the table under a key; it may only be there by implication. -/
def addTable (key : String) : Change := fun origin members =>
  match members.lookup key with
  | none => some (origin, members ++ [(key, .table .header [])])
  | some (.table .implied inner) => some (origin, members.set key (.table .header inner))
  | some _ => none

/-- Begins one more table of the list under a key. -/
def addToTables (key : String) : Change := fun origin members =>
  match members.lookup key with
  | none => some (origin, members ++ [(key, .tables [[]])])
  | some (.tables list) => some (origin, members.set key (.tables (list ++ [[]])))
  | some _ => none

/-- A document part way through: its members, and the path of the table that lines add to. -/
structure Draft where
  members : Members := []
  current : List String := []

/-- Changes the whole document. -/
def Draft.change (draft : Draft) (change : Change) : Option Members :=
  (change .header draft.members).map (·.2)

/-- What a line does to a document. -/
def Draft.add (draft : Draft) : Line → Option Draft
  | .entry path key item => do
    return { draft with
      members := ← draft.change (descend false (addEntry path key item) draft.current) }
  | .table path key => do
    return ⟨← draft.change (descend false (addTable key) path), path ++ [key]⟩
  | .tables path key => do
    return ⟨← draft.change (descend false (addToTables key) path), path ++ [key]⟩

/-- The document that lines make up. -/
def membersOf (lines : List Line) : Option Members :=
  (lines.foldlM Draft.add {}).map (·.members)

/-- The members of a table written as a value, given its entries. -/
def inlineMembers (entries : List (List String × String × Item)) : Option Members :=
  entries.foldlM (fun members (path, key, item) => (addEntry path key item .header members).map (·.2))
    []

/-!
## Writing TOML

Strings are written in the plainest form that can hold them: in double quotes if nothing in them
needs an escape, else in single quotes, else over many lines; escapes are the last resort.
-/

/-! ### What a string holds -/

/-- Whether a character can only be written as an escape: a control character below U+0080 other
than a tab and a line feed. -/
def needsEscape (c : Char) : Bool :=
  (c.toNat < 0x20 && c != '\t' && c != '\n') || c.toNat == 0x7F

/-- The longest run of a character, given the run so far and the longest one before it. -/
def longestRunFrom (c : Char) (current longest : Nat) : List Char → Nat
  | [] => max current longest
  | d :: cs =>
    if d = c then longestRunFrom c (current + 1) longest cs
    else longestRunFrom c 0 (max current longest) cs

/-- The longest run of a character in a text. -/
def longestRun (c : Char) (cs : List Char) : Nat := longestRunFrom c 0 0 cs

/-- How a string is written. -/
structure Quoting where
  quote : Char
  /-- Whether it may run over many lines. -/
  long : Bool
  deriving DecidableEq, Repr

/-- The plainest way to write a text. -/
def Quoting.choose (cs : List Char) : Quoting :=
  let coded := cs.any needsEscape
  let slashed := cs.contains '\\'
  let broken := cs.contains '\n'
  let doubles := longestRun '"' cs
  let singles := longestRun '\'' cs
  if !coded && !slashed && doubles == 0 && !broken then ⟨'"', false⟩
  else if !coded && singles == 0 && !broken then ⟨'\'', false⟩
  else if !coded && !slashed && doubles ≤ 2 then ⟨'"', true⟩
  else if !coded && singles ≤ 2 then ⟨'\'', true⟩
  else ⟨'"', broken⟩

/-! ### Writing -/

/-- How a character is written between double quotes; `quotes` is how many quotes stand right
before it, of which a short string allows none and a long one two in a row. -/
def escapeOf? (long : Bool) (quotes : Nat) (c : Char) : Option (List Char) :=
  if c = '"' then if quotes < (if long then 2 else 0) then none else some ['\\', '"']
  else if c = '\\' then some ['\\', '\\']
  else if c = '\t' then some ['\\', 't']
  else if c = '\n' then if long then none else some ['\\', 'n']
  else if c = '\r' then some ['\\', 'r']
  else if c.toNat = 8 then some ['\\', 'b']
  else if c.toNat = 12 then some ['\\', 'f']
  else if needsEscape c then some ('\\' :: 'u' :: Text.fourHex c.toNat)
  else none

/-- The characters of a string between double quotes. -/
def escapedFrom (long : Bool) (quotes : Nat) : List Char → List Char
  | [] => []
  | c :: cs =>
    match escapeOf? long quotes c with
    | some written => written ++ escapedFrom long 0 cs
    | none => c :: escapedFrom long (if c = '"' then quotes + 1 else 0) cs

/-- A string with its quotes. A long one begins on a new line if it has a line end. -/
def quotedWith (quoting : Quoting) (cs : List Char) : List Char :=
  let marks := List.replicate (if quoting.long then 3 else 1) quoting.quote
  let start := if quoting.long && cs.contains '\n' then ['\n'] else []
  let body := if quoting.quote = '"' then escapedFrom quoting.long 0 cs else cs
  marks ++ start ++ body ++ marks

def quoted (text : String) : String :=
  String.ofList (quotedWith (.choose text.toList) text.toList)

end RobotSketch.Toml
