import RobotSketch.Text

/-!
# JSON values

The values of JSON and the text they are written as. Numbers are integers or, when they are
written with a fraction, an exponent or as a negative zero, reals that keep their text. Objects
keep the order of their members and members of the same name. Well-formed text that stands for no
value has a place of its own, so that it can stand where nobody looks.
-/
namespace RobotSketch

/-- A JSON value. -/
inductive Json where
  | null
  | bool (value : Bool)
  | integer (value : Int)
  /-- A number that is not written as an integer, as it is written. -/
  | real (literal : String)
  | string (value : String)
  | array (items : List Json)
  | object (members : List (String × Json))
  /-- Well-formed text without a value: a string with half of a surrogate pair, a number out of
  range, or an array or object that is nested too deep. -/
  | unread
  deriving Repr, Inhabited

namespace Json

/-- How a character of a string is written. -/
def escaped (c : Char) : List Char :=
  if c == '"' then ['\\', '"']
  else if c == '\\' then ['\\', '\\']
  else if c.toNat < 0x20 then '\\' :: 'u' :: Text.fourHex c.toNat
  else [c]

def quoted (text : String) : String :=
  "\"" ++ String.ofList (text.toList.flatMap escaped) ++ "\""

mutual

/-- The text of a value, without white space. -/
def render : Json → String
  | .null => "null"
  | .bool value => if value then "true" else "false"
  | .integer value => Text.ofInt value
  | .real literal => literal
  | .string value => quoted value
  | .array items => "[" ++ String.intercalate "," (renderItems items) ++ "]"
  | .object members => "\x7b" ++ String.intercalate "," (renderMembers members) ++ "\x7d"
  | .unread => "null"

def renderItems : List Json → List String
  | [] => []
  | item :: items => item.render :: renderItems items

def renderMembers : List (String × Json) → List String
  | [] => []
  | (name, value) :: members => (quoted name ++ ":" ++ value.render) :: renderMembers members

end

mutual

/-- Whether the text of a value and of all its parts has a value. -/
def isRead : Json → Bool
  | .array items => areRead items
  | .object members => membersAreRead members
  | .unread => false
  | _ => true

/-- Whether the items of an array all have values. -/
def areRead : List Json → Bool
  | [] => true
  | item :: items => item.isRead && areRead items

/-- Whether the members of an object all have values. -/
def membersAreRead : List (String × Json) → Bool
  | [] => true
  | (_, value) :: members => value.isRead && membersAreRead members

end

def ofNat (value : Nat) : Json := .integer value

def ofList {α : Type} (encode : α → Json) (values : List α) : Json := .array (values.map encode)

/-- A value that may be absent; absence is null. -/
def ofOption {α : Type} (encode : α → Json) : Option α → Json
  | some value => encode value
  | none => .null

end Json

end RobotSketch

/-!
## Records in JSON

A record is an object, whose members may come in any order and among others, or an array of all
its fields in their order. The parts of a value are handed out with the fact that they are smaller
than the value, so that recursion into them ends.
-/

namespace RobotSketch.Json

/-- A value that is part of another. -/
def Part (json : Json) : Type := { part : Json // sizeOf part < sizeOf json }

theorem sizeOf_lt_of_mem_items {item : Json} {items : List Json} (h : item ∈ items) :
    sizeOf item < sizeOf (Json.array items) := by
  have := List.sizeOf_lt_of_mem h
  simp
  omega

theorem sizeOf_lt_of_mem_members {member : String × Json} {members : List (String × Json)}
    (h : member ∈ members) : sizeOf member.2 < sizeOf (Json.object members) := by
  have := List.sizeOf_lt_of_mem h
  obtain ⟨name, value⟩ := member
  simp at this ⊢
  omega

/-- The items of an array. -/
def items? : (json : Json) → Option (List (Part json))
  | .array items => some (items.attach.map fun ⟨item, h⟩ => ⟨item, sizeOf_lt_of_mem_items h⟩)
  | _ => none

/-- The members of an object with a given name. -/
def membersNamed (members : List (String × Json)) (name : String) :
    List (Part (.object members)) :=
  members.attach.filterMap fun ⟨member, h⟩ =>
    if member.1 == name then some ⟨member.2, sizeOf_lt_of_mem_members h⟩ else none

/-- The field of a record, if it is there; refused if it is there twice. -/
def atMostOne {α : Type} : List α → Option (Option α)
  | [] => some none
  | [value] => some (some value)
  | _ => none

/-- The fields of a record, in the order of their names. -/
def fields? (names : List String) : (json : Json) → Option (List (Option (Part json)))
  | .array items =>
    if items.length = names.length then
      some (items.attach.map fun ⟨item, h⟩ => some ⟨item, sizeOf_lt_of_mem_items h⟩)
    else none
  | .object members => names.mapM fun name => atMostOne (membersNamed members name)
  | _ => none

/-- The name of a case without content: a string, or an object of one member that is null. -/
def caseName? : Json → Option String
  | .string name => some name
  | .object [(name, .null)] => some name
  | _ => none

def string? : Json → Option String
  | .string value => some value
  | _ => none

def bool? : Json → Option Bool
  | .bool value => some value
  | _ => none

/-- The value of an integer between two bounds, both included. -/
def integer? (low high : Int) : Json → Option Int
  | .integer value => if low ≤ value ∧ value ≤ high then some value else none
  | _ => none

/-- The value of a natural number below a bound. -/
def nat? (bound : Nat) : Json → Option Nat
  | .integer (.ofNat value) => if value < bound then some value else none
  | _ => none

end RobotSketch.Json
