import RobotSketch.Path
import RobotSketch.Sequence

/-!
# Code

What a sketch consists of: blocks of lines, statements and the conditions that they test, the
subroutines that they call, and the text of the whole.
-/
namespace RobotSketch

/-!
## Blocks of code

A block is a list of lines, each with a depth relative to the block. Blocks are built without
regard to where they will stand; `render` indents them once that is known.
-/

structure Line where
  depth : Nat
  text : String
  deriving DecidableEq, Repr

/-- The line as it stands `base` levels deep, with its line end. -/
def Line.render (base : Nat) (line : Line) : String :=
  String.join (List.replicate (base + line.depth) Board.indent) ++ line.text ++ "\n"

/-- Lines of code. -/
structure Block where
  lines : List Line
  deriving DecidableEq, Repr

namespace Block

def empty : Block := ⟨[]⟩

/-- Lines that all stand at the block's own level. -/
def ofTexts (texts : List String) : Block := ⟨texts.map (⟨0, ·⟩)⟩

/-- The lines without their depths. -/
def texts (block : Block) : List String := block.lines.map (·.text)

def append (first second : Block) : Block := ⟨first.lines ++ second.lines⟩

instance : Append Block := ⟨append⟩

/-- The block one level deeper. -/
def nested (block : Block) : Block := ⟨block.lines.map fun line => ⟨line.depth + 1, line.text⟩⟩

/-- A body one level below a header, and the brace that closes it. -/
def braced (header : String) (body : Block) : Block :=
  ofTexts [header] ++ body.nested ++ ofTexts ["\x7d"]

/-- The lines of a comment: those of its own lines that are not blank, without blanks at their
ends. -/
def commentTexts (comment : String) : List String :=
  ((Text.pieces (fun c => c == '\n' || c == '\r') comment.toList).map Text.trim).filterMap
    fun line => if line.isEmpty then none else some (String.ofList line)

/-- A comment as lines of code. -/
def ofComment (comment : String) : Block := ofTexts ((commentTexts comment).map Board.commentLine)

def render (base : Nat) (block : Block) : String :=
  String.join (block.lines.map (·.render base))

end Block

/-!
## Statements

The control structure of a sketch, over any kind of condition and of plain action, and its layout
as a block. A plain action takes one line; the others wrap their bodies in braces.
-/

/-- A statement over conditions `κ` and plain actions `α`. -/
inductive Statement (κ α : Type) where
  | action (act : α)
  /-- Runs its body a number of times. -/
  | count (times : UInt32) (body : List (Statement κ α))
  /-- Tests once and runs one of two bodies. -/
  | branch (condition : κ) (yes no : List (Statement κ α))
  /-- Runs its body as long as the condition holds. -/
  | loopWhile (condition : κ) (body : List (Statement κ α))
  | forever (body : List (Statement κ α))

namespace Statement

variable {κ α : Type}

mutual

/-- The block of a statement, given the texts of conditions and actions. -/
def layout (condition : κ → String) (action : α → String) : Statement κ α → Block
  | .action act => .ofTexts [action act]
  | .count times body =>
    .braced s!"for (int counter = 0; counter < {Text.ofNat times.toNat}; counter++) \x7b"
      (layoutAll condition action body)
  | .branch test yes no =>
    .braced s!"if ({condition test}) \x7b" (layoutAll condition action yes) ++
      .braced "else \x7b" (layoutAll condition action no)
  | .loopWhile test body =>
    .braced s!"while ({condition test}) \x7b" (layoutAll condition action body)
  | .forever body => .braced "while (true) \x7b" (layoutAll condition action body)

/-- The block of statements one after the other. -/
def layoutAll (condition : κ → String) (action : α → String) : List (Statement κ α) → Block
  | [] => .empty
  | statement :: rest => layout condition action statement ++ layoutAll condition action rest

end

end Statement

/-! ### Conditionals -/

/-- How a conditional is arranged, by which of its branches repeat. -/
inductive LoopShape where
  /-- Neither branch repeats. -/
  | ifElse
  /-- The else-branch repeats, and the if-branch runs once after it. -/
  | whileElseThenIf
  /-- The if-branch repeats, and the else-branch runs once after it. -/
  | whileIfThenElse
  /-- Both branches repeat, forever. -/
  | foreverIfElse
  deriving DecidableEq, Repr

namespace LoopShape

/-- The shape for two branches, given which of them repeat. -/
def ofRepeats (ifRepeats elseRepeats : Bool) : LoopShape :=
  match ifRepeats, elseRepeats with
  | false, false => .ifElse
  | false, true => .whileElseThenIf
  | true, false => .whileIfThenElse
  | true, true => .foreverIfElse

/-- Arranges two bodies, given the condition of each. -/
def arrange {κ α : Type} (shape : LoopShape) (ifTest elseTest : κ)
    (ifBody elseBody : List (Statement κ α)) : List (Statement κ α) :=
  match shape with
  | .ifElse => [.branch ifTest ifBody elseBody]
  | .whileElseThenIf => .loopWhile elseTest elseBody :: ifBody
  | .whileIfThenElse => .loopWhile ifTest ifBody :: elseBody
  | .foreverIfElse => [.forever [.branch ifTest ifBody elseBody]]

end LoopShape

/-!
## Conditions

A conditional tests its sensor against a threshold. Its two branches have a condition each, and
the two comparisons are opposite.
-/

/-- A test of the sensor at a slot. -/
structure Condition where
  slot : UInt8
  threshold : Threshold
  deriving DecidableEq, Repr

def Condition.text (condition : Condition) : String :=
  s!"{Board.sensorRead condition.slot} {condition.threshold.comparison.symbol} " ++
    Text.ofInt condition.threshold.value

/-- The conditions of the if-branch and of the else-branch. The error leaves the sequence open. -/
def SensorSpec.conditions (spec : SensorSpec) : Except Error (Condition × Condition) := do
  let ifThreshold ← sensorThreshold spec.sensor spec.threshold.value true
  let elseThreshold ← sensorThreshold spec.sensor spec.threshold.value false
  return (⟨spec.slot, ifThreshold⟩, ⟨spec.slot, elseThreshold⟩)

end RobotSketch

/-!
## Identifiers of subroutines

The file of an expression gives its subroutine an *identity*, under which it is found again, and
an identifier, which is what the sketch calls it.
-/

namespace RobotSketch.Identifier

/-- What identifies the expression of a file: the file without blanks at its ends, with slashes
for backslashes, in lower case. -/
def identity (file : String) : String :=
  String.ofList (Text.lower ((Text.trim file.toList).map fun c => if c == '\\' then '/' else c))

/-- Identifiers that no subroutine takes: those of the sketch, of the language and of the board's
libraries. -/
def reserved : List String := [
  "setup", "loop", "main", "delay", "hummingbird", "counter", "auto", "bool", "break", "case",
  "char", "class", "const", "continue", "default", "do", "double", "else", "enum", "extern",
  "false", "float", "for", "goto", "if", "int", "long", "new", "private", "public", "return",
  "short", "signed", "sizeof", "static", "struct", "switch", "this", "true", "typedef", "union",
  "unsigned", "void", "volatile", "while",
  "Hummingbird", "Serial", "String", "boolean", "byte", "word", "HIGH", "LOW", "INPUT",
  "OUTPUT", "millis", "micros", "delayMicroseconds", "pinMode", "digitalRead", "digitalWrite",
  "analogRead", "analogWrite", "tone", "noTone", "random", "randomSeed", "map", "constrain",
  "min", "max", "abs"]

def isLetter (c : Char) : Bool := ('a' ≤ c && c ≤ 'z') || ('A' ≤ c && c ≤ 'Z')

def isFigure (c : Char) : Bool := '0' ≤ c && c ≤ '9'

/-- Whether a character may stand in an identifier. -/
def isPart (c : Char) : Bool := isLetter c || isFigure c || c == '_'

/-- What follows the last slash or backslash. -/
def fileName (cs : List Char) : List Char :=
  (Text.pieces (fun c => c == '/' || c == '\\') cs).getLast?.getD []

/-- The characters of an identifier: spaces and hyphens are dropped, and others that no identifier
may hold become underscores. -/
def cleaned (stem : List Char) : List Char :=
  (stem.filter fun c => c != ' ' && c != '-').map fun c => if isPart c then c else '_'

/-- Makes a list of identifier characters a name: it is not empty and does not start with a
digit. -/
def named : List Char → List Char
  | [] => "expression".toList
  | c :: cs => if isFigure c then '_' :: c :: cs else c :: cs

/-- Moves a name away from the reserved ones. -/
def unreserved (name : String) : String := if reserved.contains name then name ++ "Expr" else name

/-- The identifier of the expression of a file. -/
def ofFile (file : String) : String :=
  unreserved (String.ofList (named (cleaned (Path.stemOf (fileName (Text.trim file.toList))))))

end RobotSketch.Identifier

/-!
## The registry of subroutines

Each expression that a sketch runs becomes one subroutine. The registry holds them in the order of
their registration; the first registration under an identity wins, and a new subroutine takes the
first name of `name`, `name_2`, `name_3`, … that is free.
-/

namespace RobotSketch

/-- A subroutine with a body of type `β`. -/
structure Method (β : Type) where
  identity : String
  name : String
  body : β
  deriving DecidableEq, Repr

def callStatement (name : String) : String := s!"{name}();"

/-- The subroutines of a sketch, in the order of registration. -/
structure Registry (β : Type) where
  methods : List (Method β)
  deriving DecidableEq, Repr

namespace Registry

variable {β : Type}

def empty : Registry β := ⟨[]⟩

def names (registry : Registry β) : List String := registry.methods.map (·.name)

def get? (registry : Registry β) (file : String) : Option (Method β) :=
  registry.methods.find? (·.identity == Identifier.identity file)

def contains (registry : Registry β) (file : String) : Bool := (registry.get? file).isSome

/-- The names that a subroutine may get, in order of preference. -/
def candidates (base : String) (count : Nat) : List String :=
  base :: (List.range count).map fun n => s!"{base}_{Text.ofNat (n + 2)}"

/-- The first candidate that is not taken. One more candidate than names are taken is enough. -/
def uniqueName (taken : List String) (base : String) : String :=
  ((candidates base taken.length).find? (!taken.contains ·)).getD base

/-- Registers a body for a file, unless the file has a subroutine. Returns the subroutine. -/
def register (registry : Registry β) (file : String) (body : β) : Method β × Registry β :=
  match registry.get? file with
  | some method => (method, registry)
  | none =>
    let method : Method β :=
      ⟨Identifier.identity file, uniqueName registry.names (Identifier.ofFile file), body⟩
    (method, ⟨registry.methods ++ [method]⟩)

end Registry

/-!
## Actions of a loop

What the loop of a sketch does besides controlling itself: it comments, calls subroutines and
waits.
-/

/-- A plain line of the loop. -/
inductive Action where
  | comment (text : String)
  | call (method : String)
  | delay (millis : UInt32)
  deriving DecidableEq, Repr

/-- The line of code that an action is. -/
def Action.line : Action → String
  | .comment text => Board.commentLine text
  | .call method => callStatement method
  | .delay millis => Board.delayCall millis

/-- A statement of the loop. -/
abbrev Code := Statement Condition Action

namespace Code

def block (code : List Code) : Block := Statement.layoutAll Condition.text Action.line code

/-- A comment, line by line. -/
def ofComment : Option String → List Code
  | none => []
  | some comment => (Block.commentTexts comment).map fun text => .action (.comment text)

end Code

end RobotSketch

/-!
## Sketches

The text of a whole sketch: the fixed start, the loop, and one function for each subroutine.
-/

namespace RobotSketch.Sketch

/-- The start of every sketch, up to the end of its setup. -/
def preamble : String :=
  s!"{Board.includeLine}\n\n{Board.declaration}\n\nvoid setup() \x7b\n" ++
    s!"{Board.indent}{Board.initCall}\n\x7d\n"

/-- A function without arguments, after a blank line. -/
def function (name : String) (body : Block) : String :=
  s!"\nvoid {name}() \x7b\n" ++ body.render 1 ++ "\x7d\n"

def render (loop : Block) (methods : List (Method (List String))) : String :=
  preamble ++ function "loop" loop ++
    String.join (methods.map fun method => function method.name (.ofTexts method.body))

end RobotSketch.Sketch
