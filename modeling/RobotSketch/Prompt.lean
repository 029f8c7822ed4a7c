import RobotSketch.Session

/-!
# Asking about missing documents

A question is put on the terminal and the next line of the input is its answer: `y` or `yes` lets
the run go on, and anything else, the end of the input and a line that is no text included, stops
it. A line is taken off the input whole, whatever it holds.
-/
namespace RobotSketch.Terminal

/-!
## Text on a terminal

Styles of text, written as escape codes around it when colours are on. Padding stands inside the
codes.
-/

/-- Whether colours are on: forced by a variable, forbidden by another, and otherwise on at a
terminal unless a third one forbids them there. -/
def coloursOn (environment : String → Option String) (terminal : Bool) : Bool :=
  let set (name : String) : Option Bool := (environment name).map (· != "0")
  if set "CLICOLOR_FORCE" == some true then true
  else if (set "NO_COLOR").isSome then false
  else (set "CLICOLOR").getD true && terminal

/-- A text in the style of a code. -/
def styled (code : String) (colours : Bool) (text : String) : String :=
  if colours then s!"\x1b[{code}m{text}\x1b[0m" else text

def bold : Bool → String → String := styled "1"

def dimmed : Bool → String → String := styled "2"

def red : Bool → String → String := styled "31"

def redBold : Bool → String → String := styled "1;31"

def greenBold : Bool → String → String := styled "1;32"

def yellowBold : Bool → String → String := styled "1;33"

/-- The spaces that bring a text to a width. -/
def padding (width : Nat) (text : String) : String :=
  String.ofList (List.replicate (width - text.toList.length) ' ')

/-- A text with spaces after it, up to a width. -/
def left (width : Nat) (text : String) : String := text ++ padding width text

/-- A text with spaces before it, up to a width. -/
def right (width : Nat) (text : String) : String := padding width text ++ text

end RobotSketch.Terminal

/-! ## Questions and answers -/

namespace RobotSketch.Prompt

/-- The text that puts a question. -/
def text (colours : Bool) (question : Question) : String :=
  let mark := Terminal.yellowBold colours "?"
  s!"  {mark} '{question.referenced}' " ++
    s!"(used by '{question.enclosing}') does not exist. Continue without it? [y/N] "

/-- Takes the next line off an input, with the line feed that ends it. At the end of the input
there is an empty one. -/
def takeLine : List UInt8 → List UInt8 × List UInt8
  | [] => ([], [])
  | byte :: input =>
    if byte = 10 then ([byte], input)
    else
      let taken := takeLine input
      (byte :: taken.1, taken.2)

/-- The decision that a line stands for. -/
def decisionOf (line : List UInt8) : Decision :=
  match String.fromUTF8? ⟨line.toArray⟩ with
  | none => .abort
  | some answer =>
    match Text.asciiLowered (Text.trimmed answer) with
    | "y" | "yes" => .proceed
    | _ => .abort

/-- A terminal: what is still to be read from it, and what has been shown on it. -/
structure Console where
  input : List UInt8
  shown : String := ""

namespace Console

/-- Puts a question, and takes the next line as its answer. -/
def ask (colours : Bool) (console : Console) (question : Question) : Decision × Console :=
  let taken := takeLine console.input
  (decisionOf taken.1, ⟨taken.2, console.shown ++ text colours question⟩)

/-- Puts questions one after the other. -/
def askAll (colours : Bool) (console : Console) : List Question → List Decision × Console
  | [] => ([], console)
  | question :: questions =>
    let answered := console.ask colours question
    let others := answered.2.askAll colours questions
    (answered.1 :: others.1, others.2)

end Console

/-- Answers each question by the next line of an input. -/
def handler (input : List UInt8) : Handler := fun before question =>
  (((⟨input, ""⟩ : Console).askAll false before).2.ask false question).1

/-- What is shown when questions are put one after the other. -/
def shown (colours : Bool) (questions : List Question) : String :=
  ((⟨[], ""⟩ : Console).askAll colours questions).2.shown

end RobotSketch.Prompt
