import RobotSketch.Text

/-!
# Document type declarations

A document may name a document type that nobody has at hand, so its declaration is cut out before
the document is read. `findDoctype` divides a text into what stands before the declaration, the
declaration and what follows it; the three parts concatenate to the text. Comments and processing
instructions are passed over as *chunks*, each of which ends at the first terminator counted from
the chunk's own first character.
-/
namespace RobotSketch.Xml

/-! ## Chunks -/

/-- What ends the chunk that a text starts with, if it starts with one. -/
def chunkEnd? (cs : List Char) : Option (List Char) :=
  if ['<', '?'].isPrefixOf cs then some ['?', '>']
  else if ['<', '!', '-', '-'].isPrefixOf cs then some ['-', '-', '>']
  else none

/-- The chunk at the start of a text and what follows it; none if it does not end. -/
def takeChunk (terminator cs : List Char) : Option (List Char × List Char) :=
  Text.splitAfter terminator cs

theorem chunkEnd?_ne_nil {cs terminator : List Char} (h : chunkEnd? cs = some terminator) :
    0 < terminator.length := by
  unfold chunkEnd? at h
  split at h
  · obtain rfl := Option.some.inj h; decide
  · split at h
    · obtain rfl := Option.some.inj h; decide
    · simp at h

/-- What follows a chunk is shorter than the text that starts with it. -/
theorem length_lt_of_takeChunk {terminator cs chunk rest : List Char}
    (hpos : 0 < terminator.length) (h : takeChunk terminator cs = some (chunk, rest)) :
    rest.length < cs.length := by
  have hlen := Text.length_le_of_splitAfter h
  rw [Text.append_of_splitAfter h, List.length_append]
  omega

/-! ## The declaration -/

def doctypeStart : List Char := "<!DOCTYPE".toList

/-- Divides a text into blanks and chunks, and the rest, which starts with a declaration. -/
def beforeDoctype (cs : List Char) : Option (List Char × List Char) :=
  let blanks := cs.takeWhile Text.isBlank
  let rest := cs.dropWhile Text.isBlank
  if doctypeStart.isPrefixOf rest then some (blanks, rest)
  else
    match hEnd : chunkEnd? rest with
    | none => none
    | some terminator =>
      match hChunk : takeChunk terminator rest with
      | none => none
      | some (chunk, more) =>
        have : more.length < cs.length := Nat.lt_of_lt_of_le
          (length_lt_of_takeChunk (chunkEnd?_ne_nil hEnd) hChunk)
          (List.dropWhile_suffix _).length_le
        (beforeDoctype more).map fun (before, declaration) =>
          (blanks ++ chunk ++ before, declaration)
termination_by cs.length

/-- Divides a text inside a declaration into what belongs to it, up to its final `>`, and the
rest. That `>` stands outside quotes and chunks, with no bracket open; `quote` is the quote that
is open and `depth` the number of open brackets. -/
def insideDoctype (quote : Option Char) (depth : Nat) (cs : List Char) :
    Option (List Char × List Char) :=
  match cs with
  | [] => none
  | c :: tail =>
    match quote with
    | some q =>
      (insideDoctype (if c == q then none else some q) depth tail).map fun (body, rest) =>
        (c :: body, rest)
    | none =>
      match hEnd : chunkEnd? (c :: tail) with
      | some terminator =>
        match hChunk : takeChunk terminator (c :: tail) with
        | none => none
        | some (chunk, more) =>
          have : more.length ≤ tail.length :=
            Nat.le_of_lt_succ (length_lt_of_takeChunk (chunkEnd?_ne_nil hEnd) hChunk)
          (insideDoctype none depth more).map fun (body, rest) => (chunk ++ body, rest)
      | none =>
        if c == '>' && depth == 0 then some ([c], tail)
        else
          let quote := if c == '"' || c == '\'' then some c else none
          let depth := if c == '[' then depth + 1 else if c == ']' then depth - 1 else depth
          (insideDoctype quote depth tail).map fun (body, rest) => (c :: body, rest)
termination_by cs.length

/-- The parts of a text: before the declaration, the declaration, after it. None if there is no
declaration in front of the root element, or if it does not end. -/
def findDoctype (source : List Char) : Option (List Char × List Char × List Char) := do
  let isMark := fun c => c == Char.ofNat 0xFEFF
  let (before, declaration) ← beforeDoctype (source.dropWhile isMark)
  let (body, rest) ← insideDoctype none 0 (declaration.drop doctypeStart.length)
  return (source.takeWhile isMark ++ before, doctypeStart ++ body, rest)

/-- A text without its document type declaration. -/
def stripDoctype (source : List Char) : List Char :=
  match findDoctype source with
  | some (before, _, rest) => before ++ rest
  | none => source

end RobotSketch.Xml
