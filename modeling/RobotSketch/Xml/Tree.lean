import RobotSketch.Xml.Reader

/-!
# Document trees

What is left of a document once it is read: elements with their attributes, their own text and
their child elements, all in document order. Paths of child names lead into the tree; each step
takes the first child of its name.

A document is one element with nothing but white space, comments and processing instructions around
it. It is read in one pass, with the elements still open held in a list, innermost first, so that
what is wrong with it is found in the order of the text. The main definition is `Xml.parse`.
-/
namespace RobotSketch

/-! ## Trees -/

/-- An element of a document. -/
structure Node where
  name : String
  attributes : List (String × String)
  /-- The text directly inside the element, without blanks at its ends. -/
  text : String
  children : List Node
  deriving Repr

namespace Node

mutual

/-- Decides whether two trees are the same. -/
def decEq : (first second : Node) → Decidable (first = second)
  | ⟨name, attributes, text, children⟩, ⟨name', attributes', text', children'⟩ =>
    if h : name = name' ∧ attributes = attributes' ∧ text = text' then
      match decEqAll children children' with
      | .isTrue hchildren => .isTrue (by simp [h, hchildren])
      | .isFalse hchildren => .isFalse (by simp [hchildren])
    else .isFalse (by simp only [Node.mk.injEq]; exact fun heq => h ⟨heq.1, heq.2.1, heq.2.2.1⟩)

def decEqAll : (first second : List Node) → Decidable (first = second)
  | [], [] => .isTrue rfl
  | [], _ :: _ => .isFalse (by simp)
  | _ :: _, [] => .isFalse (by simp)
  | node :: rest, node' :: rest' =>
    match decEq node node', decEqAll rest rest' with
    | .isTrue hnode, .isTrue hrest => .isTrue (by rw [hnode, hrest])
    | .isFalse hnode, _ => .isFalse (by simp [hnode])
    | _, .isFalse hrest => .isFalse (by simp [hrest])

end

instance : DecidableEq Node := decEq

def attribute? (node : Node) (key : String) : Option String :=
  (node.attributes.find? (·.1 == key)).map (·.2)

/-- The first child element called `name`. -/
def child? (node : Node) (name : String) : Option Node :=
  node.children.find? (·.name == name)

def childrenNamed (node : Node) (name : String) : List Node :=
  node.children.filter (·.name == name)

/-- The steps of a path: its parts between slashes, without the empty ones. -/
def stepsOf (path : String) : List String :=
  ((Text.pieces (· == '/') path.toList).filter (!·.isEmpty)).map String.ofList

/-- The element that a path of child names leads to. -/
def find? (node : Node) (path : String) : Option Node :=
  (stepsOf path).foldlM child? node

/-- The text of the element that a path leads to. -/
def textAt? (node : Node) (path : String) : Option String :=
  (node.find? path).map (·.text)

end Node

namespace Xml

open Reader

/-!
## Namespaces

Start tags bind qualifiers to namespaces, and every qualifier in use must be bound by the tag
itself or by one around it. A tree keeps base names only, so namespaces serve to refuse documents:
unbound qualifiers, bindings that are reserved, and two attributes of one element with the same
namespace and base.
-/

def xmlNamespace : List Char := "http://www.w3.org/XML/1998/namespace".toList

/-- The namespace of declarations, which nothing may be bound to. -/
def declarationNamespace : List Char := "http://www.w3.org/2000/xmlns/".toList

/-- The qualifiers in scope with their namespaces, innermost first. -/
abbrev Bindings := List (List Char × List Char)

/-- An attribute as a start tag writes it. -/
structure TagAttribute where
  name : QName
  value : List Char
  /-- The text from the attribute on. -/
  place : List Char

/-- Whether an attribute declares a namespace for a qualifier. -/
def TagAttribute.declaresQualifier (a : TagAttribute) : Bool := a.name.qualifier == "xmlns".toList

/-- Whether an attribute declares the namespace of names without a qualifier. -/
def TagAttribute.declaresDefault (a : TagAttribute) : Bool :=
  !a.declaresQualifier && a.name.base == "xmlns".toList

/-- What a start tag has brought so far: the qualifiers that it binds, and the attributes that are
no declarations. -/
structure Tag where
  bound : Bindings := []
  attributes : List TagAttribute := []

/-- Adds an attribute to a tag. Nothing is bound to the namespace of declarations, the qualifier
`xml` and its namespace belong to each other alone, and no qualifier is bound twice. -/
def Tag.add (tag : Tag) (a : TagAttribute) : Except Complaint Tag :=
  if a.declaresQualifier then
    if a.value == declarationNamespace then .error .boundDeclarations
    else if a.name.base == "xml".toList then
      if a.value == xmlNamespace then .ok tag else .error .foreignXml
    else if a.value == xmlNamespace then .error .takenXml
    else if tag.bound.any (·.1 == a.name.base) then
      .error (.boundTwice (String.ofList a.name.base))
    else .ok { tag with bound := (a.name.base, a.value) :: tag.bound }
  else if a.declaresDefault then
    if a.value == xmlNamespace then .error .takenXml
    else if a.value == declarationNamespace then .error .boundDeclarations
    else .ok tag
  else .ok { tag with attributes := tag.attributes ++ [a] }

def Bindings.lookup (bindings : Bindings) (qualifier : List Char) : Except Complaint (List Char) :=
  match bindings.find? (·.1 == qualifier) with
  | some (_, space) => .ok space
  | none => .error (.unbound (String.ofList qualifier))

/-- The namespace of an attribute's name: none without a qualifier. -/
def Bindings.ofAttribute (bindings : Bindings) (name : QName) :
    Except Complaint (Option (List Char)) :=
  if name.qualifier.isEmpty then .ok none
  else if name.qualifier == "xml".toList then .ok (some xmlNamespace)
  else (bindings.lookup name.qualifier).map some

/-- Checks the attributes of an element: each qualifier is bound, and no two share namespace and
base. `seen` has those in front. -/
def Bindings.check (bindings : Bindings) (seen : List (Option (List Char) × List Char)) :
    List TagAttribute → Except Refusal Unit
  | [] => .ok ()
  | a :: rest =>
    match bindings.ofAttribute a.name with
    | .error complaint => .error ⟨complaint, a.place⟩
    | .ok space =>
      if seen.contains (space, a.name.base) then
        .error ⟨.repeatedAttribute (String.ofList a.name.base), a.place⟩
      else bindings.check ((space, a.name.base) :: seen) rest

/-! ## Elements -/

/-- An element whose end tag is still to come. -/
structure OpenElement where
  name : QName
  attributes : List (List Char × List Char)
  bindings : Bindings
  /-- The text met so far. -/
  text : List Char := []
  /-- The children met so far, last first. -/
  children : List Node := []

/-- The element once its end tag is met. -/
def OpenElement.node (element : OpenElement) : Node where
  name := String.ofList element.name.base
  attributes := element.attributes.map fun (key, value) => (String.ofList key, String.ofList value)
  text := String.ofList (Text.trim element.text)
  children := element.children.reverse

/-- Opens an element inside the given bindings. The qualifier `xml` is for attributes. -/
def openElement (outer : Bindings) (name : QName) (place : List Char) (tag : Tag) :
    Except Refusal OpenElement := do
  let bindings := tag.bound ++ outer
  bindings.check [] tag.attributes
  if !name.qualifier.isEmpty then
    if let .error complaint := bindings.lookup name.qualifier then .error ⟨complaint, place⟩
  return { name, bindings, attributes := tag.attributes.map fun a => (a.name.base, a.value) }

/-- How far an element is read: with some elements still open, or to its end. -/
inductive Progress where
  | inside (innermost : OpenElement) (around : List OpenElement)
  | after (root : Node)

/-- Puts a finished element into the one around it. -/
def Progress.finish (node : Node) : List OpenElement → Progress
  | [] => .after node
  | element :: around => .inside { element with children := node :: element.children } around

/-- What a start tag leads to, given the elements around it. -/
def Progress.start (element : OpenElement) (closed : Bool) (around : List OpenElement) : Progress :=
  if closed then .finish element.node around else .inside element around

/-! ## Tags -/

/-- Takes `=` and a value in quotes; gives the value, and the text from its end on. -/
def readQuoted : Reader (List Char × List Char) := do
  spaces
  char '='
  spaces
  match ← peek with
  | none => refuse .endOfText
  | some quote =>
    if quote != '"' && quote != '\'' then refuse (.expectedKind "a quote" quote)
    advance 1
    let raw ← upTo fun cs => cs.head?.any fun c => c == quote || c == '<'
    let after ← get
    char quote
    return (raw, after)

def readAttribute : Reader TagAttribute := do
  let place ← get
  let name ← readQName
  let (raw, after) ← readQuoted
  let value ← letters raw after
  return ⟨name, valueOf value, place⟩

/-- How a start tag ends; `cut` when the text ends first. -/
inductive TagEnd where
  | opened
  | closed
  | cut
  deriving DecidableEq

/-- Takes the attributes of a start tag, at most so many, and its end. White space stands before
each attribute. -/
def readTag : Nat → Tag → Reader (Tag × TagEnd)
  | 0, tag => return (tag, .cut)
  | count + 1, tag => do
    if (← get).isEmpty then return (tag, .cut)
    let gap ← run isSpace
    match ← peek with
    | none => refuse .endOfText
    | some '/' =>
      advance 1
      char '>'
      return (tag, .closed)
    | some '>' =>
      advance 1
      return (tag, .opened)
    | some c =>
      if gap.isEmpty then refuse (.expectedKind "a whitespace" c)
      let a ← readAttribute
      match tag.add a with
      | .ok tag => readTag count tag
      | .error complaint => refuseAt a.place complaint

/-- Takes a start tag inside the given elements; none if the text ends before the tag does. Each
attribute takes characters, so there are fewer than the text has. -/
def readStart (around : List OpenElement) : Reader (Option Progress) := do
  advance 1
  let place ← get
  let name ← readQName
  if name.qualifier == "xmlns".toList then refuseAt place .reservedQualifier
  let (tag, ending) ← readTag (place.length + 1) {}
  if ending = .cut then return none
  let outer := (around.head?.map (·.bindings)).getD []
  let element ← liftM (openElement outer name place tag)
  return some (.start element (ending == .closed) around)

/-- Takes an end tag, which has the name of the innermost open element. -/
def readEnd (element : OpenElement) (around : List OpenElement) : Reader Progress := do
  let place ← get
  advance 2
  let name ← readQName
  spaces
  char '>'
  if name ≠ element.name then refuseAt place (.wrongClosing element.name.text name.text)
  return .finish element.node around

/-! ## Comments, instructions and the declaration -/

/-- Takes a comment: it holds no double hyphen and ends in none. -/
def readComment : Reader Unit := do
  let place ← get
  advance 4
  let content ← through "-->"
  if (Text.splitAfter ['-', '-'] content).isSome || content.getLast? == some '-' then
    refuseAt place .doubleHyphen

/-- Takes a processing instruction. The declaration is none. -/
def readInstruction : Reader Unit := do
  if ← ahead "<?xml ".toList then refuse .lateDeclaration
  advance 2
  let _ ← readName
  spaces
  let _ ← through "?>"

/-- Takes white space, of which there must be some unless the declaration or the text ends here. -/
def readGap : Reader Unit := do
  let gap ← run isSpace
  let ends ← ahead "?>".toList
  match ← peek with
  | none => return
  | some c => if gap.isEmpty && !ends then refuse (.expectedKind "a whitespace" c)

/-- Takes an attribute of the declaration. -/
def readDeclared : Reader Unit := do
  let _ ← readQName
  let _ ← readQuoted

/-- Takes the declaration: a version, then possibly an encoding, then possibly a standalone mark. -/
def readDeclaration : Reader Unit := do
  advance 5
  readGap
  if !(← ahead "version".toList) then refuse (.expectedWord "version")
  readDeclared
  readGap
  if ← ahead "encoding".toList then
    readDeclared
    readGap
  if ← ahead "standalone".toList then readDeclared
  spaces
  word "?>"

/-! ## Content -/

/-- Takes a marked section of verbatim text. -/
def readVerbatim : Reader (List Char) := do
  advance 9
  let content ← through "]]>"
  return textOf (content.map (⟨·, false⟩))

/-- Takes the text up to the next markup. It may not hold the end of a verbatim section. -/
def readText : Reader (List Char) := do
  let place ← get
  let raw ← upTo fun cs => cs.head? == some '<'
  if (Text.splitAfter "]]>".toList raw).isSome then refuseAt place .sectionEnd
  let content ← letters raw (← get)
  return textOf content

/-- Takes the next part of the content of the innermost open element. -/
def readPart (element : OpenElement) (around : List OpenElement) : Reader Progress := do
  let withText (content : List Char) : Progress :=
    .inside { element with text := element.text ++ content } around
  if ← ahead "<!--".toList then
    readComment
    return .inside element around
  else if ← ahead "<![CDATA[".toList then return withText (← readVerbatim)
  else if ← ahead "<!".toList then refuse .unknownMarkup
  else if ← ahead "<?".toList then
    readInstruction
    return .inside element around
  else if ← ahead "</".toList then readEnd element around
  else if (← get) = ['<'] then refuse .unknownMarkup
  else if ← ahead ['<'] then return (← readStart (element :: around)).getD (.inside element around)
  else return withText (← readText)

/-- Takes parts of the content, at most so many, until the outermost element or the text ends. -/
def readContent : Nat → Progress → Reader Progress
  | count + 1, .inside element around => do
    if (← get).isEmpty then return .inside element around
    readContent count (← readPart element around)
  | _, progress => return progress

/-! ## Documents -/

/-- Takes what may stand around the root, at most so many comments and instructions. -/
def readAround : Nat → Reader Unit
  | 0 => return
  | count + 1 => do
    spaces
    if ← ahead "<!--".toList then
      readComment
      readAround count
    else if ← ahead "<?".toList then
      readInstruction
      readAround count

/-- Takes what stands in front of the root: possibly a byte order mark, possibly the declaration, then
comments and instructions. -/
def readProlog (count : Nat) : Reader Unit := do
  if ← ahead [Char.ofNat 0xFEFF] then advance 1
  if ← ahead "<?xml ".toList then readDeclaration
  readAround count
  if ← ahead "<!DOCTYPE".toList then refuse .doctype

/-- Takes the root element, as far as the text has it. Each part of the content takes characters, so
there are no more than the text has. -/
def readRoot : Reader (Option Progress) := do
  if !(← ahead ['<']) then return none
  match ← readStart [] with
  | none => return none
  | some progress => return some (← readContent (← get).length progress)

/-- The root, which must have been read to its end. -/
def rootOf : Option Progress → Reader Node
  | none => refuse .noRoot
  | some (.inside _ _) => refuse .unclosedRoot
  | some (.after node) => return node

def readDocument : Reader Node := do
  let length := (← get).length
  readProlog length
  let root ← readRoot
  readAround length
  if !(← get).isEmpty then refuse .unknownMarkup
  rootOf root

/-- The tree of a document, if its text is well-formed. -/
def parse (source : List Char) : Except Fault Node :=
  match readDocument source with
  | .ok (node, _) => .ok node
  | .error refusal => .error (refusal.fault source)

end Xml

end RobotSketch
