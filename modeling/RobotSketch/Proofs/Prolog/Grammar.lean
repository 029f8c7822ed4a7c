import Mathlib
import RobotSketch.Text
import RobotSketch.Xml.Reader

/-!
# The grammar of what stands before the root element

The productions of XML 1.0 (fifth edition) for a prolog and for a document type declaration, each as
a language: `+` is a choice, `*` a concatenation and `∗` any number of repetitions. A number in
brackets is the number of the production.

Comments are a parameter of what is made of them, since not every comment is passed over in one
piece: `steadyComment` are those that do not seem to end where they start.
-/
namespace RobotSketch.Xml.Grammar

open scoped Computability

/-! ## Texts -/

/-- One character of a class. -/
def one (p : Char → Bool) : Language Char := {cs | ∃ c, p c = true ∧ cs = [c]}

/-- A text as it stands. -/
def word (text : String) : Language Char := {text.toList}

/-- One of some texts. -/
def words (texts : List String) : Language Char := {cs | ∃ text ∈ texts, cs = text.toList}

/-- A text or nothing. -/
def maybe (texts : Language Char) : Language Char := 1 + texts

/-- Any text at all. -/
def anything : Language Char := (one fun _ => true)∗

/-- [3] White space. -/
def space : Language Char := one isSpace * (one isSpace)∗

/-- [5] A name. -/
def name : Language Char := one isNameStart * (one isNameChar)∗

/-- [7] A name token. -/
def nameToken : Language Char := one isNameChar * (one isNameChar)∗

/-- A text between two quotes of either kind, given what may stand between them. -/
def quoted (content : Char → Language Char) : Language Char :=
  word "\"" * content '"' * word "\"" + word "'" * content '\'' * word "'"

/-! ## References and literals -/

/-- [66] A character by its number. -/
def charReference : Language Char :=
  word "&#" * one Text.isDigit * (one Text.isDigit)∗ * word ";" +
    word "&#x" * one isHexDigit * (one isHexDigit)∗ * word ";"
where
  /-- Whether a character is a hexadecimal digit. -/
  isHexDigit (c : Char) : Bool :=
    Text.isDigit c || 'a' ≤ c && c ≤ 'f' || 'A' ≤ c && c ≤ 'F'

/-- [67] A reference to a character or to an entity. -/
def reference : Language Char := word "&" * name * word ";" + charReference

/-- [69] A reference to a parameter entity. -/
def parameterReference : Language Char := word "%" * name * word ";"

/-- [9] The value of an entity. -/
def entityValue : Language Char :=
  quoted fun quote =>
    (one (fun c => isAllowed c && c != '%' && c != '&' && c != quote) + parameterReference +
      reference)∗

/-- [10] The value of an attribute. -/
def attributeValue : Language Char :=
  quoted fun quote =>
    (one (fun c => isAllowed c && c != '<' && c != '&' && c != quote) + reference)∗

/-- [11] Where something is found. -/
def systemLiteral : Language Char := quoted fun quote => (one fun c => isAllowed c && c != quote)∗

/-- [13] Whether a character may stand in a public identifier. -/
def isPublic (c : Char) : Bool :=
  c.isAlphanum || " \r\n-'()+,./:=?;!*#@$_%".toList.contains c

/-- [12] A public identifier. -/
def publicLiteral : Language Char := quoted fun quote => (one fun c => isPublic c && c != quote)∗

/-- [75] What is outside the document. -/
def externalId : Language Char :=
  word "SYSTEM" * space * systemLiteral +
    word "PUBLIC" * space * publicLiteral * space * systemLiteral

/-! ## Comments and processing instructions -/

/-- What a comment is made of: characters other than hyphens, each after one hyphen at most. -/
def commentPart : Language Char :=
  one (fun c => isAllowed c && c != '-') + word "-" * one (fun c => isAllowed c && c != '-')

/-- [15] A comment. -/
def comment : Language Char := word "<!--" * commentPart∗ * word "-->"

/-- Openings of comments that look like the end of one. -/
def abruptOpening : Language Char := words ["<!-->", "<!--->"]

/-- A comment without such an opening. -/
def steadyComment : Language Char := comment - abruptOpening * anything

/-- [17] The target of a processing instruction: any name but that of the declaration. -/
def target : Language Char :=
  name - one (fun c => c == 'X' || c == 'x') * one (fun c => c == 'M' || c == 'm') *
    one (fun c => c == 'L' || c == 'l')

/-- [16] A processing instruction. -/
def instruction : Language Char :=
  word "<?" * target *
    maybe (space * ((one isAllowed)∗ - (one isAllowed)∗ * word "?>" * (one isAllowed)∗)) * word "?>"

/-- [27] What may stand around the root element. -/
def misc (comments : Language Char) : Language Char := comments + instruction + space

/-! ## The declaration of the document -/

/-- [25] An equals sign. -/
def equals : Language Char := maybe space * word "=" * maybe space

/-- [24] The version. -/
def versionInfo : Language Char :=
  space * word "version" * equals *
    quoted fun _ => word "1." * one Text.isDigit * (one Text.isDigit)∗

/-- [80] The encoding. -/
def encodingDecl : Language Char :=
  space * word "encoding" * equals *
    quoted fun _ => one Char.isAlpha * (one fun c => c.isAlphanum || "._-".toList.contains c)∗

/-- [32] Whether the document stands alone. -/
def standaloneDecl : Language Char :=
  space * word "standalone" * equals * quoted fun _ => words ["yes", "no"]

/-- [23] The declaration of the document. -/
def xmlDecl : Language Char :=
  word "<?xml" * versionInfo * maybe encodingDecl * maybe standaloneDecl * maybe space *
    word "?>"

/-! ## Markup declarations -/

/-- How often something may stand. -/
def modifier : Language Char := maybe (one fun c => c == '?' || c == '*' || c == '+')

/-- A separator with white space around it. -/
def separator (text : String) : Language Char := maybe space * word text * maybe space

/-- A group of parts: a choice [49] of two at least, or a sequence [50]. -/
def group (part : Language Char) : Language Char :=
  word "(" * maybe space * part * (separator "|" * part) * (separator "|" * part)∗ *
      maybe space * word ")" +
    word "(" * maybe space * part * (separator "," * part)∗ * maybe space * word ")"

/-- [48] A part of a content model whose groups are nested at most so deep. -/
def particle : Nat → Language Char
  | 0 => name * modifier
  | depth + 1 => particle depth + group (particle depth) * modifier

/-- [51] Text with elements in it. -/
def mixed : Language Char :=
  word "(" * maybe space * word "#PCDATA" * (separator "|" * name)∗ * maybe space * word ")*" +
    word "(" * maybe space * word "#PCDATA" * maybe space * word ")"

/-- [46] What an element may hold. -/
def contentSpec : Language Char :=
  words ["EMPTY", "ANY"] + mixed + ⨆ depth, group (particle depth) * modifier

/-- [45] The declaration of an element. -/
def elementDecl : Language Char :=
  word "<!ELEMENT" * space * name * space * contentSpec * maybe space * word ">"

/-- A choice of texts in brackets. -/
def enumeration (texts : Language Char) : Language Char :=
  word "(" * maybe space * texts * (separator "|" * texts)∗ * maybe space * word ")"

/-- [54] The type of an attribute. -/
def attributeType : Language Char :=
  words ["CDATA", "ID", "IDREF", "IDREFS", "ENTITY", "ENTITIES", "NMTOKEN", "NMTOKENS"] +
    word "NOTATION" * space * enumeration name + enumeration nameToken

/-- [60] The default of an attribute. -/
def defaultDecl : Language Char :=
  words ["#REQUIRED", "#IMPLIED"] + maybe (word "#FIXED" * space) * attributeValue

/-- [52] The declaration of the attributes of an element. -/
def attlistDecl : Language Char :=
  word "<!ATTLIST" * space * name *
    (space * name * space * attributeType * space * defaultDecl)∗ * maybe space * word ">"

/-- [70] The declaration of an entity, general or of parameters. -/
def entityDecl : Language Char :=
  word "<!ENTITY" * space * name * space *
      (entityValue + externalId * maybe (space * word "NDATA" * space * name)) *
      maybe space * word ">" +
    word "<!ENTITY" * space * word "%" * space * name * space * (entityValue + externalId) *
      maybe space * word ">"

/-- [82] The declaration of a notation. -/
def notationDecl : Language Char :=
  word "<!NOTATION" * space * name * space * (externalId + word "PUBLIC" * space * publicLiteral) *
    maybe space * word ">"

/-! ## The document type declaration and what is around it -/

section

variable (comments : Language Char)

/-- [28b] The declarations that a document brings along. -/
def internalSubset : Language Char :=
  (elementDecl + attlistDecl + entityDecl + notationDecl + instruction + comments +
    parameterReference + space)∗

/-- [28] The document type declaration. -/
def doctypeDecl : Language Char :=
  word "<!DOCTYPE" * space * name * maybe (space * externalId) * maybe space *
    maybe (word "[" * internalSubset comments * word "]" * maybe space) * word ">"

/-- What may stand before the document type declaration: first of all a byte order mark. -/
def prologue : Language Char := maybe (word "\uFEFF") * (xmlDecl + misc comments)∗

/-- What leads to the start of the root element, with anything after it. -/
def toRoot : Language Char := (misc comments)∗ * (word "<" * one isNameStart * anything)

end

end RobotSketch.Xml.Grammar
