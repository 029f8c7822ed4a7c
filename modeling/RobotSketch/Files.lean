import RobotSketch.Path

/-!
# Files

The operations on files that the program needs, for any monad that offers them, and the ways in
which they fail. What the program does with files is written against `Files` alone, so it can run
on a real file system and on a model of one.
-/
namespace RobotSketch

/-- Why an operation on a file fails. -/
inductive Fault where
  | notFound
  | alreadyExists
  | notADirectory
  | isADirectory
  | nameTooLong
  | busy
  /-- The path holds the character zero. -/
  | zeroInPath
  /-- The file is no text. -/
  | notText
  /-- Anything else, in the words of the system. -/
  | other (words : String)
  deriving DecidableEq, Repr

/-- A fault in the words of the system, with its number. -/
def Fault.numbered (words : String) (number : Nat) : String :=
  s!"{words} (os error {Text.ofNat number})"

def Fault.message : Fault → String
  | .notFound => numbered "No such file or directory" 2
  | .alreadyExists => numbered "File exists" 17
  | .notADirectory => numbered "Not a directory" 20
  | .isADirectory => numbered "Is a directory" 21
  | .nameTooLong => numbered "File name too long" 36
  | .busy => numbered "Device or resource busy" 16
  | .zeroInPath => "file name contained an unexpected NUL byte"
  | .notText => "stream did not contain valid UTF-8"
  | .other words => words

/-- Operations on files. -/
class Files (m : Type → Type) where
  /-- The text of a file. -/
  read : Path → m (Except Fault String)
  /-- Makes a file hold a text, whatever it held. -/
  write : Path → String → m (Except Fault Unit)
  /-- Gives a file another path, in place of what is there. -/
  rename : Path → Path → m (Except Fault Unit)
  /-- Removes a file. -/
  remove : Path → m (Except Fault Unit)
  /-- Makes a directory and those around it, as far as they are missing. -/
  makeDirectories : Path → m (Except Fault Unit)
  isDirectory : Path → m Bool
  /-- Whether there is a file or directory. -/
  hasEntry : Path → m Bool

/-!
## A tree of files

A model of a file system without links: directories hold entries under names, and a location is
the list of names that leads from the root to an entry. Paths are looked up name by name, and
every directory on the way has to exist. Operations run in `StateM Tree`; a single step that fails
leaves the tree as it was.
-/

/-- A place in a tree: the names that lead to it from the root. -/
abbrev Location := List String

/-- A file, or a directory with what it holds. -/
inductive Entry where
  | directory (children : List (String × Entry))
  | file (content : ByteArray)

/-- What a directory holds, by name. -/
abbrev Children := List (String × Entry)

namespace Entry

/-- The entry at a location below an entry. -/
def at? (entry : Entry) : Location → Option Entry
  | [] => some entry
  | name :: names =>
    match entry with
    | .directory children => (children.lookup name).bind (·.at? names)
    | .file _ => none

def erase (entry : Entry) : Location → Entry
  | [] => entry
  | name :: names =>
    match entry with
    | .directory children =>
      if names.isEmpty then .directory (children.filter (·.1 != name))
      else .directory (children.map fun child =>
        if child.1 == name then (name, child.2.erase names) else child)
    | .file _ => entry

/-- Puts an entry at a location below an entry, in place of what is there. Nothing is put where no
directory leads. -/
def put (entry new : Entry) : Location → Entry
  | [] => new
  | name :: names =>
    match entry with
    | .directory children =>
      if names.isEmpty then .directory ((name, new) :: children.filter (·.1 != name))
      else .directory (children.map fun child =>
        if child.1 == name then (name, child.2.put new names) else child)
    | .file _ => entry

end Entry

/-- A tree of files, with the working directory. -/
structure Tree where
  /-- What the root holds. -/
  root : Children
  working : Location

namespace Tree

/-! ### Entries -/

/-- What is at a location; the root is a directory. -/
def entry? (tree : Tree) (location : Location) : Option Entry :=
  (Entry.directory tree.root).at? location

/-- A tree whose root is a given entry, which is a directory. -/
def withRoot (tree : Tree) : Entry → Tree
  | .directory children => { tree with root := children }
  | .file _ => tree

def erase (tree : Tree) (location : Location) : Tree :=
  tree.withRoot ((Entry.directory tree.root).erase location)

/-- Puts an entry at a location, in place of what is there. -/
def put (tree : Tree) (location : Location) (entry : Entry) : Tree :=
  tree.withRoot ((Entry.directory tree.root).put entry location)

/-! ### Paths -/

def byteLength (cs : List Char) : Nat := cs.foldr (fun c length => c.utf8Size + length) 0

/-- The longest name, in bytes. -/
def nameLimit : Nat := 255

/-- The least length of a path, in bytes, that is too long. -/
def pathLimit : Nat := 4096

/-- The entry of a name, given what is found under it. -/
def named (name : List Char) (found : Option Entry) : Except Fault Entry :=
  if byteLength name > nameLimit then .error .nameTooLong
  else
    match found with
    | some entry => .ok entry
    | none => .error .notFound

/-- The entry of a name in a directory. -/
def child (tree : Tree) (directory : Location) (name : List Char) : Except Fault Entry :=
  named name (tree.entry? (directory ++ [String.ofList name]))

/-- The directory that names lead to from one that holds `here`. Above it are the directories on
the way, innermost first: the name of the one that was entered, and what the one around it
holds. -/
def walk (here : Children) (above : List (String × Children)) :
    List (List Char) → Except Fault Location
  | [] => .ok (above.map Prod.fst).reverse
  | segment :: segments =>
    if segment = ['.'] then walk here above segments
    else if segment = ['.', '.'] then
      match above with
      | [] => walk here [] segments
      | (_, around) :: above => walk around above segments
    else
      match named segment (here.lookup (String.ofList segment)) with
      | .error fault => .error fault
      | .ok (.file _) => .error .notADirectory
      | .ok (.directory children) =>
        walk children ((String.ofList segment, here) :: above) segments

/-- Where a path leads: to a directory by dots or as the root, or to a name in a directory. -/
inductive Target where
  | directory
  | name (directory : Location) (name : List Char) (slash : Bool)

/-- Where a path leads. Its last name need not exist; `slash` says that slashes follow it. -/
def target (tree : Tree) (path : Path) : Except Fault Target :=
  let cs := path.text.toList
  if cs.contains (Char.ofNat 0) then .error .zeroInPath
  else if cs.isEmpty then .error .notFound
  else if byteLength cs ≥ pathLimit then .error .nameTooLong
  else
    let segments := (Text.pieces (· == '/') cs).filter (!·.isEmpty)
    let start := if path.isAbsolute then [] else tree.working.map String.toList
    match segments.getLast? with
    | none => .ok .directory
    | some last =>
      match walk tree.root [] (start ++ segments.dropLast) with
      | .error fault => .error fault
      | .ok directory =>
        if last = ['.'] ∨ last = ['.', '.'] then .ok .directory
        else .ok (.name directory last (cs.getLast? == some '/'))

/-- The entry at a path. Only a directory may be followed by a slash; what one that is named by dots
holds is not looked up. -/
def lookup (tree : Tree) (path : Path) : Except Fault Entry := do
  match ← tree.target path with
  | .directory => return .directory []
  | .name directory name slash =>
    match ← tree.child directory name with
    | .directory children => return .directory children
    | .file content => if slash then throw .notADirectory else return .file content

/-! ### Operations -/

def read (tree : Tree) (path : Path) : Except Fault String := do
  match ← tree.lookup path with
  | .directory _ => throw .isADirectory
  | .file content =>
    match String.fromUTF8? content with
    | some text => return text
    | none => throw .notText

def write (tree : Tree) (path : Path) (text : String) : Except Fault Tree := do
  match ← tree.target path with
  | .directory | .name _ _ true => throw .isADirectory
  | .name directory name false =>
    match tree.child directory name with
    | .ok (.directory _) => throw .isADirectory
    | .ok (.file _) | .error .notFound =>
      return tree.put (directory ++ [String.ofList name]) (.file text.toUTF8)
    | .error fault => throw fault

/-- Gives a file another path. -/
def rename (tree : Tree) (source destination : Path) : Except Fault Tree := do
  let old ← tree.target source
  let new ← tree.target destination
  match old, new with
  | .name oldDirectory oldName oldSlash, .name newDirectory newName newSlash =>
    let entry ← tree.child oldDirectory oldName
    let replaced := tree.child newDirectory newName
    match replaced with
    | .ok _ | .error .notFound => pure ()
    | .error fault => throw fault
    if oldSlash || newSlash then throw .notADirectory
    if replaced matches .ok (.directory _) || entry matches .directory _ then throw .isADirectory
    return (tree.erase (oldDirectory ++ [String.ofList oldName])).put
      (newDirectory ++ [String.ofList newName]) entry
  | _, _ => throw .busy

def remove (tree : Tree) (path : Path) : Except Fault Tree := do
  match ← tree.target path with
  | .directory => throw .isADirectory
  | .name directory name slash =>
    match ← tree.child directory name with
    | .directory _ => throw .isADirectory
    | .file _ =>
      if slash then throw .notADirectory
      return tree.erase (directory ++ [String.ofList name])

def makeDirectory (tree : Tree) (path : Path) : Except Fault Tree := do
  match ← tree.target path with
  | .directory => throw .alreadyExists
  | .name directory name _ =>
    match tree.child directory name with
    | .ok _ => throw .alreadyExists
    | .error .notFound => return tree.put (directory ++ [String.ofList name]) (.directory [])
    | .error fault => throw fault

def isDirectory (tree : Tree) (path : Path) : Bool := tree.lookup path matches .ok (.directory _)

/-- Makes a directory that may be there already. -/
def ensureDirectory (tree : Tree) (path : Path) : Except Fault Tree :=
  match tree.makeDirectory path with
  | .ok made => .ok made
  | .error fault => if tree.isDirectory path then .ok tree else .error fault

/-! ### Running operations -/

/-- An operation that changes a tree if it succeeds. -/
def change (operation : Tree → Except Fault Tree) : StateM Tree (Except Fault Unit) := do
  match operation (← get) with
  | .ok tree =>
    set tree
    return .ok ()
  | .error fault => return .error fault

/-- Makes the first directory of a list, each of which is in the next. The ones around it are made
if it cannot be made without them, and they stay if it cannot be made with them either. -/
def makeNested : List Path → StateM Tree (Except Fault Unit)
  | [] => return .ok ()
  | path :: around => do
    if path.text = "" then return .ok ()
    match ← change (·.ensureDirectory path) with
    | .error .notFound =>
      match ← makeNested around with
      | .ok () => change (·.ensureDirectory path)
      | .error fault => return .error fault
    | result => return result

instance : Files (StateM Tree) where
  read path := return (← get).read path
  write path text := change (·.write path text)
  rename source destination := change (·.rename source destination)
  remove path := change (·.remove path)
  makeDirectories path := makeNested path.ancestors
  isDirectory path := return (← get).isDirectory path
  hasEntry path := return (← get).lookup path matches .ok _

end Tree

end RobotSketch

/-!
## Differences between trees

What has come, changed or gone below the working directory from one tree to another, sorted by
path.
-/

namespace RobotSketch.Tree

mutual

/-- What is below an entry, each with its location, given the location of the entry itself. -/
def listingOf (location : Location) : Entry → List (Location × Entry)
  | .directory children => listingOfAll location children
  | .file _ => []

/-- The entries of a directory and what is below them, given the location of the directory. -/
def listingOfAll (location : Location) : List (String × Entry) → List (Location × Entry)
  | [] => []
  | (name, entry) :: children =>
    (location ++ [name], entry) :: listingOf (location ++ [name]) entry ++
      listingOfAll location children

end

/-- What is below the working directory, each with its location from there. -/
def listing (tree : Tree) : List (Location × Entry) :=
  (tree.entry? tree.working).elim [] (listingOf [])

/-- What is at a location from the working directory. -/
def here? (tree : Tree) (location : Location) : Option Entry := tree.entry? (tree.working ++ location)

/-- Whether two entries are both directories or files of the same content. -/
def alike : Entry → Entry → Bool
  | .directory _, .directory _ => true
  | .file first, .file second => first == second
  | _, _ => false

/-- The path of a location. -/
def pathText (location : Location) : String := String.intercalate "/" location

/-- The text of an entry: none for a directory, or if the file is no text. -/
def textOf? : Entry → Option String
  | .directory _ => none
  | .file content => String.fromUTF8? content

/-- The entries that are new or different, each with its path and its text. -/
def changed (before after : Tree) : List (String × Option String) :=
  let entries := after.listing.filter fun (location, entry) =>
    !(before.here? location).any (alike entry)
  (entries.map fun (location, entry) => (pathText location, textOf? entry)).mergeSort
    fun first second => first.1 ≤ second.1

/-- The paths of the entries that are gone. -/
def removed (before after : Tree) : List String :=
  let entries := before.listing.filter fun (location, _) => (after.here? location).isNone
  (entries.map fun (location, _) => pathText location).mergeSort
    fun first second => first ≤ second

/-! ### Setting up -/

/-- An empty working directory, whose own name no path can spell. -/
def fresh : Tree where
  root := [("tmp", .directory [("", .directory [])])]
  working := ["tmp", ""]

/-- The location of a relative path below the working directory. -/
def locate (tree : Tree) (path : Path) : Location :=
  tree.working ++ path.components.filterMap fun
    | .name text => some text
    | _ => none

/-- Makes the directories that lead to a location, as far as they are missing. -/
def provide (tree : Tree) (location : Location) : Tree :=
  ((List.range location.length).map fun count => location.take (count + 1)).foldl
    (fun tree directory =>
      if (tree.entry? directory).isSome then tree else tree.put directory (.directory [])) tree

/-- Puts a directory below the working directory, and the directories around it. -/
def plantDirectory (tree : Tree) (path : Path) : Tree := tree.provide (tree.locate path)

/-- Puts a file below the working directory, and the directories around it. -/
def plantFile (tree : Tree) (path : Path) (content : ByteArray) : Tree :=
  let location := tree.locate path
  (tree.provide location.dropLast).put location (.file content)

end RobotSketch.Tree
