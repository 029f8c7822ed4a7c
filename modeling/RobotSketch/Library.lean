import RobotSketch.Document
import RobotSketch.Files

/-!
# Libraries of documents

A library gives the document at a path, says that there is none, or fails. Only finitely many
normal paths have a document, which is what keeps compilation from going on forever. `Documents`
is a library held in memory, where a path stands for its normal form.
-/
namespace RobotSketch

/-- Where documents come from. -/
structure Library where
  /-- The document at a path, if there is one. -/
  load : Path → Except Error (Option Node)
  /-- Finitely many normal paths have a document. -/
  finite : ∃ keys : List NormalPath, ∀ (path : Path) (node : Node),
    load path.normalize.path = .ok (some node) → path.normalize ∈ keys

/-! ## Documents in files -/

/-- The document in a file, given what reading the file gives. -/
def documentOfRead (path : Path) : Except Fault String → Except Error (Option Node)
  | .ok source => (Node.parseFile source path.displayName).map some
  | .error .notFound => .ok none
  | .error fault => .error (.io path.text fault.message)

/-! ## Documents held in memory -/

/-- Texts of documents by normal path; of two for one path the first counts. -/
structure Documents where
  entries : List (NormalPath × String)

namespace Documents

def empty : Documents := ⟨[]⟩

/-- Adds a document, in place of the one its path had. -/
def insert (documents : Documents) (path : Path) (source : String) : Documents :=
  ⟨(path.normalize, source) :: documents.entries⟩

/-- The documents of a list of paths and texts; a later one replaces an earlier one. -/
def ofList (sources : List (Path × String)) : Documents :=
  sources.foldl (fun documents (path, source) => documents.insert path source) empty

/-- The text of the document at a path. -/
def source? (documents : Documents) (path : Path) : Option String :=
  (documents.entries.find? (·.1 == path.normalize)).map (·.2)

def load (documents : Documents) (path : Path) : Except Error (Option Node) :=
  match documents.source? path with
  | none => .ok none
  | some source => (Node.parseFile source path.displayName).map some

theorem normalize_mem_of_load {documents : Documents} {path : Path} {node : Node}
    (h : documents.load path = .ok (some node)) :
    path.normalize ∈ documents.entries.map (·.1) := by
  unfold load source? at h
  split at h
  · simp at h
  · rename_i source hsource
    obtain ⟨entry, hentry, -⟩ := Option.map_eq_some_iff.1 hsource
    have hkey : entry.1 = path.normalize := by simpa using List.find?_some hentry
    exact hkey ▸ List.mem_map_of_mem (List.mem_of_find?_eq_some hentry)

def library (documents : Documents) : Library where
  load := documents.load
  finite := ⟨documents.entries.map (·.1), fun path _ h =>
    path.normalize_path_normalize ▸ normalize_mem_of_load h⟩

end Documents

/-! ## What is still closed -/

/-- How many documents of a library are not among those that are open. -/
noncomputable def Library.closed (library : Library) (opened : List NormalPath) : Nat :=
  (Classical.choose library.finite).countP (· ∉ opened)

/-- Opening one more document leaves fewer closed. -/
theorem Library.closed_lt {library : Library} {opened : List NormalPath} {path : Path} {node : Node}
    (hload : library.load path.normalize.path = .ok (some node))
    (hclosed : path.normalize ∉ opened) :
    library.closed (opened ++ [path.normalize]) < library.closed opened := by
  have hmem := Classical.choose_spec library.finite path node hload
  unfold closed
  generalize Classical.choose library.finite = keys at hmem
  have hle : ∀ keys : List NormalPath,
      keys.countP (· ∉ opened ++ [path.normalize]) ≤ keys.countP (· ∉ opened) := by
    intro keys
    refine List.countP_mono_left fun key _ hkey => ?_
    simp only [decide_eq_true_eq, List.mem_append, not_or] at hkey ⊢
    exact hkey.1
  induction keys with
  | nil => simp at hmem
  | cons key keys ih =>
    rw [List.countP_cons, List.countP_cons]
    by_cases hkey : key = path.normalize
    · subst hkey
      simpa [hclosed] using Nat.lt_succ_of_le (hle keys)
    · have := ih ((List.mem_cons.1 hmem).resolve_left (Ne.symm hkey))
      by_cases hopened : key ∈ opened <;> simp_all

/-!
## Documents of a tree

A tree of files as a library: the document at a path is what the file there holds. Paths that lead
to a file are bounded in length, so only finitely many normal ones do.
-/

namespace Tree

theorem length_le_byteLength (cs : List Char) : cs.length ≤ byteLength cs := by
  unfold byteLength
  induction cs with
  | nil => simp
  | cons c cs ih =>
    have := c.utf8Size_pos
    simp only [List.length_cons, List.foldr_cons]
    omega

/-- A path that can be read is not too long. -/
theorem length_lt_of_read {tree : Tree} {path : Path} {text : String}
    (h : tree.read path = .ok text) : path.text.toList.length < pathLimit := by
  refine Nat.lt_of_le_of_lt (length_le_byteLength _) (Nat.lt_of_not_le fun hlong => ?_)
  have htarget : ∃ fault, tree.target path = .error fault := by
    unfold target
    simp only
    split
    · exact ⟨_, rfl⟩
    · split
      · exact ⟨_, rfl⟩
      · exact ⟨_, rfl⟩
  obtain ⟨fault, hfault⟩ := htarget
  simp [read, lookup, hfault, bind, Except.bind] at h

def library (tree : Tree) : Library where
  load path := documentOfRead path (tree.read path)
  finite := by
    obtain ⟨keys, hkeys⟩ := NormalPath.exists_all_of_length_le pathLimit
    refine ⟨keys, fun path node h => hkeys _ ?_⟩
    unfold documentOfRead at h
    split at h
    · rename_i source hread
      exact Nat.le_of_lt (length_lt_of_read hread)
    · simp at h
    · simp at h

end Tree

end RobotSketch
