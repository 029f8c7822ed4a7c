import RobotSketch.Proofs.Runs
import RobotSketch.Proofs.Success

/-!
# Compilation ends

A run comes to lists of elements from inside other lists: the children of a loop, the branches of a
conditional, and the elements of a document that is entered. A call inside a document is for smaller
elements. A call across documents opens one that the library has and that was closed, so it leaves
strictly fewer of the library's documents closed.

Hence no chain of calls goes on forever, no more documents are ever open at once than the library
has, the first one apart, and by the rules of `Runs` every document has one outcome
(`compilation_ends`). For documents held in memory this rests on normal forms: the path on the
stack and the key under which a document is found are the same, however the reference is spelled.
-/
namespace RobotSketch

/-! ## Documents that are closed -/

namespace Documents

/-- The paths that have a document. -/
def keys (documents : Documents) : List NormalPath := documents.entries.map (·.1)

/-- The paths that have a document and are not open. -/
def closedKeys (documents : Documents) (opened : List NormalPath) : Finset NormalPath :=
  documents.keys.toFinset.filter (· ∉ opened)

theorem mem_closedKeys {documents : Documents} {opened : List NormalPath} {key : NormalPath} :
    key ∈ documents.closedKeys opened ↔ key ∈ documents.keys ∧ key ∉ opened := by
  simp [closedKeys]

/-- Opening a document that was closed leaves strictly fewer closed. -/
theorem closedKeys_ssubset {documents : Documents} {opened : List NormalPath} {key : NormalPath}
    (hkey : key ∈ documents.keys) (hclosed : key ∉ opened) :
    documents.closedKeys (opened ++ [key]) ⊂ documents.closedKeys opened := by
  refine Finset.ssubset_iff_subset_ne.2 ⟨fun other hother => ?_, fun heq => ?_⟩
  · obtain ⟨hmem, hother⟩ := mem_closedKeys.1 hother
    exact mem_closedKeys.2 ⟨hmem, fun h => hother (List.mem_append_left _ h)⟩
  · have hbefore : key ∈ documents.closedKeys opened := mem_closedKeys.2 ⟨hkey, hclosed⟩
    rw [← heq] at hbefore
    exact (mem_closedKeys.1 hbefore).2 (by simp)

/-- A path that is found by its normal form has that form as its key, since the normal form of a
normal form is itself. -/
theorem normalize_mem_keys {documents : Documents} {path : Path} {node : Node}
    (h : documents.load path.normalize.path = .ok (some node)) :
    path.normalize ∈ documents.keys :=
  path.normalize_path_normalize ▸ normalize_mem_of_load h

/-- A call across documents: a saved sequence of the one is opened for the other. -/
structure Enters (documents : Documents) (outer inner : Call) (file : String) : Prop where
  referenced : ∃ place, .sequence place file ∈ outer.elements
  isKey : (outer.frame.directory.join file).normalize ∈ documents.keys
  closed : (outer.frame.directory.join file).normalize ∉ outer.frame.opened
  opened : inner.frame.opened =
    outer.frame.opened ++ [(outer.frame.directory.join file).normalize]
  shrinks : documents.closedKeys inner.frame.opened ⊂ documents.closedKeys outer.frame.opened

end Documents

/-! ## Chains of calls -/

namespace Project

variable {project : Project} {outer inner : Call}

/-- A call stays inside its document, with smaller elements, or enters another document. -/
theorem Calls.smaller_or_enters {documents : Documents} (hlibrary : project.library = documents.library)
    (h : project.Calls outer inner) :
    (inner.frame = outer.frame ∧ sizeOf inner.elements < sizeOf outer.elements) ∨
      ∃ file, documents.Enters outer inner file := by
  obtain @⟨frame, before, after, element, s, s₁, code, inner, hbefore, hc, hopens⟩ := h
  have hsize : sizeOf element < sizeOf (before ++ element :: after) :=
    List.sizeOf_lt_of_mem (by simp)
  cases hopens with
  | children =>
    refine Or.inl ⟨rfl, lt_trans ?_ hsize⟩
    simp only [Element.counterLoop.sizeOf_spec]
    omega
  | ifBranch =>
    refine Or.inl ⟨rfl, lt_trans ?_ hsize⟩
    simp only [Element.conditional.sizeOf_spec]
    omega
  | elseBranch =>
    refine Or.inl ⟨rfl, lt_trans ?_ hsize⟩
    simp only [Element.conditional.sizeOf_spec]
    omega
  | @document place file node elements hclosed hload hread =>
    rw [hlibrary] at hload
    have hkey := Documents.normalize_mem_keys hload
    exact Or.inr ⟨file, ⟨place, by simp⟩, hkey, hclosed, rfl,
      Documents.closedKeys_ssubset hkey hclosed⟩

/-- No chain of calls goes on forever. -/
theorem wellFounded_calls {documents : Documents} (hlibrary : project.library = documents.library) :
    WellFounded fun inner outer => project.Calls outer inner := by
  refine Subrelation.wf (fun {inner outer} h => ?_)
    (InvImage.wf (fun call : Call =>
      ((documents.closedKeys call.frame.opened).card, sizeOf call.elements))
      (Prod.lex ⟨_, wellFounded_lt⟩ ⟨_, wellFounded_lt⟩).wf)
  show Prod.Lex (· < ·) (· < ·) (_, _) (_, _)
  rcases h.smaller_or_enters hlibrary with ⟨hframe, hsize⟩ | ⟨file, henters⟩
  · rw [hframe]
    exact Prod.Lex.right _ hsize
  · exact Prod.Lex.left _ _ (Finset.card_lt_card henters.shrinks)

/-- A call opens no more documents than it leaves fewer closed. -/
theorem Calls.opened_add_closed_le {documents : Documents}
    (hlibrary : project.library = documents.library) (h : project.Calls outer inner) :
    inner.frame.opened.length + (documents.closedKeys inner.frame.opened).card ≤
      outer.frame.opened.length + (documents.closedKeys outer.frame.opened).card := by
  rcases h.smaller_or_enters hlibrary with ⟨hframe, -⟩ | ⟨file, henters⟩
  · rw [hframe]
  · have hcard := Finset.card_lt_card henters.shrinks
    have hlength := congrArg List.length henters.opened
    simp only [List.length_append, List.length_singleton] at hlength
    omega

/-- Documents are nested no deeper than the library has documents, the first one apart. -/
theorem opened_length_le {documents : Documents} (hlibrary : project.library = documents.library)
    {call : Call} (h : Relation.ReflTransGen project.Calls outer call) :
    call.frame.opened.length ≤ outer.frame.opened.length + documents.keys.length := by
  have hsum : call.frame.opened.length + (documents.closedKeys call.frame.opened).card ≤
      outer.frame.opened.length + (documents.closedKeys outer.frame.opened).card := by
    induction h with
    | refl => exact le_rfl
    | tail _ hcall ih => exact (hcall.opened_add_closed_le hlibrary).trans ih
  have hkeys : (documents.closedKeys outer.frame.opened).card ≤ documents.keys.length :=
    (Finset.card_filter_le ..).trans (List.toFinset_card_le _)
  omega

end Project

/-! ## A ring of documents -/

namespace RingSample

/-- A dance and its steps, which come back to the dance from inside a loop. -/
def documents : Documents := .ofList [
  (⟨"p/main.xml"⟩, "<sequence><saved-sequence file='b/s.xml'/></sequence>"),
  (⟨"p/b/s.xml"⟩, "<sequence><counter-loop iterations='2'>" ++
    "<saved-sequence file='.././main.xml'/></counter-loop></sequence>")]

def project : Project := { library := documents.library, handler := .fixed .proceed }

def main : Node := ⟨"sequence", [], "", [⟨"saved-sequence", [("file", "b/s.xml")], "", []⟩]⟩

def steps : Node := ⟨"sequence", [], "", [⟨"counter-loop", [("iterations", "2")], "",
  [⟨"saved-sequence", [("file", ".././main.xml")], "", []⟩]⟩]⟩

def frame : Frame := ⟨⟨"p"⟩, "main.xml", [((⟨"p"⟩ : Path).join "main.xml").normalize]⟩

theorem load_main : project.library.load (Project.rootPath "main.xml" ⟨"p"⟩).path =
    .ok (some main) := eq_ok_of_toOption (by decide +kernel)

theorem read_main : readSequence main = .ok [.sequence ⟨0, none⟩ "b/s.xml"] := by cbv

theorem load_steps : project.library.load (frame.directory.join "b/s.xml").normalize.path =
    .ok (some steps) := eq_ok_of_toOption (by decide +kernel)

theorem read_steps : readSequence steps =
    .ok [.counterLoop ⟨0, none⟩ 2 [.sequence ⟨0, none⟩ ".././main.xml"]] := by cbv

theorem closed_steps : (frame.directory.join "b/s.xml").normalize ∉ frame.opened := by
  decide

end RingSample

namespace Project

/-- Compiling a document held in memory, with whatever others it refers to, ends with one outcome.
Every call that is made on the way is for smaller elements or enters a document that has a key and
was closed, which leaves strictly fewer keys closed. So chains of calls are finite, and at most one
document more is open at a time than there are keys. -/
theorem compilation_ends (documents : Documents) (handler : Handler) (expressions : Option Path)
    (document : Node) (name : String) (directory : Path) (s : Session) :
    let project : Project := ⟨documents.library, handler, expressions⟩
    (∃! outcome, project.RunsDocument document name directory s outcome) ∧
    project.RunsDocument document name directory s
      ((project.compileSequence document name directory).runFrom s) ∧
    (∀ outer inner, project.Calls outer inner →
      (inner.frame = outer.frame ∧ sizeOf inner.elements < sizeOf outer.elements) ∨
        ∃ file, documents.Enters outer inner file) ∧
    (WellFounded fun inner outer => project.Calls outer inner) ∧
    ∀ elements call, Relation.ReflTransGen project.Calls
        ⟨⟨directory, name, [(directory.join name).normalize]⟩, elements, s⟩ call →
      call.frame.opened.length ≤ documents.keys.length + 1 := by
  intro project
  refine ⟨⟨_, runsDocument_iff.2 rfl, fun other h => (runsDocument_iff.1 h).symm⟩,
    runsDocument_iff.2 rfl, fun outer inner h => h.smaller_or_enters rfl, wellFounded_calls rfl,
    fun elements call h => ?_⟩
  have hlength : call.frame.opened.length ≤ 1 + documents.keys.length := opened_length_le rfl h
  omega

/-- A dance that comes back to itself ends, and its steps are called from it. -/
theorem sample_compilation_ends :
    (∃! outcome, RingSample.project.RunsDocument RingSample.main "main.xml" ⟨"p"⟩ {} outcome) ∧
    ∃ inner, RingSample.project.Calls ⟨RingSample.frame, [.sequence ⟨0, none⟩ "b/s.xml"], {}⟩ inner ∧
      inner.frame.opened.length ≤ RingSample.documents.keys.length + 1 := by
  have hends := compilation_ends RingSample.documents (.fixed .proceed) none RingSample.main
    "main.xml" ⟨"p"⟩ {}
  have hcalls : RingSample.project.Calls ⟨RingSample.frame, [.sequence ⟨0, none⟩ "b/s.xml"], {}⟩ _ :=
    @Calls.inside _ _ [] [] _ _ _ _ _ .nil rfl
      (.document RingSample.closed_steps RingSample.load_steps RingSample.read_steps)
  exact ⟨hends.1, _, hcalls, hends.2.2.2.2 _ _ (.single hcalls)⟩

end Project

end RobotSketch
