import RobotSketch.Library
import RobotSketch.Proofs.Siblings

/-!
# Joining paths

The texts between the slashes of a path lead to its normal form, and those that say nothing may be
left out (`Path.normalize_eq`). A text that is joined to a path goes on from where the path leads
(`Path.normalize_join`), so it leads to the same place from a path and from its normal form.

Documents held in memory are kept by normal form. So the one at a path is the last one that was put
there under any spelling: `Documents.source?_ofList`. The main statement is
`normalization_composes`.
-/
namespace RobotSketch

namespace Path

/-! ## Where a path leads -/

/-- What the texts between the slashes of a path say. -/
def steps (path : Path) : List Component :=
  (Text.pieces (· == '/') path.text.toList).filterMap Component.ofSegment?

/-- A dot in front of a path is a component that leads nowhere. -/
theorem foldl_step_reading (absolute : Bool) (pieces : List (List Char)) (normal : NormalPath) :
    ((reading absolute pieces).filterMap Prod.snd).foldl NormalPath.step normal =
      (pieces.filterMap Component.ofSegment?).foldl NormalPath.step normal := by
  cases pieces with
  | nil => rfl
  | cons first rest =>
    have hrest : (rest.map readPiece).filterMap Prod.snd = rest.filterMap Component.ofSegment? := by
      rw [List.filterMap_map]
      rfl
    by_cases hdot : absolute = false ∧ first = ['.']
    · rw [reading, if_pos hdot, hdot.2, List.filterMap_cons, List.filterMap_cons, hrest]
      rfl
    · rw [reading, if_neg hdot, List.filterMap_cons, List.filterMap_cons, hrest]
      rfl

/-- The slash of a root stands behind an empty text, which says nothing. -/
theorem filterMap_pieces (path : Path) :
    path.pieces.filterMap Component.ofSegment? = path.steps := by
  unfold pieces steps isAbsolute
  cases hcs : path.text.toList with
  | nil => rfl
  | cons c cs =>
    by_cases hc : c = '/'
    · subst hc
      have hsplit : Text.pieces (· == '/') ('/' :: cs) = [] :: Text.pieces (· == '/') cs :=
        List.splitOnP_append_cons [] cs rfl
      rw [hsplit, List.filterMap_cons]
      rfl
    · simp [hc]

theorem normalize_eq (path : Path) :
    path.normalize = path.steps.foldl NormalPath.step { absolute := path.isAbsolute } := by
  rw [normalize, components_eq, List.foldl_append, foldl_step_reading, filterMap_pieces]
  cases path.isAbsolute <;> rfl

/-! ## Joining -/

theorem steps_slash (front back : String) :
    steps ⟨front ++ "/" ++ back⟩ = steps ⟨front⟩ ++ steps ⟨back⟩ := by
  have hlist : (front ++ "/" ++ back).toList = front.toList ++ '/' :: back.toList := by simp
  unfold steps
  rw [hlist, ← List.filterMap_append]
  exact congrArg _ (List.splitOnP_append_cons _ _ rfl)

/-- A path that is not empty ends in a slash, or a slash is put behind it. -/
theorem join_cases (path : Path) {more : String} (h : (⟨more⟩ : Path).isAbsolute = false) :
    (path = ⟨""⟩ ∧ path.join more = ⟨more⟩) ∨
      (∃ front, path = ⟨front ++ "/"⟩ ∧ path.join more = ⟨front ++ "/" ++ more⟩) ∨
      (path.text ≠ "" ∧ path.join more = ⟨path.text ++ "/" ++ more⟩) := by
  have hjoin : path.join more = ⟨if path.text.toList.getLast?.all (· == '/') then path.text ++ more
      else path.text ++ "/" ++ more⟩ := congrArg Path.mk (text_join h)
  obtain ⟨text⟩ := path
  dsimp only at hjoin ⊢
  cases hlast : text.toList.getLast? with
  | none =>
    obtain rfl : text = "" := by simpa using hlast
    exact Or.inl ⟨rfl, by simpa using hjoin⟩
  | some c =>
    rw [hlast] at hjoin
    by_cases hc : c = '/'
    · obtain ⟨front, hfront⟩ := List.getLast?_eq_some_iff.1 hlast
      obtain rfl : text = String.ofList front ++ "/" := by
        rw [← String.toList_inj, hfront, hc]
        simp
      rw [if_pos (by simp [hc])] at hjoin
      exact Or.inr (Or.inl ⟨String.ofList front, rfl, hjoin⟩)
    · rw [if_neg (by simpa using hc)] at hjoin
      exact Or.inr (Or.inr ⟨fun hempty => by simp [hempty] at hlast, hjoin⟩)

theorem steps_join (path : Path) {more : String} (h : (⟨more⟩ : Path).isAbsolute = false) :
    (path.join more).steps = path.steps ++ (⟨more⟩ : Path).steps := by
  have hnothing : steps ⟨""⟩ = [] := rfl
  rcases join_cases path h with ⟨rfl, hjoin⟩ | ⟨front, rfl, hjoin⟩ | ⟨-, hjoin⟩
  · rw [hjoin, hnothing, List.nil_append]
  · have hfront : steps ⟨front ++ "/"⟩ = steps ⟨front⟩ := by
      have hslash := steps_slash front ""
      rwa [String.append_empty, hnothing, List.append_nil] at hslash
    rw [hjoin, steps_slash, hfront]
  · rw [hjoin, steps_slash]

theorem isAbsolute_append {front : String} (hne : front ≠ "") (back : String) :
    (⟨front ++ back⟩ : Path).isAbsolute = (⟨front⟩ : Path).isAbsolute := by
  have hnil : front.toList ≠ [] := by simpa using hne
  unfold isAbsolute
  rw [String.toList_append, List.head?_append_of_ne_nil _ hnil]

theorem isAbsolute_join (path : Path) {more : String} (h : (⟨more⟩ : Path).isAbsolute = false) :
    (path.join more).isAbsolute = path.isAbsolute := by
  rcases join_cases path h with ⟨rfl, hjoin⟩ | ⟨front, rfl, hjoin⟩ | ⟨hne, hjoin⟩
  · rw [hjoin, h]
    rfl
  · rw [hjoin, isAbsolute_append (by simp)]
  · rw [hjoin, String.append_assoc, isAbsolute_append hne]

/-- What is joined to a path goes on from where the path leads. A root in front of it starts
anew. -/
theorem normalize_join (path : Path) (more : String) :
    (path.join more).normalize =
      (⟨more⟩ : Path).components.foldl NormalPath.step path.normalize := by
  cases h : (⟨more⟩ : Path).isAbsolute with
  | true =>
    have hjoin : path.join more = ⟨more⟩ := if_pos h
    rw [hjoin, normalize, components_eq, h]
    rfl
  | false =>
    rw [normalize_eq, steps_join path h, isAbsolute_join path h, List.foldl_append, ← normalize_eq,
      components_eq, h, List.foldl_append, foldl_step_reading, filterMap_pieces]
    rfl

/-- A text leads to the same place from a path and from its normal form. -/
theorem normalize_join_normalize (path : Path) (more : String) :
    (path.normalize.path.join more).normalize = (path.join more).normalize := by
  rw [normalize_join, normalize_join, normalize_path_normalize]

end Path

/-- A name is an ordinary component. -/
theorem IsName.ordinary {name : String} (h : IsName name) :
    name ≠ "" ∧ name ≠ "." ∧ name ≠ ".." ∧ '/' ∉ name.toList := by
  refine ⟨?_, ?_, ?_, h.1⟩
  · rintro rfl
    exact h.ne_nil rfl
  · rintro rfl
    exact h.ne_dot rfl
  · rintro rfl
    exact absurd h.2 (by decide)

/-! ## Documents by normal form -/

namespace Documents

/-- What was put in last is found first. -/
theorem entries_ofList (sources : List (Path × String)) :
    (ofList sources).entries =
      (sources.map fun inserted => (inserted.1.normalize, inserted.2)).reverse := by
  have hfold : ∀ documents : Documents,
      (sources.foldl (fun documents inserted => documents.insert inserted.1 inserted.2)
        documents).entries =
      (sources.map fun inserted => (inserted.1.normalize, inserted.2)).reverse ++
        documents.entries := by
    induction sources with
    | nil => intro documents; rfl
    | cons inserted sources ih =>
      intro documents
      rw [List.foldl_cons, ih]
      simp [insert]
  exact (hfold empty).trans (List.append_nil _)

/-- The text of the document at a path is the last one that was put in for its normal form. -/
theorem source?_ofList (sources : List (Path × String)) (path : Path) :
    (ofList sources).source? path =
      (sources.reverse.find? (·.1.normalize == path.normalize)).map (·.2) := by
  rw [source?, entries_ofList, ← List.map_reverse, List.find?_map, Option.map_map]
  rfl

theorem load_of_last {before after : List (Path × String)} {other path : Path} {source : String}
    (hpath : other.normalize = path.normalize)
    (hlast : ∀ later ∈ after, later.1.normalize ≠ path.normalize) :
    (ofList (before ++ (other, source) :: after)).load path =
      (Node.parseFile source path.displayName).map some := by
  have hafter : after.reverse.find? (·.1.normalize == path.normalize) = none :=
    List.find?_eq_none.2 fun later hlater => by
      simpa using hlast later (List.mem_reverse.1 hlater)
  have hsource : (ofList (before ++ (other, source) :: after)).source? path = some source := by
    rw [source?_ofList, List.reverse_append, List.reverse_cons, List.append_assoc,
      List.find?_append, hafter]
    simp [hpath]
  rw [load, hsource]

theorem load_eq_none_iff (sources : List (Path × String)) (path : Path) :
    (ofList sources).load path = .ok none ↔
      ∀ inserted ∈ sources, inserted.1.normalize ≠ path.normalize := by
  have hnone : (ofList sources).source? path = none ↔
      ∀ inserted ∈ sources, inserted.1.normalize ≠ path.normalize := by
    rw [source?_ofList, Option.map_eq_none_iff, List.find?_eq_none]
    simp
  rw [← hnone, load]
  cases (ofList sources).source? path with
  | none => simp
  | some source =>
    dsimp only
    cases Node.parseFile source path.displayName with
    | error error => simp [Except.map]
    | ok node => simp [Except.map]

end Documents

/-- **Normalisation composes.** A text that is joined to a path leads to the same place whether the
path is normalised first or not. Normalising twice is normalising once, and a normal path is an
optional root, steps to the parent, and then ordinary names only. So documents held in memory are
told apart by where their paths lead: what is at a path is the last document put in under a path
that leads there, and there is none exactly if no such document was put in. -/
theorem normalization_composes :
    (∀ (directory : Path) (file : String),
      (directory.normalize.path.join file).normalize = (directory.join file).normalize) ∧
    (∀ path : Path, path.normalize.path.normalize = path.normalize ∧
      ∃ (absolute : Bool) (ups : Nat) (names : List String),
        path.normalize.path.text = (if absolute then "/" else "") ++
          String.intercalate "/" (List.replicate ups ".." ++ names) ∧
        path.normalize.path.components = (if absolute then [.root] else []) ++
          (List.replicate ups .parent ++ names.map .name) ∧
        ∀ name ∈ names, name ≠ "" ∧ name ≠ "." ∧ name ≠ ".." ∧ '/' ∉ name.toList) ∧
    ∀ (sources : List (Path × String)) (path : Path),
      (∀ before other source after, sources = before ++ (other, source) :: after →
        other.normalize = path.normalize →
        (∀ later ∈ after, later.1.normalize ≠ path.normalize) →
        (Documents.ofList sources).load path =
          (Node.parseFile source path.displayName).map some) ∧
      ((Documents.ofList sources).load path = .ok none ↔
        ∀ inserted ∈ sources, inserted.1.normalize ≠ path.normalize) := by
  refine ⟨Path.normalize_join_normalize, fun path => ?_, fun sources path => ?_⟩
  · have hproper := path.proper_normalize
    refine ⟨path.normalize_path_normalize, path.normalize.absolute, path.normalize.ups,
      path.normalize.names, ?_, NormalPath.components_path hproper,
      fun name hname => (hproper name hname).ordinary⟩
    rw [NormalPath.text_path]
    cases path.normalize.absolute <;> simp [NormalPath.texts]
  · refine ⟨?_, Documents.load_eq_none_iff sources path⟩
    rintro before other source after rfl hpath hlast
    exact Documents.load_of_last hpath hlast

/-- A document is put in again under another spelling of its path. What is found under a third
spelling is the second text, whatever is put in elsewhere. -/
theorem respelled_document_replaced :
    (⟨"p/./a.xml"⟩ : Path).normalize = (⟨"p/s/../a.xml"⟩ : Path).normalize ∧
    (⟨"p/b.xml"⟩ : Path).normalize ≠ (⟨"p/s/../a.xml"⟩ : Path).normalize ∧
    (Documents.ofList [(⟨"p/a.xml"⟩, "<a/>"), (⟨"p/./a.xml"⟩, "<b/>"), (⟨"p/b.xml"⟩, "<c/>")]).load
        ⟨"p/s/../a.xml"⟩ =
      (Node.parseFile "<b/>" "a.xml").map some := by
  have hpath : (⟨"p/./a.xml"⟩ : Path).normalize = (⟨"p/s/../a.xml"⟩ : Path).normalize := by decide
  have hother : (⟨"p/b.xml"⟩ : Path).normalize ≠ (⟨"p/s/../a.xml"⟩ : Path).normalize := by decide
  have hname : (⟨"p/s/../a.xml"⟩ : Path).displayName = "a.xml" := by decide
  have hload := (normalization_composes.2.2 [(⟨"p/a.xml"⟩, "<a/>"), (⟨"p/./a.xml"⟩, "<b/>"),
    (⟨"p/b.xml"⟩, "<c/>")] ⟨"p/s/../a.xml"⟩).1 [(⟨"p/a.xml"⟩, "<a/>")] ⟨"p/./a.xml"⟩ "<b/>"
    [(⟨"p/b.xml"⟩, "<c/>")] rfl hpath (by simpa using hother)
  rw [hname] at hload
  exact ⟨hpath, hother, hload⟩

end RobotSketch
