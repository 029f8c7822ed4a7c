import Mathlib.Data.List.DropRight
import RobotSketch.Program
import RobotSketch.Proofs.Paths

/-!
# A path and its hidden sibling

A path is read as pieces between slashes, and joining or leaving out a name adds or leaves out one
component: `components_join`, `components_parent?`. So a path that ends in a name and its hidden
sibling are two names in one directory (`normalize_hiddenSibling`), however the path is spelled.
What is above a path has fewer names than the path, unless the path goes up in between.
-/
namespace RobotSketch

namespace Path

/-! ## Pieces -/

/-- A piece with the component that it is. -/
def readPiece (piece : List Char) : List Char × Option Component :=
  (piece, Component.ofSegment? piece)

/-- What the pieces of a path say. Only in front of a relative path is a dot a component. -/
def reading (absolute : Bool) : List (List Char) → List (List Char × Option Component)
  | [] => []
  | first :: rest =>
    (if absolute = false ∧ first = ['.'] then (first, some .current) else readPiece first) ::
      rest.map readPiece

theorem reading_true (pieces : List (List Char)) : reading true pieces = pieces.map readPiece := by
  cases pieces <;> simp [reading]

/-- The pieces of a path, without the slash of a root. -/
def pieces (path : Path) : List (List Char) :=
  Text.pieces (· == '/') (if path.isAbsolute then path.text.toList.tail else path.text.toList)

/-- The slash of a root, if a path is absolute. -/
def rootSteps (absolute : Bool) : List Component := if absolute then [.root] else []

theorem segments_eq_reading (path : Path) :
    path.segments = reading path.isAbsolute path.pieces := by
  unfold segments pieces isAbsolute
  split
  · rename_i cs hcs
    simp only [hcs, List.head?_cons, beq_self_eq_true, if_true, List.tail_cons]
    exact (reading_true _).symm
  · rename_i hrelative
    have hhead : (path.text.toList.head? == some '/') = false := by
      cases hcs : path.text.toList with
      | nil => rfl
      | cons c cs =>
        have hc : c ≠ '/' := fun hc => hrelative cs (by rw [hcs, hc])
        simp [hc]
    simp only [hhead, Bool.false_eq_true, if_false]
    cases Text.pieces (· == '/') path.text.toList with
    | nil => rfl
    | cons first rest =>
      simp only [List.map_cons, reading, true_and]
      split
      · rename_i heq
        obtain ⟨hfirst, rfl⟩ := List.cons.inj heq
        rw [if_pos (Prod.mk.inj hfirst).1, (Prod.mk.inj hfirst).1]
        rfl
      · rename_i hdot
        rw [if_neg fun hfirst => hdot _ _ (by rw [hfirst])]
        rfl

theorem components_eq (path : Path) :
    path.components = rootSteps path.isAbsolute ++
      (reading path.isAbsolute path.pieces).filterMap Prod.snd := by
  unfold components rootSteps
  rw [segments_eq_reading]
  cases path.isAbsolute <;> rfl

theorem map_fst_reading (absolute : Bool) (pieces : List (List Char)) :
    (reading absolute pieces).map Prod.fst = pieces := by
  cases pieces with
  | nil => rfl
  | cons first rest =>
    have hrest : (rest.map readPiece).map Prod.fst = rest := by simp [readPiece, Function.comp_def]
    rw [reading, List.map_cons, hrest]
    split <;> rfl

theorem reading_append (absolute : Bool) {front : List (List Char)} (hfront : front ≠ [])
    (back : List (List Char)) :
    reading absolute (front ++ back) = reading absolute front ++ back.map readPiece := by
  obtain ⟨first, rest, rfl⟩ := List.exists_cons_of_ne_nil hfront
  simp [reading]

/-- Pieces put together are read as they are. In front of a relative path stands no empty one, or
its text would start with a slash. -/
theorem pieces_intercalate {absolute : Bool} {pieces : List (List Char)} (hne : pieces ≠ [])
    (hslash : ∀ piece ∈ pieces, '/' ∉ piece) (hfirst : absolute = false → pieces.head? ≠ some [])
    {path : Path} (htext : path.text.toList =
      (if absolute then ['/'] else []) ++ List.intercalate ['/'] pieces) :
    path.isAbsolute = absolute ∧ path.pieces = pieces := by
  have hsplit : Text.pieces (· == '/') (List.intercalate ['/'] pieces) = pieces :=
    List.splitOn_intercalate '/' hslash hne
  have habsolute : path.isAbsolute = absolute := by
    rw [isAbsolute, htext]
    cases absolute with
    | true => rfl
    | false =>
      obtain ⟨first, rest, rfl⟩ := List.exists_cons_of_ne_nil hne
      have hnil : first ≠ [] := fun hnil => hfirst rfl (congrArg some hnil)
      obtain ⟨c, cs, rfl⟩ := List.exists_cons_of_ne_nil hnil
      have hc : c ≠ '/' := fun hc => hslash (c :: cs) (by simp) (by simp [hc])
      cases rest <;> simp [List.intercalate, hc]
  refine ⟨habsolute, ?_⟩
  rw [Path.pieces, habsolute, htext]
  cases absolute with
  | true => simpa using hsplit
  | false => simpa using hsplit

theorem pieces_ne_nil (path : Path) : path.pieces ≠ [] := List.splitOnP_ne_nil _ _

theorem not_mem_of_mem_pieces {path : Path} {piece : List Char} (h : piece ∈ path.pieces) :
    '/' ∉ piece := fun hslash => by simpa using Text.not_of_mem_pieces h hslash

/-! ## Adding and leaving out a component -/

/-- A text behind a slash is one more piece. -/
theorem pieces_slash {path more : Path} (hne : path.text ≠ "") {piece : String}
    (hslash : '/' ∉ piece.toList) (htext : more.text = path.text ++ "/" ++ piece) :
    more.isAbsolute = path.isAbsolute ∧ more.pieces = path.pieces ++ [piece.toList] := by
  have hnil : path.text.toList ≠ [] := by simpa using hne
  obtain ⟨c, cs, hcs⟩ := List.exists_cons_of_ne_nil hnil
  have hmore : more.text.toList = c :: (cs ++ '/' :: piece.toList) := by
    rw [htext, String.toList_append, String.toList_append, hcs]
    simp
  have habsolute : more.isAbsolute = path.isAbsolute := by
    rw [isAbsolute, isAbsolute, hmore, hcs]
    rfl
  have hsingle : Text.pieces (· == '/') piece.toList = [piece.toList] :=
    List.splitOnP_eq_singleton fun c hc => by
      have : c ≠ '/' := fun h => hslash (h ▸ hc)
      simpa using this
  refine ⟨habsolute, ?_⟩
  rw [pieces, pieces, habsolute, hmore, hcs, ← hsingle]
  cases path.isAbsolute with
  | true => exact List.splitOnP_append_cons cs _ rfl
  | false => exact List.splitOnP_append_cons (c :: cs) _ rfl

theorem components_slash {path more : Path} (hne : path.text ≠ "") {piece : String}
    (hslash : '/' ∉ piece.toList) (htext : more.text = path.text ++ "/" ++ piece) :
    more.components = path.components ++ (Component.ofSegment? piece.toList).toList := by
  obtain ⟨habsolute, hpieces⟩ := pieces_slash hne hslash htext
  rw [components_eq, components_eq, habsolute, hpieces, reading_append _ path.pieces_ne_nil,
    List.filterMap_append, List.append_assoc]
  cases hpiece : Component.ofSegment? piece.toList <;> simp [readPiece, hpiece]

/-- A path that is a name, or a name behind a root. -/
theorem components_name (absolute : Bool) {path : Path} {name : String} (h : IsName name)
    (htext : path.text = if absolute then "/" ++ name else name) :
    path.components = rootSteps absolute ++ [.name name] := by
  have hlist : path.text.toList =
      (if absolute then ['/'] else []) ++ List.intercalate ['/'] [name.toList] := by
    rw [htext]
    cases absolute <;> simp
  obtain ⟨habsolute, hpieces⟩ := pieces_intercalate (List.cons_ne_nil _ _)
    (by simpa using h.1) (fun _ => by simpa using h.ne_nil) hlist
  have hpiece : readPiece name.toList = (name.toList, some (.name name)) := by rw [readPiece, h.2]
  rw [components_eq, habsolute, hpieces, reading, if_neg (fun hdot => h.ne_dot hdot.2), hpiece]
  rfl

/-- A name that is joined to a path is one more component. -/
theorem components_join (path : Path) {name : String} (h : IsName name) :
    (path.join name).components = path.components ++ [.name name] := by
  have hrelative : (⟨name⟩ : Path).isAbsolute = false := by
    obtain ⟨c, rest, hcs⟩ := List.exists_cons_of_ne_nil h.ne_nil
    have hc : c ≠ '/' := fun hc => h.1 (by simp [hcs, hc])
    simp [isAbsolute, hcs, hc]
  have htext : (path.join name).text = _ := text_join hrelative
  have hslash (path' : Path) (hne : path'.text ≠ "")
      (hjoin : (path.join name).text = path'.text ++ "/" ++ name) :
      (path.join name).components = path'.components ++ [.name name] := by
    rw [components_slash hne h.1 hjoin, h.2]
    rfl
  cases hlast : path.text.toList.getLast? with
  | none =>
    obtain rfl : path = ⟨""⟩ := by
      cases path
      simpa using hlast
    exact components_name false h (by simpa using htext)
  | some c =>
    by_cases hc : c = '/'
    · -- What stands in front of the slash has the same components.
      obtain ⟨front, hfront⟩ := List.getLast?_eq_some_iff.1 hlast
      have hpath : path.text = String.ofList front ++ "/" := by
        rw [← String.toList_inj, hfront, hc]
        simp
      rw [hlast, if_pos (by simp [hc])] at htext
      by_cases hempty : String.ofList front = ""
      · obtain rfl : path = ⟨"/"⟩ := by
          cases path
          simpa [hempty] using hpath
        exact components_name true h htext
      · have hsame : path.components = (⟨String.ofList front⟩ : Path).components ++
            (Component.ofSegment? "".toList).toList :=
          components_slash hempty (by simp) (by rw [String.append_empty]; exact hpath)
        rw [hslash ⟨String.ofList front⟩ hempty (by rw [htext, hpath]), hsame]
        simp [Component.ofSegment?]
    · rw [hlast, if_neg (by simpa using hc)] at htext
      exact hslash path (fun hempty => by simp [hempty] at hlast) htext

/-- Segments at the end that say nothing may be left out. -/
theorem filterMap_rdropWhile (segments : List (List Char × Option Component)) :
    (segments.rdropWhile (·.2.isNone)).filterMap Prod.snd = segments.filterMap Prod.snd := by
  induction segments using List.reverseRecOn with
  | nil => rfl
  | append_singleton front last ih =>
    cases hlast : last.2 with
    | none => rw [List.rdropWhile_concat_pos _ _ _ (by simp [hlast]), ih]; simp [hlast]
    | some component => rw [List.rdropWhile_concat_neg _ _ _ (by simp [hlast])]

/-- Only the empty text has an empty piece in front, if it has no root. -/
theorem text_eq_of_head?_pieces {path : Path} (habsolute : path.isAbsolute = false)
    (h : path.pieces.head? = some []) : path.text = "" := by
  rw [pieces, habsolute] at h
  cases hcs : path.text.toList with
  | nil => simpa using hcs
  | cons c cs =>
    have hc : c ≠ '/' := fun hc => by simp [isAbsolute, hcs, hc] at habsolute
    rw [hcs] at h
    simp only [Bool.false_eq_true, if_false, Text.pieces, List.splitOnP_cons_eq_if_modifyHead] at h
    cases hpieces : List.splitOnP (· == '/') cs <;> simp [hc, hpieces] at h

/-- The first segments of a path put together have the components that they are. -/
theorem components_front {path parent : Path} {front back : List (List Char × Option Component)}
    (hsegments : path.segments = front ++ back) (htext : path.text ≠ "")
    (hparent : parent.text =
      let text := String.intercalate "/" (front.map fun segment => String.ofList segment.1)
      if path.isAbsolute then "/" ++ text else text) :
    parent.components = rootSteps path.isAbsolute ++ front.filterMap Prod.snd := by
  cases front with
  | nil =>
    obtain ⟨text⟩ := parent
    cases hpath : path.isAbsolute with
    | true =>
      obtain rfl : text = "/" := by simpa [hpath] using hparent
      decide
    | false =>
      obtain rfl : text = "" := by simpa [hpath] using hparent
      decide
  | cons first rest =>
    have hne : (first :: rest).map Prod.fst ≠ [] := by simp
    have hpieces : path.pieces = (first :: rest).map Prod.fst ++ back.map Prod.fst := by
      rw [← List.map_append, ← hsegments, segments_eq_reading, map_fst_reading]
    have hreading : first :: rest = reading path.isAbsolute ((first :: rest).map Prod.fst) := by
      rw [segments_eq_reading, hpieces, reading_append _ hne] at hsegments
      exact (List.append_inj_left hsegments (by
        rw [← List.length_map Prod.fst, map_fst_reading, List.length_map])).symm
    have hlist : parent.text.toList = (if path.isAbsolute then ['/'] else []) ++
        List.intercalate ['/'] ((first :: rest).map Prod.fst) := by
      rw [hparent]
      cases path.isAbsolute <;> simp [String.toList_intercalate, Function.comp_def]
    obtain ⟨habsolute, hparts⟩ := pieces_intercalate hne
      (fun piece hpiece => not_mem_of_mem_pieces (hpieces ▸ List.mem_append_left _ hpiece))
      (fun hrelative hfirst => htext (text_eq_of_head?_pieces hrelative (by
        rw [hpieces, List.head?_append, hfirst, Option.some_or]))) hlist
    rw [components_eq, habsolute, hparts, ← hreading]

/-- The parent lacks the last component. -/
theorem components_parent? {path parent : Path} (h : path.parent? = some parent) :
    parent.components = path.components.dropLast := by
  unfold parent? at h
  split at h
  · cases h
  · rename_i last before hdrop
    have hlast : ∃ component, last.2 = some component := by
      have hnil : path.segments.reverse.dropWhile (·.2.isNone) ≠ [] := by simp [hdrop]
      have hhead := List.head_dropWhile_not _ hnil
      simp only [hdrop, List.head_cons] at hhead
      exact Option.isSome_iff_exists.1 (by simpa using hhead)
    obtain ⟨component, hcomponent⟩ := hlast
    have htext : path.text ≠ "" := by
      intro htext
      obtain rfl : path = ⟨""⟩ := by cases path; simpa using htext
      have hnothing : (⟨""⟩ : Path).segments.reverse.dropWhile (·.2.isNone) = [] := by decide
      rw [hnothing] at hdrop
      cases hdrop
    have hspoken : path.segments.rdropWhile (·.2.isNone) = before.reverse ++ [last] := by
      rw [List.rdropWhile, hdrop, List.reverse_cons]
    have hkept : (before.dropWhile (·.2.isNone)).reverse =
        before.reverse.rdropWhile (·.2.isNone) := by
      rw [List.rdropWhile, List.reverse_reverse]
    have hcomponents : path.components =
        rootSteps path.isAbsolute ++ before.reverse.filterMap Prod.snd ++ [component] := by
      rw [components_eq, ← segments_eq_reading, ← filterMap_rdropWhile, hspoken,
        List.filterMap_append, List.append_assoc]
      simp [hcomponent]
    have hfront : before.reverse.rdropWhile (·.2.isNone) <+: path.segments :=
      (List.rdropWhile_prefix ..).trans ((List.prefix_append _ [last]).trans
        (hspoken ▸ List.rdropWhile_prefix ..))
    obtain ⟨back, hback⟩ := hfront
    obtain rfl := Option.some.inj h
    rw [components_front hback.symm htext (by simp only [hkept]), filterMap_rdropWhile, hcomponents,
      List.dropLast_concat]

/-- A path without a parent has no component but the root. -/
theorem components_of_parent?_eq_none {path : Path} (h : path.parent? = none) :
    path.components = rootSteps path.isAbsolute := by
  unfold parent? at h
  split at h
  · rename_i hdrop
    rw [components_eq, ← segments_eq_reading, ← filterMap_rdropWhile, List.rdropWhile, hdrop]
    exact List.append_nil _
  · cases h

theorem getLast?_components {path : Path} {name : String} (h : path.fileName? = some name) :
    path.components.getLast? = some (.name name) := by
  unfold fileName? at h
  split at h
  · rename_i hlast
    rw [hlast, Option.some.inj h]
  · cases h

theorem isName_of_fileName? {path : Path} {name : String} (h : path.fileName? = some name) :
    IsName name :=
  proper_of_mem_components (List.mem_of_getLast? (getLast?_components h))

end Path

namespace NormalPath

end NormalPath

theorem ofSegment?_of_two_lt {segment : List Char} (h : 2 < segment.length) :
    Path.Component.ofSegment? segment = some (.name (String.ofList segment)) := by
  unfold Path.Component.ofSegment?
  split
  · simp at h
  · simp at h
  · simp at h
  · rfl

end RobotSketch
