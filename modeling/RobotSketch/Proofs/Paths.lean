import RobotSketch.Path

/-!
# Taking a normal path apart

A normal path that ends in a name has a parent and a file name, and joining the two gives the path
back, text for text (`parent?_join_displayName`). So a document that is called by its file name in
its directory is found where it was.
-/
namespace RobotSketch

/-- The parent of a path none of whose segments is passed over. -/
theorem Path.parent?_of_segments {path : Path}
    {front : List (List Char × Option Path.Component)} {last : List Char × Option Path.Component}
    (hsegments : path.segments = front ++ [last])
    (h : ∀ segment ∈ front ++ [last], segment.2.isNone = false) :
    path.parent? = some ⟨if path.isAbsolute
      then "/" ++ String.intercalate "/" (front.map fun segment => String.ofList segment.1)
      else String.intercalate "/" (front.map fun segment => String.ofList segment.1)⟩ := by
  have hkept : front.reverse.dropWhile (·.2.isNone) = front.reverse := by
    cases hfront : front.reverse with
    | nil => rfl
    | cons segment rest =>
      have hmem : segment ∈ front := List.mem_reverse.1 (hfront ▸ List.mem_cons_self)
      rw [List.dropWhile_cons_of_neg (by simp [h segment (by simp [hmem])])]
  unfold Path.parent?
  rw [hsegments, List.reverse_append, List.reverse_singleton, List.singleton_append,
    List.dropWhile_cons_of_neg (by simp [h last])]
  simp only [hkept, List.reverse_reverse]

/-- A slash is put between a path and what is joined to it, unless there is one. -/
theorem Path.text_join {path : Path} {more : String} (h : (⟨more⟩ : Path).isAbsolute = false) :
    (path.join more).text =
      if path.text.toList.getLast?.all (· == '/') then path.text ++ more
      else path.text ++ "/" ++ more := by
  unfold Path.join
  rw [if_neg (by simp [h])]
  split
  · rename_i hnil
    simp [hnil]
  · rename_i hslash
    simp [hslash]
  · rename_i c hc hlast
    rw [hlast, if_neg (by simpa using hc)]

namespace NormalPath

variable {normal : NormalPath}

/-- The normal path of the parent. -/
def parent (normal : NormalPath) : NormalPath := { normal with names := normal.names.dropLast }

theorem Proper.parent (h : normal.Proper) : normal.parent.Proper :=
  fun name hname => h name (List.dropLast_subset _ hname)

theorem texts_parent (hnames : normal.names ≠ []) :
    normal.texts = normal.parent.texts ++ [normal.names.getLast hnames] := by
  rw [texts, texts, List.append_assoc]
  exact congrArg _ (List.dropLast_concat_getLast hnames).symm

theorem isName_getLast (h : normal.Proper) (hnames : normal.names ≠ []) :
    IsName (normal.names.getLast hnames) := h _ (List.getLast_mem hnames)

theorem fileName?_path (h : normal.Proper) (hnames : normal.names ≠ []) :
    normal.path.fileName? = some (normal.names.getLast hnames) := by
  have hlast : normal.components.getLast? = some (.name (normal.names.getLast hnames)) := by
    rw [components, List.getLast?_append, List.getLast?_append, List.getLast?_map,
      List.getLast?_eq_some_getLast hnames]
    rfl
  rw [Path.fileName?, components_path h, hlast]

/-- No text between the slashes of a normal path is passed over. -/
theorem Proper.isNone_ofSegment? (h : normal.Proper) {text : String} (htext : text ∈ normal.texts) :
    (Path.Component.ofSegment? text.toList).isNone = false := by
  obtain ⟨-, hnil, hdot⟩ := h.of_mem_texts htext
  unfold Path.Component.ofSegment?
  split <;> simp_all

theorem parent?_path (h : normal.Proper) (hnames : normal.names ≠ []) :
    normal.path.parent? = some normal.parent.path := by
  have hsegments := segments_path h (by simp [texts_parent hnames])
  have hall : ∀ segment ∈ normal.path.segments, segment.2.isNone = false := by
    rw [hsegments]
    intro segment hsegment
    obtain ⟨text, htext, rfl⟩ := List.mem_map.1 hsegment
    exact h.isNone_ofSegment? htext
  rw [texts_parent hnames, List.map_append, List.map_singleton] at hsegments
  rw [hsegments] at hall
  rw [Path.parent?_of_segments hsegments hall, isAbsolute_path h, List.map_map]
  have htexts : normal.parent.texts.map ((fun segment => String.ofList segment.1) ∘
      fun text => (text.toList, Path.Component.ofSegment? text.toList)) = normal.parent.texts := by
    simp [Function.comp_def]
  rw [htexts]
  rfl

theorem intercalate_concat (front : List String) (last : String) :
    String.intercalate "/" (front ++ [last]) =
      (if front = [] then "" else String.intercalate "/" front ++ "/") ++ last := by
  split
  · rename_i hfront
    rw [hfront, List.nil_append, String.intercalate_singleton, String.empty_append]
  · rename_i hfront
    rw [String.intercalate_append_of_ne_nil hfront (List.cons_ne_nil _ _),
      String.intercalate_singleton]

/-- The text of a normal path that has any texts does not end in a slash. -/
theorem Proper.getLast?_text (h : normal.Proper) (hne : normal.texts ≠ []) :
    ∃ c, normal.path.text.toList.getLast? = some c ∧ c ≠ '/' := by
  obtain ⟨hslash, hnil, -⟩ := h.of_mem_texts (List.getLast_mem hne)
  have hends : ∃ start, normal.path.text = start ++ normal.texts.getLast hne := by
    have htexts := intercalate_concat normal.texts.dropLast (normal.texts.getLast hne)
    rw [List.dropLast_concat_getLast hne] at htexts
    rw [text_path, htexts]
    split
    · exact ⟨_, (String.append_assoc ..).symm⟩
    · exact ⟨_, rfl⟩
  obtain ⟨start, hstart⟩ := hends
  refine ⟨_, ?_, fun hlast => hslash (hlast ▸ List.getLast_mem hnil)⟩
  rw [hstart, String.toList_append, List.getLast?_append, List.getLast?_eq_some_getLast hnil,
    Option.some_or]

/-- A normal path that ends in a name is its parent and its file name put together. -/
theorem parent?_join_displayName (h : normal.Proper) (hnames : normal.names ≠ []) :
    (normal.path.parent?.getD ⟨""⟩).join normal.path.displayName = normal.path := by
  have hname := isName_getLast h hnames
  have hrelative : (⟨normal.names.getLast hnames⟩ : Path).isAbsolute = false := by
    obtain ⟨c, rest, hcs⟩ := List.exists_cons_of_ne_nil hname.ne_nil
    have hc : c ≠ '/' := fun hc => hname.1 (by simp [hcs, hc])
    simp [Path.isAbsolute, hcs, hc]
  have htext := normal.text_path
  rw [texts_parent hnames, intercalate_concat] at htext
  rw [parent?_path h hnames, Path.displayName, fileName?_path h hnames, Option.getD_some,
    Option.getD_some]
  refine congrArg Path.mk (?_ : (Path.join _ _).text = normal.path.text)
  rw [Path.text_join hrelative, htext]
  by_cases hfront : normal.parent.texts = []
  · have hparent : normal.parent.path.text = if normal.absolute then "/" else "" := by
      rw [text_path, hfront]
      rfl
    rw [hparent, if_pos hfront]
    cases normal.absolute <;> simp
  · have hparent : normal.parent.path.text =
        if normal.absolute then "/" ++ String.intercalate "/" normal.parent.texts
        else String.intercalate "/" normal.parent.texts := normal.parent.text_path
    obtain ⟨c, hlast, hc⟩ := h.parent.getLast?_text hfront
    rw [hlast, if_neg (by simpa using hc), if_neg hfront, hparent]
    cases normal.absolute <;> simp [String.append_assoc]

end NormalPath

end RobotSketch
