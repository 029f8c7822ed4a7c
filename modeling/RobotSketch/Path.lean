import RobotSketch.Text

/-!
# Paths

A path is the text it was written as, and its *components* are what it says: a root, a leading
current directory, parents and names. Repeated slashes, slashes at the end and inner dots say
nothing. Parent, file name and stem are read off the components; `join` works on the text, so a
path is printed as it was put together.
-/
namespace RobotSketch

/-- A path, as written. -/
structure Path where
  text : String
  deriving DecidableEq, Repr

namespace Path

/-- A step of a path. -/
inductive Component where
  | root
  | current
  | parent
  | name (text : String)
  deriving DecidableEq, Repr

/-- What a text between slashes says: nothing if it is empty or a dot. -/
def Component.ofSegment? : List Char → Option Component
  | [] | ['.'] => none
  | ['.', '.'] => some .parent
  | segment => some (.name (String.ofList segment))

/-- The texts between the slashes of a path, without the slash of a root, and with the component
that each is. Only in front of a relative path is a dot a component. -/
def segments (path : Path) : List (List Char × Option Component) :=
  let plain (cs : List Char) :=
    (Text.pieces (· == '/') cs).map fun segment => (segment, Component.ofSegment? segment)
  match path.text.toList with
  | '/' :: cs => plain cs
  | cs =>
    match plain cs with
    | (['.'], _) :: rest => (['.'], some .current) :: rest
    | segments => segments

def isAbsolute (path : Path) : Bool := path.text.toList.head? == some '/'

def components (path : Path) : List Component :=
  let steps := path.segments.filterMap (·.2)
  if path.isAbsolute then .root :: steps else steps

/-- The path that ends before the last component, if there is a component other than the root. -/
def parent? (path : Path) : Option Path :=
  match path.segments.reverse.dropWhile (·.2.isNone) with
  | [] => none
  | _ :: before =>
    let kept := (before.dropWhile (·.2.isNone)).reverse.map fun (segment, _) => String.ofList segment
    let text := String.intercalate "/" kept
    some ⟨if path.isAbsolute then "/" ++ text else text⟩

/-- The first paths of the list of a path, its parent, the parent of that, and so on. -/
def ancestorsWithin (path : Path) : Nat → List Path
  | 0 => []
  | count + 1 =>
    path :: match path.parent? with
      | some parent => parent.ancestorsWithin count
      | none => []

/-- A path, its parent, the parent of that, and so on. There are at most as many as segments, and
one more. -/
def ancestors (path : Path) : List Path := path.ancestorsWithin (path.segments.length + 1)

/-- The last component, if it is a name. -/
def fileName? (path : Path) : Option String :=
  match path.components.getLast? with
  | some (.name text) => some text
  | _ => none

/-- The name by which messages call a document: its file name, or the whole text. -/
def displayName (path : Path) : String := path.fileName?.getD path.text

/-- The part of a file name before its last dot; a dot in front divides nothing. -/
def stemOf (fileName : List Char) : List Char :=
  match Text.afterLast ['.'] fileName with
  | none => fileName
  | some extension =>
    let stem := fileName.take (fileName.length - extension.length - 1)
    if stem.isEmpty then fileName else stem

/-- The file name without its extension. -/
def fileStem? (path : Path) : Option String :=
  path.fileName?.map fun name => String.ofList (stemOf name.toList)

/-- The path `path/more`; an absolute `more` stands for itself. -/
def join (path : Path) (more : String) : Path :=
  if (⟨more⟩ : Path).isAbsolute then ⟨more⟩
  else
    match path.text.toList.getLast? with
    | none | some '/' => ⟨path.text ++ more⟩
    | some _ => ⟨path.text ++ "/" ++ more⟩

/-- The path with its file name replaced, or with a file name added. -/
def withFileName (path : Path) (name : String) : Path :=
  if path.fileName?.isSome then (path.parent?.getD path).join name else path.join name

end Path

/-!
## Normal paths

A normal path is an optional root, a run of steps to the parent, and names. `Path.normalize` folds
dots away and lets a name followed by a step to the parent cancel; a step to the parent that finds
no name to cancel is kept, also behind a root.
-/

/-- A path in normal form. -/
structure NormalPath where
  absolute : Bool := false
  /-- How many steps to the parent stand in front of the names. -/
  ups : Nat := 0
  names : List String := []
  deriving DecidableEq, Repr

namespace NormalPath

/-- The normal path reached by one more component. -/
def step (normal : NormalPath) : Path.Component → NormalPath
  | .root => { absolute := true }
  | .current => normal
  | .parent =>
    match normal.names with
    | [] => { normal with ups := normal.ups + 1 }
    | names => { normal with names := names.dropLast }
  | .name text => { normal with names := normal.names ++ [text] }

/-- The path that a normal path is written as. -/
def path (normal : NormalPath) : Path :=
  let steps := String.intercalate "/" (List.replicate normal.ups ".." ++ normal.names)
  ⟨if normal.absolute then "/" ++ steps else steps⟩

end NormalPath

def Path.normalize (path : Path) : NormalPath := path.components.foldl NormalPath.step {}

/-!
## The normal form of a path is normal

A normal path whose names are names reads back from its text as itself, and the normal form of a
path is of that kind. So a second normalisation changes nothing (`normalize_path_normalize`).
-/

/-! ### Names -/

/-- Whether a text is an ordinary component: not empty, no dot or double dot, no slash. -/
def IsName (text : String) : Prop :=
  '/' ∉ text.toList ∧ Path.Component.ofSegment? text.toList = some (.name text)

/-- Whether a component, if it is a name, is an ordinary one. -/
def Path.Component.Proper : Path.Component → Prop
  | .name text => IsName text
  | _ => True

theorem IsName.ne_nil {text : String} (h : IsName text) : text.toList ≠ [] := by
  intro hnil
  have := h.2
  simp [hnil, Path.Component.ofSegment?] at this

theorem IsName.ne_dot {text : String} (h : IsName text) : text.toList ≠ ['.'] := by
  intro hdot
  have := h.2
  simp [hdot, Path.Component.ofSegment?] at this

/-- No piece of a text holds a separator. -/
theorem Text.not_of_mem_pieces {p : Char → Bool} {cs piece : List Char} (h : piece ∈ pieces p cs)
    {c : Char} (hc : c ∈ piece) : p c = false := by
  induction cs generalizing piece with
  | nil =>
    simp only [pieces, List.splitOnP_nil, List.mem_singleton] at h
    subst h
    simp at hc
  | cons d cs ih =>
    simp only [pieces, List.splitOnP_cons_eq_if_modifyHead] at h ih
    by_cases hd : p d = true
    · simp only [hd, if_true, List.mem_cons] at h
      rcases h with rfl | h
      · simp at hc
      · exact ih h hc
    · simp only [hd] at h
      cases hs : List.splitOnP p cs with
      | nil => exact absurd hs (List.splitOnP_ne_nil p cs)
      | cons first rest =>
        simp only [hs, List.modifyHead_cons, List.mem_cons, Bool.false_eq_true, if_false] at h
        rcases h with rfl | h
        · rcases List.mem_cons.1 hc with rfl | hc
          · simpa using hd
          · exact ih (by simp [hs]) hc
        · exact ih (by simp [hs, h]) hc

namespace Path

theorem Component.proper_of_ofSegment? {segment : List Char} {component : Component}
    (hslash : '/' ∉ segment) (h : Component.ofSegment? segment = some component) :
    component.Proper := by
  have hcopy := h
  unfold Component.ofSegment? at h
  split at h
  · simp at h
  · simp at h
  · obtain rfl := Option.some.inj h; trivial
  · obtain rfl := Option.some.inj h
    exact ⟨by simpa using hslash, by simpa using hcopy⟩

/-- Names among the components of a path are ordinary ones. -/
theorem proper_of_mem_components {path : Path} {component : Component}
    (h : component ∈ path.components) : component.Proper := by
  have key : ∀ cs : List Char, ∀ pair ∈ (Text.pieces (· == '/') cs).map
      (fun segment => (segment, Component.ofSegment? segment)),
      ∀ component, pair.2 = some component → component.Proper := by
    intro cs pair hpair component hcomponent
    obtain ⟨segment, hsegment, rfl⟩ := List.mem_map.1 hpair
    refine Component.proper_of_ofSegment? (fun hslash => ?_) hcomponent
    have := Text.not_of_mem_pieces hsegment hslash
    simp at this
  have steps : ∀ pair ∈ path.segments, ∀ component, pair.2 = some component →
      component.Proper := by
    intro pair hpair component hcomponent
    unfold segments at hpair
    simp only at hpair
    split at hpair
    · exact key _ pair hpair component hcomponent
    · split at hpair
      · rename_i rest hplain
        rcases List.mem_cons.1 hpair with rfl | hpair
        · obtain rfl := Option.some.inj hcomponent; trivial
        · exact key _ pair (by rw [hplain]; exact List.mem_cons_of_mem _ hpair) component hcomponent
      · exact key _ pair hpair component hcomponent
  unfold components at h
  simp only at h
  split at h
  · rcases List.mem_cons.1 h with rfl | h
    · trivial
    · obtain ⟨pair, hpair, hcomponent⟩ := List.mem_filterMap.1 h
      exact steps pair hpair component hcomponent
  · obtain ⟨pair, hpair, hcomponent⟩ := List.mem_filterMap.1 h
    exact steps pair hpair component hcomponent

end Path

/-! ### Normal paths read back -/

namespace NormalPath

/-- Whether all names of a normal path are names. -/
def Proper (normal : NormalPath) : Prop := ∀ name ∈ normal.names, IsName name

def components (normal : NormalPath) : List Path.Component :=
  (if normal.absolute then [.root] else []) ++
    (List.replicate normal.ups .parent ++ normal.names.map .name)

theorem Proper.step {normal : NormalPath} (h : normal.Proper) {component : Path.Component}
    (hc : component.Proper) : (normal.step component).Proper := by
  intro name hname
  cases component with
  | root => simp [NormalPath.step] at hname
  | current => exact h name hname
  | parent =>
    simp only [NormalPath.step] at hname
    split at hname
    · rename_i hnil; simp [hnil] at hname
    · exact h name (List.dropLast_subset _ hname)
  | name text =>
    simp only [NormalPath.step, List.mem_append, List.mem_singleton] at hname
    rcases hname with hname | rfl
    · exact h name hname
    · exact hc

theorem Proper.foldl_step {components : List Path.Component} {normal : NormalPath}
    (h : normal.Proper) (hc : ∀ component ∈ components, component.Proper) :
    (components.foldl NormalPath.step normal).Proper := by
  induction components generalizing normal with
  | nil => exact h
  | cons component rest ih =>
    exact ih (h.step (hc component (by simp))) fun c hmem => hc c (by simp [hmem])

theorem foldl_step_parents (absolute : Bool) (ups count : Nat) :
    (List.replicate count Path.Component.parent).foldl NormalPath.step ⟨absolute, ups, []⟩ =
      ⟨absolute, ups + count, []⟩ := by
  induction count generalizing ups with
  | zero => rfl
  | succ count ih =>
    rw [List.replicate_succ, List.foldl_cons]
    simp only [NormalPath.step]
    rw [ih]
    congr 1
    omega

theorem foldl_step_names (absolute : Bool) (ups : Nat) (done names : List String) :
    (names.map Path.Component.name).foldl NormalPath.step ⟨absolute, ups, done⟩ =
      ⟨absolute, ups, done ++ names⟩ := by
  induction names generalizing done with
  | nil => simp
  | cons name names ih => simp [NormalPath.step, ih]

/-- The components of a normal path lead to it. -/
theorem foldl_step_components (normal : NormalPath) :
    normal.components.foldl NormalPath.step {} = normal := by
  obtain ⟨absolute, ups, names⟩ := normal
  cases absolute <;>
    simp [components, List.foldl_append, foldl_step_parents, foldl_step_names, NormalPath.step]

/-- The texts between the slashes of a normal path. -/
def texts (normal : NormalPath) : List String := List.replicate normal.ups ".." ++ normal.names

theorem text_path (normal : NormalPath) :
    normal.path.text =
      if normal.absolute then "/" ++ String.intercalate "/" normal.texts
      else String.intercalate "/" normal.texts := rfl

theorem pieces_intercalate {texts : List String} (hne : texts ≠ [])
    (h : ∀ text ∈ texts, '/' ∉ text.toList) :
    Text.pieces (· == '/') (String.intercalate "/" texts).toList = texts.map String.toList := by
  rw [String.toList_intercalate]
  exact List.splitOn_intercalate '/' (by simpa using h) (by simpa using hne)

/-- A text between the slashes of a normal path says something, and holds no slash. -/
theorem Proper.of_mem_texts {normal : NormalPath} (h : normal.Proper) {text : String}
    (htext : text ∈ normal.texts) :
    '/' ∉ text.toList ∧ text.toList ≠ [] ∧ text.toList ≠ ['.'] := by
  rcases List.mem_append.1 htext with htext | htext
  · obtain ⟨-, rfl⟩ := List.mem_replicate.1 htext; decide
  · exact ⟨(h text htext).1, (h text htext).ne_nil, (h text htext).ne_dot⟩

/-- The components of the texts of a normal path. -/
theorem filterMap_ofSegment? {normal : NormalPath} (h : normal.Proper) :
    (normal.texts.map String.toList).filterMap Path.Component.ofSegment? =
      List.replicate normal.ups .parent ++ normal.names.map .name := by
  rw [texts, List.map_append, List.filterMap_append]
  congr 1
  · rw [List.map_replicate]
    generalize normal.ups = n
    induction n with
    | zero => rfl
    | succ n _ => simp [List.replicate_succ, Path.Component.ofSegment?]
  · have hnames := h
    unfold Proper at hnames
    generalize normal.names = names at hnames
    induction names with
    | nil => rfl
    | cons name names ih =>
      have hname := (hnames name (by simp)).2
      simp [hname, ih fun n hn => hnames n (by simp [hn])]

/-- Texts put together start with a character of the first one. -/
theorem Proper.exists_first {normal : NormalPath} (h : normal.Proper) (hne : normal.texts ≠ []) :
    ∃ c rest, (String.intercalate "/" normal.texts).toList = c :: rest ∧ c ≠ '/' := by
  obtain ⟨first, others, htexts⟩ := List.exists_cons_of_ne_nil hne
  obtain ⟨hslash, hnil, -⟩ := h.of_mem_texts (htexts ▸ List.mem_cons_self : first ∈ normal.texts)
  obtain ⟨c, cs, hcs⟩ := List.exists_cons_of_ne_nil hnil
  have hc : c ≠ '/' := fun hc => hslash (by simp [hcs, hc])
  rw [htexts]
  cases others with
  | nil => exact ⟨c, cs, by rw [String.intercalate_singleton, hcs], hc⟩
  | cons second others =>
    rw [String.intercalate_cons_cons, String.append_assoc, String.toList_append, hcs]
    exact ⟨c, _, List.cons_append, hc⟩

/-- The text of a normal path starts with a slash exactly if the path is absolute. -/
theorem isAbsolute_path {normal : NormalPath} (h : normal.Proper) :
    normal.path.isAbsolute = normal.absolute := by
  rw [Path.isAbsolute, text_path]
  cases normal.absolute with
  | true => simp
  | false =>
    by_cases hne : normal.texts = []
    · simp [hne]
    · obtain ⟨c, rest, hfirst, hc⟩ := h.exists_first hne
      simp [hfirst, hc]

/-- The segments of a normal path are its texts. -/
theorem segments_path {normal : NormalPath} (h : normal.Proper) (hne : normal.texts ≠ []) :
    normal.path.segments =
      normal.texts.map fun text => (text.toList, Path.Component.ofSegment? text.toList) := by
  have hpieces := pieces_intercalate hne fun text htext => (h.of_mem_texts htext).1
  have hplain : (Text.pieces (· == '/') (String.intercalate "/" normal.texts).toList).map
      (fun segment => (segment, Path.Component.ofSegment? segment)) =
        normal.texts.map fun text => (text.toList, Path.Component.ofSegment? text.toList) := by
    rw [hpieces, List.map_map]
    rfl
  unfold Path.segments
  rw [text_path]
  cases normal.absolute with
  | true =>
    simp only [if_true, String.toList_append]
    exact hplain
  | false =>
    obtain ⟨c, rest, hfirst, hc⟩ := h.exists_first hne
    obtain ⟨first, others, htexts⟩ := List.exists_cons_of_ne_nil hne
    simp only [Bool.false_eq_true, if_false]
    split
    · rename_i heq
      rw [hfirst] at heq
      exact absurd (List.cons.inj heq).1 hc
    · rw [hplain]
      split
      · rename_i heq
        rw [htexts, List.map_cons, List.cons.injEq, Prod.mk.injEq] at heq
        have hmem : first ∈ normal.texts := htexts ▸ List.mem_cons_self
        exact absurd heq.1.1 (h.of_mem_texts hmem).2.2
      · rfl

/-- The text of a normal path has the components it is made of. -/
theorem components_path {normal : NormalPath} (h : normal.Proper) :
    normal.path.components = normal.components := by
  have hsteps : normal.path.segments.filterMap (·.2) =
      List.replicate normal.ups .parent ++ normal.names.map .name := by
    rw [← filterMap_ofSegment? h]
    by_cases hne : normal.texts = []
    · have htext := normal.text_path
      rw [hne] at htext ⊢
      unfold Path.segments
      cases habsolute : normal.absolute <;>
        simp [habsolute] at htext <;> simp [htext, Text.pieces, Path.Component.ofSegment?]
    · rw [segments_path h hne, List.filterMap_map, List.filterMap_map]
      rfl
  unfold Path.components NormalPath.components
  rw [hsteps, isAbsolute_path h]
  cases normal.absolute <;> rfl

end NormalPath

/-- The names of the normal form of a path are names. -/
theorem Path.proper_normalize (path : Path) : path.normalize.Proper :=
  NormalPath.Proper.foldl_step (by intro name hname; simp at hname)
    fun _ h => Path.proper_of_mem_components h

/-- A normal path with proper names is its own normal form. -/
theorem NormalPath.normalize_path {normal : NormalPath} (h : normal.Proper) :
    normal.path.normalize = normal := by
  rw [Path.normalize, NormalPath.components_path h, NormalPath.foldl_step_components]

/-- Normalising twice is normalising once. -/
theorem Path.normalize_path_normalize (path : Path) :
    path.normalize.path.normalize = path.normalize :=
  NormalPath.normalize_path path.proper_normalize

/-!
## Finitely many paths of bounded length

Only finitely many normal paths have a text of at most a given length.
-/

theorem exists_all_chars : ∃ chars : List Char, ∀ c : Char, c ∈ chars := by
  refine ⟨(List.range 0x110000).map Char.ofNat, fun c => List.mem_map.2 ⟨c.toNat, ?_, ?_⟩⟩
  · rw [List.mem_range]
    have h : c.toNat.isValidChar := c.valid
    unfold Nat.isValidChar at h
    omega
  · exact Char.ofNat_toNat c

/-- If finitely many values have a property, finitely many lists of bounded length hold such values
only. -/
theorem exists_all_lists {α : Type} {P : α → Prop} (h : ∃ values : List α, ∀ a, P a → a ∈ values)
    (n : Nat) :
    ∃ lists : List (List α), ∀ list : List α, list.length ≤ n → (∀ a ∈ list, P a) →
      list ∈ lists := by
  obtain ⟨values, hvalues⟩ := h
  induction n with
  | zero =>
    exact ⟨[[]], fun list hlength _ => by simp [List.length_eq_zero_iff.1 (Nat.le_zero.1 hlength)]⟩
  | succ n ih =>
    obtain ⟨lists, hlists⟩ := ih
    refine ⟨[] :: values.flatMap fun a => lists.map (a :: ·), fun list hlength hall => ?_⟩
    cases list with
    | nil => simp
    | cons a list =>
      refine List.mem_cons_of_mem _ (List.mem_flatMap.2 ⟨a, hvalues a (hall a (by simp)), ?_⟩)
      refine List.mem_map.2 ⟨list, hlists list (by simpa using hlength) fun b hb => ?_, rfl⟩
      exact hall b (by simp [hb])

theorem exists_all_strings (n : Nat) :
    ∃ strings : List String, ∀ s : String, s.toList.length ≤ n → s ∈ strings := by
  obtain ⟨chars, hchars⟩ := exists_all_chars
  obtain ⟨lists, hlists⟩ := @exists_all_lists Char (fun _ => True)
    ⟨chars, fun c _ => hchars c⟩ n
  refine ⟨lists.map String.ofList, fun s hs => List.mem_map.2 ⟨s.toList, ?_, String.ofList_toList⟩⟩
  exact hlists s.toList hs fun _ _ => trivial

/-- The texts between separators are no longer than the whole, and neither is their number, but
for one. -/
theorem length_intercalate_bounds (texts : List (List Char)) :
    texts.length ≤ (['/'].intercalate texts).length + 1 ∧
      ∀ text ∈ texts, text.length ≤ (['/'].intercalate texts).length := by
  induction texts with
  | nil => simp
  | cons first rest ih =>
    cases rest with
    | nil => simp [List.intercalate_singleton]
    | cons second rest =>
      rw [List.intercalate_cons_cons]
      obtain ⟨hcount, hlength⟩ := ih
      simp only [List.length_append, List.length_cons, List.length_nil] at hcount ⊢
      refine ⟨by omega, fun text htext => ?_⟩
      rcases List.mem_cons.1 htext with rfl | htext
      · omega
      · have := hlength text htext
        omega

/-- Finitely many normal paths have a text of at most `n` characters. -/
theorem NormalPath.exists_all_of_length_le (n : Nat) :
    ∃ keys : List NormalPath, ∀ normal : NormalPath, normal.path.text.toList.length ≤ n →
      normal ∈ keys := by
  obtain ⟨names, hnames⟩ := exists_all_lists (exists_all_strings n) (n + 1)
  refine ⟨[true, false].flatMap fun absolute => (List.range (n + 2)).flatMap fun ups =>
    names.map fun list => ⟨absolute, ups, list⟩, fun normal hlength => ?_⟩
  obtain ⟨absolute, ups, list⟩ := normal
  have hsteps : (String.intercalate "/" (List.replicate ups ".." ++ list)).toList.length ≤ n := by
    simp only [path] at hlength
    split at hlength
    · rw [String.toList_append, List.length_append] at hlength; omega
    · exact hlength
  rw [String.toList_intercalate] at hsteps
  obtain ⟨hcount, htexts⟩ :=
    length_intercalate_bounds ((List.replicate ups ".." ++ list).map String.toList)
  simp only [List.length_map, List.length_append, List.length_replicate] at hcount
  refine List.mem_flatMap.2 ⟨absolute, by cases absolute <;> simp, ?_⟩
  refine List.mem_flatMap.2 ⟨ups, List.mem_range.2 ?_, ?_⟩
  · have hslash : "/".toList = ['/'] := rfl
    rw [hslash] at hsteps
    omega
  · have hslash : "/".toList = ['/'] := rfl
    rw [hslash] at hsteps
    refine List.mem_map.2 ⟨list, hnames list (by omega) fun name hname => ?_, rfl⟩
    exact Nat.le_trans (htexts name.toList (List.mem_map.2 ⟨name, by simp [hname], rfl⟩)) hsteps

end RobotSketch
