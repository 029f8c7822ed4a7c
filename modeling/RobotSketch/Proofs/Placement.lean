import RobotSketch.Program
import RobotSketch.Proofs.Joining
import RobotSketch.Proofs.Numerals

/-!
# Where sketches go

The stem of a file name is what stands before its last dot (`Path.stemOf_cases`). It holds no slash
and is not empty, so it is an ordinary name unless it is one of the two names that lead elsewhere: a
dot or two dots. `Path.stemOf_eq_iff` says which file names have a given stem.

A sketch is `Placed` under a name if that name is ordinary and is the sketch's and its folder's.
The main statement is `sketch_placed_iff`: every sketch is placed below its directory, except that
of a document whose file name is two or three dots and an extension.
-/
namespace RobotSketch

/-! ## Stems -/

namespace Path

/-- The last dot of a text is the one that no other follows. -/
theorem isAfterLast_dot {cs front rest : List Char} (hcs : cs = front ++ '.' :: rest)
    (hrest : '.' ∉ rest) : Text.IsAfterLast ['.'] cs rest := by
  subst hcs
  refine ⟨List.suffix_append front _, fun other hother => ?_⟩
  by_contra hless
  -- A dot with less behind it than this one would stand in `rest`.
  have hinside : ['.'] ++ other <:+ rest := by
    refine List.suffix_of_suffix_length_le hother ?_ ?_
    · exact (List.suffix_cons '.' rest).trans (List.suffix_append front _)
    · simp only [List.length_append, List.length_cons, List.length_nil]
      omega
  exact hrest (hinside.subset (by simp))

theorem stemOf_append {stem extension : List Char} (hstem : stem ≠ [])
    (hextension : '.' ∉ extension) : stemOf (stem ++ '.' :: extension) = stem := by
  have hafter : Text.afterLast ['.'] (stem ++ '.' :: extension) = some extension :=
    (Text.afterLast_eq_some_iff (by simp)).2 (isAfterLast_dot rfl hextension)
  have htake : (stem ++ '.' :: extension).take
      ((stem ++ '.' :: extension).length - extension.length - 1) = stem := by
    have hlength : (stem ++ '.' :: extension).length - extension.length - 1 = stem.length := by
      simp only [List.length_append, List.length_cons]
      omega
    rw [hlength, List.take_left]
  rw [stemOf, hafter]
  simp only [htake]
  simp [hstem]

/-- A stem is the whole name, or what stands before the last dot of the name. -/
theorem stemOf_cases (name : List Char) :
    stemOf name = name ∨ (stemOf name ≠ [] ∧
      ∃ extension, '.' ∉ extension ∧ name = stemOf name ++ '.' :: extension) := by
  cases hafter : Text.afterLast ['.'] name with
  | none =>
    left
    rw [stemOf, hafter]
  | some extension =>
    have hlast := Text.isAfterLast_of_afterLast (by simp) hafter
    obtain ⟨front, hfront⟩ := hlast.follows
    have hname : name = front ++ '.' :: extension := by simpa using hfront.symm
    have hextension : '.' ∉ extension := by
      intro hmem
      obtain ⟨before, after, rfl⟩ := List.append_of_mem hmem
      have hshort := hlast.shortest after
        ⟨front ++ '.' :: before, by simp [hname]⟩
      simp only [List.length_append, List.length_cons] at hshort
      omega
    -- A name that begins with its last dot is its own stem.
    by_cases hempty : front = []
    · left
      rw [stemOf, hafter]
      simp [hname, hempty]
    · right
      have hstem : stemOf name = front := by rw [hname, stemOf_append hempty hextension]
      exact ⟨hstem ▸ hempty, extension, hextension, hstem ▸ hname⟩

/-- The names that have a given stem, apart from the stem itself. -/
theorem stemOf_eq_iff {name stem : List Char} (hstem : stem ≠ []) (hne : name ≠ stem) :
    stemOf name = stem ↔ ∃ extension, '.' ∉ extension ∧ name = stem ++ '.' :: extension := by
  constructor
  · rintro rfl
    rcases stemOf_cases name with hwhole | ⟨-, extension, hextension, hname⟩
    · exact absurd hwhole.symm hne
    · exact ⟨extension, hextension, hname⟩
  · rintro ⟨extension, hextension, rfl⟩
    exact stemOf_append hstem hextension

end Path

/-! ## Names -/

theorem isName_of_ordinary {name : String} (hempty : name ≠ "") (hdot : name ≠ ".")
    (hdots : name ≠ "..") (hslash : '/' ∉ name.toList) : IsName name := by
  refine ⟨hslash, ?_⟩
  have hdots' : name.toList ≠ ['.', '.'] := fun h => hdots (String.toList_inj.1 h)
  have hdot' : name.toList ≠ ['.'] := fun h => hdot (String.toList_inj.1 h)
  have hempty' : name.toList ≠ [] := fun h => hempty (String.toList_inj.1 h)
  unfold Path.Component.ofSegment?
  split
  · rename_i h
    exact absurd h hempty'
  · rename_i h
    exact absurd h hdot'
  · rename_i h
    exact absurd h hdots'
  · rw [String.ofList_toList]

/-- The file of a sketch has an ordinary name, whatever its stem. -/
theorem isName_sketchFile {stem : String} (hslash : '/' ∉ stem.toList) :
    IsName (stem ++ ".ino") := by
  have hlist : (stem ++ ".ino").toList = stem.toList ++ ['.', 'i', 'n', 'o'] := by
    rw [String.toList_append]
    rfl
  have hlength : 2 < (stem ++ ".ino").toList.length := by
    rw [hlist, List.length_append]
    simp
  refine ⟨?_, by rw [ofSegment?_of_two_lt hlength, String.ofList_toList]⟩
  rw [hlist]
  simpa using hslash

/-- The name of the sketch of a document, which is `sketch` for one without a file name. -/
def sketchStem (file : String) : String := (⟨file⟩ : Path).fileStem?.getD "sketch"

theorem sketchPath_true (directory : Path) (file : String) :
    sketchPath directory file true =
      (directory.join (sketchStem file)).join (sketchStem file ++ ".ino") := by
  unfold sketchPath sketchStem
  generalize (⟨file⟩ : Path).fileStem?.getD "sketch" = stem
  exact if_pos rfl

theorem sketchPath_false (directory : Path) (file : String) :
    sketchPath directory file false = directory.join (sketchStem file ++ ".ino") := by
  unfold sketchPath sketchStem
  generalize (⟨file⟩ : Path).fileStem?.getD "sketch" = stem
  exact if_neg Bool.false_ne_true

theorem sketchStem_of_fileName? {file name : String} (h : (⟨file⟩ : Path).fileName? = some name) :
    sketchStem file = String.ofList (Path.stemOf name.toList) := by
  rw [sketchStem, Path.fileStem?, h]
  rfl

theorem sketchStem_of_none {file : String} (h : (⟨file⟩ : Path).fileName? = none) :
    sketchStem file = "sketch" := by
  rw [sketchStem, Path.fileStem?, h]
  rfl

/-- A stem is a part of a name, so it is a text without slashes. -/
theorem sketchStem_plain (file : String) :
    sketchStem file ≠ "" ∧ '/' ∉ (sketchStem file).toList := by
  cases hname : (⟨file⟩ : Path).fileName? with
  | none =>
    rw [sketchStem_of_none hname]
    decide
  | some name =>
    have hordinary := Path.isName_of_fileName? hname
    rw [sketchStem_of_fileName? hname, String.toList_ofList]
    have hmem : ∀ c ∈ Path.stemOf name.toList, c ∈ name.toList := by
      rcases Path.stemOf_cases name.toList with hwhole | ⟨-, extension, -, hparts⟩
      · rw [hwhole]
        exact fun c hc => hc
      · intro c hc
        rw [hparts]
        exact List.mem_append_left _ hc
    have hnil : Path.stemOf name.toList ≠ [] := by
      rcases Path.stemOf_cases name.toList with hwhole | ⟨hnil, -⟩
      · rw [hwhole]
        exact hordinary.ne_nil
      · exact hnil
    exact ⟨by simpa using hnil, fun hslash => hordinary.1 (hmem _ hslash)⟩

/-! ## Documents whose stem leads elsewhere -/

/-- The file name of a document is a run of dots and an extension without one. -/
def DotsAndExtension (dots file : String) : Prop :=
  ∃ extension : String, '.' ∉ extension.toList ∧
    (⟨file⟩ : Path).fileName? = some (dots ++ extension)

/-- The stem of a sketch is a given directory's name exactly if the file name has a dot and an
extension behind it. -/
theorem sketchStem_eq_iff {file stem : String} (hempty : stem ≠ "") (hsketch : stem ≠ "sketch")
    (hname : ¬IsName stem) :
    sketchStem file = stem ↔ DotsAndExtension (stem ++ ".") file := by
  cases hfile : (⟨file⟩ : Path).fileName? with
  | none =>
    rw [sketchStem_of_none hfile]
    constructor
    · rintro rfl
      exact absurd rfl hsketch
    · rintro ⟨extension, -, h⟩
      rw [hfile] at h
      cases h
  | some name =>
    have hne : name.toList ≠ stem.toList := fun h =>
      hname (String.toList_inj.1 h ▸ Path.isName_of_fileName? hfile)
    rw [sketchStem_of_fileName? hfile, ← String.toList_inj, String.toList_ofList,
      Path.stemOf_eq_iff (by simpa using hempty) hne]
    constructor
    · rintro ⟨extension, hextension, hparts⟩
      refine ⟨String.ofList extension, by simpa using hextension, ?_⟩
      rw [hfile, Option.some.injEq, ← String.toList_inj, hparts]
      simp
    · rintro ⟨extension, hextension, hparts⟩
      refine ⟨extension.toList, hextension, ?_⟩
      rw [hfile, Option.some.injEq] at hparts
      rw [hparts]
      simp

theorem sketchStem_eq_dot_iff (file : String) :
    sketchStem file = "." ↔ DotsAndExtension ".." file :=
  sketchStem_eq_iff (by decide) (by decide) fun h => h.ordinary.2.1 rfl

theorem sketchStem_eq_dots_iff (file : String) :
    sketchStem file = ".." ↔ DotsAndExtension "..." file :=
  sketchStem_eq_iff (by decide) (by decide) fun h => h.ordinary.2.2.1 rfl

/-- A stem is an ordinary name, or it is a dot or two dots. -/
theorem isName_sketchStem_iff (file : String) :
    IsName (sketchStem file) ↔ ¬DotsAndExtension ".." file ∧ ¬DotsAndExtension "..." file := by
  obtain ⟨hempty, hslash⟩ := sketchStem_plain file
  rw [← sketchStem_eq_dot_iff, ← sketchStem_eq_dots_iff]
  constructor
  · intro h
    exact ⟨h.ordinary.2.1, h.ordinary.2.2.1⟩
  · rintro ⟨h₁, h₂⟩
    exact isName_of_ordinary hempty h₁ h₂ hslash

/-! ## Below a directory -/

/-- The normal path that some names lead to from another. -/
def NormalPath.below (normal : NormalPath) (names : List String) : NormalPath :=
  { normal with names := normal.names ++ names }

namespace Path

theorem normalize_join_name (directory : Path) {name : String} (h : IsName name) :
    (directory.join name).normalize = directory.normalize.step (.name name) := by
  rw [normalize, components_join directory h, List.foldl_concat]
  rfl

/-- What is in a path that ends in a name is in a folder of that name. -/
theorem fileName?_parent?_join (directory : Path) {name folder : String} (h : IsName name)
    (hfolder : directory.fileName? = some folder) :
    ((directory.join name).parent?.bind (·.fileName?)) = some folder := by
  have hcomponents := components_join directory h
  cases hparent : (directory.join name).parent? with
  | none =>
    have hlast := congrArg List.getLast? (components_of_parent?_eq_none hparent)
    rw [hcomponents, List.getLast?_concat] at hlast
    generalize (directory.join name).isAbsolute = absolute at hlast
    cases absolute <;> simp [rootSteps] at hlast
  | some parent =>
    have hfront := components_parent? hparent
    rw [hcomponents, List.dropLast_concat] at hfront
    rw [Option.bind_some, fileName?, hfront, getLast?_components hfolder]

theorem fileName?_join (directory : Path) {name : String} (h : IsName name) :
    (directory.join name).fileName? = some name := by
  rw [fileName?, components_join directory h, List.getLast?_concat]

/-- Two names joined to one path give different paths. -/
theorem join_name_inj {directory : Path} {name other : String} (hname : IsName name)
    (hother : IsName other) (h : directory.join name = directory.join other) : name = other := by
  have hfile := congrArg Path.fileName? h
  rwa [fileName?_join directory hname, fileName?_join directory hother, Option.some.injEq] at hfile

end Path

/-- With folders, a sketch is in what its stem leads to. -/
theorem normalize_sketchPath_true (directory : Path) (file : String) :
    (sketchPath directory file true).normalize =
      (directory.join (sketchStem file)).normalize.step (.name (sketchStem file ++ ".ino")) := by
  rw [sketchPath_true, Path.normalize_join_name _ (isName_sketchFile (sketchStem_plain file).2)]

/-- The sketch of a document is placed below a directory under one ordinary name: its file is called
by that name, and with folders so is the folder that it is in. -/
structure Placed (directory : Path) (file name : String) : Prop where
  ordinary : name ≠ "" ∧ name ≠ "." ∧ name ≠ ".." ∧ '/' ∉ name.toList
  inFolder : sketchPath directory file true = (directory.join name).join (name ++ ".ino")
  alone : sketchPath directory file false = directory.join (name ++ ".ino")
  inFolder_below : (sketchPath directory file true).normalize =
    directory.normalize.below [name, name ++ ".ino"]
  alone_below : (sketchPath directory file false).normalize =
    directory.normalize.below [name ++ ".ino"]
  folder : (sketchPath directory file true).parent?.bind (·.fileName?) = some name

/-- A sketch whose stem is an ordinary name is placed under it. -/
theorem placed_of_isName (directory : Path) {file : String} (h : IsName (sketchStem file)) :
    Placed directory file (sketchStem file) := by
  have hfile : IsName (sketchStem file ++ ".ino") := isName_sketchFile h.1
  refine ⟨h.ordinary, sketchPath_true directory file, sketchPath_false directory file, ?_, ?_, ?_⟩
  · rw [normalize_sketchPath_true, Path.normalize_join_name _ h]
    simp [NormalPath.step, NormalPath.below]
  · rw [sketchPath_false, Path.normalize_join_name _ hfile]
    rfl
  · rw [sketchPath_true]
    exact Path.fileName?_parent?_join _ hfile (Path.fileName?_join _ h)

/-- A sketch is placed under no name but its stem. -/
theorem Placed.name_eq {directory : Path} {file name : String} (h : Placed directory file name) :
    name = sketchStem file := by
  have hfile : IsName (name ++ ".ino") := isName_sketchFile h.ordinary.2.2.2
  have hstem : IsName (sketchStem file ++ ".ino") := isName_sketchFile (sketchStem_plain file).2
  have hnames := Path.join_name_inj hfile hstem (h.alone.symm.trans (sketchPath_false _ _))
  simpa [String.toList_inj] using congrArg String.toList hnames

/-- **Where sketches go.** The sketch of a document is placed below the directory, under one
ordinary name that its folder shares, exactly if the file name of the document is not two or three
dots and an extension. After two dots the stem is a dot, and the sketch has no folder of its own.
After three it is two dots, and the sketch is in the directory around the one that it was meant
for. -/
theorem sketch_placed_iff (directory : Path) (file : String) :
    ((∃ name, Placed directory file name) ↔
      ¬DotsAndExtension ".." file ∧ ¬DotsAndExtension "..." file) ∧
    (DotsAndExtension ".." file →
      (sketchPath directory file true).normalize = directory.normalize.below ["..ino"]) ∧
    (DotsAndExtension "..." file →
      (sketchPath directory file true).normalize =
        (directory.normalize.step .parent).below ["...ino"]) := by
  refine ⟨?_, fun h => ?_, fun h => ?_⟩
  · rw [← isName_sketchStem_iff]
    constructor
    · rintro ⟨name, hplaced⟩
      obtain ⟨hempty, hdot, hdots, hslash⟩ := hplaced.ordinary
      exact hplaced.name_eq ▸ isName_of_ordinary hempty hdot hdots hslash
    · intro h
      exact ⟨_, placed_of_isName directory h⟩
  · rw [normalize_sketchPath_true, (sketchStem_eq_dot_iff file).2 h, Path.normalize_join]
    rfl
  · rw [normalize_sketchPath_true, (sketchStem_eq_dots_iff file).2 h, Path.normalize_join]
    rfl

/-- The sketch of a dance is placed below `out`. That of a document called by three dots and an
extension leaves it. -/
theorem dotted_sketch_leaves :
    (∃ name, Placed ⟨"out"⟩ "seq/dance.xml" name) ∧
    (¬∃ name, Placed ⟨"out"⟩ "...xml" name) ∧
    (sketchPath ⟨"out"⟩ "...xml" true).normalize = ⟨false, 0, ["...ino"]⟩ := by
  have hdots : DotsAndExtension "..." "...xml" := ⟨"xml", by decide, by decide⟩
  have hdance : (⟨"seq/dance.xml"⟩ : Path).fileName? = some "dance.xml" := by decide
  have hplain : ¬DotsAndExtension ".." "seq/dance.xml" ∧
      ¬DotsAndExtension "..." "seq/dance.xml" := by
    constructor
    · rintro ⟨extension, -, hfile⟩
      rw [hdance, Option.some.injEq, ← String.toList_inj, String.toList_append] at hfile
      cases hfile
    · rintro ⟨extension, -, hfile⟩
      rw [hdance, Option.some.injEq, ← String.toList_inj, String.toList_append] at hfile
      cases hfile
  refine ⟨(sketch_placed_iff _ _).1.2 hplain, fun h => ((sketch_placed_iff _ _).1.1 h).2 hdots, ?_⟩
  rw [(sketch_placed_iff _ _).2.2 hdots]
  decide

end RobotSketch
