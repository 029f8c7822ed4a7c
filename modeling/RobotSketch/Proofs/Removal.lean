import Mathlib.Data.List.Forall2
import RobotSketch.Files

/-!
# Removing a file from a tree

A file that is at a path can be removed, and then there is none (`not_hasFile_of_remove`,
`remove_of_hasFile`). Removing it leaves every directory in place, so a path leads the same way in
the new tree: `walk_of_keeps`.
-/
namespace RobotSketch

/-! ## Directories that stay -/

namespace Entry

/-- Wherever the one entry has a directory, the other has one too. -/
def Keeps (entry other : Entry) : Prop :=
  ∀ location children, entry.at? location = some (.directory children) →
    ∃ others, other.at? location = some (.directory others)

theorem Keeps.lookup {children others inner : Children} {name : String}
    (h : (directory children).Keeps (directory others))
    (hname : children.lookup name = some (.directory inner)) :
    ∃ inner', others.lookup name = some (.directory inner') ∧
      (directory inner).Keeps (directory inner') := by
  obtain ⟨inner', hinner⟩ := h [name] inner (by simp [at?, hname])
  have hother : others.lookup name = some (.directory inner') := by
    simp only [at?] at hinner
    cases hlookup : others.lookup name with
    | none => simp [hlookup] at hinner
    | some entry => simpa [hlookup, at?] using hinner
  refine ⟨inner', hother, fun location found hfound => ?_⟩
  have := h (name :: location) found (by simpa [at?, hname] using hfound)
  simpa [at?, hother] using this

end Entry

namespace Tree

theorem named_eq_ok {name : List Char} {found : Option Entry} {entry : Entry} :
    named name found = .ok entry ↔ byteLength name ≤ nameLimit ∧ found = some entry := by
  unfold named
  split
  · simp only [reduceCtorEq, false_iff, not_and]
    omega
  · cases found with
    | none => simp
    | some found =>
      simp only [Except.ok.injEq, Option.some.injEq, iff_and_self]
      omega

/-- A walk that succeeds goes the same way where the directories are kept. -/
theorem walk_of_keeps {segments : List (List Char)} {here here' : Children}
    {above above' : List (String × Children)} {location : Location}
    (hhere : (Entry.directory here).Keeps (.directory here'))
    (habove : List.Forall₂ (fun one other => one.1 = other.1 ∧
      (Entry.directory one.2).Keeps (.directory other.2)) above above')
    (h : walk here above segments = .ok location) : walk here' above' segments = .ok location := by
  induction segments generalizing here here' above above' with
  | nil =>
    have hnames : above.map Prod.fst = above'.map Prod.fst := by
      clear h
      induction habove with
      | nil => rfl
      | cons hfirst _ ih => rw [List.map_cons, List.map_cons, hfirst.1, ih]
    rw [walk, ← hnames]
    exact h
  | cons segment segments ih =>
    unfold walk at h ⊢
    split at h
    · rename_i hdot
      rw [if_pos hdot]
      exact ih hhere habove h
    · rename_i hdot
      rw [if_neg hdot]
      split at h
      · rename_i hparent
        rw [if_pos hparent]
        cases habove with
        | nil => exact ih hhere .nil h
        | cons hfirst hrest => exact ih hfirst.2 hrest h
      · rename_i hparent
        rw [if_neg hparent]
        split at h
        · cases h
        · cases h
        · rename_i children hnamed
          obtain ⟨hlength, hlookup⟩ := named_eq_ok.1 hnamed
          obtain ⟨children', hlookup', hkeeps⟩ := hhere.lookup hlookup
          rw [named_eq_ok.2 ⟨hlength, hlookup'⟩]
          refine ih hkeeps (List.Forall₂.cons ?_ habove) h
          exact ⟨rfl, hhere⟩

end Tree

/-! ## Erasing -/

namespace Entry

theorem lookup_filter_ne (children : Children) (name other : String) :
    (children.filter (·.1 != name)).lookup other =
      if other = name then none else children.lookup other := by
  induction children with
  | nil => simp
  | cons child children ih =>
    obtain ⟨key, entry⟩ := child
    by_cases hkey : key = name
    · rw [List.filter_cons_of_neg (by simp [hkey]), ih]
      grind
    · rw [List.filter_cons_of_pos (by simpa using hkey), List.lookup_cons, ih]
      grind

theorem lookup_map_at (children : Children) (name other : String) (change : Entry → Entry) :
    (children.map fun child => if child.1 == name then (name, change child.2) else child).lookup
        other =
      if other = name then (children.lookup name).map change else children.lookup other := by
  induction children with
  | nil => simp
  | cons child children ih =>
    obtain ⟨key, entry⟩ := child
    rw [List.map_cons]
    by_cases hkey : key = name
    · rw [if_pos (by simpa using hkey), List.lookup_cons, ih]
      grind
    · rw [if_neg (by simpa using hkey), List.lookup_cons, ih]
      grind

/-- What a directory holds after something below it is erased. -/
theorem erase_directory (children : Children) (name : String) (names : Location) :
    ∃ others : Children, (directory children).erase (name :: names) = directory others ∧
      ∀ other, others.lookup other =
        if other = name then
          if names = [] then none else (children.lookup name).map (·.erase names)
        else children.lookup other := by
  rw [erase]
  split
  · rename_i hnames
    rw [List.isEmpty_iff] at hnames
    refine ⟨_, rfl, fun other => ?_⟩
    rw [lookup_filter_ne, if_pos hnames]
  · rename_i hnames
    rw [List.isEmpty_iff] at hnames
    refine ⟨_, rfl, fun other => ?_⟩
    rw [if_neg hnames]
    exact lookup_map_at children name other (·.erase names)

/-- What is erased is gone. -/
theorem at?_erase_self (entry : Entry) {location : Location} (hne : location ≠ []) :
    (entry.erase location).at? location = none := by
  induction location generalizing entry with
  | nil => exact absurd rfl hne
  | cons name names ih =>
    cases entry with
    | file content => rfl
    | directory children =>
      obtain ⟨others, herase, hlookup⟩ := erase_directory children name names
      rw [herase, at?, hlookup, if_pos rfl]
      split
      · rfl
      · rename_i hnames
        cases children.lookup name with
        | none => rfl
        | some inner => exact ih inner hnames

/-- Erasing a file leaves the directories. -/
theorem keeps_erase {entry : Entry} {location : Location} {content : ByteArray}
    (h : entry.at? location = some (.file content)) : entry.Keeps (entry.erase location) := by
  induction location generalizing entry with
  | nil => exact fun place children hplace => ⟨children, hplace⟩
  | cons name names ih =>
    cases entry with
    | file _ => cases h
    | directory children =>
      obtain ⟨others, herase, hlookup⟩ := erase_directory children name names
      rw [herase]
      intro place found hplace
      cases place with
      | nil => exact ⟨others, rfl⟩
      | cons other rest =>
        rw [at?] at h hplace ⊢
        rw [hlookup]
        by_cases hother : other = name
        · subst hother
          cases hinner : children.lookup other with
          | none => simp [hinner] at h
          | some inner =>
            rw [hinner, Option.bind_some] at h hplace
            rw [if_pos rfl]
            split
            · rename_i hnames
              subst hnames
              -- No directory is below the file.
              obtain rfl := Option.some.inj h
              cases rest <;> simp [at?] at hplace
            · exact ih h rest found hplace
        · rw [if_neg hother]
          exact ⟨found, hplace⟩

end Entry

/-! ## Files at paths -/

namespace Tree

/-- Whether there is a file at a path. -/
def HasFile (tree : Tree) (path : Path) : Prop := ∃ content, tree.lookup path = .ok (.file content)

theorem root_erase (tree : Tree) (location : Location) :
    Entry.directory (tree.erase location).root = (Entry.directory tree.root).erase location := by
  unfold erase withRoot
  cases location with
  | nil => rfl
  | cons name names =>
    obtain ⟨others, herase, -⟩ := Entry.erase_directory tree.root name names
    rw [herase]

/-- A path leads to the same name after a file is erased. -/
theorem target_erase {tree : Tree} {location directory : Location} {content : ByteArray}
    {path : Path} {name : List Char} {slash : Bool}
    (hfile : tree.entry? location = some (.file content))
    (h : tree.target path = .ok (.name directory name slash)) :
    (tree.erase location).target path = .ok (.name directory name slash) := by
  have hworking : (tree.erase location).working = tree.working := by
    unfold erase withRoot
    split <;> rfl
  have hkeeps : (Entry.directory tree.root).Keeps (.directory (tree.erase location).root) :=
    root_erase tree location ▸ Entry.keeps_erase hfile
  unfold target at h ⊢
  simp only at h ⊢
  rw [hworking]
  split at h
  · cases h
  · rename_i hzero
    rw [if_neg hzero]
    split at h
    · cases h
    · rename_i hempty
      rw [if_neg hempty]
      split at h
      · cases h
      · rename_i hlong
        rw [if_neg hlong]
        split at h
        · cases h
        · rename_i last hlast
          split at h
          · cases h
          · rename_i found hwalk
            rw [walk_of_keeps hkeeps .nil hwalk]
            exact h

theorem hasFile_iff {tree : Tree} {path : Path} :
    tree.HasFile path ↔ ∃ directory name content,
      tree.target path = .ok (.name directory name false) ∧
      tree.child directory name = .ok (.file content) := by
  unfold HasFile lookup
  cases htarget : tree.target path with
  | error fault => simp [bind, Except.bind]
  | ok target =>
    cases target with
    | directory => simp [bind, Except.bind, pure, Except.pure]
    | name directory name slash =>
      cases hchild : tree.child directory name with
      | error fault => simp [bind, Except.bind, hchild]
      | ok entry =>
        cases entry <;> cases slash <;>
          simp [bind, Except.bind, pure, Except.pure, hchild, throw, throwThe, MonadExceptOf.throw]

theorem remove_eq_ok {tree after : Tree} {path : Path} :
    tree.remove path = .ok after ↔ ∃ directory name content,
      tree.target path = .ok (.name directory name false) ∧
      tree.child directory name = .ok (.file content) ∧
      after = tree.erase (directory ++ [String.ofList name]) := by
  unfold remove
  cases htarget : tree.target path with
  | error fault => simp [bind, Except.bind]
  | ok target =>
    cases target with
    | directory => simp [bind, Except.bind, throw, throwThe, MonadExceptOf.throw]
    | name directory name slash =>
      cases hchild : tree.child directory name with
      | error fault => simp [bind, Except.bind, hchild]
      | ok entry =>
        cases entry <;> cases slash <;>
          simp [bind, Except.bind, pure, Except.pure, hchild, throw, throwThe, MonadExceptOf.throw,
            eq_comm]

/-- A file can be removed. -/
theorem remove_of_hasFile {tree : Tree} {path : Path} (h : tree.HasFile path) :
    ∃ after, tree.remove path = .ok after := by
  obtain ⟨directory, name, content, htarget, hchild⟩ := hasFile_iff.1 h
  exact ⟨_, remove_eq_ok.2 ⟨directory, name, content, htarget, hchild, rfl⟩⟩

/-- After a file is removed there is none. -/
theorem not_hasFile_of_remove {tree after : Tree} {path : Path} (h : tree.remove path = .ok after) :
    ¬ after.HasFile path := by
  obtain ⟨directory, name, content, htarget, hchild, rfl⟩ := remove_eq_ok.1 h
  have hfile := (named_eq_ok.1 hchild).2
  rw [hasFile_iff]
  rintro ⟨directory', name', content', htarget', hchild'⟩
  rw [target_erase hfile htarget] at htarget'
  simp only [Except.ok.injEq, Target.name.injEq, and_true] at htarget'
  obtain ⟨rfl, rfl⟩ := htarget'
  have hgone := (named_eq_ok.1 hchild').2
  rw [ entry?, root_erase, Entry.at?_erase_self _ (by simp)] at hgone
  cases hgone

end Tree

end RobotSketch
