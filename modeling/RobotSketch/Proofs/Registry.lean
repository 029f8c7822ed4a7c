import RobotSketch.Code
import RobotSketch.Proofs.Text

/-!
# The registry of subroutines keeps its names apart

Registering a body under a new identity adds one subroutine at the end and changes no other;
registering one under an identity that is there changes nothing. The name a subroutine gets is an
identifier of the language, is not reserved and is not taken, so the invariant `Sound` holds of
every registry that is built by registering.
-/
namespace RobotSketch

namespace Identifier

/-! ## Identifiers -/

/-- An identifier of the language: letters, digits and underscores, the first of which is no
digit. -/
structure IsIdentifier (cs : List Char) : Prop where
  ne_nil : cs ≠ []
  parts : ∀ c ∈ cs, isPart c = true
  start : ∀ c ∈ cs.head?, isFigure c = false

/-- Whether a text is an identifier can be computed. -/
theorem isIdentifier_iff {cs : List Char} : IsIdentifier cs ↔
    (!cs.isEmpty && cs.all isPart && !cs.head?.any isFigure) = true := by
  cases cs with
  | nil => exact ⟨fun h => absurd rfl h.ne_nil, fun h => absurd h (by decide)⟩
  | cons first rest =>
    simp only [List.isEmpty_cons, Bool.not_false, Bool.true_and, List.head?_cons, Option.any_some,
      Bool.and_eq_true, List.all_eq_true, Bool.not_eq_true']
    constructor
    · intro h
      exact ⟨h.parts, h.start first rfl⟩
    · rintro ⟨hparts, hstart⟩
      refine ⟨List.cons_ne_nil _ _, hparts, fun c hc => ?_⟩
      obtain rfl := Option.some.inj hc
      exact hstart

instance (cs : List Char) : Decidable (IsIdentifier cs) := decidable_of_iff _ isIdentifier_iff.symm

theorem IsIdentifier.append {cs more : List Char} (h : IsIdentifier cs)
    (hmore : ∀ c ∈ more, isPart c = true) : IsIdentifier (cs ++ more) := by
  refine ⟨fun hnil => h.ne_nil (List.append_eq_nil_iff.1 hnil).1, fun c hc => ?_, fun c hc => ?_⟩
  · rcases List.mem_append.1 hc with hc | hc
    · exact h.parts c hc
    · exact hmore c hc
  · obtain ⟨first, rest, rfl⟩ := List.exists_cons_of_ne_nil h.ne_nil
    exact h.start c hc

theorem isPart_of_mem_cleaned {stem : List Char} {c : Char} (h : c ∈ cleaned stem) :
    isPart c = true := by
  obtain ⟨d, -, rfl⟩ := List.mem_map.1 h
  split
  · assumption
  · decide

theorem isIdentifier_named {cs : List Char} (h : ∀ c ∈ cs, isPart c = true) :
    IsIdentifier (named cs) := by
  cases cs with
  | nil => decide +kernel
  | cons c cs =>
    show IsIdentifier (if isFigure c then '_' :: c :: cs else c :: cs)
    split
    · refine ⟨by simp, fun d hd => ?_, fun d hd => ?_⟩
      · rcases List.mem_cons.1 hd with rfl | hd
        · decide
        · exact h d hd
      · obtain rfl := Option.some.inj hd
        rfl
    · rename_i hc
      exact ⟨by simp, h, by simpa using hc⟩

theorem isIdentifier_unreserved {name : String} (h : IsIdentifier name.toList) :
    IsIdentifier (unreserved name).toList := by
  unfold unreserved
  split
  · rw [String.toList_append]
    exact h.append (List.all_eq_true.1 (by decide +kernel))
  · exact h

/-- The identifier of a file is one, whatever the file is called. -/
theorem isIdentifier_ofFile (file : String) : IsIdentifier (ofFile file).toList := by
  apply isIdentifier_unreserved
  rw [String.toList_ofList]
  exact isIdentifier_named fun c hc => isPart_of_mem_cleaned hc

/-! ## Reserved names -/

theorem suffix_not_reserved : ∀ name ∈ reserved, ¬ ['E', 'x', 'p', 'r'] <:+ name.toList := by
  decide +kernel

theorem underscore_not_reserved : ∀ name ∈ reserved, '_' ∉ name.toList := by
  decide +kernel

theorem unreserved_not_mem (name : String) : unreserved name ∉ reserved := by
  unfold unreserved
  split
  · intro hmem
    exact suffix_not_reserved _ hmem ⟨name.toList, by simp⟩
  · rename_i h
    simpa using h

theorem ofFile_not_mem_reserved (file : String) : ofFile file ∉ reserved := unreserved_not_mem _

end Identifier

open Identifier

namespace Registry

variable {β : Type}

/-! ## Unique names -/

theorem candidates_eq (base : String) (count : Nat) :
    candidates base count =
      base :: (List.range count).map fun n => base ++ "_" ++ Text.ofNat (n + 2) := rfl

theorem mem_candidates {base name : String} {count : Nat} :
    name ∈ candidates base count ↔
      name = base ∨ ∃ n < count, name = base ++ "_" ++ Text.ofNat (n + 2) := by
  rw [candidates_eq, List.mem_cons, List.mem_map]
  simp only [List.mem_range, eq_comm]

theorem toList_candidate (base : String) (n : Nat) :
    (base ++ "_" ++ Text.ofNat n).toList = base.toList ++ '_' :: Text.digits n := by
  simp [Text.ofNat]

theorem numbered_inj {base : String} {m n : Nat}
    (h : base ++ "_" ++ Text.ofNat m = base ++ "_" ++ Text.ofNat n) : m = n := by
  have := congrArg String.toList h
  rw [toList_candidate, toList_candidate, List.append_right_inj, List.cons.injEq] at this
  exact Text.digits_inj this.2

/-- No two candidates are the same. -/
theorem nodup_candidates (base : String) (count : Nat) : (candidates base count).Nodup := by
  rw [candidates_eq]
  refine List.nodup_cons.2 ⟨fun hmem => ?_, List.pairwise_map.2 (List.nodup_range.imp ?_)⟩
  · obtain ⟨n, -, hn⟩ := List.mem_map.1 hmem
    have := congrArg String.toList hn
    rw [toList_candidate] at this
    simp at this
  · intro m n hne heq
    have := numbered_inj heq
    omega

/-- There is one more candidate than names are taken, so one is free. -/
theorem exists_candidate (taken : List String) (base : String) :
    ∃ name ∈ candidates base taken.length, name ∉ taken := by
  by_cases h : ∃ name ∈ candidates base taken.length, name ∉ taken
  · exact h
  · have hsubset : candidates base taken.length ⊆ taken := by
      intro name hname
      by_cases htaken : name ∈ taken
      · exact htaken
      · exact absurd ⟨name, hname, htaken⟩ h
    have hle := (nodup_candidates base taken.length).length_le_of_subset hsubset
    simp only [candidates, List.length_cons, List.length_map, List.length_range] at hle
    omega

/-- The name that is chosen is a candidate that is not taken. -/
theorem uniqueName_spec (taken : List String) (base : String) :
    uniqueName taken base ∈ candidates base taken.length ∧ uniqueName taken base ∉ taken := by
  obtain ⟨name, hname, hfree⟩ := exists_candidate taken base
  unfold uniqueName
  cases hfind : (candidates base taken.length).find? (!taken.contains ·) with
  | none => exact absurd (List.find?_eq_none.1 hfind name hname) (by simpa using hfree)
  | some found =>
    exact ⟨List.mem_of_find?_eq_some hfind, by simpa using List.find?_some hfind⟩

theorem isIdentifier_uniqueName (taken : List String) {base : String}
    (h : IsIdentifier base.toList) : IsIdentifier (uniqueName taken base).toList := by
  rcases mem_candidates.1 (uniqueName_spec taken base).1 with heq | ⟨n, -, heq⟩
  · rwa [heq]
  · rw [heq, toList_candidate]
    refine h.append fun c hc => ?_
    rcases List.mem_cons.1 hc with rfl | hc
    · decide
    · have : isFigure c = true := Text.isDigit_of_mem_digits hc
      simp [isPart, this]

/-- A name that had to be numbered holds an underscore, which no reserved name does. -/
theorem uniqueName_not_mem_reserved (taken : List String) {base : String} (h : base ∉ reserved) :
    uniqueName taken base ∉ reserved := by
  rcases mem_candidates.1 (uniqueName_spec taken base).1 with heq | ⟨n, -, heq⟩
  · rwa [heq]
  · intro hmem
    refine underscore_not_reserved _ hmem ?_
    rw [heq, toList_candidate]
    simp

/-! ## Looking up -/

/-- The identities under which subroutines are registered. -/
def identities (registry : Registry β) : List String := registry.methods.map (·.identity)

theorem get?_eq_none_iff {registry : Registry β} {file : String} :
    registry.get? file = none ↔ identity file ∉ registry.identities := by
  simp [get?, identities, List.find?_eq_none]

theorem mem_of_get? {registry : Registry β} {file : String} {method : Method β}
    (h : registry.get? file = some method) :
    method ∈ registry.methods ∧ method.identity = identity file :=
  ⟨List.mem_of_find?_eq_some h, by simpa using List.find?_some h⟩

theorem identity_mem_of_get? {registry : Registry β} {file : String} {method : Method β}
    (h : registry.get? file = some method) : identity file ∈ registry.identities := by
  obtain ⟨hmem, hidentity⟩ := mem_of_get? h
  exact List.mem_map.2 ⟨method, hmem, hidentity⟩

/-- Only the identity of a file counts. -/
theorem get?_congr (registry : Registry β) {file other : String}
    (h : identity file = identity other) : registry.get? file = registry.get? other := by
  unfold get?
  rw [h]

/-- A registry that goes on from another one finds what the other one finds. -/
theorem get?_of_isPrefix {first second : Registry β} (h : first.methods <+: second.methods)
    {file : String} {method : Method β} (hget : first.get? file = some method) :
    second.get? file = some method := by
  obtain ⟨rest, hrest⟩ := h
  unfold get? at hget ⊢
  rw [← hrest, List.find?_append, hget]
  rfl

/-! ## Registering -/

theorem register_of_get?_some {registry : Registry β} {file : String} {method : Method β}
    (h : registry.get? file = some method) (body : β) :
    registry.register file body = (method, registry) := by
  unfold register
  rw [h]

theorem register_of_get?_none {registry : Registry β} {file : String}
    (h : registry.get? file = none) (body : β) :
    registry.register file body =
      (⟨identity file, uniqueName registry.names (ofFile file), body⟩,
        ⟨registry.methods ++
          [⟨identity file, uniqueName registry.names (ofFile file), body⟩]⟩) := by
  unfold register
  rw [h]

theorem methods_prefix_register (registry : Registry β) (file : String) (body : β) :
    registry.methods <+: (registry.register file body).2.methods := by
  cases h : registry.get? file with
  | none => rw [register_of_get?_none h]; exact List.prefix_append ..
  | some method => exact ⟨[], by rw [register_of_get?_some h, List.append_nil]⟩

/-- A file that has been registered is found. -/
theorem get?_register (registry : Registry β) (file : String) (body : β) :
    (registry.register file body).2.get? file = some (registry.register file body).1 := by
  cases h : registry.get? file with
  | none =>
    have hfind := h
    rw [register_of_get?_none h]
    unfold get? at hfind ⊢
    rw [List.find?_append, hfind]
    simp
  | some method => rw [register_of_get?_some h, h]

def registerAll (registry : Registry β) (uses : List (String × β)) : Registry β :=
  uses.foldl (fun registry use => (registry.register use.1 use.2).2) registry

theorem registerAll_append (registry : Registry β) (first second : List (String × β)) :
    registry.registerAll (first ++ second) = (registry.registerAll first).registerAll second :=
  List.foldl_append

theorem methods_prefix_registerAll (registry : Registry β) (uses : List (String × β)) :
    registry.methods <+: (registry.registerAll uses).methods := by
  induction uses generalizing registry with
  | nil => exact List.prefix_rfl
  | cons use uses ih =>
    exact (methods_prefix_register registry use.1 use.2).trans
      (ih (registry.register use.1 use.2).2)

/-! ## The invariant -/

/-- What holds of every registry: names and identities are not repeated, and each name is an
identifier that is not reserved. -/
structure Sound (registry : Registry β) : Prop where
  names_nodup : registry.names.Nodup
  identities_nodup : registry.identities.Nodup
  named : ∀ method ∈ registry.methods,
    IsIdentifier method.name.toList ∧ method.name ∉ reserved

theorem sound_empty : (empty : Registry β).Sound :=
  ⟨List.nodup_nil, List.nodup_nil, by simp [empty]⟩

theorem nodup_concat {names : List String} {name : String} (h : names.Nodup)
    (hname : name ∉ names) : (names ++ [name]).Nodup := by
  refine List.nodup_append.2 ⟨h, by simp, ?_⟩
  intro a ha b hb heq
  rw [List.mem_singleton] at hb
  rw [heq, hb] at ha
  exact hname ha

theorem Sound.register {registry : Registry β} (h : registry.Sound) (file : String) (body : β) :
    (registry.register file body).2.Sound := by
  cases hget : registry.get? file with
  | some method => rwa [register_of_get?_some hget]
  | none =>
    rw [register_of_get?_none hget]
    refine ⟨?_, ?_, fun method hmethod => ?_⟩
    · simp only [names, List.map_append, List.map_cons, List.map_nil]
      exact nodup_concat h.names_nodup (uniqueName_spec _ _).2
    · simp only [identities, List.map_append, List.map_cons, List.map_nil]
      exact nodup_concat h.identities_nodup (get?_eq_none_iff.1 hget)
    · rcases List.mem_append.1 hmethod with hmethod | hmethod
      · exact h.named method hmethod
      · rw [List.mem_singleton] at hmethod
        subst hmethod
        exact ⟨isIdentifier_uniqueName _ (isIdentifier_ofFile file),
          uniqueName_not_mem_reserved _ (ofFile_not_mem_reserved file)⟩

theorem Sound.registerAll {registry : Registry β} (h : registry.Sound)
    (uses : List (String × β)) : (registry.registerAll uses).Sound := by
  induction uses generalizing registry with
  | nil => exact h
  | cons use uses ih => exact ih (h.register use.1 use.2)

end Registry

end RobotSketch
