import Mathlib
import RobotSketch.Proofs.Registry

/-!
# Histories of a registry

A registry comes out of a history: bodies are registered, and now and then it is cleared. Only what
was registered since the last clear counts (`replay_eq_registerAll`), and of that the first body
under each identity (`get?_registerAll_iff`, `identities_registerAll`).

A registry finds its keys and the names in use by looking through its subroutines. A `Ledger` keeps
them beside the subroutines instead, and goes on counting until it comes to a name that is free. The
two are in step through every history (`Ledger.replay_eq`), which is what makes the set of names of a
ledger the names of its subroutines. The main statement is `replay_invariant`.

The last section is about the words of the language. A subroutine can get any identifier for a name
that is not reserved (`mem_names_iff`), and not every word of the language is.
-/
namespace RobotSketch

open Identifier

/-- Where keys are distinct, each member is found by its own key. -/
theorem find?_of_nodup_map {α : Type} {key : α → String} {members : List α}
    (h : (members.map key).Nodup) {member : α} (hmem : member ∈ members) {wanted : String}
    (hkey : key member = wanted) : members.find? (key · == wanted) = some member := by
  subst hkey
  cases hfind : members.find? (key · == key member) with
  | none => exact absurd (List.find?_eq_none.1 hfind member hmem) (by simp)
  | some found =>
    have hfound : key found = key member := by simpa using List.find?_some hfind
    rw [List.inj_on_of_nodup_map h (List.mem_of_find?_eq_some hfind) hmem hfound]

namespace Registry

variable {β : Type}

/-! ## Where methods come from -/

/-- A method that was not there before was registered for a use. -/
theorem exists_use_of_mem_registerAll {registry : Registry β} {uses : List (String × β)}
    {method : Method β} (h : method ∈ (registry.registerAll uses).methods) :
    method ∈ registry.methods ∨
      ∃ use ∈ uses, method.identity = identity use.1 ∧ method.body = use.2 := by
  induction uses generalizing registry with
  | nil => exact Or.inl h
  | cons use uses ih =>
    rcases ih h with hold | ⟨other, hother, hmethod⟩
    · change method ∈ (registry.register use.1 use.2).2.methods at hold
      cases hget : registry.get? use.1 with
      | some found =>
        rw [register_of_get?_some hget] at hold
        exact Or.inl hold
      | none =>
        rw [register_of_get?_none hget, List.mem_append, List.mem_singleton] at hold
        rcases hold with hold | rfl
        · exact Or.inl hold
        · exact Or.inr ⟨use, List.mem_cons_self, rfl, rfl⟩
    · exact Or.inr ⟨other, List.mem_cons_of_mem _ hother, hmethod⟩

/-- In a sound registry, a method is found under every file of its identity. -/
theorem Sound.get?_of_mem {registry : Registry β} (h : registry.Sound) {method : Method β}
    (hmem : method ∈ registry.methods) {file : String}
    (hidentity : method.identity = identity file) : registry.get? file = some method :=
  find?_of_nodup_map h.identities_nodup hmem hidentity

/-- In a sound registry, a name belongs to one method at most. -/
theorem Sound.eq_of_name_eq {registry : Registry β} (h : registry.Sound) {first second : Method β}
    (hfirst : first ∈ registry.methods) (hsecond : second ∈ registry.methods)
    (hname : first.name = second.name) : first = second :=
  List.inj_on_of_nodup_map h.names_nodup hfirst hsecond hname

theorem get?_register_eq_none_iff {registry : Registry β} {file other : String} {body : β} :
    (registry.register other body).2.get? file = none ↔
      registry.get? file = none ∧ identity other ≠ identity file := by
  cases hget : registry.get? other with
  | some method =>
    rw [register_of_get?_some hget]
    refine ⟨fun hnone => ⟨hnone, fun heq => ?_⟩, And.left⟩
    rw [get?_congr registry heq, hnone] at hget
    cases hget
  | none =>
    rw [register_of_get?_none hget, get?_eq_none_iff, get?_eq_none_iff]
    simp [identities, eq_comm]

/-- A file is not found exactly if nothing was registered under its identity. -/
theorem get?_registerAll_eq_none_iff {registry : Registry β} {uses : List (String × β)}
    {file : String} : (registry.registerAll uses).get? file = none ↔
      registry.get? file = none ∧ ∀ use ∈ uses, identity use.1 ≠ identity file := by
  induction uses generalizing registry with
  | nil => simp [registerAll]
  | cons use uses ih =>
    show ((registry.register use.1 use.2).2.registerAll uses).get? file = none ↔ _
    rw [ih, get?_register_eq_none_iff, List.forall_mem_cons, and_assoc]

/-- Of bodies registered one after the other, one is the first under the identity of a file. -/
structure IsFirst (uses : List (String × β)) (file : String) (before : List (String × β))
    (use : String × β) : Prop where
  split : ∃ after, uses = before ++ use :: after
  identity_eq : identity use.1 = identity file
  earlier : ∀ other ∈ before, identity other.1 ≠ identity file

/-- If anything was registered under the identity of a file, one was the first. -/
theorem exists_isFirst {uses : List (String × β)} {file : String}
    (h : ∃ use ∈ uses, identity use.1 = identity file) : ∃ before use, IsFirst uses file before use := by
  obtain ⟨use, hmem, hidentity⟩ := h
  have hsome : (uses.find? (identity ·.1 == identity file)).isSome :=
    List.find?_isSome.2 ⟨use, hmem, by simpa using hidentity⟩
  obtain ⟨first, hfirst⟩ := Option.isSome_iff_exists.1 hsome
  obtain ⟨hidentity, before, after, hsplit, hbefore⟩ := List.find?_eq_some_iff_append.1 hfirst
  exact ⟨before, first, ⟨after, hsplit⟩, by simpa using hidentity, by simpa using hbefore⟩

namespace IsFirst

variable {uses before : List (String × β)} {file : String} {use : String × β}

/-- The first body under an identity is registered in a subroutine of its own. -/
theorem register_eq (h : IsFirst uses file before use) :
    (registerAll empty before).register use.1 use.2 =
      (⟨identity file, uniqueName (registerAll empty before).names (ofFile use.1), use.2⟩,
        ⟨(registerAll empty before).methods ++
          [⟨identity file, uniqueName (registerAll empty before).names (ofFile use.1), use.2⟩]⟩) := by
  have hnone : (registerAll empty before).get? use.1 = none := by
    rw [get?_congr _ h.identity_eq, get?_registerAll_eq_none_iff]
    exact ⟨rfl, h.earlier⟩
  rw [register_of_get?_none hnone, h.identity_eq]

/-- The subroutine of the first body is found under its identity from then on. -/
theorem get?_registerAll (h : IsFirst uses file before use) :
    (registerAll empty uses).get? file =
      some ((registerAll empty before).register use.1 use.2).1 := by
  obtain ⟨after, rfl⟩ := h.split
  have hgrows := methods_prefix_registerAll ((registerAll empty before).register use.1 use.2).2 after
  rw [registerAll_append, ← get?_congr _ h.identity_eq]
  exact get?_of_isPrefix hgrows (get?_register _ use.1 use.2)

end IsFirst

/-- What is found under the identity of a file is the subroutine of the first body. -/
theorem get?_registerAll_iff {uses : List (String × β)} {file : String} {method : Method β} :
    (registerAll empty uses).get? file = some method ↔
      ∃ before use, IsFirst uses file before use ∧
        method = ((registerAll empty before).register use.1 use.2).1 := by
  constructor
  · intro hget
    have hsome : ∃ use ∈ uses, identity use.1 = identity file := by
      by_contra hnone
      push Not at hnone
      rw [get?_registerAll_eq_none_iff.2 ⟨rfl, hnone⟩] at hget
      cases hget
    obtain ⟨before, use, hfirst⟩ := exists_isFirst hsome
    rw [hfirst.get?_registerAll] at hget
    exact ⟨before, use, hfirst, (Option.some.inj hget).symm⟩
  · rintro ⟨before, use, hfirst, rfl⟩
    exact hfirst.get?_registerAll

/-- A body is stored under its identity, at the end, unless the identity is there. -/
theorem identities_register (registry : Registry β) (file : String) (body : β) :
    (registry.register file body).2.identities =
      if identity file ∈ registry.identities then registry.identities
      else registry.identities ++ [identity file] := by
  cases hget : registry.get? file with
  | some method =>
    have hmem : identity file ∈ registry.identities := by
      by_contra hnot
      rw [get?_eq_none_iff.2 hnot] at hget
      cases hget
    rw [register_of_get?_some hget, if_pos hmem]
  | none =>
    rw [register_of_get?_none hget, if_neg (get?_eq_none_iff.1 hget)]
    simp [identities]

/-- The identities are those of what was registered, in order, each where it comes first. -/
theorem identities_registerAll (uses : List (String × β)) :
    (registerAll empty uses).identities = (uses.map (identity ·.1)).eraseDups := by
  induction uses using List.reverseRecOn with
  | nil => rfl
  | append_singleton uses use ih =>
    have hlast : (registerAll empty (uses ++ [use])).identities =
        ((registerAll empty uses).register use.1 use.2).2.identities := by
      rw [registerAll_append]
      rfl
    rw [hlast, identities_register, ih, List.map_append, List.eraseDups_append]
    simp only [List.mem_eraseDups, List.map_cons, List.map_nil, List.removeAll]
    split
    · next hmem => simp [hmem]
    · next hnew => simp [hnew, List.eraseDups_cons]

/-! ## Histories -/

/-- What can be done to a registry. -/
inductive Operation (β : Type) where
  | register (file : String) (body : β)
  | clear
  deriving DecidableEq, Repr

def apply (registry : Registry β) : Operation β → Registry β
  | .register file body => (registry.register file body).2
  | .clear => empty

def replay (history : List (Operation β)) : Registry β := history.foldl apply empty

/-- What has been registered, after one more operation. -/
def addUse (uses : List (String × β)) : Operation β → List (String × β)
  | .register file body => uses ++ [(file, body)]
  | .clear => []

/-- What has been registered since the last clear, in order. -/
def sinceClear (history : List (Operation β)) : List (String × β) := history.foldl addUse []

/-- Only what was registered since the last clear counts. -/
theorem replay_eq_registerAll (history : List (Operation β)) :
    replay history = registerAll empty (sinceClear history) := by
  have hstep : ∀ uses (operation : Operation β), (registerAll empty uses).apply operation =
      registerAll empty (addUse uses operation) := by
    intro uses operation
    cases operation with
    | register file body => rw [addUse, registerAll_append]; rfl
    | clear => rfl
  have hfold : ∀ uses, history.foldl apply (registerAll empty uses) =
      registerAll empty (history.foldl addUse uses) := by
    induction history with
    | nil => exact fun _ => rfl
    | cons operation history ih =>
      intro uses
      rw [List.foldl_cons, List.foldl_cons, hstep, ih]
  exact hfold []

theorem sound_replay (history : List (Operation β)) : (replay history).Sound := by
  rw [replay_eq_registerAll]
  exact sound_empty.registerAll _

end Registry

/-! ## Ledgers -/

/-- A registry as it is kept: the subroutines under their keys, in the order of registration, and
beside them the set of the names in use. -/
structure Ledger (β : Type) where
  entries : List (String × Method β)
  names : Finset String

namespace Ledger

variable {β : Type}

def empty : Ledger β := ⟨[], ∅⟩

def get? (ledger : Ledger β) (file : String) : Option (Method β) :=
  (ledger.entries.find? (·.1 == identity file)).map (·.2)

/-- However many names are in use, some number gives one that is not. -/
theorem exists_free (names : Finset String) (base : String) :
    ∃ n, base ++ "_" ++ Text.ofNat (n + 2) ∉ names := by
  have hinjective : Function.Injective fun n => base ++ "_" ++ Text.ofNat (n + 2) := by
    intro m n heq
    have hnumbers := Registry.numbered_inj heq
    omega
  obtain ⟨n, hn⟩ := Infinite.exists_notMem_finset (names.preimage _ hinjective.injOn)
  exact ⟨n, fun hmem => hn (Finset.mem_preimage.2 hmem)⟩

/-- The first of `base`, `base_2`, `base_3`, … that is not in use. -/
def freeName (names : Finset String) (base : String) : String :=
  if base ∈ names then base ++ "_" ++ Text.ofNat (Nat.find (exists_free names base) + 2) else base

/-- Registers a body for a file, unless there is a subroutine under its key. -/
def register (ledger : Ledger β) (file : String) (body : β) : Method β × Ledger β :=
  match ledger.get? file with
  | some method => (method, ledger)
  | none =>
    let method : Method β := ⟨identity file, freeName ledger.names (ofFile file), body⟩
    (method, ⟨ledger.entries ++ [(identity file, method)], insert method.name ledger.names⟩)

def apply (ledger : Ledger β) : Registry.Operation β → Ledger β
  | .register file body => (ledger.register file body).2
  | .clear => empty

def replay (history : List (Registry.Operation β)) : Ledger β := history.foldl apply empty

/-- The ledger of a registry. -/
def ofRegistry (registry : Registry β) : Ledger β :=
  ⟨registry.methods.map fun method => (method.identity, method), registry.names.toFinset⟩

/-- Trying one candidate more than names are taken comes to the same name as going on until one is
free. -/
theorem freeName_toFinset (taken : List String) (base : String) :
    freeName taken.toFinset base = Registry.uniqueName taken base := by
  unfold freeName Registry.uniqueName
  rw [Registry.candidates_eq, List.find?_cons]
  by_cases hbase : base ∈ taken
  · have hlt : Nat.find (exists_free taken.toFinset base) < taken.length := by
      obtain ⟨name, hname, hfree⟩ := Registry.exists_candidate taken base
      rcases Registry.mem_candidates.1 hname with rfl | ⟨n, hn, rfl⟩
      · exact absurd hbase hfree
      · exact lt_of_le_of_lt (Nat.find_min' _ (by simpa using hfree)) hn
    have hspec := Nat.find_spec (exists_free taken.toFinset base)
    have hmin : ∀ n < Nat.find (exists_free taken.toFinset base), _ :=
      fun n hn => Nat.find_min (exists_free taken.toFinset base) hn
    generalize Nat.find (exists_free taken.toFinset base) = number at hlt hspec hmin
    have hfind : (List.range taken.length).find?
        ((!taken.contains ·) ∘ fun n => base ++ "_" ++ Text.ofNat (n + 2)) = some number :=
      List.find?_range_eq_some.2 ⟨by simpa using hspec, List.mem_range.2 hlt, by simpa using hmin⟩
    rw [if_pos (by simpa using hbase), List.find?_map, hfind]
    simp [hbase]
  · rw [if_neg (by simpa using hbase)]
    simp [hbase]

@[simp] theorem get?_ofRegistry (registry : Registry β) (file : String) :
    (ofRegistry registry).get? file = registry.get? file := by
  unfold get? ofRegistry Registry.get?
  rw [List.find?_map, Option.map_map]
  exact Option.map_id'

/-- A ledger and a registry that are in step stay so. -/
theorem register_ofRegistry (registry : Registry β) (file : String) (body : β) :
    (ofRegistry registry).register file body =
      ((registry.register file body).1, ofRegistry (registry.register file body).2) := by
  unfold register
  rw [get?_ofRegistry]
  cases hget : registry.get? file with
  | some method => rw [Registry.register_of_get?_some hget]
  | none =>
    have hname : freeName (ofRegistry registry).names (ofFile file) =
        Registry.uniqueName registry.names (ofFile file) := freeName_toFinset ..
    rw [Registry.register_of_get?_none hget]
    simp only [hname]
    simp [ofRegistry, Registry.names]

/-- A ledger and a registry are in step through every history. -/
theorem replay_eq (history : List (Registry.Operation β)) :
    replay history = ofRegistry (Registry.replay history) := by
  have hstep : ∀ registry (operation : Registry.Operation β),
      (ofRegistry registry).apply operation = ofRegistry (registry.apply operation) := by
    intro registry operation
    cases operation with
    | register file body => rw [apply, register_ofRegistry]; rfl
    | clear => rfl
  have hfold : ∀ registry : Registry β, history.foldl apply (ofRegistry registry) =
      ofRegistry (history.foldl Registry.apply registry) := by
    induction history with
    | nil => exact fun _ => rfl
    | cons operation history ih =>
      intro registry
      rw [List.foldl_cons, List.foldl_cons, hstep, ih]
  exact hfold Registry.empty

/-- The two stores of a ledger agree, and its names and keys are in order. -/
structure Consistent (ledger : Ledger β) : Prop where
  names_eq : ledger.names = (ledger.entries.map (·.2.name)).toFinset
  names_nodup : (ledger.entries.map (·.2.name)).Nodup
  named : ∀ entry ∈ ledger.entries, IsIdentifier entry.2.name.toList ∧ entry.2.name ∉ reserved
  keys_eq : ∀ entry ∈ ledger.entries, entry.1 = entry.2.identity
  keys_nodup : (ledger.entries.map (·.1)).Nodup

theorem consistent_ofRegistry {registry : Registry β} (h : registry.Sound) :
    (ofRegistry registry).Consistent := by
  have hnames : (ofRegistry registry).entries.map (·.2.name) = registry.names := by
    simp [ofRegistry, Registry.names]
  have hkeys : (ofRegistry registry).entries.map (·.1) = registry.identities := by
    simp [ofRegistry, Registry.identities]
  refine ⟨?_, ?_, ?_, ?_, ?_⟩
  · rw [hnames]
    rfl
  · rw [hnames]
    exact h.names_nodup
  · simpa [ofRegistry] using h.named
  · simp [ofRegistry]
  · rw [hkeys]
    exact h.identities_nodup

/-- A ledger holds the subroutines of a registry, and answers as the registry does. -/
structure Keeps (ledger : Ledger β) (registry : Registry β) : Prop where
  methods : ledger.entries.map (·.2) = registry.methods
  get? : ∀ file, ledger.get? file = registry.get? file
  register : ∀ file body, ledger.register file body =
    ((registry.register file body).1, ofRegistry (registry.register file body).2)

theorem keeps_ofRegistry (registry : Registry β) : (ofRegistry registry).Keeps registry where
  methods := by simp [ofRegistry, Function.comp_def]
  get? := get?_ofRegistry registry
  register := register_ofRegistry registry

end Ledger

namespace Registry

variable {β : Type}

/-- Whatever is registered and whenever it is cleared: a ledger keeps the subroutines of the registry
with its two stores in agreement, names and identities are not repeated, and each name is an
identifier that is not reserved. Registering under an identity that is there returns its subroutine
and changes nothing; under a new one it adds one subroutine at the end. What is found for a file is
the subroutine of the first body registered under its identity since the last clear. -/
theorem replay_invariant (history : List (Operation β)) :
    let registry := replay history
    let ledger := Ledger.replay history
    ledger.Keeps registry ∧ ledger.Consistent ∧
    (∀ method ∈ registry.methods, ∀ file body, identity file = method.identity →
      registry.register file body = (method, registry)) ∧
    (∀ file body, identity file ∉ registry.identities →
      ∃ method, method.identity = identity file ∧ method.body = body ∧
        registry.register file body = (method, ⟨registry.methods ++ [method]⟩)) ∧
    (∀ file method, registry.get? file = some method ↔
      ∃ before use, IsFirst (sinceClear history) file before use ∧
        method = ((registerAll empty before).register use.1 use.2).1 ∧
        method.identity = identity file ∧ method.body = use.2) ∧
    ∀ file, registry.get? file = none ↔
      ∀ use ∈ sinceClear history, identity use.1 ≠ identity file := by
  intro registry ledger
  have hsound : registry.Sound := sound_replay history
  have hledger : ledger = Ledger.ofRegistry registry := Ledger.replay_eq history
  have hregistry : registry = registerAll empty (sinceClear history) := replay_eq_registerAll history
  rw [hledger]
  refine ⟨Ledger.keeps_ofRegistry registry, Ledger.consistent_ofRegistry hsound, ?_, ?_, ?_, ?_⟩
  · intro method hmem file body hidentity
    exact register_of_get?_some (hsound.get?_of_mem hmem hidentity.symm) body
  · intro file body hnew
    refine ⟨⟨identity file, uniqueName registry.names (ofFile file), body⟩, rfl, rfl, ?_⟩
    exact register_of_get?_none (get?_eq_none_iff.2 hnew) body
  · intro file method
    rw [hregistry, get?_registerAll_iff]
    constructor
    · rintro ⟨before, use, hfirst, rfl⟩
      exact ⟨before, use, hfirst, rfl, by rw [hfirst.register_eq], by rw [hfirst.register_eq]⟩
    · rintro ⟨before, use, hfirst, hmethod, -⟩
      exact ⟨before, use, hfirst, hmethod⟩
  · intro file
    rw [hregistry, get?_registerAll_eq_none_iff]
    exact and_iff_right rfl

/-- After a clear, the second of two files that come to the same identifier has to pass over the name
that a third one was given. -/
theorem sample_replay_invariant :
    let history : List (Operation Nat) := [.register "ab.xml" 1, .clear, .register "a b.xml" 2,
      .register "ab_2.xml" 3, .register "ab.xml" 4]
    (Ledger.replay history).Consistent ∧
    (Ledger.replay history).names = {"ab", "ab_2", "ab_3"} ∧
    (replay history).get? "AB.XML" = some ⟨"ab.xml", "ab_3", 4⟩ ∧
    (replay history).register "AB.XML" 5 = (⟨"ab.xml", "ab_3", 4⟩, replay history) := by
  intro history
  obtain ⟨-, hconsistent, hpresent, -, hfound, -⟩ := replay_invariant history
  have hmethods : (replay history).methods =
      [⟨"a b.xml", "ab", 2⟩, ⟨"ab_2.xml", "ab_2", 3⟩, ⟨"ab.xml", "ab_3", 4⟩] := by decide
  have hidentity : identity "AB.XML" = "ab.xml" := by decide
  refine ⟨hconsistent, ?_, ?_, ?_⟩
  · rw [Ledger.replay_eq, Ledger.ofRegistry, names, hmethods]
    rfl
  · refine (hfound _ _).2 ⟨[("a b.xml", 2), ("ab_2.xml", 3)], ("ab.xml", 4), ⟨⟨[], rfl⟩, ?_, ?_⟩,
      ?_, hidentity.symm, rfl⟩
    · decide
    · decide
    · decide
  · have hmem : ⟨"ab.xml", "ab_3", 4⟩ ∈ (replay history).methods := by
      rw [hmethods]
      simp
    exact hpresent _ hmem "AB.XML" 5 hidentity

end Registry

/-! ## Words of the language -/

namespace Identifier

/-- The keywords of the language, and its operators that are written as words. -/
def keywords : List String := [
  "alignas", "alignof", "asm", "auto", "bool", "break", "case", "catch", "char", "char16_t",
  "char32_t", "class", "const", "constexpr", "const_cast", "continue", "decltype", "default",
  "delete", "do", "double", "dynamic_cast", "else", "enum", "explicit", "export", "extern", "false",
  "float", "for", "friend", "goto", "if", "inline", "int", "long", "mutable", "namespace", "new",
  "noexcept", "nullptr", "operator", "private", "protected", "public", "register",
  "reinterpret_cast", "return", "short", "signed", "sizeof", "static", "static_assert",
  "static_cast", "struct", "switch", "template", "this", "thread_local", "throw", "true", "try",
  "typedef", "typeid", "typename", "union", "unsigned", "using", "virtual", "void", "volatile",
  "wchar_t", "while",
  "and", "and_eq", "bitand", "bitor", "compl", "not", "not_eq", "or", "or_eq", "xor", "xor_eq"]

theorem isIdentifier_keyword : ∀ keyword ∈ keywords, IsIdentifier keyword.toList := by
  decide

/-- No character of an identifier is a blank. -/
theorem isBlank_of_isPart {c : Char} (h : isPart c = true) : Text.isBlank c = false := by
  simp only [isPart, isLetter, isFigure, Bool.or_eq_true, Bool.and_eq_true, decide_eq_true_eq,
    beq_iff_eq, Char.le_def, UInt32.le_iff_toNat_le] at h
  have hrange : (48 ≤ c.toNat ∧ c.toNat ≤ 57) ∨ (65 ≤ c.toNat ∧ c.toNat ≤ 90) ∨ c.toNat = 95 ∨
      (97 ≤ c.toNat ∧ c.toNat ≤ 122) := by
    rcases h with ((h | h) | h) | rfl
    · exact .inr (.inr (.inr h))
    · exact .inr (.inl h)
    · exact .inl h
    · exact .inr (.inr (.inl rfl))
  simp only [Text.isBlank]
  generalize c.toNat = n at hrange
  simp
  omega

theorem trim_of_parts {cs : List Char} (h : ∀ c ∈ cs, isPart c = true) : Text.trim cs = cs :=
  Text.trim_of_not_blank fun c hc => isBlank_of_isPart (h c hc)

theorem fileName_of_parts {cs : List Char} (h : ∀ c ∈ cs, isPart c = true) : fileName cs = cs := by
  have hpieces : cs.splitOnP (fun c => c == '/' || c == '\\') = [cs] := by
    refine List.splitOnP_eq_singleton fun c hc => ?_
    have hslash : c ≠ '/' := fun heq => absurd (h c hc) (heq ▸ by decide)
    have hback : c ≠ '\\' := fun heq => absurd (h c hc) (heq ▸ by decide)
    simp [hslash, hback]
  rw [fileName, Text.pieces, hpieces]
  rfl

theorem stemOf_of_parts {cs : List Char} (h : ∀ c ∈ cs, isPart c = true) : Path.stemOf cs = cs := by
  have hnone : Text.afterLast ['.'] cs = none := by
    induction cs with
    | nil => rfl
    | cons c cs ih =>
      have hdot : '.' ≠ c := fun heq => absurd (h c List.mem_cons_self) (heq ▸ by decide)
      rw [Text.afterLast, ih fun d hd => h d (List.mem_cons_of_mem _ hd)]
      simp [List.isPrefixOf, hdot]
  rw [Path.stemOf, hnone]

theorem cleaned_of_parts {cs : List Char} (h : ∀ c ∈ cs, isPart c = true) : cleaned cs = cs := by
  have hkept : (cs.filter fun c => c != ' ' && c != '-') = cs := by
    refine List.filter_eq_self.2 fun c hc => ?_
    have hspace : c ≠ ' ' := fun heq => absurd (h c hc) (heq ▸ by decide)
    have hhyphen : c ≠ '-' := fun heq => absurd (h c hc) (heq ▸ by decide)
    simp [hspace, hhyphen]
  rw [cleaned, hkept, List.map_congr_left fun c hc => if_pos (h c hc), List.map_id']

theorem named_of_isIdentifier {cs : List Char} (h : IsIdentifier cs) : named cs = cs := by
  obtain ⟨c, rest, rfl⟩ := List.exists_cons_of_ne_nil h.ne_nil
  show (if isFigure c then '_' :: c :: rest else c :: rest) = c :: rest
  rw [if_neg (by simp [h.start c rfl])]

/-- A file that is called by an identifier keeps it, unless it is reserved. -/
theorem ofFile_of_isIdentifier {name : String} (h : IsIdentifier name.toList)
    (hfree : name ∉ reserved) : ofFile name = name := by
  rw [ofFile, trim_of_parts h.parts, fileName_of_parts h.parts, stemOf_of_parts h.parts,
    cleaned_of_parts h.parts, named_of_isIdentifier h, String.ofList_toList, unreserved,
    if_neg (by simpa using hfree)]

end Identifier

namespace Registry

variable {β : Type}

/-- The names that subroutines can get are the identifiers that are not reserved. -/
theorem mem_names_iff (body : β) {name : String} :
    (∃ uses : List (String × β), name ∈ (registerAll empty uses).names) ↔
      IsIdentifier name.toList ∧ name ∉ reserved := by
  constructor
  · rintro ⟨uses, hname⟩
    obtain ⟨method, hmem, rfl⟩ := List.mem_map.1 hname
    exact (sound_empty.registerAll uses).named method hmem
  · rintro ⟨hname, hfree⟩
    have hbase : uniqueName [] (ofFile name) = name := by
      rw [ofFile_of_isIdentifier hname hfree]
      simp [uniqueName, candidates]
    refine ⟨[(name, body)], ?_⟩
    rw [registerAll, List.foldl_cons, List.foldl_nil, register_of_get?_none rfl]
    simp [names, empty, hbase]

/-- A keyword of the language is the name of a subroutine, for some files, exactly if it is not
reserved. -/
theorem keyword_named_iff (body : β) (keyword : String) (h : keyword ∈ keywords) :
    (∃ uses : List (String × β), keyword ∈ (registerAll empty uses).names) ↔
      keyword ∉ reserved := by
  rw [mem_names_iff body]
  exact and_iff_right (isIdentifier_keyword keyword h)

/-- A file can have a keyword for its subroutine's name, which is not reserved. -/
theorem sample_keyword_named :
    ("delete" ∈ keywords ∧ ∃ uses : List (String × List String),
      "delete" ∈ (registerAll empty uses).names) ∧
    (registerAll empty [("delete.xml", ([] : List String))]).names = ["delete"] :=
  ⟨⟨by decide, (keyword_named_iff [] "delete" (by decide)).2 (by decide)⟩,
    by decide⟩

end Registry

end RobotSketch
