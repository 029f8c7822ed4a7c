import Mathlib.Data.List.Induction
import RobotSketch.Proofs.Text
import RobotSketch.Text

/-!
# Numerals and segments

What the readers of texts accept, said without them. A numeral is a run of decimal digits behind a
sign or none, and the readers of numbers take exactly the numerals whose number fits their width
(`Text.readUInt32?_eq_some_iff`, `Text.readInt64?_eq_some_iff`). The last segment of a text is what
follows the last of its separators (`Text.afterLast_eq_some_iff`).
-/
namespace RobotSketch.Text

/-! ## Digits -/

/-- Digits and the number that they denote: one digit, or digits and one more behind them. -/
inductive Digits : List Char → Nat → Prop where
  | one {d : Nat} (h : d < 10) : Digits [digitChar d] d
  | more {cs : List Char} {n d : Nat} (front : Digits cs n) (h : d < 10) :
    Digits (cs ++ [digitChar d]) (10 * n + d)

theorem exists_digitChar {c : Char} (h : isDigit c = true) :
    ∃ d, d < 10 ∧ c = digitChar d ∧ c.toNat - 48 = d := by
  simp only [isDigit, Bool.and_eq_true, decide_eq_true_eq, Char.le_def,
    UInt32.le_iff_toNat_le] at h
  have hrange : 48 ≤ c.toNat ∧ c.toNat ≤ 57 := h
  refine ⟨c.toNat - 48, by omega, ?_, rfl⟩
  rw [digitChar, show 48 + (c.toNat - 48) = c.toNat by omega, Char.ofNat_toNat]

theorem digitsValue_concat (cs : List Char) (c : Char) :
    digitsValue (cs ++ [c]) = 10 * digitsValue cs + (c.toNat - 48) := by
  rw [digitsValue, List.foldl_append]
  rfl

theorem Digits.isDigit_of_mem {cs : List Char} {n : Nat} (h : Digits cs n) {c : Char}
    (hc : c ∈ cs) : isDigit c = true := by
  induction h with
  | one hd =>
    obtain rfl := List.mem_singleton.1 hc
    exact isDigit_digitChar hd
  | more front hd ih =>
    rcases List.mem_append.1 hc with hc | hc
    · exact ih hc
    · obtain rfl := List.mem_singleton.1 hc
      exact isDigit_digitChar hd

theorem Digits.digitsValue {cs : List Char} {n : Nat} (h : Digits cs n) : digitsValue cs = n := by
  induction h with
  | one hd =>
    show 10 * 0 + ((digitChar _).toNat - 48) = _
    rw [toNat_digitChar hd]
    omega
  | more front hd ih =>
    rw [digitsValue_concat, ih, toNat_digitChar hd]
    omega

theorem Digits.ne_nil {cs : List Char} {n : Nat} (h : Digits cs n) : cs ≠ [] := by
  cases h <;> simp

theorem digits_of_isDigit {cs : List Char} (hne : cs ≠ []) (h : ∀ c ∈ cs, isDigit c = true) :
    Digits cs (digitsValue cs) := by
  induction cs using List.reverseRecOn with
  | nil => exact absurd rfl hne
  | append_singleton front c ih =>
    obtain ⟨d, hd, rfl, hvalue⟩ := exists_digitChar (h c (by simp))
    rw [digitsValue_concat, hvalue]
    cases front with
    | nil =>
      rw [digitsValue, List.foldl_nil, Nat.mul_zero, Nat.zero_add]
      exact .one hd
    | cons first rest =>
      exact .more (ih (by simp) fun c hc => h c (List.mem_append_left _ hc)) hd

theorem readDigits?_eq_some_iff {cs : List Char} {n : Nat} :
    readDigits? cs = some n ↔ Digits cs n := by
  constructor
  · intro h
    unfold readDigits? at h
    split at h
    · cases h
    · rename_i hdigits
      simp only [Bool.or_eq_true, Bool.not_eq_true', not_or, List.isEmpty_iff] at hdigits
      obtain rfl := Option.some.inj h
      exact digits_of_isDigit hdigits.1 (by simpa using hdigits.2)
  · intro h
    have hall : cs.all isDigit = true := List.all_eq_true.2 fun c hc => h.isDigit_of_mem hc
    simp [readDigits?, hall, h.ne_nil, h.digitsValue]

/-! ## Numerals -/

/-- Digits, behind a plus sign or none. -/
inductive Unsigned : List Char → Nat → Prop where
  | plain {cs : List Char} {n : Nat} (h : Digits cs n) : Unsigned cs n
  | plus {cs : List Char} {n : Nat} (h : Digits cs n) : Unsigned ('+' :: cs) n

/-- Digits, behind a sign or none. -/
inductive Signed : List Char → Int → Prop where
  | unsigned {cs : List Char} {n : Nat} (h : Unsigned cs n) : Signed cs n
  | minus {cs : List Char} {n : Nat} (h : Digits cs n) : Signed ('-' :: cs) (-n)

/-- A sign is no digit. -/
theorem Digits.head_ne {c : Char} {cs : List Char} {n : Nat} (h : Digits (c :: cs) n) :
    c ≠ '+' ∧ c ≠ '-' := by
  have hdigit := h.isDigit_of_mem List.mem_cons_self
  constructor
  · rintro rfl
    exact absurd hdigit (by decide)
  · rintro rfl
    exact absurd hdigit (by decide)

theorem readNat?_eq_some_iff {cs : List Char} {n : Nat} :
    readNat? cs = some n ↔ Unsigned cs n := by
  unfold readNat?
  split
  · rename_i cs
    rw [readDigits?_eq_some_iff]
    constructor
    · exact .plus
    · intro h
      cases h with
      | plain h => exact absurd rfl h.head_ne.1
      | plus h => exact h
  · rename_i cs hsign
    rw [readDigits?_eq_some_iff]
    constructor
    · exact .plain
    · intro h
      cases h with
      | plain h => exact h
      | plus h => exact absurd rfl (hsign _)

theorem readInt?_eq_some_iff {cs : List Char} {n : Int} :
    readInt? cs = some n ↔ Signed cs n := by
  unfold readInt?
  split
  · rename_i cs
    constructor
    · intro h
      cases hdigits : readDigits? cs with
      | none =>
        rw [hdigits] at h
        cases h
      | some m =>
        rw [hdigits] at h
        cases h
        exact .minus (readDigits?_eq_some_iff.1 hdigits)
    · intro h
      cases h with
      | unsigned h =>
        cases h with
        | plain h => exact absurd rfl h.head_ne.2
      | minus h =>
        rw [readDigits?_eq_some_iff.2 h]
        rfl
  · rename_i cs hsign
    rw [Option.map_eq_some_iff]
    constructor
    · rintro ⟨m, hm, rfl⟩
      exact .unsigned (readNat?_eq_some_iff.1 hm)
    · intro h
      cases h with
      | unsigned h => exact ⟨_, readNat?_eq_some_iff.2 h, rfl⟩
      | minus h => exact absurd rfl (hsign _)

/-- The texts that read as numbers of thirty-two bits. The type of the number bounds it. -/
theorem readUInt32?_eq_some_iff {cs : List Char} {n : UInt32} :
    readUInt32? cs = some n ↔ Unsigned cs n.toNat := by
  rw [readUInt32?, Option.bind_eq_some_iff, ← readNat?_eq_some_iff]
  constructor
  · rintro ⟨m, hm, h⟩
    split at h
    · obtain rfl := Option.some.inj h
      rw [hm, UInt32.toNat_ofNatLT]
    · cases h
  · intro h
    refine ⟨n.toNat, h, ?_⟩
    rw [dif_pos n.toNat_lt]
    exact congrArg some (UInt32.toNat_inj.1 UInt32.toNat_ofNatLT)

/-- The texts that read as signed numbers of sixty-four bits. -/
theorem readInt64?_eq_some_iff {cs : List Char} {n : Int} :
    readInt64? cs = some n ↔
      Signed cs n ∧ -9223372036854775808 ≤ n ∧ n < 9223372036854775808 := by
  rw [readInt64?, Option.filter_eq_some_iff, readInt?_eq_some_iff]
  simp

/-! ## Segments -/

/-- `rest` is what follows the last occurrence of `word`: it follows an occurrence, and no other
occurrence is followed by less. -/
structure IsAfterLast (word cs rest : List Char) : Prop where
  follows : word ++ rest <:+ cs
  shortest : ∀ other, word ++ other <:+ cs → rest.length ≤ other.length

theorem IsAfterLast.unique {word cs rest rest' : List Char} (h : IsAfterLast word cs rest)
    (h' : IsAfterLast word cs rest') : rest = rest' := by
  have hlength : rest.length = rest'.length :=
    Nat.le_antisymm (h.shortest rest' h'.follows) (h'.shortest rest h.follows)
  have hrest : rest <:+ cs := (List.suffix_append word rest).trans h.follows
  have hrest' : rest' <:+ cs := (List.suffix_append word rest').trans h'.follows
  exact (List.suffix_of_suffix_length_le hrest hrest' (Nat.le_of_eq hlength)).eq_of_length hlength

theorem afterLast_eq_none_iff {word : List Char} (hword : word ≠ []) (cs : List Char) :
    afterLast word cs = none ↔ ¬word <:+: cs := by
  induction cs with
  | nil => simp [afterLast, hword]
  | cons c cs ih =>
    rw [afterLast, List.infix_cons_iff, not_or, ← ih, ← List.isPrefixOf_iff_prefix]
    cases afterLast word cs with
    | none => simp
    | some rest => simp

theorem isAfterLast_of_afterLast {word cs rest : List Char} (hword : word ≠ [])
    (h : afterLast word cs = some rest) : IsAfterLast word cs rest := by
  induction cs with
  | nil => cases h
  | cons c cs ih =>
    rw [afterLast] at h
    cases htail : afterLast word cs with
    | some rest' =>
      -- a later occurrence counts, and it is followed by less than the whole text
      simp only [htail] at h
      obtain rfl := Option.some.inj h
      obtain ⟨hfollows, hshortest⟩ := ih htail
      refine ⟨hfollows.trans (List.suffix_cons c cs), fun other hother => ?_⟩
      rcases List.suffix_cons_iff.1 hother with heq | hother
      · have hless := hfollows.length_le
        have hwhole := congrArg List.length heq
        simp only [List.length_append, List.length_cons] at hless hwhole
        omega
      · exact hshortest other hother
    | none =>
      simp only [htail] at h
      split at h
      · rename_i hstarts
        obtain rfl := Option.some.inj h
        have hwhole := eq_append_drop_of_isPrefixOf hstarts
        refine ⟨hwhole ▸ List.suffix_refl _, fun other hother => ?_⟩
        rcases List.suffix_cons_iff.1 hother with heq | hother
        · have hsame : List.drop word.length (c :: cs) = other := by rw [← heq, List.drop_left]
          exact Nat.le_of_eq (congrArg List.length hsame)
        · have hinside : word <:+: cs :=
            (List.prefix_append word other).isInfix.trans hother.isInfix
          exact absurd hinside ((afterLast_eq_none_iff hword cs).1 htail)
      · cases h

theorem afterLast_eq_some_iff {word cs rest : List Char} (hword : word ≠ []) :
    afterLast word cs = some rest ↔ IsAfterLast word cs rest := by
  refine ⟨isAfterLast_of_afterLast hword, fun h => ?_⟩
  cases hfound : afterLast word cs with
  | none =>
    have hinside : word <:+: cs := (List.prefix_append word rest).isInfix.trans h.follows.isInfix
    exact absurd hinside ((afterLast_eq_none_iff hword cs).1 hfound)
  | some rest' => rw [(isAfterLast_of_afterLast hword hfound).unique h]

end RobotSketch.Text
