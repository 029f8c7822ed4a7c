import RobotSketch.Hardware
import RobotSketch.Text

/-!
# What a line of a sketch is made of

The two kinds of text that vary from sketch to sketch. A number is written as digits that read back
as the number. Text of a document stands in a comment, flattened: it holds no control character, so
it cannot end its line, and it does not end in a backslash, so it cannot join the next one.
-/
namespace RobotSketch

namespace Text

/-! ## Decimals -/

theorem toNat_digitChar : ∀ {d : Nat}, d < 10 → (digitChar d).toNat = 48 + d := by decide

theorem isDigit_digitChar : ∀ {d : Nat}, d < 10 → isDigit (digitChar d) = true := by decide

/-- Reading the digits of a number in front of a text goes on with the number. -/
theorem foldl_digitsOnto {fuel n : Nat} (rest : List Char) (h : n < fuel) :
    (digitsOnto fuel n rest).foldl (fun m c => 10 * m + (c.toNat - 48)) 0 =
      rest.foldl (fun m c => 10 * m + (c.toNat - 48)) n := by
  induction fuel generalizing n rest with
  | zero => omega
  | succ fuel ih =>
    have hdigit := toNat_digitChar (Nat.mod_lt n (by decide : 0 < 10))
    simp only [digitsOnto]
    split
    · rw [List.foldl_cons, hdigit]
      congr 1
      omega
    · rw [ih _ (by omega), List.foldl_cons, hdigit]
      congr 1
      omega

theorem isDigit_of_mem_digitsOnto {fuel n : Nat} {rest : List Char} {c : Char}
    (h : c ∈ digitsOnto fuel n rest) : isDigit c = true ∨ c ∈ rest := by
  induction fuel generalizing n rest with
  | zero => exact Or.inr h
  | succ fuel ih =>
    have hdigit := isDigit_digitChar (Nat.mod_lt n (by decide : 0 < 10))
    have hcons : c ∈ digitChar (n % 10) :: rest → isDigit c = true ∨ c ∈ rest := by
      intro hmem
      rcases List.mem_cons.1 hmem with rfl | hmem
      · exact Or.inl hdigit
      · exact Or.inr hmem
    simp only [digitsOnto] at h
    split at h
    · exact hcons h
    · rcases ih h with h | h
      · exact Or.inl h
      · exact hcons h

theorem length_le_digitsOnto (fuel n : Nat) (rest : List Char) :
    rest.length ≤ (digitsOnto fuel n rest).length := by
  induction fuel generalizing n rest with
  | zero => exact Nat.le_refl _
  | succ fuel ih =>
    simp only [digitsOnto]
    split
    · simp
    · have := ih (n / 10) (digitChar (n % 10) :: rest)
      rw [List.length_cons] at this
      omega

theorem isDigit_of_mem_digits {n : Nat} {c : Char} (h : c ∈ digits n) : isDigit c = true := by
  simpa using isDigit_of_mem_digitsOnto h

theorem not_mem_digits {n : Nat} {c : Char} (h : isDigit c = false) : c ∉ digits n := by
  intro hc
  rw [isDigit_of_mem_digits hc] at h
  exact absurd h (by decide)

@[simp] theorem toList_ofNat (n : Nat) : (ofNat n).toList = digits n := String.toList_ofList

theorem not_mem_ofInt {n : Int} {c : Char} (h : isDigit c = false) (hminus : c ≠ '-') :
    c ∉ (ofInt n).toList := by
  cases n with
  | ofNat n =>
    rw [ofInt, toList_ofNat]
    exact not_mem_digits h
  | negSucc n =>
    rw [ofInt, String.toList_ofList, List.mem_cons, not_or]
    exact ⟨hminus, not_mem_digits h⟩

theorem digits_ne_nil (n : Nat) : digits n ≠ [] := by
  intro hnil
  unfold digits at hnil
  simp only [digitsOnto] at hnil
  split at hnil
  · simp at hnil
  · have := length_le_digitsOnto n (n / 10) [digitChar (n % 10)]
    simp [hnil] at this

/-- The digits of a number have it as their value. -/
theorem digitsValue_digits (n : Nat) : digitsValue (digits n) = n :=
  foldl_digitsOnto [] (Nat.lt_succ_self n)

theorem readDigits?_digits (n : Nat) : readDigits? (digits n) = some n := by
  have hall : (digits n).all isDigit = true :=
    List.all_eq_true.2 fun _ hc => isDigit_of_mem_digits hc
  simp [readDigits?, hall, digits_ne_nil, digitsValue_digits]

theorem digits_inj {m n : Nat} (h : digits m = digits n) : m = n := by
  rw [← digitsValue_digits m, h, digitsValue_digits]

/-- A number reads back from its digits, whether or not a sign is allowed. -/
theorem readNat?_digits (n : Nat) : readNat? (digits n) = some n := by
  unfold readNat?
  split
  · rename_i cs heq
    have : isDigit '+' = true := isDigit_of_mem_digits (n := n) (by simp [heq])
    exact absurd this (by decide)
  · exact readDigits?_digits n

theorem readInt?_digits (n : Nat) : readInt? (digits n) = some (n : Int) := by
  unfold readInt?
  split
  · rename_i cs heq
    have : isDigit '-' = true := isDigit_of_mem_digits (n := n) (by simp [heq])
    exact absurd this (by decide)
  · rw [readNat?_digits]; rfl

/-- An integer reads back from its decimal text. -/
theorem readInt?_ofInt (n : Int) : readInt? (ofInt n).toList = some n := by
  cases n with
  | ofNat n => simpa [ofInt, ofNat] using readInt?_digits n
  | negSucc n => simp [ofInt, readInt?, readDigits?_digits, Int.negSucc_eq]

theorem readUInt32?_digits (n : UInt32) : readUInt32? (digits n.toNat) = some n := by
  have h : n.toNat < UInt32.size := n.toNat_lt
  simp only [readUInt32?, readNat?_digits, Option.bind_some, h, dite_true]
  congr 1

theorem readUInt8?_digits (n : UInt8) : readUInt8? (digits n.toNat) = some n := by
  have h : n.toNat < UInt8.size := n.toNat_lt
  simp only [readUInt8?, readNat?_digits, Option.bind_some, h, dite_true]
  congr 1

end Text

/-! ## Cuts -/

namespace Text

theorem dropEndWhile_isPrefix (p : Char → Bool) (cs : List Char) : dropEndWhile p cs <+: cs := by
  have h := (List.dropWhile_suffix (l := cs.reverse) p).reverse
  rwa [List.reverse_reverse] at h

theorem not_of_mem_getLast?_dropEndWhile {p : Char → Bool} {cs : List Char} {c : Char}
    (h : c ∈ (dropEndWhile p cs).getLast?) : p c = false := by
  unfold dropEndWhile at h
  rw [List.getLast?_reverse] at h
  have hnot := List.head?_dropWhile_not p cs.reverse
  rw [Option.mem_def.1 h] at hnot
  exact hnot

theorem not_of_mem_head?_trimStart {cs : List Char} {c : Char} (h : c ∈ (trimStart cs).head?) :
    isBlank c = false := by
  unfold trimStart at h
  have hnot := List.head?_dropWhile_not isBlank cs
  rw [Option.mem_def.1 h] at hnot
  exact hnot

theorem mem_head?_of_dropEndWhile {p : Char → Bool} {cs : List Char} {c : Char}
    (h : c ∈ (dropEndWhile p cs).head?) : c ∈ cs.head? := by
  obtain ⟨rest, hrest⟩ := dropEndWhile_isPrefix p cs
  rw [← hrest, List.head?_append, Option.mem_def.1 h]
  rfl

theorem dropWhile_eq_self {p : Char → Bool} {cs : List Char} (h : ∀ c ∈ cs.head?, p c = false) :
    cs.dropWhile p = cs := by
  cases cs with
  | nil => rfl
  | cons c cs => exact List.dropWhile_cons_of_neg (by simp [h c rfl])

/-- A text is left as it is by a trim exactly if no end of it is a blank. -/
theorem trim_eq_self_iff {cs : List Char} : trim cs = cs ↔
    (∀ c ∈ cs.head?, isBlank c = false) ∧ ∀ c ∈ cs.getLast?, isBlank c = false := by
  constructor
  · intro h
    rw [← h]
    exact ⟨fun c hc => not_of_mem_head?_trimStart (mem_head?_of_dropEndWhile hc),
      fun c hc => not_of_mem_getLast?_dropEndWhile hc⟩
  · rintro ⟨hstart, hfinish⟩
    have hend : ∀ c ∈ cs.reverse.head?, isBlank c = false := by
      rwa [List.head?_reverse]
    rw [trim, trimStart, dropWhile_eq_self hstart, dropEndWhile, dropWhile_eq_self hend,
      List.reverse_reverse]

theorem trim_trim (cs : List Char) : trim (trim cs) = trim cs :=
  trim_eq_self_iff.2 ⟨fun _ hc => not_of_mem_head?_trimStart (mem_head?_of_dropEndWhile hc),
    fun _ hc => not_of_mem_getLast?_dropEndWhile hc⟩

theorem trim_of_not_blank {cs : List Char} (h : ∀ c ∈ cs, isBlank c = false) : trim cs = cs :=
  trim_eq_self_iff.2
    ⟨fun c hc => h c (List.mem_of_head? hc), fun c hc => h c (List.mem_of_getLast? hc)⟩

theorem isBlank_of_isDigit {c : Char} (h : isDigit c = true) : isBlank c = false := by
  simp only [isDigit, Bool.and_eq_true, decide_eq_true_eq, Char.le_def,
    UInt32.le_iff_toNat_le] at h
  have hrange : 48 ≤ c.toNat ∧ c.toNat ≤ 57 := h
  simp only [isBlank]
  generalize c.toNat = n at hrange
  simp
  omega

theorem trim_digits (n : Nat) : trim (digits n) = digits n :=
  trim_of_not_blank fun _ hc => isBlank_of_isDigit (isDigit_of_mem_digits hc)

end Text

/-! ## Comments -/

namespace Board

/-- Text that a comment line holds: no control character, no blank at either end, no backslash at
the end. -/
structure IsFlat (cs : List Char) : Prop where
  plain : ∀ c ∈ cs, Text.isControl c = false
  start : ∀ c ∈ cs.head?, Text.isBlank c = false
  finish : ∀ c ∈ cs.getLast?, c ≠ '\\' ∧ Text.isBlank c = false

theorem isControl_ite (c : Char) : Text.isControl (if Text.isControl c then ' ' else c) = false := by
  split
  · decide
  · rename_i h
    simpa using h

/-- Whatever a document says, what stands in its comment is flat. -/
theorem isFlat_flatten (cs : List Char) : IsFlat (flatten cs) := by
  have hstart := Text.dropEndWhile_isPrefix (fun c => c == '\\' || Text.isBlank c)
    (Text.trimStart (cs.map fun c => if Text.isControl c then ' ' else c))
  refine ⟨fun c hc => ?_, fun c hc => ?_, fun c hc => ?_⟩
  · have hmem := (List.dropWhile_suffix Text.isBlank).subset (hstart.subset hc)
    obtain ⟨d, -, rfl⟩ := List.mem_map.1 hmem
    exact isControl_ite d
  · exact Text.not_of_mem_head?_trimStart (Text.mem_head?_of_dropEndWhile hc)
  · have h := Text.not_of_mem_getLast?_dropEndWhile hc
    simpa using h

theorem newline_not_mem_of_isFlat {cs : List Char} (h : IsFlat cs) : '\n' ∉ cs := by
  intro hmem
  exact absurd (h.plain _ hmem) (by decide)

/-- A comment line is two slashes, or two slashes, a blank and flat text. -/
theorem commentLine_toList (text : String) :
    (commentLine text).toList = ['/', '/'] ∨
      ∃ flat, (commentLine text).toList = '/' :: '/' :: ' ' :: flat ∧ flat ≠ [] ∧ IsFlat flat := by
  have hflat := isFlat_flatten text.toList
  unfold commentLine
  split
  · exact Or.inl rfl
  · rename_i hne
    refine Or.inr ⟨flatten text.toList, ?_, hne, hflat⟩
    simp

end Board

end RobotSketch
