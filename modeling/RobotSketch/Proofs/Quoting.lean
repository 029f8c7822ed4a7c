import Mathlib.Data.List.TakeDrop
import RobotSketch.Toml.Reader
import RobotSketch.Toml

/-!
# Strings of TOML read back

A string is written in one of four forms, with escapes or without and on one line or on many, and
the reader knows nothing of the choice. Between the two stands `Body`, which says how the characters
between the quotes stand for a text. Every form that `Quoting.choose` picks is such a body
(`Quoting.body_choose`), and every body is read as the text it stands for
(`Body.readLineString_eq`, `Body.readLongString_eq`). The main statement is `readString_quoted`.
-/
namespace RobotSketch

/-! ## Readers -/

namespace Text.Reader

variable {α β : Type} {cs rest : List Char}

theorem bind_eq {first : Reader α} {follow : α → Reader β} {value : α}
    (h : first cs = some (value, rest)) : (first >>= follow) cs = follow value rest := by
  have hbind : (first >>= follow) cs = (first cs).bind fun found => follow found.1 found.2 := rfl
  rw [hbind, h]
  rfl

theorem word_append (w : List Char) : word w (w ++ cs) = some ((), cs) := by
  simp [word]

theorem one_cons {p : Char → Bool} {c : Char} (h : p c = true) :
    one p (c :: cs) = some (c, cs) := by
  simp [one, h]

theorem skip_append (w : List Char) : skip w (w ++ cs) = some (true, cs) := by
  simp [skip]

theorem skip_of_not_isPrefix {w : List Char} (h : ¬w <+: cs) : skip w cs = some (false, cs) := by
  simp [skip, h]

theorem ahead_of_isPrefix {w : List Char} (h : w <+: cs) : ahead w cs = some (true, cs) := by
  simp [ahead, h]

theorem ahead_of_not_isPrefix {w : List Char} (h : ¬w <+: cs) :
    ahead w cs = some (false, cs) := by
  rw [ahead, Bool.eq_false_iff.2 (mt List.isPrefixOf_iff_prefix.1 h)]

theorem peek_cons (c : Char) (cs : List Char) : peek (c :: cs) = some (some c, c :: cs) := rfl

theorem atEnd_cons (c : Char) (cs : List Char) : atEnd (c :: cs) = some (false, c :: cs) := rfl

theorem run_append {p : Char → Bool} {taken : List Char} (htaken : ∀ c ∈ taken, p c = true)
    (hrest : ∀ c ∈ rest.head?, p c = false) : run p (taken ++ rest) = some (taken, rest) := by
  have hspan : (taken ++ rest).span p = (taken, rest) := by
    rw [List.span_eq_takeWhile_dropWhile, List.takeWhile_append_of_pos htaken,
      List.dropWhile_append_of_pos htaken]
    cases rest with
    | nil => simp
    | cons c rest => simp [hrest c rfl]
  rw [run, hspan]

/-- A loop takes items from a text, each of them at least one character long, until none is
left. -/
inductive Repeats (item : Reader (Option α)) : List Char → List α → List Char → Prop
  | stop {cs rest : List Char} (hitem : item cs = some (none, rest)) : Repeats item cs [] rest
  | more {cs next rest : List Char} {value : α} {values : List α}
      (hitem : item cs = some (some value, next)) (hshorter : next.length < cs.length)
      (hnext : Repeats item next values rest) : Repeats item cs (value :: values) rest

theorem Repeats.manyWithin_eq {item : Reader (Option α)} {values : List α}
    (h : Repeats item cs values rest) {count : Nat} (hcount : cs.length < count) :
    manyWithin item count cs = some (values, rest) := by
  induction h generalizing count with
  | stop hitem =>
    obtain ⟨count, rfl⟩ := Nat.exists_eq_add_one_of_ne_zero (Nat.ne_zero_of_lt hcount)
    simp [manyWithin, hitem]
  | more hitem hshorter hnext ih =>
    obtain ⟨count, rfl⟩ := Nat.exists_eq_add_one_of_ne_zero (Nat.ne_zero_of_lt hcount)
    have hcount : _ < count := Nat.lt_of_lt_of_le hshorter (Nat.le_of_lt_succ hcount)
    simp [manyWithin, hitem, ih hcount]

theorem Repeats.many_eq {item : Reader (Option α)} {values : List α}
    (h : Repeats item cs values rest) : many item cs = some (values, rest) :=
  h.manyWithin_eq (Nat.lt_succ_self _)

end Text.Reader

namespace Toml

open Text (Reader)
open Text.Reader

/-! ## Escapes -/

/-- What follows a backslash stands for a character, whatever comes after it. Its first character
does not continue a line. -/
structure Escape (mark : Char) (tail : List Char) (c : Char) : Prop where
  reads : ∀ rest, readEscape (mark :: tail ++ rest) = some (c, rest)
  solid : isSpace mark = false ∧ mark ≠ '\n' ∧ mark ≠ '\r'

theorem readCode_append {digits : List Char} {code : Nat}
    (hdigits : ∀ d ∈ digits, (Text.hexDigit? d).isSome = true)
    (hvalue : Text.hexValue? digits = some code) (hvalid : code.isValidChar) (rest : List Char) :
    readCode digits.length (digits ++ rest) = some (Char.ofNat code, rest) := by
  have hmap (indices : List Nat) (hlength : indices.length = digits.length) :
      indices.mapM (fun _ => one fun c => (Text.hexDigit? c).isSome) (digits ++ rest) =
        some (digits, rest) := by
    clear hvalue
    induction digits generalizing indices with
    | nil =>
      obtain rfl := List.eq_nil_of_length_eq_zero hlength
      rfl
    | cons d digits ih =>
      match indices, hlength with
      | _ :: indices, hlength =>
        have hrest := ih (fun e he => hdigits e (List.mem_cons_of_mem _ he)) indices
          (Nat.succ_inj.1 hlength)
        rw [List.mapM_cons, List.cons_append, bind_eq (one_cons (hdigits d List.mem_cons_self)),
          bind_eq hrest]
        rfl
  rw [readCode, bind_eq (hmap _ List.length_range), hvalue]
  simp only [if_pos hvalid]
  rfl

/-- Control characters are written with four digits. -/
theorem escape_fourHex {c : Char} (h : c.toNat < 128) : Escape 'u' (Text.fourHex c.toNat) c := by
  have hvalue : ∀ n < 128, Text.hexValue? (Text.fourHex n) = some n := by decide
  have hdigits : ∀ n < 128, (Text.fourHex n).all (fun d => (Text.hexDigit? d).isSome) = true := by
    decide
  refine ⟨fun rest => ?_, by decide⟩
  have hcode := readCode_append (List.all_eq_true.1 (hdigits _ h)) (hvalue _ h) c.valid rest
  rw [Char.ofNat_toNat] at hcode
  exact hcode

theorem needsEscape_lt {c : Char} (h : needsEscape c = true) : c.toNat < 128 := by
  simp only [needsEscape, Bool.or_eq_true, Bool.and_eq_true, decide_eq_true_eq, beq_iff_eq] at h
  omega

/-- What is escaped is read back. -/
theorem escape_of_escapeOf? {long : Bool} {quotes : Nat} {c : Char} {written : List Char}
    (h : escapeOf? long quotes c = some written) :
    ∃ mark tail, written = '\\' :: mark :: tail ∧ Escape mark tail c := by
  have hmark {mark : Char} (hwritten : some ['\\', mark] = some written)
      (hescape : Escape mark [] c) :
      ∃ mark tail, written = '\\' :: mark :: tail ∧ Escape mark tail c := by
    cases hwritten
    exact ⟨_, _, rfl, hescape⟩
  have hcode {n : Nat} (hn : c.toNat = n) : c = Char.ofNat n := hn ▸ (Char.ofNat_toNat c).symm
  unfold escapeOf? at h
  split at h
  case isTrue hquote =>
    subst hquote
    by_cases hfew : quotes < if long then 2 else 0
    · simp [hfew] at h
    · rw [if_neg hfew] at h
      exact hmark h ⟨fun _ => rfl, by decide⟩
  split at h
  case isTrue hslash =>
    subst hslash
    exact hmark h ⟨fun _ => rfl, by decide⟩
  split at h
  case isTrue htab =>
    subst htab
    exact hmark h ⟨fun _ => rfl, by decide⟩
  split at h
  case isTrue hline =>
    subst hline
    split at h
    · cases h
    · exact hmark h ⟨fun _ => rfl, by decide⟩
  split at h
  case isTrue hreturn =>
    subst hreturn
    exact hmark h ⟨fun _ => rfl, by decide⟩
  split at h
  case isTrue hbackspace => exact hmark h ⟨fun _ => hcode hbackspace ▸ rfl, by decide⟩
  split at h
  case isTrue hfeed => exact hmark h ⟨fun _ => hcode hfeed ▸ rfl, by decide⟩
  split at h
  case isTrue hneeds =>
    cases h
    exact ⟨_, _, rfl, escape_fourHex (needsEscape_lt hneeds)⟩
  cases h

/-! ## Bodies of strings -/

/-- How many quotes may stand in a row inside a string. -/
def quoteLimit (long : Bool) : Nat := if long then 2 else 0

/-- How the characters between the quotes of a string stand for a text, after so many quotes. A line
end and quotes may stand for themselves in a long string only, and escapes stand between double
quotes only. -/
inductive Body (quote : Char) (long : Bool) : Nat → List Char → List Char → Prop
  | nil {quotes : Nat} : Body quote long quotes [] []
  | plain {quotes : Nat} {c : Char} {cs written : List Char} (hplain : isPlain c = true)
      (hquote : c ≠ quote) (hslash : quote = '"' → c ≠ '\\')
      (hrest : Body quote long 0 cs written) : Body quote long quotes (c :: cs) (c :: written)
  | newline {quotes : Nat} {cs written : List Char} (hlong : long = true)
      (hrest : Body quote long 0 cs written) : Body quote long quotes ('\n' :: cs) ('\n' :: written)
  | quote {quotes : Nat} {cs written : List Char} (hfew : quotes < quoteLimit long)
      (hrest : Body quote long (quotes + 1) cs written) :
    Body quote long quotes (quote :: cs) (quote :: written)
  | escape {quotes : Nat} {mark c : Char} {tail cs written : List Char} (hquote : quote = '"')
      (hescape : Escape mark tail c) (hrest : Body quote long 0 cs written) :
    Body quote long quotes (c :: cs) ('\\' :: mark :: tail ++ written)

theorem isPlain_of_needsEscape {c : Char} (h : needsEscape c = false) (hline : c ≠ '\n') :
    isPlain c = true := by
  simp only [needsEscape, Bool.or_eq_false_iff, Bool.and_eq_false_iff, decide_eq_false_iff_not,
    bne_eq_false_iff_eq, beq_eq_false_iff_ne] at h
  simp only [isPlain, Bool.or_eq_true, beq_iff_eq, Bool.and_eq_true, decide_eq_true_eq,
    bne_iff_ne]
  obtain ⟨(hlow | htab) | hend, hdelete⟩ := h
  · exact .inr ⟨Nat.le_of_not_lt hlow, hdelete⟩
  · exact .inl htab
  · exact absurd hend hline

/-- What is not escaped between double quotes may stand there. -/
theorem unescaped_cases {long : Bool} {quotes : Nat} {c : Char}
    (h : escapeOf? long quotes c = none) :
    (c = '"' ∧ quotes < quoteLimit long) ∨ (c = '\n' ∧ long = true) ∨
      (isPlain c = true ∧ c ≠ '"' ∧ c ≠ '\\') := by
  unfold escapeOf? at h
  by_cases hquote : c = '"'
  · refine .inl ⟨hquote, ?_⟩
    by_contra hmany
    unfold quoteLimit at hmany
    simp [hquote, hmany] at h
  by_cases hslash : c = '\\'
  · rw [if_neg hquote, if_pos hslash] at h
    cases h
  by_cases hline : c = '\n'
  · subst hline
    cases long with
    | true => exact .inr (.inl ⟨rfl, rfl⟩)
    | false => simp at h
  refine .inr (.inr ⟨isPlain_of_needsEscape ?_ hline, hquote, hslash⟩)
  by_contra hneeds
  rw [Bool.not_eq_false] at hneeds
  simp only [hquote, hslash, hline, hneeds, if_false, if_true] at h
  split_ifs at h

theorem body_escapedFrom (long : Bool) (quotes : Nat) (cs : List Char) :
    Body '"' long quotes cs (escapedFrom long quotes cs) := by
  induction cs generalizing quotes with
  | nil => exact .nil
  | cons c cs ih =>
    rw [escapedFrom]
    cases h : escapeOf? long quotes c with
    | some written =>
      obtain ⟨mark, tail, rfl, hescape⟩ := escape_of_escapeOf? h
      exact .escape rfl hescape (ih 0)
    | none =>
      obtain ⟨rfl, hfew⟩ | ⟨rfl, hlong⟩ | ⟨hplain, hquote, hslash⟩ := unescaped_cases h
      · exact .quote hfew (ih _)
      · exact .newline hlong (ih 0)
      · rw [if_neg hquote]
        exact .plain hplain hquote (fun _ => hslash) (ih 0)

theorem le_longestRunFrom (c : Char) (current longest : Nat) (cs : List Char) :
    current ≤ longestRunFrom c current longest cs ∧
      longest ≤ longestRunFrom c current longest cs := by
  induction cs generalizing current longest with
  | nil => simp only [longestRunFrom]; omega
  | cons d cs ih =>
    unfold longestRunFrom
    split
    · have h := ih (current + 1) longest
      omega
    · have h := ih 0 (max current longest)
      omega

/-- A text without long runs of single quotes stands for itself between them. -/
theorem body_literal {long : Bool} {cs : List Char} (hcoded : ∀ c ∈ cs, needsEscape c = false)
    (hbroken : long = false → '\n' ∉ cs) {quotes longest : Nat}
    (hruns : longestRunFrom '\'' quotes longest cs ≤ quoteLimit long) :
    Body '\'' long quotes cs cs := by
  induction cs generalizing quotes longest with
  | nil => exact .nil
  | cons c cs ih =>
    have hrest {quotes longest : Nat}
        (hruns : longestRunFrom '\'' quotes longest cs ≤ quoteLimit long) :
        Body '\'' long quotes cs cs :=
      ih (fun d hd => hcoded d (List.mem_cons_of_mem _ hd))
        (fun hlong hmem => hbroken hlong (List.mem_cons_of_mem _ hmem)) hruns
    unfold longestRunFrom at hruns
    by_cases hquote : c = '\''
    · rw [if_pos hquote] at hruns
      subst hquote
      exact .quote (Nat.lt_of_lt_of_le (le_longestRunFrom ..).1 hruns) (hrest hruns)
    rw [if_neg hquote] at hruns
    by_cases hline : c = '\n'
    · subst hline
      cases long with
      | true => exact .newline rfl (hrest hruns)
      | false => exact absurd List.mem_cons_self (hbroken rfl)
    · exact .plain (isPlain_of_needsEscape (hcoded c List.mem_cons_self) hline) hquote (by simp)
        (hrest hruns)

/-! ## Reading bodies -/

/-- The characters that quote a string. -/
def IsQuote (c : Char) : Prop := c = '"' ∨ c = '\''

theorem IsQuote.isPlain {c : Char} (h : IsQuote c) : isPlain c = true := by
  rcases h with rfl | rfl <;> decide

theorem skipNewline_cons {c : Char} (h : isPlain c = true) (cs : List Char) :
    skipNewline (c :: cs) = some (false, c :: cs) := by
  have hline : ¬['\n'] <+: c :: cs := by
    rintro ⟨_, heq⟩
    simp only [List.cons_append, List.cons.injEq] at heq
    exact absurd h (heq.1 ▸ by decide)
  have hreturn : ¬['\r', '\n'] <+: c :: cs := by
    rintro ⟨_, heq⟩
    simp only [List.cons_append, List.cons.injEq] at heq
    exact absurd h (heq.1 ▸ by decide)
  rw [skipNewline, bind_eq (skip_of_not_isPrefix hline)]
  exact skip_of_not_isPrefix hreturn

theorem skipContinuation_cons {mark : Char}
    (h : isSpace mark = false ∧ mark ≠ '\n' ∧ mark ≠ '\r') (cs : List Char) :
    skipContinuation (mark :: cs) = some (false, mark :: cs) := by
  obtain ⟨hspace, hline, hreturn⟩ := h
  simp [skipContinuation, hspace, Ne.symm hline, Ne.symm hreturn]

namespace Body

variable {quote : Char} {quotes : Nat} {cs written : List Char}

/-- The characters of a string of one line are read one by one, up to the closing quote. -/
theorem repeats_line (hquote : IsQuote quote) (h : Body quote false quotes cs written)
    (rest : List Char) :
    Repeats (readLineChar quote) (written ++ quote :: rest) cs rest := by
  induction h with
  | nil =>
    refine .stop ?_
    rw [List.nil_append, readLineChar, bind_eq (one_cons hquote.isPlain), beq_self_eq_true]
    rfl
  | @plain _ c _ _ hplain hne hslash _ ih =>
    refine .more ?_ (by simp) ih
    have hsame : (c == quote) = false := by simpa using hne
    have hcoded : (quote == '"' && c == '\\') = false := by simpa using hslash
    rw [List.cons_append, readLineChar, bind_eq (one_cons hplain), hsame, hcoded]
    rfl
  | newline hlong => cases hlong
  | quote hfew => cases hfew
  | @escape _ mark c tail _ written hdouble hescape _ ih =>
    subst hdouble
    refine .more ?_ (by simp; omega) ih
    rw [List.append_assoc, List.cons_append, readLineChar, bind_eq (one_cons (by decide))]
    exact bind_eq (hescape.reads _)

theorem readLineString_eq (hquote : IsQuote quote) (h : Body quote false quotes cs written)
    (rest : List Char) : readLineString quote (written ++ quote :: rest) = some (cs, rest) :=
  (h.repeats_line hquote rest).many_eq

/-- Three quotes in a row, with those right before, end a string: only quotes are left of it. -/
theorem eq_replicate_of_isPrefix (hquote : IsQuote quote) (h : Body quote true quotes cs written)
    (hfew : quotes ≤ 2) {rest : List Char}
    (hclosing : List.replicate (3 - quotes) quote <+: written ++ rest) :
    ∃ count, written = List.replicate count quote ∧ cs = List.replicate count quote ∧
      quotes + count ≤ 2 := by
  induction h with
  | nil => exact ⟨0, rfl, rfl, hfew⟩
  | @plain quotes c _ _ _ hne =>
    have hcount : 3 - quotes = 2 - quotes + 1 := by omega
    rw [hcount, List.replicate_succ, List.cons_append, List.cons_prefix_cons] at hclosing
    exact absurd hclosing.1.symm hne
  | @newline quotes =>
    have hcount : 3 - quotes = 2 - quotes + 1 := by omega
    rw [hcount, List.replicate_succ, List.cons_append, List.cons_prefix_cons] at hclosing
    exact absurd hquote.isPlain (hclosing.1 ▸ by decide)
  | @quote quotes _ _ hless _ ih =>
    have hcount : 3 - quotes = 3 - (quotes + 1) + 1 := by omega
    rw [hcount, List.replicate_succ, List.cons_append, List.cons_prefix_cons] at hclosing
    obtain ⟨count, rfl, rfl, hle⟩ := ih hless hclosing.2
    exact ⟨count + 1, rfl, rfl, by omega⟩
  | @escape quotes mark c tail _ written hdouble =>
    have hcount : 3 - quotes = 2 - quotes + 1 := by omega
    rw [hcount, List.replicate_succ, List.cons_append, List.cons_append,
      List.cons_prefix_cons] at hclosing
    exact absurd (hdouble.symm.trans hclosing.1) (by decide)

/-- A long string ends where three quotes are ahead. -/
theorem readPart_of_isPrefix {tail : List Char} (h : [quote, quote, quote] <+: tail) :
    readPart quote tail = some (none, tail) := by
  rw [readPart, bind_eq (ahead_of_isPrefix h)]
  rfl

theorem readPart_newline (hquote : IsQuote quote) (tail : List Char) :
    readPart quote ('\n' :: tail) = some (some ['\n'], tail) := by
  have hopen : ¬[quote, quote, quote] <+: '\n' :: tail := by
    rw [List.cons_prefix_cons]
    exact fun h => absurd hquote.isPlain (h.1 ▸ by decide)
  rw [readPart, bind_eq (ahead_of_not_isPrefix hopen)]
  rfl

theorem readPart_plain {c : Char} {tail : List Char} (hplain : isPlain c = true)
    (hslash : quote = '"' → c ≠ '\\') (hopen : ¬[quote, quote, quote] <+: c :: tail) :
    readPart quote (c :: tail) = some (some [c], tail) := by
  have hcoded : (quote == '"' && c == '\\') = false := by simpa using hslash
  rw [readPart, bind_eq (ahead_of_not_isPrefix hopen), if_neg Bool.false_ne_true,
    bind_eq (skipNewline_cons hplain _), if_neg Bool.false_ne_true, bind_eq (one_cons hplain),
    hcoded]
  rfl

theorem readPart_escape {mark c : Char} {tail : List Char} (h : Escape mark tail c)
    (rest : List Char) :
    readPart '"' ('\\' :: (mark :: tail ++ rest)) = some (some [c], rest) := by
  have hopen : ¬['"', '"', '"'] <+: '\\' :: (mark :: tail ++ rest) := by
    rw [List.cons_prefix_cons]
    exact fun h => absurd h.1 (by decide)
  rw [readPart, bind_eq (ahead_of_not_isPrefix hopen), if_neg Bool.false_ne_true,
    bind_eq (skipNewline_cons (by decide) _), if_neg Bool.false_ne_true,
    bind_eq (one_cons (by decide)), if_pos (by decide), List.cons_append,
    bind_eq (skipContinuation_cons h.solid _)]
  exact bind_eq (h.reads rest)

/-- The parts of a long string are read up to its closing quotes and at most two quotes before
them, which are not told apart from the closing ones yet. -/
theorem repeats_long (hquote : IsQuote quote) (h : Body quote true quotes cs written)
    (hfew : quotes ≤ 2) (rest : List Char) :
    ∃ parts count, Repeats (readPart quote) (written ++ ([quote, quote, quote] ++ rest)) parts
        (List.replicate count quote ++ ([quote, quote, quote] ++ rest)) ∧
      parts.flatten ++ List.replicate count quote = cs ∧ count ≤ 2 := by
  induction h with
  | nil => exact ⟨[], 0, .stop (readPart_of_isPrefix (List.prefix_append ..)), rfl, Nat.zero_le _⟩
  | @plain _ c _ written hplain hne hslash _ ih =>
    obtain ⟨parts, count, hparts, rfl, hcount⟩ := ih (Nat.zero_le _)
    have hopen : ¬[quote, quote, quote] <+: c :: (written ++ ([quote, quote, quote] ++ rest)) :=
      fun h => hne (List.cons_prefix_cons.1 h).1.symm
    exact ⟨_ :: parts, count, .more (readPart_plain hplain hslash hopen) (by simp) hparts, rfl,
      hcount⟩
  | newline _ _ ih =>
    obtain ⟨parts, count, hparts, rfl, hcount⟩ := ih (Nat.zero_le _)
    exact ⟨_ :: parts, count, .more (readPart_newline hquote _) (by simp) hparts, rfl, hcount⟩
  | @quote quotes cs written hless hbody ih =>
    by_cases hclosing : [quote, quote, quote] <+:
        quote :: (written ++ ([quote, quote, quote] ++ rest))
    -- Only quotes are left, and they are read together with the closing ones.
    · have hfewer : List.replicate (3 - quotes) quote <+: [quote, quote, quote] :=
        ⟨List.replicate quotes quote, by
          rw [List.replicate_append_replicate, Nat.sub_add_cancel (Nat.le_succ_of_le hfew)]; rfl⟩
      obtain ⟨count, hwritten, hcs, hle⟩ := (Body.quote hless hbody).eq_replicate_of_isPrefix
        hquote hfew (hfewer.trans hclosing)
      refine ⟨[], count, hwritten ▸ .stop (readPart_of_isPrefix hclosing), hcs.symm, ?_⟩
      exact Nat.le_trans (Nat.le_add_left ..) hle
    · obtain ⟨parts, count, hparts, rfl, hcount⟩ := ih hless
      have hslash : quote = '"' → quote ≠ '\\' := by rintro rfl; decide
      exact ⟨_ :: parts, count, .more (readPart_plain hquote.isPlain hslash hclosing) (by simp)
        hparts, rfl, hcount⟩
  | @escape _ _ _ _ _ written hdouble hescape _ ih =>
    subst hdouble
    obtain ⟨parts, count, hparts, rfl, hcount⟩ := ih (Nat.zero_le _)
    have hpart := readPart_escape hescape (written ++ (['"', '"', '"'] ++ rest))
    rw [← List.append_assoc] at hpart
    exact ⟨_ :: parts, count, .more hpart (by simp; omega) hparts, rfl, hcount⟩

theorem skipNewline_eq (hquote : IsQuote quote) (h : Body quote true quotes cs written)
    (hline : '\n' ∉ cs) (rest : List Char) :
    skipNewline (written ++ quote :: rest) = some (false, written ++ quote :: rest) := by
  cases h with
  | nil => exact skipNewline_cons hquote.isPlain _
  | plain hplain => exact skipNewline_cons hplain _
  | newline => exact absurd List.mem_cons_self hline
  | quote => exact skipNewline_cons hquote.isPlain _
  | escape => exact skipNewline_cons (by decide) _

/-- A long string is read after its first quotes. It begins on a new line if it has a line end, and
must if its first character is one. -/
theorem readLongString_eq (hquote : IsQuote quote) (h : Body quote true 0 cs written)
    {rest : List Char} (hrest : rest.head? ≠ some quote) :
    readLongString quote ((if cs.contains '\n' then ['\n'] else []) ++ (written ++
      ([quote, quote, quote] ++ rest))) = some (cs, rest) := by
  obtain ⟨parts, count, hparts, rfl, hcount⟩ := h.repeats_long hquote (Nat.zero_le _) rest
  have hstart : ∃ found, skipNewline ((if (parts.flatten ++ List.replicate count quote).contains
      '\n' then ['\n'] else []) ++ (written ++ ([quote, quote, quote] ++ rest))) =
      some (found, written ++ ([quote, quote, quote] ++ rest)) := by
    split
    · exact ⟨true, rfl⟩
    · rename_i hline
      rw [List.contains_iff_mem] at hline
      exact ⟨false, h.skipNewline_eq hquote hline _⟩
  obtain ⟨found, hstart⟩ := hstart
  have hquotes : run (· == quote)
      (List.replicate count quote ++ ([quote, quote, quote] ++ rest)) =
        some (List.replicate (count + 3) quote, rest) := by
    have hall : ∀ c ∈ List.replicate (count + 3) quote, (c == quote) = true := by simp
    have hnext : ∀ c ∈ rest.head?, (c == quote) = false := by
      intro c hc
      simpa using fun heq : c = quote => hrest (heq ▸ hc)
    have hsplit : List.replicate (count + 3) quote ++ rest =
        List.replicate count quote ++ ([quote, quote, quote] ++ rest) := by
      rw [← List.replicate_append_replicate, List.append_assoc]
      rfl
    exact hsplit ▸ run_append hall hnext
  have hrequire : require (decide ((List.replicate (count + 3) quote).length ≤ 5)) rest =
      some ((), rest) := by
    have hfew : count + 3 ≤ 5 := by omega
    rw [List.length_replicate, decide_eq_true hfew]
    rfl
  rw [readLongString, bind_eq hstart, bind_eq hparts.many_eq, bind_eq hquotes, bind_eq hrequire,
    List.drop_replicate, Nat.add_sub_cancel]
  rfl

end Body

/-! ## Strings -/

/-- What is written between the quotes. -/
def Quoting.body (quoting : Quoting) (cs : List Char) : List Char :=
  if quoting.quote = '"' then escapedFrom quoting.long 0 cs else cs

/-- The form that is chosen can hold the text. -/
theorem Quoting.body_choose (cs : List Char) :
    IsQuote (choose cs).quote ∧
      Body (choose cs).quote (choose cs).long 0 cs ((choose cs).body cs) := by
  have hdouble (long : Bool) : IsQuote '"' ∧ Body '"' long 0 cs (body ⟨'"', long⟩ cs) :=
    ⟨.inl rfl, body_escapedFrom long 0 cs⟩
  have hsingle (long : Bool) (hcoded : (!cs.any needsEscape) = true)
      (hbroken : long = false → (!cs.contains '\n') = true)
      (hruns : longestRun '\'' cs ≤ quoteLimit long) :
      IsQuote '\'' ∧ Body '\'' long 0 cs (body ⟨'\'', long⟩ cs) := by
    refine ⟨.inr rfl, body_literal (fun c hc => ?_) (fun hlong hmem => ?_) hruns⟩
    · simp only [Bool.not_eq_true', List.any_eq_false, Bool.not_eq_true] at hcoded
      exact hcoded c hc
    · simpa [hmem] using hbroken hlong
  unfold choose
  dsimp only
  split
  · exact hdouble false
  split
  · rename_i hshort
    simp only [Bool.and_eq_true, beq_iff_eq] at hshort
    exact hsingle false hshort.1.1 (fun _ => hshort.2) (Nat.le_of_eq hshort.1.2)
  split
  · exact hdouble true
  split
  · rename_i hlong
    simp only [Bool.and_eq_true, decide_eq_true_eq] at hlong
    exact hsingle true hlong.1 (fun h => nomatch h) hlong.2
  · exact hdouble _

namespace Body

variable {quote : Char} {cs written rest : List Char}

/-- Three quotes start a string of one line only if it is empty and a quote follows it. -/
theorem not_isPrefix (h : Body quote false 0 cs written) (hrest : rest.head? ≠ some quote) :
    ¬[quote, quote, quote] <+: quote :: (written ++ quote :: rest) := by
  rw [List.cons_prefix_cons]
  rintro ⟨-, hpre⟩
  cases h with
  | nil =>
    obtain ⟨tail, hrest'⟩ := (List.cons_prefix_cons.1 hpre).2
    exact hrest (by rw [← hrest']; rfl)
  | plain _ hne => exact hne (List.cons_prefix_cons.1 hpre).1.symm
  | newline hlong => cases hlong
  | quote hfew => cases hfew
  | escape hdouble => exact absurd (hdouble.symm.trans (List.cons_prefix_cons.1 hpre).1) (by decide)

theorem readString_line (hquote : IsQuote quote) (h : Body quote false 0 cs written)
    (hrest : rest.head? ≠ some quote) :
    readString quote (quote :: (written ++ quote :: rest)) = some (cs, rest) := by
  rw [readString, bind_eq (skip_of_not_isPrefix (h.not_isPrefix hrest)), if_neg Bool.false_ne_true]
  exact (bind_eq (word_append [quote])).trans (h.readLineString_eq hquote rest)

theorem readString_long (hquote : IsQuote quote) (h : Body quote true 0 cs written)
    (hrest : rest.head? ≠ some quote) :
    readString quote ([quote, quote, quote] ++ ((if cs.contains '\n' then ['\n'] else []) ++
      (written ++ ([quote, quote, quote] ++ rest)))) = some (cs, rest) := by
  rw [readString, bind_eq (skip_append _), if_pos rfl]
  exact h.readLongString_eq hquote hrest

end Body

/-- A string is read back as it was written, whatever follows it but another quote. -/
theorem readString_quotedWith {quoting : Quoting} {cs rest : List Char}
    (hquote : IsQuote quoting.quote) (h : Body quoting.quote quoting.long 0 cs (quoting.body cs))
    (hrest : rest.head? ≠ some quoting.quote) :
    readString quoting.quote (quotedWith quoting cs ++ rest) = some (cs, rest) := by
  obtain ⟨quote, long⟩ := quoting
  have hwritten : quotedWith ⟨quote, long⟩ cs ++ rest =
      List.replicate (if long then 3 else 1) quote ++
        ((if long && cs.contains '\n' then ['\n'] else []) ++ (Quoting.body ⟨quote, long⟩ cs ++
          (List.replicate (if long then 3 else 1) quote ++ rest))) := by
    simp only [quotedWith, Quoting.body, List.append_assoc]
  rw [hwritten]
  cases long with
  | true => exact h.readString_long hquote hrest
  | false => exact h.readString_line hquote hrest

/-- Every text is read back from the string that stands for it, whatever follows but another
quote. -/
theorem readString_quoted (text : String) :
    ∃ quote, IsQuote quote ∧ (quoted text).toList.head? = some quote ∧
      ∀ rest : List Char, rest.head? ≠ some quote →
        readString quote ((quoted text).toList ++ rest) = some (text.toList, rest) := by
  obtain ⟨hquote, hbody⟩ := Quoting.body_choose text.toList
  rw [quoted, String.toList_ofList]
  refine ⟨_, hquote, ?_, fun rest hrest => readString_quotedWith hquote hbody hrest⟩
  cases hlong : (Quoting.choose text.toList).long <;> simp [quotedWith, hlong, List.replicate_succ]

end Toml

end RobotSketch
