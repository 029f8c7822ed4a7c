import RobotSketch.Proofs.Prolog

/-!
# Texts that divide at a declaration

Where the declaration stands in an arbitrary text, well formed or not, said without a scan. A
*chunk* ends with the first terminator that is found from its own first character on. In front of a
declaration there are only byte order marks, white space and chunks. Inside it, `Outside` gives the
places that lie outside quotes and chunks, with the number of open brackets, and its last character
is the first `>` at such a place with no bracket open.

`findDoctype_eq_some_iff` says that the search finds exactly these divisions, so there is at most
one for each text.
-/
namespace RobotSketch.Xml

open scoped Computability
open Grammar

/-! ## Chunks -/

/-- Whether a text ends with the first occurrence of a word. -/
def EndsWithFirst (word cs : List Char) : Prop :=
  word <:+ cs ∧ ∀ front back, cs = front ++ word ++ back → back = []

section

variable {word cs rest : List Char} {c : Char}

theorem endsWithFirst_self (word : List Char) : EndsWithFirst word word := by
  refine ⟨List.suffix_rfl, fun front back h => ?_⟩
  have hlength := congrArg List.length h
  simp only [List.length_append] at hlength
  exact List.length_eq_zero_iff.1 (by omega)

/-- A word that does not start at a character is found behind it. -/
theorem endsWithFirst_cons_iff (h : ¬ word <+: c :: cs) :
    EndsWithFirst word (c :: cs) ↔ EndsWithFirst word cs := by
  constructor
  · rintro ⟨hsuffix, hfirst⟩
    rcases List.suffix_cons_iff.1 hsuffix with rfl | hsuffix
    · exact absurd (List.prefix_refl _) h
    · exact ⟨hsuffix, fun front back hcs => hfirst (c :: front) back (by rw [hcs]; rfl)⟩
  · rintro ⟨hsuffix, hfirst⟩
    refine ⟨hsuffix.trans (List.suffix_cons c cs), fun front back hcs => ?_⟩
    cases front with
    | nil => exact absurd ⟨back, hcs.symm⟩ h
    | cons d front => exact hfirst front back (List.cons.inj hcs).2

/-- A word at the start of a text is its first occurrence. -/
theorem EndsWithFirst.eq_of_start (h : EndsWithFirst word cs) (hstart : word <+: cs ++ rest) :
    cs = word := by
  obtain ⟨back, rfl⟩ :=
    List.prefix_of_prefix_length_le hstart (List.prefix_append cs rest) h.1.length_le
  rw [h.2 [] back rfl, List.append_nil]

/-- The first occurrence of a word is where a text is cut. -/
theorem splitAfter_eq_some_iff (hword : word ≠ []) {front : List Char} :
    Text.splitAfter word cs = some (front, rest) ↔
      cs = front ++ rest ∧ EndsWithFirst word front := by
  have hnil : ¬ EndsWithFirst word [] := fun h => hword (List.suffix_nil.1 h.1)
  induction cs generalizing front with
  | nil =>
    have hnone : Text.splitAfter word [] = none := if_neg (by simpa using hword)
    rw [hnone]
    refine iff_of_false (by simp) ?_
    rintro ⟨happend, hfirst⟩
    rw [(List.append_eq_nil_iff.1 happend.symm).1] at hfirst
    exact hnil hfirst
  | cons c cs ih =>
    rw [Text.splitAfter]
    split
    · rename_i hp
      have hstart := List.isPrefixOf_iff_prefix.1 hp
      have hcs := Text.eq_append_drop_of_isPrefixOf hp
      constructor
      · intro h
        obtain ⟨rfl, rfl⟩ := Prod.mk.inj (Option.some.inj h)
        exact ⟨hcs, endsWithFirst_self word⟩
      · rintro ⟨happend, hfirst⟩
        obtain rfl := hfirst.eq_of_start (happend ▸ hstart)
        rw [happend, List.drop_left]
    · rename_i hp
      have hstart : ¬ word <+: c :: cs := fun h => hp (List.isPrefixOf_iff_prefix.2 h)
      rw [Option.map_eq_some_iff]
      constructor
      · rintro ⟨⟨before, after⟩, hsplit, hparts⟩
        obtain ⟨rfl, rfl⟩ := Prod.mk.inj hparts
        obtain ⟨rfl, hfirst⟩ := ih.1 hsplit
        refine ⟨rfl, (endsWithFirst_cons_iff fun h => hstart ?_).2 hfirst⟩
        exact h.trans (List.prefix_append (c :: before) after)
      · rintro ⟨happend, hfirst⟩
        cases front with
        | nil => exact absurd hfirst hnil
        | cons d front =>
          obtain ⟨rfl, rfl⟩ := List.cons.inj happend
          have hfront := (endsWithFirst_cons_iff fun h => hstart <|
            h.trans (List.prefix_append (c :: front) rest)).1 hfirst
          exact ⟨(front, rest), ih.2 ⟨rfl, hfront⟩, rfl⟩

end

/-- A processing instruction or a comment. It ends with the first terminator that is found from its
own first character on, so that the terminator may overlap the opening. -/
inductive IsChunk (cs : List Char) : Prop where
  | instruction (hopening : ['<', '?'] <+: cs) (hend : EndsWithFirst ['?', '>'] cs)
  | comment (hopening : ['<', '!', '-', '-'] <+: cs) (hend : EndsWithFirst ['-', '-', '>'] cs)

/-- Whether a text starts with what opens a chunk. -/
def OpensChunk (cs : List Char) : Prop := ['<', '?'] <+: cs ∨ ['<', '!', '-', '-'] <+: cs

theorem chunkEnd?_eq_none_iff {cs : List Char} : chunkEnd? cs = none ↔ ¬ OpensChunk cs := by
  unfold chunkEnd? OpensChunk
  rw [← List.isPrefixOf_iff_prefix, ← List.isPrefixOf_iff_prefix]
  split
  · simp [*]
  · split <;> simp [*]

theorem IsChunk.mem_chunks {cs : List Char} (h : IsChunk cs) : cs ∈ chunks := by
  have htaken : ∀ {word : List Char}, word ≠ [] → EndsWithFirst word cs →
      cs ∈ taken (Text.splitAfter word) :=
    fun hword hend rest => (splitAfter_eq_some_iff hword).2 ⟨rfl, hend⟩
  cases h with
  | instruction hopening hend =>
    exact Xml.mem_chunks chunkEnd?_instruction hopening (htaken (by simp) hend)
  | comment hopening hend =>
    exact Xml.mem_chunks chunkEnd?_comment hopening (htaken (by simp) hend)

theorem IsChunk.ne_nil {cs : List Char} (h : IsChunk cs) : cs ≠ [] := by
  rintro rfl
  cases h with
  | instruction hopening => exact absurd (List.prefix_nil.1 hopening) (by simp)
  | comment hopening => exact absurd (List.prefix_nil.1 hopening) (by simp)

/-- An opening does not reach over a `>`. -/
theorem start_of_append {opening cs rest : List Char} (h : opening <+: cs ++ rest)
    (hmem : '>' ∈ cs) (hnot : '>' ∉ opening) : opening <+: cs := by
  rcases List.prefix_or_prefix_of_prefix h (List.prefix_append cs rest) with h | h
  · exact h
  · exact absurd (h.subset hmem) hnot

theorem OpensChunk.append {cs : List Char} (h : OpensChunk cs) (rest : List Char) :
    OpensChunk (cs ++ rest) :=
  h.imp (·.trans (List.prefix_append cs rest)) (·.trans (List.prefix_append cs rest))

theorem OpensChunk.of_append {cs rest : List Char} (h : OpensChunk (cs ++ rest))
    (hmem : '>' ∈ cs) : OpensChunk cs := by
  rcases h with h | h
  · exact Or.inl (start_of_append h hmem (by decide))
  · exact Or.inr (start_of_append h hmem (by decide))

theorem isChunk_of_takeChunk {cs chunk rest terminator : List Char}
    (hend : chunkEnd? cs = some terminator)
    (hchunk : takeChunk terminator cs = some (chunk, rest)) :
    cs = chunk ++ rest ∧ IsChunk chunk := by
  have hne := List.ne_nil_of_length_pos (chunkEnd?_ne_nil hend)
  obtain ⟨rfl, hfirst⟩ := (splitAfter_eq_some_iff hne).1 hchunk
  refine ⟨rfl, ?_⟩
  rcases chunkEnd?_eq_some hend with ⟨hopening, rfl⟩ | ⟨hopening, rfl⟩
  · exact .instruction
      (start_of_append hopening (hfirst.1.subset (by simp)) (by decide)) hfirst
  · exact .comment
      (start_of_append hopening (hfirst.1.subset (by simp)) (by decide)) hfirst

/-! ## Divisions -/

def leadParts : Language Char := {cs | cs ∈ one Text.isBlank ∨ IsChunk cs}

/-- What may stand in front of a declaration: byte order marks, then white space and chunks. -/
def lead : Language Char := (one fun c => c == byteOrderMark)∗ * leadParts∗

/-- A part of a declaration as it is read: in front of `rest`, with `depth` brackets open. The last
argument is the number of brackets that are open behind it; one that was not opened closes
nothing. -/
inductive Part (depth : Nat) : List Char → List Char → Nat → Prop where
  | quoted {quote : Char} {content rest : List Char} (hquote : quote = '"' ∨ quote = '\'')
      (hcontent : quote ∉ content) : Part depth ([quote] ++ content ++ [quote]) rest depth
  | chunk {cs rest : List Char} (hchunk : IsChunk cs) : Part depth cs rest depth
  | opening {rest : List Char} : Part depth ['['] rest (depth + 1)
  | closing {rest : List Char} : Part depth [']'] rest (depth - 1)
  | other {c : Char} {rest : List Char} (hc : c ∉ ['"', '\'', '[', ']'])
      (hopens : ¬ OpensChunk (c :: rest)) : Part depth [c] rest depth

/-- The places of a text that lie outside quotes and chunks: `Outside text depth rest` says that
`rest` is left of the text there and that `depth` brackets are open. -/
inductive Outside (text : List Char) : Nat → List Char → Prop where
  | start : Outside text 0 text
  | next {depth depth' : Nat} {part rest : List Char} (h : Outside text depth (part ++ rest))
      (hpart : Part depth part rest depth') : Outside text depth' rest

/-- A declaration: its last character is the first `>` that lies outside quotes and chunks with no
bracket open. -/
structure IsDeclaration (cs : List Char) : Prop where
  starts : doctypeStart <+: cs
  ends : Outside cs 0 ['>']
  first : ∀ rest, Outside cs 0 ('>' :: rest) → rest = []

/-- A text in three parts, the second of which is a declaration in front of the root element. -/
structure Divides (source front declaration rest : List Char) : Prop where
  eq_append : source = front ++ declaration ++ rest
  front_mem : front ∈ lead
  isDeclaration : IsDeclaration declaration

/-! ### The end of a declaration -/

theorem insideDoctype_close (rest : List Char) :
    insideDoctype none 0 ('>' :: rest) = some (['>'], rest) :=
  insideDoctype_of_not_chunk 0 (chunkEnd?_of_ne (by decide) rest)

/-- One part of a declaration is passed over by the scan, unless it is the `>` at the end. -/
theorem Part.insideDoctype_eq {depth depth' : Nat} {part rest : List Char}
    (h : Part depth part rest depth') (hend : part = ['>'] → depth ≠ 0) (hrest : '>' ∈ rest)
    (more : List Char) :
    insideDoctype none depth (part ++ rest ++ more) =
      (insideDoctype none depth' (rest ++ more)).map (before part) := by
  rw [List.append_assoc]
  cases h with
  | quoted hquote hcontent =>
    refine between_quotes_mem_passed depth hquote (mem_avoiding.2 fun c hc hmem => hcontent ?_) _
    rwa [← List.mem_singleton.1 hmem]
  | chunk hchunk => exact chunks_le_passed_insideDoctype depth hchunk.mem_chunks _
  | opening => exact insideDoctype_of_not_chunk depth (chunkEnd?_of_ne (by decide) _)
  | closing => exact insideDoctype_of_not_chunk depth (chunkEnd?_of_ne (by decide) _)
  | @other c _ hc hopens =>
    have hnone : chunkEnd? (c :: (rest ++ more)) = none :=
      chunkEnd?_eq_none_iff.2 fun h => hopens (h.of_append (List.mem_cons_of_mem c hrest))
    have hclose : (c == '>' && depth == 0) = false := by
      rw [Bool.and_eq_false_imp, beq_iff_eq, beq_eq_false_iff_ne]
      rintro rfl
      exact hend rfl
    simp only [List.mem_cons, List.not_mem_nil, or_false, not_or] at hc
    obtain ⟨hdouble, hsingle, hopen, hclosed⟩ := hc
    rw [List.singleton_append, insideDoctype_of_not_chunk depth hnone, hclose]
    simp [hdouble, hsingle, hopen, hclosed]

section

variable {text rest : List Char} {depth : Nat}

/-- From the start of a text to a place outside quotes and chunks, the scan takes what stands
between them, if no `>` ends the declaration before. -/
theorem Outside.insideDoctype_eq (h : Outside text depth rest) (hrest : '>' ∈ rest)
    (hfirst : ∀ rest, Outside text 0 ('>' :: rest) → rest = []) (more : List Char) :
    ∃ front, text = front ++ rest ∧ insideDoctype none 0 (text ++ more) =
      (insideDoctype none depth (rest ++ more)).map (before front) := by
  induction h with
  | start => exact ⟨[], rfl, by simp [show before [] = id from rfl]⟩
  | @next depth depth' part rest h hpart ih =>
    obtain ⟨front, htext, hscan⟩ := ih (List.mem_append_right part hrest)
    refine ⟨front ++ part, by rw [htext, List.append_assoc], ?_⟩
    -- a `>` with no bracket open is the last character, but there is one in the rest
    have hend : part = ['>'] → depth ≠ 0 := by
      rintro rfl rfl
      rw [hfirst rest h] at hrest
      cases hrest
    rw [hscan, hpart.insideDoctype_eq hend hrest, Option.map_map, before_append]

/-- At every place outside quotes and chunks the scan takes what is left. -/
theorem Outside.insideDoctype_eq_some {more : List Char} (h : Outside text depth rest)
    (hrest : '>' ∈ rest) (htext : insideDoctype none 0 (text ++ more) = some (text, more)) :
    insideDoctype none depth (rest ++ more) = some (rest, more) := by
  induction h with
  | start => exact htext
  | @next depth depth' part rest h hpart ih =>
    have hscan := ih (List.mem_append_right part hrest)
    -- at a `>` with no bracket open the scan would stop and leave the rest
    have hend : part = ['>'] → depth ≠ 0 := by
      rintro rfl rfl
      have hclose := insideDoctype_close (rest ++ more)
      rw [List.append_assoc, List.singleton_append, hclose] at hscan
      obtain ⟨hnil, -⟩ := Prod.mk.inj (Option.some.inj hscan)
      obtain rfl : rest = [] := by simpa using hnil
      cases hrest
    rw [hpart.insideDoctype_eq hend hrest, Option.map_eq_some_iff] at hscan
    obtain ⟨⟨taken, left⟩, hleft, hparts⟩ := hscan
    obtain ⟨htaken, rfl⟩ := Prod.mk.inj hparts
    rw [hleft, List.append_cancel_left htaken]

end

/-- The scan takes at least one character, and nothing is lost. -/
theorem append_of_insideDoctype {quote : Option Char} {depth : Nat} {cs body rest : List Char}
    (h : insideDoctype quote depth cs = some (body, rest)) : cs = body ++ rest ∧ body ≠ [] := by
  fun_induction insideDoctype quote depth cs generalizing body with
  | case1 => cases h
  | case2 depth c tail q ih =>
    obtain ⟨⟨taken, left⟩, hscan, hparts⟩ := Option.map_eq_some_iff.1 h
    obtain ⟨rfl, rfl⟩ := Prod.mk.inj hparts
    rw [(ih hscan).1]
    simp
  | case3 => cases h
  | case4 depth c tail terminator hend chunk more hchunk hlength ih =>
    obtain ⟨⟨taken, left⟩, hscan, hparts⟩ := Option.map_eq_some_iff.1 h
    obtain ⟨rfl, rfl⟩ := Prod.mk.inj hparts
    obtain ⟨rfl, hne⟩ := ih hscan
    rw [(isChunk_of_takeChunk hend hchunk).1]
    simp [hne]
  | case5 =>
    obtain ⟨rfl, rfl⟩ := Prod.mk.inj (Option.some.inj h)
    simp
  | case6 =>
    rename_i ih
    obtain ⟨⟨taken, left⟩, hscan, hparts⟩ := Option.map_eq_some_iff.1 h
    obtain ⟨rfl, rfl⟩ := Prod.mk.inj hparts
    rw [(ih hscan).1]
    simp

/-- Inside quotes the scan takes everything up to the closing quote. -/
theorem insideDoctype_quote_eq_some {quote : Char} {depth : Nat} {cs more : List Char}
    (h : insideDoctype (some quote) depth (cs ++ more) = some (cs, more)) :
    ∃ content rest, cs = content ++ quote :: rest ∧ quote ∉ content ∧
      insideDoctype none depth (rest ++ more) = some (rest, more) := by
  induction cs with
  | nil => exact absurd rfl (append_of_insideDoctype h).2
  | cons c cs ih =>
    rw [List.cons_append, insideDoctype_quote, Option.map_eq_some_iff] at h
    obtain ⟨⟨taken, left⟩, hscan, hparts⟩ := h
    obtain ⟨htaken, rfl⟩ := Prod.mk.inj hparts
    obtain rfl : taken = cs := (List.cons.inj htaken).2
    split at hscan
    · rename_i hquote
      obtain rfl := beq_iff_eq.1 hquote
      exact ⟨[], taken, rfl, List.not_mem_nil, hscan⟩
    · rename_i hquote
      obtain ⟨content, rest, rfl, hcontent, hrest⟩ := ih hscan
      refine ⟨c :: content, rest, rfl, ?_, hrest⟩
      rintro (_ | ⟨_, hmem⟩)
      · exact hquote (beq_self_eq_true quote)
      · exact hcontent hmem

/-- A character that belongs to no quotes and no chunk is a part by itself. -/
theorem Part.character {c : Char} {depth : Nat} {rest : List Char}
    (hquote : ¬ (c = '"' ∨ c = '\'')) (hopens : ¬ OpensChunk (c :: rest)) :
    Part depth [c] rest
      (if c == '[' then depth + 1 else if c == ']' then depth - 1 else depth) := by
  split
  · rename_i hc
    obtain rfl := beq_iff_eq.1 hc
    exact .opening
  · split
    · rename_i hc
      obtain rfl := beq_iff_eq.1 hc
      exact .closing
    · exact .other (by simp_all) hopens

/-- What the scan does with a declaration that it takes as a whole: it is at the end, or it passes
over a part. -/
theorem insideDoctype_eq_some_cases {depth : Nat} {cs more : List Char}
    (h : insideDoctype none depth (cs ++ more) = some (cs, more)) :
    (cs = ['>'] ∧ depth = 0) ∨ ∃ part rest depth', cs = part ++ rest ∧ part ≠ [] ∧
      Part depth part rest depth' ∧
      insideDoctype none depth' (rest ++ more) = some (rest, more) := by
  cases cs with
  | nil => exact absurd rfl (append_of_insideDoctype h).2
  | cons c cs =>
    rw [List.cons_append] at h
    cases hend : chunkEnd? (c :: (cs ++ more)) with
    | some terminator =>
      rw [insideDoctype_eq_bind depth hend, Option.bind_eq_some_iff] at h
      obtain ⟨⟨chunk, left⟩, hchunk, h⟩ := h
      obtain ⟨⟨taken, left'⟩, hscan, hparts⟩ := Option.map_eq_some_iff.1 h
      obtain ⟨hcs, rfl⟩ := Prod.mk.inj hparts
      obtain ⟨rfl, -⟩ := append_of_insideDoctype hscan
      have hchunk := (isChunk_of_takeChunk hend hchunk).2
      exact Or.inr ⟨chunk, taken, depth, hcs.symm, hchunk.ne_nil, .chunk hchunk, hscan⟩
    | none =>
      rw [insideDoctype_of_not_chunk depth hend] at h
      split at h
      · rename_i hclose
        obtain ⟨rfl, rfl⟩ : c = '>' ∧ depth = 0 := by simpa using hclose
        obtain ⟨hcs, -⟩ := Prod.mk.inj (Option.some.inj h)
        exact Or.inl ⟨hcs.symm, rfl⟩
      · obtain ⟨⟨taken, left⟩, hscan, hparts⟩ := Option.map_eq_some_iff.1 h
        obtain ⟨hcs, rfl⟩ := Prod.mk.inj hparts
        obtain rfl : taken = cs := (List.cons.inj hcs).2
        have hopens : ¬ OpensChunk (c :: taken) := fun hopens => by
          have := chunkEnd?_eq_none_iff.1 hend
          exact this (hopens.append left)
        by_cases hquote : c = '"' ∨ c = '\''
        · have hif : (c == '"' || c == '\'') = true := by simpa using hquote
          have hbracket : (c == '[') = false ∧ (c == ']') = false := by
            rcases hquote with rfl | rfl <;> decide
          rw [if_pos hif, hbracket.1, hbracket.2] at hscan
          obtain ⟨content, rest, rfl, hcontent, hrest⟩ := insideDoctype_quote_eq_some hscan
          exact Or.inr ⟨[c] ++ content ++ [c], rest, depth, by simp, by simp,
            .quoted hquote hcontent, hrest⟩
        · have hif : ¬ (c == '"' || c == '\'') = true := by simpa using hquote
          rw [if_neg hif] at hscan
          exact Or.inr ⟨[c], taken, _, rfl, List.cons_ne_nil c [], .character hquote hopens, hscan⟩

/-- From a place outside quotes and chunks the scan comes to the end of the declaration. -/
theorem Outside.of_insideDoctype {text cs more : List Char} {depth : Nat}
    (hcs : Outside text depth cs)
    (h : insideDoctype none depth (cs ++ more) = some (cs, more)) : Outside text 0 ['>'] := by
  rcases insideDoctype_eq_some_cases h with
    ⟨rfl, rfl⟩ | ⟨part, rest, depth', rfl, hne, hpart, hrest⟩
  · exact hcs
  · have : rest.length < (part ++ rest).length := by
      rw [List.length_append]
      exact Nat.lt_add_of_pos_left (List.length_pos_iff.2 hne)
    exact (hcs.next hpart).of_insideDoctype hrest
termination_by cs.length

theorem doctypeStart_mem_passed : doctypeStart ∈ passed (insideDoctype none 0) := by
  have hword : word "<!DOCTYPE" ≤ passed (insideDoctype none 0) :=
    opening_le_passed 0 rfl (by decide) (mem_avoiding_of_all (by decide))
  exact hword rfl

/-- The scan takes declarations, and nothing else. -/
theorem isDeclaration_iff {body : List Char} (more : List Char) :
    IsDeclaration (doctypeStart ++ body) ↔
      insideDoctype none 0 (body ++ more) = some (body, more) := by
  have hstart : insideDoctype none 0 (doctypeStart ++ body ++ more) =
      (insideDoctype none 0 (body ++ more)).map (before doctypeStart) := by
    rw [List.append_assoc]
    exact doctypeStart_mem_passed (body ++ more)
  constructor
  · rintro ⟨-, hends, hfirst⟩
    obtain ⟨front, htext, hscan⟩ := hends.insideDoctype_eq (by simp) hfirst more
    rw [hstart, List.singleton_append, insideDoctype_close, Option.map_some] at hscan
    obtain ⟨⟨taken, left⟩, htaken, hparts⟩ := Option.map_eq_some_iff.1 hscan
    obtain ⟨hfront, rfl⟩ := Prod.mk.inj hparts
    rw [htaken, List.append_cancel_left (hfront.trans htext.symm)]
  · intro h
    rw [h, Option.map_some] at hstart
    refine ⟨List.prefix_append .., Outside.start.of_insideDoctype hstart, fun rest hrest => ?_⟩
    have hscan := hrest.insideDoctype_eq_some (by simp) hstart
    rw [List.cons_append, insideDoctype_close] at hscan
    simpa using hscan

/-! ### In front of a declaration -/

theorem leadParts_le_passed : leadParts ≤ passed beforeDoctype := by
  rintro cs (⟨c, hblank, rfl⟩ | hchunk)
  · exact mem_passed.2 fun rest => beforeDoctype_of_blank hblank rest
  · exact chunks_le_passed_beforeDoctype hchunk.mem_chunks

theorem leadParts_le_unmarked : leadParts ≤ unmarked := by
  rintro cs (⟨c, hblank, rfl⟩ | hchunk)
  · intro hmark
    obtain rfl := Option.some.inj hmark
    exact absurd hblank (by decide)
  · exact chunks_le_unmarked hchunk.mem_chunks

theorem takeWhile_isBlank_mem (cs : List Char) : cs.takeWhile Text.isBlank ∈ leadParts∗ := by
  have hblanks : (one Text.isBlank)∗ ≤ leadParts∗ := kstar_mono fun _ h => Or.inl h
  exact hblanks (mem_kstar_one.2 fun c hc => List.mem_takeWhile_imp hc)

/-- Only white space and chunks are passed over in front of a declaration. -/
theorem leadParts_of_beforeDoctype {cs front declaration : List Char}
    (h : beforeDoctype cs = some (front, declaration)) :
    cs = front ++ declaration ∧ front ∈ leadParts∗ ∧ doctypeStart <+: declaration := by
  have hblanks := takeWhile_isBlank_mem cs
  have hcs : cs = cs.takeWhile Text.isBlank ++ cs.dropWhile Text.isBlank :=
    List.takeWhile_append_dropWhile.symm
  rw [beforeDoctype_eq] at h
  split at h
  · rename_i hstart
    obtain ⟨rfl, rfl⟩ := Prod.mk.inj (Option.some.inj h)
    exact ⟨hcs, hblanks, List.isPrefixOf_iff_prefix.1 hstart⟩
  · obtain ⟨terminator, hend, h⟩ := Option.bind_eq_some_iff.1 h
    obtain ⟨⟨chunk, more⟩, hchunk, h⟩ := Option.bind_eq_some_iff.1 h
    obtain ⟨⟨taken, left⟩, hmore, hbefore⟩ := Option.map_eq_some_iff.1 h
    obtain ⟨rfl, rfl⟩ := Prod.mk.inj hbefore
    have : more.length < cs.length :=
      (length_lt_of_takeChunk (chunkEnd?_ne_nil hend) hchunk).trans_le
        (List.dropWhile_suffix _).length_le
    obtain ⟨rfl, htaken, hstart⟩ := leadParts_of_beforeDoctype hmore
    obtain ⟨hdrop, hchunk⟩ := isChunk_of_takeChunk hend hchunk
    refine ⟨hcs.trans (by rw [hdrop]; simp), ?_, hstart⟩
    have hclosed := closed_kstar leadParts
    have hchunk : chunk ∈ leadParts∗ := (le_kstar : leadParts ≤ leadParts∗) (Or.inr hchunk)
    have hjoin : ∀ first ∈ leadParts∗, ∀ second ∈ leadParts∗, first ++ second ∈ leadParts∗ :=
      fun first hfirst second hsecond =>
        hclosed.mul_le le_rfl le_rfl (Language.append_mem_mul hfirst hsecond)
    exact hjoin _ (hjoin _ hblanks _ hchunk) _ htaken
termination_by cs.length

/-- White space and chunks are passed over up to a declaration, and nothing else is. -/
theorem beforeDoctype_eq_some_iff {cs front declaration : List Char} :
    beforeDoctype cs = some (front, declaration) ↔
      cs = front ++ declaration ∧ front ∈ leadParts∗ ∧ doctypeStart <+: declaration := by
  refine ⟨leadParts_of_beforeDoctype, ?_⟩
  rintro ⟨rfl, hfront, more, rfl⟩
  have hpassed := (closed_passed beforeDoctype).kstar_le leadParts_le_passed hfront
  rw [mem_passed.1 hpassed, beforeDoctype_doctypeStart]
  simp [before]

/-! ### The three parts of a text -/

theorem exists_marks (source : List Char) :
    ∃ marks cs, source = marks ++ cs ∧ (∀ c ∈ marks, (c == byteOrderMark) = true) ∧
      cs ∈ unmarked := by
  refine ⟨source.takeWhile (· == byteOrderMark), source.dropWhile (· == byteOrderMark),
    List.takeWhile_append_dropWhile.symm, List.all_eq_true.1 List.all_takeWhile, fun hmark => ?_⟩
  have hhead := List.head?_dropWhile_not (· == byteOrderMark) source
  rw [hmark] at hhead
  simp at hhead

/-- A declaration is found exactly where a text divides. -/
theorem findDoctype_eq_some_iff {source front declaration rest : List Char} :
    findDoctype source = some (front, declaration, rest) ↔
      Divides source front declaration rest := by
  constructor
  · intro h
    obtain ⟨marks, cs, rfl, hmarks, hunmarked⟩ := exists_marks source
    rw [findDoctype_marks hmarks hunmarked] at h
    obtain ⟨⟨parts, text⟩, hparts, h⟩ := Option.bind_eq_some_iff.1 h
    obtain ⟨⟨body, left⟩, hbody, hfound⟩ := Option.map_eq_some_iff.1 h
    obtain ⟨rfl, hleft⟩ := Prod.mk.inj hfound
    obtain ⟨rfl, rfl⟩ := Prod.mk.inj hleft
    obtain ⟨rfl, hlead, more, rfl⟩ := beforeDoctype_eq_some_iff.1 hparts
    rw [List.drop_left] at hbody
    obtain ⟨rfl, -⟩ := append_of_insideDoctype hbody
    exact ⟨by simp, Language.append_mem_mul (mem_kstar_one.2 hmarks) hlead,
      (isDeclaration_iff left).2 hbody⟩
  · rintro ⟨rfl, hlead, hdeclaration⟩
    obtain ⟨marks, hmarks, parts, hparts, rfl⟩ := Language.mem_mul.1 hlead
    obtain ⟨body, rfl⟩ := hdeclaration.starts
    have hunmarked : parts ++ (doctypeStart ++ body ++ rest) ∈ unmarked :=
      append_mem_unmarked (closed_unmarked.kstar_le leadParts_le_unmarked hparts)
        (show some '<' ≠ some byteOrderMark by decide)
    have hbefore : beforeDoctype (parts ++ (doctypeStart ++ body ++ rest)) =
        some (parts, doctypeStart ++ body ++ rest) :=
      beforeDoctype_eq_some_iff.2 ⟨rfl, hparts, by simp⟩
    have hscan := (isDeclaration_iff rest).1 hdeclaration
    have hsource : marks ++ parts ++ (doctypeStart ++ body) ++ rest =
        marks ++ (parts ++ (doctypeStart ++ body ++ rest)) := by simp
    rw [hsource, findDoctype_marks (mem_kstar_one.1 hmarks) hunmarked, hbefore]
    simp [hscan]

end RobotSketch.Xml
