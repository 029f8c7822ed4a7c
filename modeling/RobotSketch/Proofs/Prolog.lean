import RobotSketch.Proofs.Prolog.Scan

/-!
# Cutting out the document type declaration

`stripDoctype` looks for a declaration character by character, with the open quote and the number of
open brackets as its only state. Here it is held against the grammar: a prologue is passed over as
it stands, a declaration is taken up to its own `>`, and the start tag of the root element ends the
search. Inside a declaration only six characters mean anything (`markup`), so most productions are
passed over because they hold none of them (`plain`); literals, comments, instructions and markup
declarations are looked at one by one.

The grammar and the code part at one place: a comment that opens with `<!-->` or `<!--->`.
`stripDoctype_cuts_declaration` says what is cut out where no such comment stands, and what becomes
of one.
-/
namespace RobotSketch.Xml

open scoped Computability
open Grammar

/-! ## In front of the declaration -/

theorem chunkEnd?_eq_some {cs terminator : List Char} (h : chunkEnd? cs = some terminator) :
    ['<', '?'] <+: cs ∧ terminator = ['?', '>'] ∨
      ['<', '!', '-', '-'] <+: cs ∧ terminator = ['-', '-', '>'] := by
  unfold chunkEnd? at h
  split at h
  · rename_i hp
    exact Or.inl ⟨List.isPrefixOf_iff_prefix.1 hp, (Option.some.inj h).symm⟩
  · split at h
    · rename_i hp
      exact Or.inr ⟨List.isPrefixOf_iff_prefix.1 hp, (Option.some.inj h).symm⟩
    · cases h

theorem chunkEnd?_cases {cs terminator : List Char} (h : chunkEnd? cs = some terminator) :
    ∃ more, cs = '<' :: '?' :: more ∨ cs = '<' :: '!' :: '-' :: '-' :: more := by
  rcases chunkEnd?_eq_some h with ⟨⟨more, rfl⟩, -⟩ | ⟨⟨more, rfl⟩, -⟩
  · exact ⟨more, Or.inl rfl⟩
  · exact ⟨more, Or.inr rfl⟩

theorem beforeDoctype_eq (cs : List Char) :
    beforeDoctype cs =
      if doctypeStart.isPrefixOf (cs.dropWhile Text.isBlank) then
        some (cs.takeWhile Text.isBlank, cs.dropWhile Text.isBlank)
      else
        (chunkEnd? (cs.dropWhile Text.isBlank)).bind fun terminator =>
          (takeChunk terminator (cs.dropWhile Text.isBlank)).bind fun (chunk, more) =>
            (beforeDoctype more).map (before (cs.takeWhile Text.isBlank ++ chunk)) := by
  rw [beforeDoctype]
  split
  · rfl
  · split
    · rename_i hend
      rw [hend]
      rfl
    · rename_i terminator hend
      split
      · rename_i hchunk
        simp only [hend, hchunk, Option.bind_some, Option.bind_none]
      · rename_i hchunk
        simp only [hend, hchunk, Option.bind_some]
        rfl

theorem beforeDoctype_of_blank {c : Char} (h : Text.isBlank c = true) (cs : List Char) :
    beforeDoctype (c :: cs) = (beforeDoctype cs).map (before [c]) := by
  rw [beforeDoctype_eq (c :: cs), beforeDoctype_eq cs, List.takeWhile_cons_of_pos h,
    List.dropWhile_cons_of_pos h]
  split
  · rfl
  · cases chunkEnd? (cs.dropWhile Text.isBlank) with
    | none => rfl
    | some terminator =>
      rw [Option.bind_some, Option.bind_some]
      cases takeChunk terminator (cs.dropWhile Text.isBlank) with
      | none => rfl
      | some parts =>
        rw [Option.bind_some, Option.bind_some, Option.map_map]
        rfl

/-- What does not start with a blank is looked at as it stands. -/
theorem beforeDoctype_lt (cs : List Char) :
    beforeDoctype ('<' :: cs) =
      if doctypeStart.isPrefixOf ('<' :: cs) then some ([], '<' :: cs)
      else
        (chunkEnd? ('<' :: cs)).bind fun terminator =>
          (takeChunk terminator ('<' :: cs)).bind fun (chunk, more) =>
            (beforeDoctype more).map (before chunk) := by
  rw [beforeDoctype_eq, List.takeWhile_cons_of_neg (by decide),
    List.dropWhile_cons_of_neg (by decide)]
  rfl

theorem beforeDoctype_of_chunk {cs chunk more terminator : List Char}
    (hend : chunkEnd? cs = some terminator)
    (hchunk : takeChunk terminator cs = some (chunk, more)) :
    beforeDoctype cs = (beforeDoctype more).map (before chunk) := by
  have hstart : ∃ rest, cs = '<' :: rest ∧ doctypeStart.isPrefixOf cs = false := by
    obtain ⟨rest, rfl | rfl⟩ := chunkEnd?_cases hend
    · exact ⟨_, rfl, rfl⟩
    · exact ⟨_, rfl, rfl⟩
  obtain ⟨rest, rfl, hdoctype⟩ := hstart
  rw [beforeDoctype_lt, if_neg (by simp [hdoctype]), hend, Option.bind_some, hchunk,
    Option.bind_some]

theorem beforeDoctype_doctypeStart (cs : List Char) :
    beforeDoctype (doctypeStart ++ cs) = some ([], doctypeStart ++ cs) := by
  have hdoctype : doctypeStart.isPrefixOf (doctypeStart ++ cs) = true :=
    List.isPrefixOf_iff_prefix.2 (List.prefix_append _ _)
  exact (beforeDoctype_lt _).trans (if_pos hdoctype)

theorem beforeDoctype_root {c : Char} (h : isNameStart c = true) (cs : List Char) :
    beforeDoctype ('<' :: c :: cs) = none := by
  have hmark : c ≠ '!' := by rintro rfl; exact absurd h (by decide)
  have hquestion : c ≠ '?' := by rintro rfl; exact absurd h (by decide)
  have hdoctype : doctypeStart.isPrefixOf ('<' :: c :: cs) = false := by
    have hstart : doctypeStart = '<' :: '!' :: "DOCTYPE".toList := by decide
    rw [hstart, List.isPrefixOf, List.isPrefixOf]
    simp [hmark.symm]
  have hend : chunkEnd? ('<' :: c :: cs) = none := by
    simp [chunkEnd?, List.isPrefixOf, hmark.symm, hquestion.symm]
  rw [beforeDoctype_lt, if_neg (by simp [hdoctype]), hend]
  rfl

theorem space_le_passed_beforeDoctype : space ≤ passed beforeDoctype := by
  have hspace : one isSpace ≤ passed beforeDoctype := by
    refine one_le fun c hc => mem_passed.2 fun rest => ?_
    have hblank : Text.isBlank c = true := by
      simp only [isSpace, Bool.or_eq_true, beq_iff_eq] at hc
      rcases hc with ((rfl | rfl) | rfl) | rfl <;> decide
    rw [List.singleton_append, beforeDoctype_of_blank hblank]
  exact (closed_passed _).mul_le hspace ((closed_passed _).kstar_le hspace)

theorem chunks_le_passed_beforeDoctype : chunks ≤ passed beforeDoctype := by
  rintro cs ⟨terminator, hend, htaken⟩
  exact mem_passed.2 fun rest => beforeDoctype_of_chunk (hend rest) (htaken rest)

theorem misc_le_passed_beforeDoctype : misc steadyComment ≤ passed beforeDoctype :=
  add_le_iff.2 ⟨add_le_iff.2 ⟨steadyComment_le_chunks.trans chunks_le_passed_beforeDoctype,
    instruction_le_chunks.trans chunks_le_passed_beforeDoctype⟩, space_le_passed_beforeDoctype⟩

/-! ## Inside the declaration -/

section

variable (depth : Nat)

theorem insideDoctype_quote (quote c : Char) (cs : List Char) :
    insideDoctype (some quote) depth (c :: cs) =
      (insideDoctype (if c == quote then none else some quote) depth cs).map (before [c]) := by
  rw [insideDoctype]
  rfl

theorem insideDoctype_eq_bind {cs terminator : List Char} (hend : chunkEnd? cs = some terminator) :
    insideDoctype none depth cs = (takeChunk terminator cs).bind fun parts =>
      (insideDoctype none depth parts.2).map (before parts.1) := by
  cases cs with
  | nil => cases hend
  | cons c cs =>
    rw [insideDoctype]
    split
    · rename_i terminator' hsome
      rw [hend] at hsome
      obtain rfl := Option.some.inj hsome
      split
      · rename_i hchunk
        rw [hchunk]
        rfl
      · rename_i hchunk
        dsimp only
        rw [hchunk]
        rfl
    · rename_i hnone
      rw [hend] at hnone
      cases hnone

theorem insideDoctype_of_chunk {cs chunk more terminator : List Char}
    (hend : chunkEnd? cs = some terminator)
    (hchunk : takeChunk terminator cs = some (chunk, more)) :
    insideDoctype none depth cs = (insideDoctype none depth more).map (before chunk) := by
  rw [insideDoctype_eq_bind depth hend, hchunk, Option.bind_some]

theorem insideDoctype_of_not_chunk {c : Char} {cs : List Char} (h : chunkEnd? (c :: cs) = none) :
    insideDoctype none depth (c :: cs) =
      if c == '>' && depth == 0 then some ([c], cs)
      else (insideDoctype (if c == '"' || c == '\'' then some c else none)
        (if c == '[' then depth + 1 else if c == ']' then depth - 1 else depth) cs).map
          (before [c]) := by
  rw [insideDoctype]
  split
  · rename_i hsome
    rw [h] at hsome
    cases hsome
  · rfl

end

/-- The characters that mean something inside a declaration. -/
def markup : List Char := ['<', '>', '"', '\'', '[', ']']

theorem chunkEnd?_of_ne {c : Char} (h : c ≠ '<') (cs : List Char) : chunkEnd? (c :: cs) = none := by
  simp [chunkEnd?, List.isPrefixOf, h.symm]

theorem chunks_le_passed_insideDoctype (depth : Nat) :
    chunks ≤ passed (insideDoctype none depth) := by
  rintro cs ⟨terminator, hend, htaken⟩
  exact mem_passed.2 fun rest => insideDoctype_of_chunk depth (hend rest) (htaken rest)

theorem avoiding_markup_le_passed (depth : Nat) :
    avoiding markup ≤ passed (insideDoctype none depth) := by
  refine avoiding_le (closed_passed _) fun c hc => mem_passed.2 fun rest => ?_
  simp only [markup, List.mem_cons, List.not_mem_nil, or_false, not_or] at hc
  obtain ⟨hlt, hgt, hdouble, hsingle, hopen, hclose⟩ := hc
  rw [List.singleton_append, insideDoctype_of_not_chunk depth (chunkEnd?_of_ne hlt rest)]
  simp [hgt, hdouble, hsingle, hopen, hclose]

theorem avoiding_quote_le_passed (depth : Nat) (quote : Char) :
    avoiding [quote] ≤ passed (insideDoctype (some quote) depth) := by
  refine avoiding_le (closed_passed _) fun c hc => mem_passed.2 fun rest => ?_
  have hne : c ≠ quote := fun h => hc (by simp [h])
  rw [List.singleton_append, insideDoctype_quote]
  simp [hne]

/-- Between two quotes anything else is passed over. -/
theorem between_quotes_mem_passed (depth : Nat) {quote : Char} (hquote : quote = '"' ∨ quote = '\'')
    {content : List Char} (hcontent : content ∈ avoiding [quote]) :
    [quote] ++ content ++ [quote] ∈ passed (insideDoctype none depth) := by
  refine enclosed_mem_passed ?_ (avoiding_quote_le_passed depth quote hcontent) ?_
  · intro rest
    have hlt : quote ≠ '<' := by rcases hquote with rfl | rfl <;> decide
    rw [List.singleton_append, insideDoctype_of_not_chunk depth (chunkEnd?_of_ne hlt rest)]
    rcases hquote with rfl | rfl <;> rfl
  · intro rest
    rw [List.singleton_append, insideDoctype_quote, if_pos (beq_self_eq_true quote)]

theorem quoted_le_passed (depth : Nat) {content : Char → Language Char}
    (hdouble : content '"' ≤ avoiding ['"']) (hsingle : content '\'' ≤ avoiding ['\'']) :
    quoted content ≤ passed (insideDoctype none depth) := by
  refine add_le_iff.2 ⟨?_, ?_⟩
  · intro cs hcs
    obtain ⟨_, hfront, _, rfl, rfl⟩ := Language.mem_mul.1 hcs
    obtain ⟨_, rfl, _, hcontent, rfl⟩ := Language.mem_mul.1 hfront
    exact between_quotes_mem_passed depth (Or.inl rfl) (hdouble hcontent)
  · intro cs hcs
    obtain ⟨_, hfront, _, rfl, rfl⟩ := Language.mem_mul.1 hcs
    obtain ⟨_, rfl, _, hcontent, rfl⟩ := Language.mem_mul.1 hfront
    exact between_quotes_mem_passed depth (Or.inr rfl) (hsingle hcontent)

/-- In brackets the scan goes on one level deeper. -/
theorem bracketed_le_passed (depth : Nat) {content : Language Char}
    (hcontent : content ≤ passed (insideDoctype none (depth + 1))) :
    word "[" * content * word "]" ≤ passed (insideDoctype none depth) := by
  intro cs hcs
  obtain ⟨_, hfront, _, rfl, rfl⟩ := Language.mem_mul.1 hcs
  obtain ⟨_, rfl, subset, hsubset, rfl⟩ := Language.mem_mul.1 hfront
  refine enclosed_mem_passed ?_ (hcontent hsubset) ?_
  · intro rest
    exact insideDoctype_of_not_chunk depth (chunkEnd?_of_ne (by decide) rest)
  · intro rest
    exact insideDoctype_of_not_chunk (depth + 1) (chunkEnd?_of_ne (by decide) rest)

/-- In brackets a closing bracket does not end the declaration. -/
theorem close_le_passed (depth : Nat) : word ">" ≤ passed (insideDoctype none (depth + 1)) := by
  refine word_le (mem_passed.2 fun rest => ?_)
  have hplain : insideDoctype none (depth + 1) ('>' :: rest) =
      (insideDoctype none (depth + 1) rest).map (before ['>']) := by
    rw [insideDoctype_of_not_chunk (depth + 1) (chunkEnd?_of_ne (by decide) _)]
    rfl
  exact hplain

/-- What a markup declaration starts with is no chunk. -/
theorem opening_le_passed (depth : Nat) {text : String} {c : Char} {cs : List Char}
    (htext : text.toList = '<' :: '!' :: c :: cs) (hc : c ≠ '-')
    (hplain : '!' :: c :: cs ∈ avoiding markup) :
    word text ≤ passed (insideDoctype none depth) := by
  refine word_le (mem_passed.2 fun rest => ?_)
  have hend : chunkEnd? ('<' :: '!' :: c :: (cs ++ rest)) = none := by
    simp [chunkEnd?, List.isPrefixOf, hc.symm]
  have hmore := mem_passed.1 (avoiding_markup_le_passed depth hplain) rest
  rw [htext]
  calc insideDoctype none depth ('<' :: '!' :: c :: (cs ++ rest))
    _ = (insideDoctype none depth ('!' :: c :: (cs ++ rest))).map (before ['<']) := by
      rw [insideDoctype_of_not_chunk depth hend]
      rfl
    _ = (insideDoctype none depth rest).map (before ['<'] ∘ before ('!' :: c :: cs)) := by
      rw [← Option.map_map, ← hmore]
      rfl
    _ = _ := by rw [← before_append]; rfl

/-! ### Parts without markup -/

/-- Texts that mean nothing inside a declaration. -/
def plain : Language Char := avoiding markup

theorem closed_plain : Closed plain := closed_avoiding markup

theorem space_le_plain : space ≤ plain := space_le_avoiding (by decide)

theorem name_le_plain : name ≤ plain := name_le_avoiding (by decide)

theorem reference_le_plain : reference ≤ plain := by
  have h := closed_plain
  have hend : word ";" ≤ plain := word_le_avoiding (by decide)
  have hdigits : one Text.isDigit ≤ plain := one_le_avoiding (by decide)
  have hhex : one charReference.isHexDigit ≤ plain := one_le_avoiding (by decide)
  have hentity : word "&" * name * word ";" ≤ plain :=
    h.mul_le (h.mul_le (word_le_avoiding (by decide)) name_le_plain) hend
  have hdecimal : word "&#" * one Text.isDigit * (one Text.isDigit)∗ * word ";" ≤ plain :=
    h.mul_le (h.mul_le (h.mul_le (word_le_avoiding (by decide)) hdigits) (h.kstar_le hdigits)) hend
  have hhexadecimal : word "&#x" * one charReference.isHexDigit *
      (one charReference.isHexDigit)∗ * word ";" ≤ plain :=
    h.mul_le (h.mul_le (h.mul_le (word_le_avoiding (by decide)) hhex) (h.kstar_le hhex)) hend
  exact add_le_iff.2 ⟨hentity, add_le_iff.2 ⟨hdecimal, hhexadecimal⟩⟩

theorem parameterReference_le_plain : parameterReference ≤ plain :=
  closed_plain.mul_le (closed_plain.mul_le (word_le_avoiding (by decide)) name_le_plain)
    (word_le_avoiding (by decide))

theorem modifier_le_plain : modifier ≤ plain := closed_plain.maybe_le (one_le_avoiding (by decide))

theorem separator_le_plain {text : String} (htext : word text ≤ plain) : separator text ≤ plain :=
  closed_plain.mul_le (closed_plain.mul_le (closed_plain.maybe_le space_le_plain) htext)
    (closed_plain.maybe_le space_le_plain)

theorem group_le_plain {part : Language Char} (hpart : part ≤ plain) : group part ≤ plain := by
  have h := closed_plain
  have hspace := h.maybe_le space_le_plain
  have hopen : word "(" * maybe space * part ≤ plain :=
    h.mul_le (h.mul_le (word_le_avoiding (by decide)) hspace) hpart
  have hclose : word ")" ≤ plain := word_le_avoiding (by decide)
  have hchoice : separator "|" * part ≤ plain :=
    h.mul_le (separator_le_plain (word_le_avoiding (by decide))) hpart
  have hsequence : separator "," * part ≤ plain :=
    h.mul_le (separator_le_plain (word_le_avoiding (by decide))) hpart
  exact add_le_iff.2
    ⟨h.mul_le (h.mul_le (h.mul_le (h.mul_le hopen hchoice) (h.kstar_le hchoice)) hspace) hclose,
      h.mul_le (h.mul_le (h.mul_le hopen (h.kstar_le hsequence)) hspace) hclose⟩

theorem particle_le_plain (depth : Nat) : particle depth ≤ plain := by
  induction depth with
  | zero => exact closed_plain.mul_le name_le_plain modifier_le_plain
  | succ depth ih =>
    exact add_le_iff.2 ⟨ih, closed_plain.mul_le (group_le_plain ih) modifier_le_plain⟩

theorem contentSpec_le_plain : contentSpec ≤ plain := by
  have h := closed_plain
  have hspace := h.maybe_le space_le_plain
  have hopen : word "(" * maybe space * word "#PCDATA" ≤ plain :=
    h.mul_le (h.mul_le (word_le_avoiding (by decide)) hspace) (word_le_avoiding (by decide))
  have hnames : (separator "|" * name)∗ ≤ plain :=
    h.kstar_le (h.mul_le (separator_le_plain (word_le_avoiding (by decide))) name_le_plain)
  have hmixed : mixed ≤ plain := add_le_iff.2
    ⟨h.mul_le (h.mul_le (h.mul_le hopen hnames) hspace) (word_le_avoiding (by decide)),
      h.mul_le (h.mul_le hopen hspace) (word_le_avoiding (by decide))⟩
  have hchildren : ⨆ depth, group (particle depth) * modifier ≤ plain :=
    iSup_le fun depth => h.mul_le (group_le_plain (particle_le_plain depth)) modifier_le_plain
  exact add_le_iff.2 ⟨add_le_iff.2 ⟨words_le_avoiding (by decide), hmixed⟩, hchildren⟩

theorem enumeration_le_plain {texts : Language Char} (htexts : texts ≤ plain) :
    enumeration texts ≤ plain := by
  have h := closed_plain
  have hspace := h.maybe_le space_le_plain
  have hmore : (separator "|" * texts)∗ ≤ plain :=
    h.kstar_le (h.mul_le (separator_le_plain (word_le_avoiding (by decide))) htexts)
  exact h.mul_le (h.mul_le (h.mul_le (h.mul_le (h.mul_le (word_le_avoiding (by decide)) hspace)
    htexts) hmore) hspace) (word_le_avoiding (by decide))

theorem attributeType_le_plain : attributeType ≤ plain := by
  have hnotation : word "NOTATION" * space * enumeration name ≤ plain :=
    closed_plain.mul_le (closed_plain.mul_le (word_le_avoiding (by decide)) space_le_plain)
      (enumeration_le_plain name_le_plain)
  have htokens : enumeration nameToken ≤ plain :=
    enumeration_le_plain (nameToken_le_avoiding (by decide))
  exact add_le_iff.2 ⟨add_le_iff.2 ⟨words_le_avoiding (by decide), hnotation⟩, htokens⟩

/-! ### Literals and markup declarations -/

section

variable (depth : Nat)

theorem plain_le_passed : plain ≤ passed (insideDoctype none depth) :=
  avoiding_markup_le_passed depth

theorem space_le_passed : space ≤ passed (insideDoctype none depth) :=
  space_le_plain.trans (plain_le_passed depth)

theorem name_le_passed : name ≤ passed (insideDoctype none depth) :=
  name_le_plain.trans (plain_le_passed depth)

theorem word_le_passed {text : String} (h : markup.all (fun c => !text.toList.contains c) = true) :
    word text ≤ passed (insideDoctype none depth) :=
  (word_le_avoiding h).trans (plain_le_passed depth)

/-- A literal is passed over if no part of it holds its own quote. -/
theorem literal_le_passed {part : Char → Language Char}
    (hpart : ∀ quote ∈ ['"', '\''], part quote ≤ avoiding [quote]) :
    quoted (fun quote => (part quote)∗) ≤ passed (insideDoctype none depth) :=
  quoted_le_passed depth ((closed_avoiding _).kstar_le (hpart _ (by simp)))
    ((closed_avoiding _).kstar_le (hpart _ (by simp)))

theorem systemLiteral_le_passed : systemLiteral ≤ passed (insideDoctype none depth) :=
  literal_le_passed depth fun _ _ => one_le_avoiding (by simp)

theorem publicLiteral_le_passed : publicLiteral ≤ passed (insideDoctype none depth) :=
  literal_le_passed depth fun _ _ => one_le_avoiding (by simp)

theorem plain_le_avoiding_quote {quote : Char} (h : quote ∈ ['"', '\'']) :
    plain ≤ avoiding [quote] := by
  refine avoiding_le_avoiding (List.cons_subset.2 ⟨?_, List.nil_subset _⟩)
  simp only [List.mem_cons, List.not_mem_nil, or_false] at h
  rcases h with rfl | rfl <;> decide

theorem attributeValue_le_passed : attributeValue ≤ passed (insideDoctype none depth) :=
  literal_le_passed depth fun _ hquote => add_le_iff.2
    ⟨one_le_avoiding (by simp), reference_le_plain.trans (plain_le_avoiding_quote hquote)⟩

theorem entityValue_le_passed : entityValue ≤ passed (insideDoctype none depth) :=
  literal_le_passed depth fun _ hquote => add_le_iff.2
    ⟨add_le_iff.2 ⟨one_le_avoiding (by simp),
      parameterReference_le_plain.trans (plain_le_avoiding_quote hquote)⟩,
      reference_le_plain.trans (plain_le_avoiding_quote hquote)⟩

theorem externalId_le_passed : externalId ≤ passed (insideDoctype none depth) := by
  have h := closed_passed (insideDoctype none depth)
  have hspace := space_le_passed depth
  have hsystem := systemLiteral_le_passed depth
  have hpublic := publicLiteral_le_passed depth
  exact add_le_iff.2 ⟨h.mul_le (h.mul_le (word_le_passed depth (by decide)) hspace) hsystem,
    h.mul_le (h.mul_le (h.mul_le (h.mul_le (word_le_passed depth (by decide)) hspace) hpublic)
      hspace) hsystem⟩

theorem defaultDecl_le_passed : defaultDecl ≤ passed (insideDoctype none depth) := by
  have h := closed_passed (insideDoctype none depth)
  have hwords : words ["#REQUIRED", "#IMPLIED"] ≤ passed (insideDoctype none depth) :=
    (words_le_avoiding (by decide)).trans (plain_le_passed depth)
  have hfixed : maybe (word "#FIXED" * space) ≤ passed (insideDoctype none depth) :=
    h.maybe_le (h.mul_le (word_le_passed depth (by decide)) (space_le_passed depth))
  exact add_le_iff.2 ⟨hwords, h.mul_le hfixed (attributeValue_le_passed depth)⟩

/-- In brackets a markup declaration is passed over, given what stands between its opening and the
white space in front of its end. -/
theorem markupDecl_le_passed {opening content : Language Char}
    (hopening : opening ≤ passed (insideDoctype none (depth + 1)))
    (hcontent : content ≤ passed (insideDoctype none (depth + 1))) :
    opening * content * maybe space * word ">" ≤ passed (insideDoctype none (depth + 1)) := by
  have h := closed_passed (insideDoctype none (depth + 1))
  exact h.mul_le (h.mul_le (h.mul_le hopening hcontent) (h.maybe_le (space_le_passed (depth + 1))))
    (close_le_passed depth)

theorem elementDecl_le_passed : elementDecl ≤ passed (insideDoctype none (depth + 1)) := by
  have h := closed_passed (insideDoctype none (depth + 1))
  have hspace := space_le_passed (depth + 1)
  have hopening : word "<!ELEMENT" * space * name * space ≤
      passed (insideDoctype none (depth + 1)) :=
    h.mul_le (h.mul_le (h.mul_le (opening_le_passed _ rfl (by decide)
      (mem_avoiding_of_all (by decide))) hspace) (name_le_passed _)) hspace
  exact markupDecl_le_passed depth hopening (contentSpec_le_plain.trans (plain_le_passed _))

theorem attlistDecl_le_passed : attlistDecl ≤ passed (insideDoctype none (depth + 1)) := by
  have h := closed_passed (insideDoctype none (depth + 1))
  have hspace := space_le_passed (depth + 1)
  have hname := name_le_passed (depth + 1)
  have htype := attributeType_le_plain.trans (plain_le_passed (depth + 1))
  have hopening : word "<!ATTLIST" * space * name ≤ passed (insideDoctype none (depth + 1)) :=
    h.mul_le (h.mul_le (opening_le_passed _ rfl (by decide) (mem_avoiding_of_all (by decide)))
      hspace) hname
  have hattribute : space * name * space * attributeType * space * defaultDecl ≤
      passed (insideDoctype none (depth + 1)) :=
    h.mul_le (h.mul_le (h.mul_le (h.mul_le (h.mul_le hspace hname) hspace) htype) hspace)
      (defaultDecl_le_passed _)
  exact markupDecl_le_passed depth hopening (h.kstar_le hattribute)

theorem entityDecl_le_passed : entityDecl ≤ passed (insideDoctype none (depth + 1)) := by
  have h := closed_passed (insideDoctype none (depth + 1))
  have hspace := space_le_passed (depth + 1)
  have hname := name_le_passed (depth + 1)
  have hvalue := entityValue_le_passed (depth + 1)
  have hexternal := externalId_le_passed (depth + 1)
  have hopening : word "<!ENTITY" * space ≤ passed (insideDoctype none (depth + 1)) :=
    h.mul_le (opening_le_passed _ rfl (by decide) (mem_avoiding_of_all (by decide))) hspace
  have hpercent : word "%" ≤ passed (insideDoctype none (depth + 1)) := word_le_passed _ (by decide)
  have hunparsed : space * word "NDATA" * space * name ≤ passed (insideDoctype none (depth + 1)) :=
    h.mul_le (h.mul_le (h.mul_le hspace (word_le_passed _ (by decide))) hspace) hname
  refine add_le_iff.2 ⟨markupDecl_le_passed depth ?_ ?_, markupDecl_le_passed depth ?_ ?_⟩
  · exact h.mul_le (h.mul_le hopening hname) hspace
  · exact add_le_iff.2 ⟨hvalue, h.mul_le hexternal (h.maybe_le hunparsed)⟩
  · exact h.mul_le (h.mul_le (h.mul_le (h.mul_le hopening hpercent) hspace) hname) hspace
  · exact add_le_iff.2 ⟨hvalue, hexternal⟩

theorem notationDecl_le_passed : notationDecl ≤ passed (insideDoctype none (depth + 1)) := by
  have h := closed_passed (insideDoctype none (depth + 1))
  have hspace := space_le_passed (depth + 1)
  have hopening : word "<!NOTATION" * space * name * space ≤
      passed (insideDoctype none (depth + 1)) :=
    h.mul_le (h.mul_le (h.mul_le (opening_le_passed _ rfl (by decide)
      (mem_avoiding_of_all (by decide))) hspace) (name_le_passed _)) hspace
  have hpublic : word "PUBLIC" * space * publicLiteral ≤ passed (insideDoctype none (depth + 1)) :=
    h.mul_le (h.mul_le (word_le_passed _ (by decide)) hspace) (publicLiteral_le_passed _)
  exact markupDecl_le_passed depth hopening (add_le_iff.2 ⟨externalId_le_passed _, hpublic⟩)

theorem internalSubset_le_passed :
    internalSubset steadyComment ≤ passed (insideDoctype none (depth + 1)) := by
  refine (closed_passed _).kstar_le ?_
  simp only [add_le_iff]
  exact ⟨⟨⟨⟨⟨⟨⟨elementDecl_le_passed depth, attlistDecl_le_passed depth⟩,
    entityDecl_le_passed depth⟩, notationDecl_le_passed depth⟩,
    instruction_le_chunks.trans (chunks_le_passed_insideDoctype _)⟩,
    steadyComment_le_chunks.trans (chunks_le_passed_insideDoctype _)⟩,
    parameterReference_le_plain.trans (plain_le_passed _)⟩, space_le_passed _⟩

end

/-- A declaration is taken up to its own end. -/
theorem doctypeDecl_mem_taken {declaration : List Char}
    (h : declaration ∈ doctypeDecl steadyComment) :
    ∃ body ∈ taken (insideDoctype none 0), declaration = doctypeStart ++ body := by
  have hpassed := closed_passed (insideDoctype none 0)
  have hspace := space_le_passed 0
  have hexternal : maybe (space * externalId) ≤ passed (insideDoctype none 0) :=
    hpassed.maybe_le (hpassed.mul_le hspace (externalId_le_passed 0))
  have hsubset : maybe (word "[" * internalSubset steadyComment * word "]" * maybe space) ≤
      passed (insideDoctype none 0) :=
    hpassed.maybe_le (hpassed.mul_le (bracketed_le_passed 0 (internalSubset_le_passed 0))
      (hpassed.maybe_le hspace))
  have hend : word ">" ≤ taken (insideDoctype none 0) :=
    word_le (mem_taken.2 fun rest =>
      insideDoctype_of_not_chunk 0 (chunkEnd?_of_ne (by decide) rest))
  have hassoc : doctypeDecl steadyComment = word "<!DOCTYPE" *
      (space * name * maybe (space * externalId) * maybe space *
        maybe (word "[" * internalSubset steadyComment * word "]" * maybe space) * word ">") := by
    simp only [doctypeDecl, mul_assoc]
  rw [hassoc] at h
  obtain ⟨_, rfl, body, hbody, rfl⟩ := Language.mem_mul.1 h
  refine ⟨body, mul_le_taken ?_ hend hbody, rfl⟩
  exact hpassed.mul_le (hpassed.mul_le (hpassed.mul_le (hpassed.mul_le hspace (name_le_passed 0))
    hexternal) (hpassed.maybe_le hspace)) hsubset

/-! ## The text without its declaration -/

def byteOrderMark : Char := Char.ofNat 0xFEFF

/-- Texts that do not start with a byte order mark. -/
def unmarked : Language Char := {cs | cs.head? ≠ some byteOrderMark}

theorem append_mem_unmarked {first second : List Char} (hfirst : first ∈ unmarked)
    (hsecond : second ∈ unmarked) : first ++ second ∈ unmarked := by
  cases first with
  | nil => exact hsecond
  | cons c cs => exact hfirst

theorem closed_unmarked : Closed unmarked := by
  refine kstar_le_of_mul_le_left ?_ ?_
  · rintro cs rfl
    exact show none ≠ some byteOrderMark by decide
  · intro cs hcs
    obtain ⟨first, hfirst, second, hsecond, rfl⟩ := Language.mem_mul.1 hcs
    exact append_mem_unmarked hfirst hsecond

theorem chunks_le_unmarked : chunks ≤ unmarked := by
  rintro cs ⟨terminator, hend, -⟩
  have hend : chunkEnd? cs = some terminator := by simpa using hend []
  obtain ⟨more, rfl | rfl⟩ := chunkEnd?_cases hend
  · exact show some '<' ≠ some byteOrderMark by decide
  · exact show some '<' ≠ some byteOrderMark by decide

theorem space_le_unmarked : space ≤ unmarked := by
  have hspace : one isSpace ≤ unmarked := one_le fun c hc hmark => by
    obtain rfl := Option.some.inj hmark
    exact absurd hc (by decide)
  exact closed_unmarked.mul_le hspace (closed_unmarked.kstar_le hspace)

theorem misc_le_unmarked : misc steadyComment ≤ unmarked :=
  add_le_iff.2 ⟨add_le_iff.2 ⟨steadyComment_le_chunks.trans chunks_le_unmarked,
    instruction_le_chunks.trans chunks_le_unmarked⟩, space_le_unmarked⟩

/-- Byte order marks at the start are put aside. -/
theorem findDoctype_marks {marks cs : List Char} (hmarks : ∀ c ∈ marks, (c == byteOrderMark) = true)
    (hcs : cs ∈ unmarked) :
    findDoctype (marks ++ cs) =
      (beforeDoctype cs).bind fun (front, declaration) =>
        (insideDoctype none 0 (declaration.drop doctypeStart.length)).map fun (body, rest) =>
          (marks ++ front, doctypeStart ++ body, rest) := by
  have hparts :
      cs.takeWhile (· == byteOrderMark) = [] ∧ cs.dropWhile (· == byteOrderMark) = cs := by
    cases cs with
    | nil => exact ⟨rfl, rfl⟩
    | cons c cs =>
      have hne : ¬ (c == byteOrderMark) = true := fun h => hcs (congrArg some (beq_iff_eq.1 h))
      exact ⟨List.takeWhile_cons_of_neg hne, List.dropWhile_cons_of_neg hne⟩
  have htake : (marks ++ cs).takeWhile (· == byteOrderMark) = marks := by
    rw [List.takeWhile_append_of_pos hmarks, hparts.1, List.append_nil]
  have hdrop : (marks ++ cs).dropWhile (· == byteOrderMark) = cs := by
    rw [List.dropWhile_append_of_pos hmarks, hparts.2]
  rw [byteOrderMark] at htake hdrop
  rw [findDoctype, htake, hdrop]
  cases beforeDoctype cs with
  | none => rfl
  | some parts =>
    simp only [Option.bind_some, Option.bind_eq_bind]
    cases insideDoctype none 0 (parts.2.drop doctypeStart.length) <;> rfl

theorem findDoctype_marked {mark cs : List Char} (hmark : mark ∈ maybe (word "\uFEFF"))
    (hcs : cs ∈ unmarked) :
    findDoctype (mark ++ cs) =
      (beforeDoctype cs).bind fun (front, declaration) =>
        (insideDoctype none 0 (declaration.drop doctypeStart.length)).map fun (body, rest) =>
          (mark ++ front, doctypeStart ++ body, rest) := by
  have hall : mark.all (· == byteOrderMark) = true := by
    rcases hmark with rfl | rfl <;> decide
  exact findDoctype_marks (List.all_eq_true.1 hall) hcs

/-- What the search passes over stays in front of whatever is left of the rest. -/
theorem stripDoctype_append {mark front rest : List Char} (hmark : mark ∈ maybe (word "\uFEFF"))
    (hfront : front ∈ passed beforeDoctype) (hunmarked : front ∈ unmarked)
    (hrest : rest ∈ unmarked) :
    stripDoctype (mark ++ front ++ rest) = mark ++ front ++ stripDoctype rest := by
  have hfind : findDoctype (mark ++ front ++ rest) =
      (findDoctype rest).map fun (initial, declaration, final) =>
        (mark ++ front ++ initial, declaration, final) := by
    have hnone := findDoctype_marked (Or.inl rfl) hrest
    rw [List.nil_append] at hnone
    rw [List.append_assoc, findDoctype_marked hmark (append_mem_unmarked hunmarked hrest), hnone,
      mem_passed.1 hfront rest]
    cases beforeDoctype rest with
    | none => rfl
    | some parts =>
      simp only [Option.map_some, Option.bind_some, before]
      cases insideDoctype none 0 (parts.2.drop doctypeStart.length) with
      | none => rfl
      | some parts => simp
  rw [stripDoctype, stripDoctype, hfind]
  cases findDoctype rest with
  | none => rfl
  | some parts => simp

theorem stripDoctype_of_prologue {front rest : List Char} (hfront : front ∈ prologue steadyComment)
    (hrest : rest ∈ unmarked) : stripDoctype (front ++ rest) = front ++ stripDoctype rest := by
  have hpassed : xmlDecl + misc steadyComment ≤ passed beforeDoctype := add_le_iff.2
    ⟨xmlDecl_le_chunks.trans chunks_le_passed_beforeDoctype, misc_le_passed_beforeDoctype⟩
  have hunmarked : xmlDecl + misc steadyComment ≤ unmarked := add_le_iff.2
    ⟨xmlDecl_le_chunks.trans chunks_le_unmarked, misc_le_unmarked⟩
  obtain ⟨mark, hmark, parts, hparts, rfl⟩ := Language.mem_mul.1 hfront
  exact stripDoctype_append hmark ((closed_passed _).kstar_le hpassed hparts)
    (closed_unmarked.kstar_le hunmarked hparts) hrest

theorem stripDoctype_of_doctypeDecl {declaration : List Char}
    (h : declaration ∈ doctypeDecl steadyComment) (rest : List Char) :
    declaration ++ rest ∈ unmarked ∧ stripDoctype (declaration ++ rest) = rest := by
  obtain ⟨body, hbody, rfl⟩ := doctypeDecl_mem_taken h
  have hunmarked : doctypeStart ++ body ++ rest ∈ unmarked :=
    show some '<' ≠ some byteOrderMark by decide
  have hfind : findDoctype (doctypeStart ++ body ++ rest) =
      some ([], doctypeStart ++ body, rest) := by
    have hmarked := findDoctype_marked (Or.inl rfl) hunmarked
    rw [List.nil_append, List.append_assoc, beforeDoctype_doctypeStart, Option.bind_some] at hmarked
    have hinside : insideDoctype none 0
        ((doctypeStart ++ (body ++ rest)).drop doctypeStart.length) = some (body, rest) := by
      rw [List.drop_left, mem_taken.1 hbody rest]
    rw [List.append_assoc, hmarked]
    simp only [hinside, Option.map_some, List.nil_append]
  refine ⟨hunmarked, ?_⟩
  rw [stripDoctype, hfind]
  rfl

theorem stripDoctype_of_toRoot {source : List Char} (h : source ∈ toRoot steadyComment) :
    source ∈ unmarked ∧ stripDoctype source = source := by
  obtain ⟨front, hfront, root, hroot, rfl⟩ := Language.mem_mul.1 h
  have hfrontUnmarked := closed_unmarked.kstar_le misc_le_unmarked hfront
  have hstop : root ∈ unmarked ∧ stripDoctype root = root := by
    obtain ⟨_, hopening, more, -, rfl⟩ := Language.mem_mul.1 hroot
    obtain ⟨_, rfl, _, ⟨c, hc, rfl⟩, rfl⟩ := Language.mem_mul.1 hopening
    have hunmarked : '<' :: c :: more ∈ unmarked := show some '<' ≠ some byteOrderMark by decide
    have hfind := findDoctype_marked (Or.inl rfl) hunmarked
    rw [List.nil_append, beforeDoctype_root hc, Option.bind_none] at hfind
    refine ⟨hunmarked, ?_⟩
    change stripDoctype ('<' :: c :: more) = '<' :: c :: more
    rw [stripDoctype, hfind]
  refine ⟨append_mem_unmarked hfrontUnmarked hstop.1, ?_⟩
  have hstrip := stripDoctype_append (Or.inl rfl)
    ((closed_passed _).kstar_le misc_le_passed_beforeDoctype hfront) hfrontUnmarked hstop.1
  rw [List.nil_append, hstop.2] at hstrip
  exact hstrip

/-- The search goes on behind an abrupt opening. -/
theorem stripDoctype_of_abruptOpening {front opening rest : List Char}
    (hfront : front ∈ prologue steadyComment) (hopening : opening ∈ abruptOpening)
    (hrest : rest ∈ unmarked) :
    stripDoctype (front ++ opening ++ rest) = front ++ opening ++ stripDoctype rest := by
  have hchunk := abruptOpening_le_chunks hopening
  have hstrip := stripDoctype_append (Or.inl rfl) (chunks_le_passed_beforeDoctype hchunk)
    (chunks_le_unmarked hchunk) hrest
  rw [List.nil_append] at hstrip
  rw [List.append_assoc, stripDoctype_of_prologue hfront
    (append_mem_unmarked (chunks_le_unmarked hchunk) hrest), hstrip, List.append_assoc]

theorem eq_append_of_not_steady {cs : List Char} (hcomment : cs ∈ comment)
    (h : cs ∉ steadyComment) :
    ∃ opening ∈ abruptOpening, ∃ tail, cs = opening ++ tail := by
  by_contra hnone
  refine h (mem_steadyComment.2 ⟨hcomment, fun opening hopening hstart => hnone ?_⟩)
  obtain ⟨tail, rfl⟩ := hstart
  exact ⟨opening, hopening, tail, rfl⟩

/-! ### A document with a declaration

A quote in a comment, the end of the declaration in a literal and a parameter reference. -/

section

variable {first second : Language Char} {p : Char → Bool} {text : String}

theorem text_mem_mul (front back : String) (htext : front ++ back = text)
    (hfront : front.toList ∈ first) (hback : back.toList ∈ second) : text.toList ∈ first * second :=
  ⟨front.toList, hfront, back.toList, hback, by rw [← htext, String.toList_append]⟩

theorem text_mem_one (c : Char) (hc : p c = true) (htext : text.toList = [c]) :
    text.toList ∈ one p := ⟨c, hc, htext⟩

theorem text_mem_kstar_one (h : text.toList.all p = true) : text.toList ∈ (one p)∗ :=
  mem_kstar_one.2 (by simpa using h)

theorem text_mem_kstar (front back : String) (htext : front ++ back = text)
    (hfront : front.toList ∈ first) (hback : back.toList ∈ first∗) : text.toList ∈ first∗ :=
  (mul_kstar_le_kstar : first * first∗ ≤ first∗) (text_mem_mul front back htext hfront hback)

end

theorem blank_mem_space : " ".toList ∈ space :=
  text_mem_mul " " "" rfl (text_mem_one ' ' (by decide) rfl) (text_mem_kstar_one rfl)

theorem letter_mem_name {text : String} (c : Char) (hc : isNameStart c = true)
    (htext : text.toList = [c]) : text.toList ∈ name :=
  text_mem_mul text "" String.append_empty (text_mem_one c hc htext) (text_mem_kstar_one rfl)

theorem quote_comment_mem : "<!--'-->".toList ∈ steadyComment := by
  refine mem_steadyComment.2 ⟨text_mem_mul "<!--'" "-->" rfl ?_ rfl, ?_⟩
  · refine text_mem_mul "<!--" "'" rfl rfl (text_mem_kstar "'" "" rfl (Or.inl ?_) ?_)
    · exact text_mem_one '\'' (by decide) rfl
    · exact Language.nil_mem_kstar _
  · rintro opening ⟨text, htext, rfl⟩
    simp only [List.mem_cons, List.not_mem_nil, or_false] at htext
    rcases htext with rfl | rfl <;> simp

theorem sample_entity_mem : "<!ENTITY e \"]>\">".toList ∈ entityDecl := by
  refine Or.inl (text_mem_mul "<!ENTITY e \"]>\"" ">" rfl (text_mem_mul "<!ENTITY e \"]>\"" "" rfl
    (text_mem_mul "<!ENTITY e " "\"]>\"" rfl ?_ (Or.inl (Or.inl ?_))) (Or.inl rfl)) rfl)
  · exact text_mem_mul "<!ENTITY e" " " rfl (text_mem_mul "<!ENTITY " "e" rfl
      (text_mem_mul "<!ENTITY" " " rfl rfl blank_mem_space)
      (letter_mem_name 'e' (by decide) rfl)) blank_mem_space
  · refine text_mem_mul "\"]>" "\"" rfl (text_mem_mul "\"" "]>" rfl rfl ?_) rfl
    exact text_mem_kstar "]" ">" rfl (Or.inl (Or.inl (text_mem_one ']' (by decide) rfl)))
      (text_mem_kstar ">" "" rfl (Or.inl (Or.inl (text_mem_one '>' (by decide) rfl)))
        (Language.nil_mem_kstar _))

theorem sample_subset_mem :
    "<!--'--><!ENTITY e \"]>\">%p;".toList ∈ internalSubset steadyComment := by
  have hreference : "%p;".toList ∈ parameterReference :=
    text_mem_mul "%p" ";" rfl
      (text_mem_mul "%" "p" rfl rfl (letter_mem_name 'p' (by decide) rfl)) rfl
  refine text_mem_kstar "<!--'-->" "<!ENTITY e \"]>\">%p;" rfl ?_
    (text_mem_kstar "<!ENTITY e \"]>\">" "%p;" rfl ?_
      (text_mem_kstar "%p;" "" rfl ?_ (Language.nil_mem_kstar _)))
  · exact Or.inl (Or.inl (Or.inr quote_comment_mem))
  · exact Or.inl (Or.inl (Or.inl (Or.inl (Or.inl (Or.inr sample_entity_mem)))))
  · exact Or.inl (Or.inr hreference)

theorem sample_doctype_mem :
    "<!DOCTYPE s[<!--'--><!ENTITY e \"]>\">%p;]>".toList ∈ doctypeDecl steadyComment := by
  refine text_mem_mul "<!DOCTYPE s[<!--'--><!ENTITY e \"]>\">%p;]" ">" rfl
    (text_mem_mul "<!DOCTYPE s" "[<!--'--><!ENTITY e \"]>\">%p;]" rfl ?_ (Or.inr ?_)) rfl
  · exact text_mem_mul "<!DOCTYPE s" "" rfl (text_mem_mul "<!DOCTYPE s" "" rfl
      (text_mem_mul "<!DOCTYPE " "s" rfl (text_mem_mul "<!DOCTYPE" " " rfl rfl blank_mem_space)
        (letter_mem_name 's' (by decide) rfl)) (Or.inl rfl)) (Or.inl rfl)
  · exact text_mem_mul "[<!--'--><!ENTITY e \"]>\">%p;]" "" rfl
      (text_mem_mul "[<!--'--><!ENTITY e \"]>\">%p;" "]" rfl
        (text_mem_mul "[" "<!--'--><!ENTITY e \"]>\">%p;" rfl rfl sample_subset_mem) rfl)
      (Or.inl rfl)

theorem sample_prologue_mem : "\uFEFF<!--'-->".toList ∈ prologue steadyComment := by
  refine text_mem_mul "\uFEFF" "<!--'-->" rfl (Or.inr rfl)
    (text_mem_kstar "<!--'-->" "" rfl (Or.inr ?_) (Language.nil_mem_kstar _))
  exact Or.inl (Or.inl quote_comment_mem)

/-- **Cutting out the declaration.** Where no comment opens abruptly, exactly the document type
declaration is cut out: what stands before it stays, and so does whatever follows it. A document
without a declaration is left as it is.

A comment that opens abruptly is taken to end with its opening, so that what is left of it is
looked at as if it stood in the document. -/
theorem stripDoctype_cuts_declaration {front declaration rest : List Char}
    (hfront : front ∈ prologue steadyComment)
    (hdeclaration : declaration ∈ maybe (doctypeDecl steadyComment))
    (hrest : declaration = [] → rest ∈ toRoot steadyComment) :
    stripDoctype (front ++ declaration ++ rest) = front ++ rest ∧
    ∀ cs ∈ comment, cs ∉ steadyComment → ∃ opening ∈ abruptOpening, ∃ tail, cs = opening ++ tail ∧
      ∀ more, tail ++ more ∈ unmarked →
        stripDoctype (front ++ cs ++ more) = front ++ opening ++ stripDoctype (tail ++ more) := by
  refine ⟨?_, fun cs hcs hsteady => ?_⟩
  · have hstrip : declaration ++ rest ∈ unmarked ∧ stripDoctype (declaration ++ rest) = rest := by
      rcases hdeclaration with rfl | hdeclaration
      · exact stripDoctype_of_toRoot (hrest rfl)
      · exact stripDoctype_of_doctypeDecl hdeclaration rest
    rw [List.append_assoc, stripDoctype_of_prologue hfront hstrip.1, hstrip.2]
  · obtain ⟨opening, hopening, tail, rfl⟩ := eq_append_of_not_steady hcs hsteady
    refine ⟨opening, hopening, tail, rfl, fun more hmore => ?_⟩
    rw [← stripDoctype_of_abruptOpening hfront hopening hmore]
    simp only [List.append_assoc]

theorem sample_declaration_cut :
    "\uFEFF<!--'-->".toList ∈ prologue steadyComment ∧
    "<!DOCTYPE s[<!--'--><!ENTITY e \"]>\">%p;]>".toList ∈ maybe (doctypeDecl steadyComment) ∧
    stripDoctype ("\uFEFF<!--'-->".toList ++
      "<!DOCTYPE s[<!--'--><!ENTITY e \"]>\">%p;]>".toList ++ "<s/>".toList) =
      "\uFEFF<!--'-->".toList ++ "<s/>".toList :=
  ⟨sample_prologue_mem, Or.inr sample_doctype_mem, (stripDoctype_cuts_declaration
    sample_prologue_mem (Or.inr sample_doctype_mem) fun h => absurd h (by decide)).1⟩

end RobotSketch.Xml
