import RobotSketch.Proofs.Prolog.Grammar
import RobotSketch.Xml.Doctype

/-!
# Scanning texts

A scan takes a text up to some point and gives what it has taken and what is left. A language is
*passed over* by a scan if the scan takes its texts as they are and goes on behind them, whatever
follows. Such languages are closed: what is put together of them is passed over too. So it is enough
to look at characters and at the few texts that the scan looks at as a whole.

The search for a word passes over characters that no occurrence of the word can start with
(`isClear`). A *chunk* is a comment or a processing instruction that ends at the first terminator,
counted from its own start: every instruction is one, and every comment that does not open with
what looks like its end.
-/
namespace RobotSketch.Xml

open scoped Computability
open Grammar

/-! ## Closed languages -/

/-- A language that holds whatever its texts are put together to. -/
def Closed (texts : Language Char) : Prop := texts∗ ≤ texts

namespace Closed

variable {texts first second : Language Char} (h : Closed texts)
include h

theorem one_le : 1 ≤ texts := one_le_kstar.trans h

theorem mul_le (hfirst : first ≤ texts) (hsecond : second ≤ texts) : first * second ≤ texts :=
  calc first * second
    _ ≤ texts∗ * texts∗ := mul_le_mul' (hfirst.trans le_kstar) (hsecond.trans le_kstar)
    _ = texts∗ := kstar_mul_kstar texts
    _ ≤ texts := h

theorem kstar_le (hfirst : first ≤ texts) : first∗ ≤ texts := (kstar_mono hfirst).trans h

theorem maybe_le (hfirst : first ≤ texts) : maybe first ≤ texts :=
  add_le_iff.2 ⟨h.one_le, hfirst⟩

end Closed

theorem closed_kstar (texts : Language Char) : Closed texts∗ := (kstar_idem texts).le

theorem one_le {p : Char → Bool} {texts : Language Char} (h : ∀ c, p c = true → [c] ∈ texts) :
    one p ≤ texts := by
  rintro cs ⟨c, hc, rfl⟩
  exact h c hc

theorem word_le {text : String} {texts : Language Char} (h : text.toList ∈ texts) :
    word text ≤ texts := by
  rintro cs rfl
  exact h

theorem mem_kstar_one {p : Char → Bool} {cs : List Char} :
    cs ∈ (one p)∗ ↔ ∀ c ∈ cs, p c = true := by
  constructor
  · intro hcs c hc
    obtain ⟨pieces, rfl, hpieces⟩ := Language.mem_kstar.1 hcs
    obtain ⟨piece, hpiece, hmem⟩ := List.mem_flatten.1 hc
    obtain ⟨d, hd, rfl⟩ := hpieces piece hpiece
    rwa [List.mem_singleton.1 hmem]
  · intro h
    induction cs with
    | nil => exact Language.nil_mem_kstar _
    | cons c cs ih =>
      have hc : [c] ∈ one p := ⟨c, h c (by simp), rfl⟩
      have hle : one p * (one p)∗ ≤ (one p)∗ := mul_kstar_le_kstar
      exact hle (Language.append_mem_mul hc (ih fun d hd => h d (by simp [hd])))

/-! ## Texts without certain characters -/

/-- Texts that hold none of the given characters. -/
def avoiding (special : List Char) : Language Char := (one fun c => !special.contains c)∗

theorem closed_avoiding (special : List Char) : Closed (avoiding special) := closed_kstar _

section

variable {special : List Char}

theorem mem_avoiding {cs : List Char} : cs ∈ avoiding special ↔ ∀ c ∈ cs, c ∉ special := by
  simp [avoiding, mem_kstar_one]

theorem one_le_avoiding {p : Char → Bool} (h : special.all (fun c => !p c) = true) :
    one p ≤ avoiding special := by
  refine one_le fun c hc => mem_avoiding.2 fun d hd hmem => ?_
  obtain rfl := List.mem_singleton.1 hd
  have := List.all_eq_true.1 h d hmem
  simp [hc] at this

theorem mem_avoiding_of_all {cs : List Char} (h : special.all (fun c => !cs.contains c) = true) :
    cs ∈ avoiding special := by
  refine mem_avoiding.2 fun c hc hmem => ?_
  have := List.all_eq_true.1 h c hmem
  simp [hc] at this

theorem word_le_avoiding {text : String}
    (h : special.all (fun c => !text.toList.contains c) = true) : word text ≤ avoiding special :=
  word_le (mem_avoiding_of_all h)

theorem words_le_avoiding {texts : List String}
    (h : texts.all (fun text => special.all fun c => !text.toList.contains c) = true) :
    words texts ≤ avoiding special := by
  rintro cs ⟨text, htext, rfl⟩
  exact word_le_avoiding (List.all_eq_true.1 h text htext) rfl

theorem avoiding_le_avoiding {fewer : List Char} (h : fewer ⊆ special) :
    avoiding special ≤ avoiding fewer := fun _ hcs =>
  mem_avoiding.2 fun c hc hmem => mem_avoiding.1 hcs c hc (h hmem)

theorem avoiding_le {texts : Language Char} (hclosed : Closed texts)
    (h : ∀ c, c ∉ special → [c] ∈ texts) : avoiding special ≤ texts :=
  hclosed.kstar_le (one_le fun c hc => h c (by simpa using hc))

end

/-! ## Texts that a scan passes over -/

/-- Puts a text in front of what a scan has taken. -/
def before (cs : List Char) : List Char × List Char → List Char × List Char
  | (taken, rest) => (cs ++ taken, rest)

theorem before_append (first second : List Char) :
    before (first ++ second) = before first ∘ before second := by
  funext ⟨taken, rest⟩
  simp [before]

/-- The texts that a scan takes as they are and goes on behind, whatever follows. -/
def passed (scan : List Char → Option (List Char × List Char)) : Language Char :=
  {cs | ∀ rest, scan (cs ++ rest) = (scan rest).map (before cs)}

theorem mem_passed {scan : List Char → Option (List Char × List Char)} {cs : List Char} :
    cs ∈ passed scan ↔ ∀ rest, scan (cs ++ rest) = (scan rest).map (before cs) := Iff.rfl

theorem closed_passed (scan : List Char → Option (List Char × List Char)) :
    Closed (passed scan) := by
  refine kstar_le_of_mul_le_left ?_ ?_
  · rintro cs rfl rest
    have : before [] = id := rfl
    simp [this]
  · intro cs hcs
    obtain ⟨first, hfirst, second, hsecond, rfl⟩ := Language.mem_mul.1 hcs
    intro rest
    rw [List.append_assoc, hfirst, hsecond, Option.map_map, before_append]

/-- A text that takes one scan to another, and one that leads back, with what the other passes over
between them. -/
theorem enclosed_mem_passed {scan inside : List Char → Option (List Char × List Char)}
    {opening content closing : List Char}
    (hopening : ∀ rest, scan (opening ++ rest) = (inside rest).map (before opening))
    (hcontent : content ∈ passed inside)
    (hclosing : ∀ rest, inside (closing ++ rest) = (scan rest).map (before closing)) :
    opening ++ content ++ closing ∈ passed scan := by
  intro rest
  rw [List.append_assoc, List.append_assoc, hopening, hcontent, hclosing, Option.map_map,
    Option.map_map, before_append, before_append]

/-- The texts that a scan takes as a whole and stops behind, whatever follows. -/
def taken (scan : List Char → Option (List Char × List Char)) : Language Char :=
  {cs | ∀ rest, scan (cs ++ rest) = some (cs, rest)}

section

variable {scan : List Char → Option (List Char × List Char)}

theorem mem_taken {cs : List Char} :
    cs ∈ taken scan ↔ ∀ rest, scan (cs ++ rest) = some (cs, rest) := Iff.rfl

theorem append_mem_taken {first second : List Char} (hfirst : first ∈ passed scan)
    (hsecond : second ∈ taken scan) : first ++ second ∈ taken scan := by
  intro rest
  rw [List.append_assoc, hfirst, hsecond]
  rfl

theorem mul_le_taken {first second : Language Char} (hfirst : first ≤ passed scan)
    (hsecond : second ≤ taken scan) : first * second ≤ taken scan := by
  intro cs hcs
  obtain ⟨front, hfront, back, hback, rfl⟩ := Language.mem_mul.1 hcs
  exact append_mem_taken (hfirst hfront) (hsecond hback)

end

/-! ## The first occurrence of a word -/

/-- Whether no end of a text holds a word or is the start of one. -/
def isClear (word : List Char) : List Char → Bool
  | [] => true
  | c :: cs => !word.isPrefixOf (c :: cs) && !(c :: cs).isPrefixOf word && isClear word cs

theorem mem_passed_of_isClear {word cs : List Char} (h : isClear word cs = true) :
    cs ∈ passed (Text.splitAfter word) := by
  induction cs with
  | nil => exact (closed_passed _).one_le rfl
  | cons c cs ih =>
    simp only [isClear, Bool.and_eq_true, Bool.not_eq_true'] at h
    obtain ⟨⟨hword, hstart⟩, hclear⟩ := h
    intro rest
    have hnot : ¬ word.isPrefixOf (c :: (cs ++ rest)) = true := by
      intro hp
      rcases List.prefix_or_prefix_of_prefix (List.isPrefixOf_iff_prefix.1 hp)
        (List.prefix_append (c :: cs) rest) with hp | hp
      · rw [List.isPrefixOf_iff_prefix.2 hp] at hword
        exact absurd hword (by decide)
      · rw [List.isPrefixOf_iff_prefix.2 hp] at hstart
        exact absurd hstart (by decide)
    rw [List.cons_append, Text.splitAfter, if_neg hnot, ih hclear, Option.map_map]
    rfl

theorem word_le_taken (c : Char) (cs : List Char) :
    word (String.ofList (c :: cs)) ≤ taken (Text.splitAfter (c :: cs)) := by
  refine word_le fun rest => ?_
  have hp : (c :: cs).isPrefixOf (c :: (cs ++ rest)) = true :=
    List.isPrefixOf_iff_prefix.2 (List.prefix_append _ _)
  rw [String.toList_ofList, List.cons_append, Text.splitAfter, if_pos hp]
  simp

theorem avoiding_le_passed_splitAfter (first : Char) (word : List Char) :
    avoiding [first] ≤ passed (Text.splitAfter (first :: word)) := by
  refine avoiding_le (closed_passed _) fun c hc => mem_passed_of_isClear ?_
  have : first ≠ c := fun h => hc (by simp [h])
  simp [isClear, List.isPrefixOf, this, this.symm]

/-! ## Chunks -/

/-- Texts with a given start. -/
def starting (start : List Char) : Language Char := {cs | start <+: cs}

theorem mul_le_starting {start : List Char} {first : Language Char} (h : first ≤ starting start)
    (second : Language Char) : first * second ≤ starting start := by
  intro cs hcs
  obtain ⟨front, hfront, back, -, rfl⟩ := Language.mem_mul.1 hcs
  exact (h hfront).trans (List.prefix_append front back)

/-- Texts that are taken as one chunk, whatever follows. -/
def chunks : Language Char :=
  {cs | ∃ terminator, (∀ rest, chunkEnd? (cs ++ rest) = some terminator) ∧
    cs ∈ taken (Text.splitAfter terminator)}

theorem mem_chunks {start terminator cs : List Char}
    (hend : ∀ rest, chunkEnd? (start ++ rest) = some terminator) (hstart : start <+: cs)
    (htaken : cs ∈ taken (Text.splitAfter terminator)) : cs ∈ chunks := by
  refine ⟨terminator, fun rest => ?_, htaken⟩
  obtain ⟨more, rfl⟩ := hstart
  rw [List.append_assoc]
  exact hend (more ++ rest)

theorem chunkEnd?_instruction (rest : List Char) :
    chunkEnd? (['<', '?'] ++ rest) = some ['?', '>'] := by simp [chunkEnd?]

theorem chunkEnd?_comment (rest : List Char) :
    chunkEnd? (['<', '!', '-', '-'] ++ rest) = some ['-', '-', '>'] := by simp [chunkEnd?]

/-- A text in which the end of an instruction does not occur is followed by it. -/
theorem splitAfter_instruction_end {cs : List Char} (h : ¬ ['?', '>'] <:+: cs) (rest : List Char) :
    Text.splitAfter ['?', '>'] (cs ++ '?' :: '>' :: rest) = some (cs ++ ['?', '>'], rest) := by
  induction cs with
  | nil => simp [Text.splitAfter]
  | cons c cs ih =>
    have hnot : ¬ ['?', '>'].isPrefixOf (c :: (cs ++ '?' :: '>' :: rest)) = true := by
      intro hp
      cases cs with
      | nil => simp [List.isPrefixOf] at hp
      | cons d cs =>
        simp only [List.isPrefixOf, List.cons_append, Bool.and_eq_true, beq_iff_eq, and_true] at hp
        obtain ⟨rfl, rfl⟩ := hp
        exact h ⟨[], cs, rfl⟩
    rw [List.cons_append, Text.splitAfter, if_neg hnot,
      ih fun hin => h (hin.trans (List.suffix_cons c cs).isInfix)]
    rfl

/-! ### Parts without a question mark -/

section

variable {special : List Char}

theorem space_le_avoiding (h : special.all (fun c => !isSpace c) = true) :
    space ≤ avoiding special :=
  (closed_avoiding _).mul_le (one_le_avoiding h) ((closed_avoiding _).kstar_le (one_le_avoiding h))

theorem nameToken_le_avoiding (h : special.all (fun c => !isNameChar c) = true) :
    nameToken ≤ avoiding special :=
  (closed_avoiding _).mul_le (one_le_avoiding h) ((closed_avoiding _).kstar_le (one_le_avoiding h))

theorem name_le_nameToken : name ≤ nameToken := by
  refine mul_le_mul' (one_le fun c hc => ⟨c, ?_, rfl⟩) le_rfl
  simp [isNameChar, hc]

theorem name_le_avoiding (h : special.all (fun c => !isNameChar c) = true) :
    name ≤ avoiding special := name_le_nameToken.trans (nameToken_le_avoiding h)

end

theorem quoted_le {texts : Language Char} {content : Char → Language Char} (h : Closed texts)
    (hquotes : word "\"" ≤ texts ∧ word "'" ≤ texts)
    (hcontent : content '"' ≤ texts ∧ content '\'' ≤ texts) : quoted content ≤ texts :=
  add_le_iff.2 ⟨h.mul_le (h.mul_le hquotes.1 hcontent.1) hquotes.1,
    h.mul_le (h.mul_le hquotes.2 hcontent.2) hquotes.2⟩

/-- Nothing in the declaration of a document is a question mark, but for the marks at its ends. -/
theorem pseudoAttribute_le_avoiding {key : String} {value : Language Char}
    (hkey : word key ≤ avoiding ['?']) (hvalue : value ≤ avoiding ['?']) :
    space * word key * equals * quoted (fun _ => value) ≤ avoiding ['?'] := by
  have h := closed_avoiding ['?']
  have hspace : space ≤ avoiding ['?'] := space_le_avoiding (by decide)
  have hequals : equals ≤ avoiding ['?'] :=
    h.mul_le (h.mul_le (h.maybe_le hspace) (word_le_avoiding (by decide))) (h.maybe_le hspace)
  have hquoted : quoted (fun _ => value) ≤ avoiding ['?'] :=
    quoted_le h ⟨word_le_avoiding (by decide), word_le_avoiding (by decide)⟩ ⟨hvalue, hvalue⟩
  exact h.mul_le (h.mul_le (h.mul_le hspace hkey) hequals) hquoted

theorem xmlDecl_le_chunks : xmlDecl ≤ chunks := by
  have h := closed_avoiding ['?']
  have hdigits : one Text.isDigit ≤ avoiding ['?'] := one_le_avoiding (by decide)
  have hversion : versionInfo ≤ avoiding ['?'] :=
    pseudoAttribute_le_avoiding (word_le_avoiding (by decide))
      (h.mul_le (h.mul_le (word_le_avoiding (by decide)) hdigits) (h.kstar_le hdigits))
  have hencoding : encodingDecl ≤ avoiding ['?'] :=
    pseudoAttribute_le_avoiding (word_le_avoiding (by decide))
      (h.mul_le (one_le_avoiding (by decide)) (h.kstar_le (one_le_avoiding (by decide))))
  have hstandalone : standaloneDecl ≤ avoiding ['?'] :=
    pseudoAttribute_le_avoiding (word_le_avoiding (by decide)) (words_le_avoiding (by decide))
  have hspace : space ≤ avoiding ['?'] := space_le_avoiding (by decide)
  have hpassed := closed_passed (Text.splitAfter ['?', '>'])
  have hmore := avoiding_le_passed_splitAfter '?' ['>']
  intro cs hcs
  refine mem_chunks chunkEnd?_instruction ?_ ?_
  · have hstart : word "<?xml" ≤ starting ['<', '?'] := word_le ⟨['x', 'm', 'l'], rfl⟩
    exact mul_le_starting (mul_le_starting (mul_le_starting (mul_le_starting
      (mul_le_starting hstart _) _) _) _) _ hcs
  · have hopening : word "<?xml" ≤ passed (Text.splitAfter ['?', '>']) :=
      word_le (mem_passed_of_isClear (by decide))
    refine mul_le_taken ?_ (word_le_taken '?' ['>']) hcs
    exact hpassed.mul_le (hpassed.mul_le (hpassed.mul_le (hpassed.mul_le hopening
      (hversion.trans hmore)) ((h.maybe_le hencoding).trans hmore))
      ((h.maybe_le hstandalone).trans hmore)) ((h.maybe_le hspace).trans hmore)

/-- A name after the opening of an instruction does not end it. -/
theorem target_le_passed : word "<?" * target ≤ passed (Text.splitAfter ['?', '>']) := by
  have hpassed := closed_passed (Text.splitAfter ['?', '>'])
  have hfirst : word "<?" * one isNameStart ≤ passed (Text.splitAfter ['?', '>']) := by
    intro cs hcs
    obtain ⟨_, rfl, _, ⟨c, hc, rfl⟩, rfl⟩ := Language.mem_mul.1 hcs
    have hmark : c ≠ '?' := by rintro rfl; exact absurd hc (by decide)
    have hbracket : c ≠ '>' := by rintro rfl; exact absurd hc (by decide)
    refine mem_passed_of_isClear ?_
    simp [isClear, List.isPrefixOf, hmark, hbracket, hbracket.symm]
  have hmore : (one isNameChar)∗ ≤ passed (Text.splitAfter ['?', '>']) :=
    hpassed.kstar_le ((one_le_avoiding (by decide)).trans (avoiding_le_passed_splitAfter '?' ['>']))
  calc word "<?" * target
    _ ≤ word "<?" * name := mul_le_mul' le_rfl fun _ h => h.1
    _ = word "<?" * one isNameStart * (one isNameChar)∗ := (mul_assoc ..).symm
    _ ≤ passed (Text.splitAfter ['?', '>']) := hpassed.mul_le hfirst hmore

/-- What an instruction holds goes on to its end. -/
theorem instructionText_le_taken :
    ((one isAllowed)∗ - (one isAllowed)∗ * word "?>" * (one isAllowed)∗) * word "?>" ≤
      taken (Text.splitAfter ['?', '>']) := by
  intro cs hcs
  obtain ⟨text, ⟨hall, hnot⟩, _, rfl, rfl⟩ := Language.mem_mul.1 hcs
  intro rest
  rw [List.append_assoc]
  refine splitAfter_instruction_end ?_ rest
  rintro ⟨front, back, rfl⟩
  refine hnot (Language.append_mem_mul (Language.append_mem_mul ?_ rfl) ?_)
  · exact mem_kstar_one.2 fun c hc => mem_kstar_one.1 hall c (by simp [hc])
  · exact mem_kstar_one.2 fun c hc => mem_kstar_one.1 hall c (by simp [hc])

theorem instruction_le_chunks : instruction ≤ chunks := by
  intro cs hcs
  refine mem_chunks chunkEnd?_instruction ?_ ?_
  · have hstart : word "<?" ≤ starting ['<', '?'] := word_le ⟨[], rfl⟩
    exact mul_le_starting (mul_le_starting (mul_le_starting hstart _) _) _ hcs
  · have hspace : space ≤ passed (Text.splitAfter ['?', '>']) :=
      (space_le_avoiding (by decide)).trans (avoiding_le_passed_splitAfter '?' ['>'])
    have hend := word_le_taken '?' ['>']
    rw [instruction, mul_assoc] at hcs
    refine mul_le_taken target_le_passed ?_ hcs
    rw [maybe, add_mul, one_mul, mul_assoc]
    exact add_le_iff.2 ⟨hend, mul_le_taken hspace instructionText_le_taken⟩

/-! ### Comments -/

theorem commentPart_cases {cs : List Char} (h : cs ∈ commentPart) :
    ∃ c, c ≠ '-' ∧ (cs = [c] ∨ cs = ['-', c]) := by
  rcases h with ⟨c, hc, rfl⟩ | h
  · exact ⟨c, by simp_all, Or.inl rfl⟩
  · obtain ⟨_, rfl, _, ⟨c, hc, rfl⟩, rfl⟩ := Language.mem_mul.1 h
    exact ⟨c, by simp_all, Or.inr rfl⟩

theorem commentPart_le_passed : commentPart ≤ passed (Text.splitAfter ['-', '-', '>']) := by
  intro cs hcs
  obtain ⟨c, hc, rfl | rfl⟩ := commentPart_cases hcs
  · exact mem_passed_of_isClear (by simp [isClear, List.isPrefixOf, hc])
  · exact mem_passed_of_isClear (by simp [isClear, List.isPrefixOf, hc])

/-- A comment ends at once, or it has a first part, after which it goes on. -/
theorem comment_cases {cs : List Char} (h : cs ∈ comment) :
    cs = "<!---->".toList ∨ ∃ first ∈ commentPart, ∃ more ∈ commentPart∗,
      cs = "<!--".toList ++ first ++ (more ++ "-->".toList) := by
  obtain ⟨_, hfront, _, rfl, rfl⟩ := Language.mem_mul.1 h
  obtain ⟨_, rfl, content, hcontent, rfl⟩ := Language.mem_mul.1 hfront
  obtain ⟨parts, rfl, hparts⟩ := Language.mem_kstar.1 hcontent
  cases parts with
  | nil => exact Or.inl (by decide)
  | cons first parts =>
    refine Or.inr ⟨first, hparts first (by simp), parts.flatten, ?_, by simp⟩
    exact Language.join_mem_kstar fun part hpart => hparts part (by simp [hpart])

theorem commentRest_mem_taken {more : List Char} (h : more ∈ commentPart∗) :
    more ++ "-->".toList ∈ taken (Text.splitAfter ['-', '-', '>']) :=
  mul_le_taken ((closed_passed _).kstar_le commentPart_le_passed) (word_le_taken '-' ['-', '>'])
    (Language.append_mem_mul h rfl)

theorem mem_steadyComment {cs : List Char} :
    cs ∈ steadyComment ↔ cs ∈ comment ∧ ∀ opening ∈ abruptOpening, ¬ opening <+: cs := by
  refine and_congr_right fun _ => ⟨?_, ?_⟩
  · rintro h opening hopening ⟨tail, rfl⟩
    exact h (Language.append_mem_mul hopening (mem_kstar_one.2 (by simp)))
  · intro h hmem
    obtain ⟨opening, hopening, tail, -, rfl⟩ := Language.mem_mul.1 hmem
    exact h opening hopening ⟨tail, rfl⟩

theorem steadyComment_le_chunks : steadyComment ≤ chunks := by
  intro cs hcs
  obtain ⟨hcomment, hsteady⟩ := mem_steadyComment.1 hcs
  refine mem_chunks chunkEnd?_comment ?_ ?_
  · have hstart : word "<!--" ≤ starting ['<', '!', '-', '-'] := word_le ⟨[], rfl⟩
    exact mul_le_starting (mul_le_starting hstart _) _ hcomment
  · rcases comment_cases hcomment with rfl | ⟨first, hfirst, more, hmore, rfl⟩
    · intro rest
      simp [Text.splitAfter, List.isPrefixOf]
    · refine append_mem_taken (mem_passed_of_isClear ?_) (commentRest_mem_taken hmore)
      obtain ⟨c, hc, rfl | rfl⟩ := commentPart_cases hfirst
      · have hbracket : c ≠ '>' := by
          rintro rfl
          exact hsteady _ ⟨"<!-->", by decide, rfl⟩ (List.prefix_append ..)
        simp [isClear, List.isPrefixOf, hc, hbracket, hbracket.symm]
      · have hbracket : c ≠ '>' := by
          rintro rfl
          exact hsteady _ ⟨"<!--->", by decide, rfl⟩ (List.prefix_append ..)
        simp [isClear, List.isPrefixOf, hc, hbracket, hbracket.symm]

/-- An abrupt opening is taken for a whole comment. -/
theorem abruptOpening_le_chunks : abruptOpening ≤ chunks := by
  rintro cs ⟨text, htext, rfl⟩
  simp only [List.mem_cons, List.not_mem_nil, or_false] at htext
  rcases htext with rfl | rfl
  · refine mem_chunks chunkEnd?_comment ⟨['>'], rfl⟩ fun rest => ?_
    simp [Text.splitAfter, List.isPrefixOf]
  · refine mem_chunks chunkEnd?_comment ⟨['-', '>'], rfl⟩ fun rest => ?_
    simp [Text.splitAfter, List.isPrefixOf]

end RobotSketch.Xml
