import RobotSketch.Prompt
import RobotSketch.Proofs.Text

/-!
# One line for each question

The lines of an input are the texts between its line feeds, and what follows the last one if there
is anything. Taking a line off an input leaves the other lines as they were (`lines_takeLine`), and
what was taken decides as the first line does (`decisionOf_takeLine`): the line feed that ends it is
a blank, and it can be cut off from bytes that are text.

So a question takes exactly one line, and along any number of them the terminal stays at the line
whose number is that of the next question (`Console.lines_askAll`). The main statement is
`one_line_per_question`.
-/
namespace RobotSketch

namespace Prompt

/-! ## Lines -/

/-- The lines of an input, without their line feeds. A line ends at a line feed or at the end of
the input, so behind the last line feed there is one only if anything is there. -/
def lines (input : List UInt8) : List (List UInt8) :=
  let pieces := input.splitOnP (· == 10)
  if pieces.getLast? = some [] then pieces.dropLast else pieces

theorem lines_nil : lines [] = [] := by decide

theorem splitOnP_of_not_mem {line : List UInt8} (hline : 10 ∉ line) :
    line.splitOnP (· == 10) = [line] := by
  refine List.splitOnP_eq_singleton fun byte hbyte => ?_
  have hne : byte ≠ 10 := fun h => hline (h ▸ hbyte)
  simpa using hne

theorem lines_of_not_mem {line : List UInt8} (hline : 10 ∉ line) (hne : line ≠ []) :
    lines line = [line] := by
  simp [lines, splitOnP_of_not_mem hline, hne]

/-- A line feed ends a line. -/
theorem lines_append_lineFeed {line : List UInt8} (hline : 10 ∉ line) (rest : List UInt8) :
    lines (line ++ 10 :: rest) = line :: lines rest := by
  have hpieces : (line ++ 10 :: rest).splitOnP (· == 10) = line :: rest.splitOnP (· == 10) := by
    rw [List.splitOnP_append_cons _ _ rfl, splitOnP_of_not_mem hline, List.singleton_append]
  have hne := List.splitOnP_ne_nil (· == 10) rest
  unfold lines
  simp only [hpieces]
  rw [List.getLast?_cons_of_ne_nil hne, List.dropLast_cons_of_ne_nil hne]
  split <;> rfl

theorem takeLine_of_not_mem {line : List UInt8} (hline : 10 ∉ line) :
    takeLine line = (line, []) := by
  induction line with
  | nil => rfl
  | cons byte line ih =>
    obtain ⟨hbyte, hline⟩ := not_or.1 (mt List.mem_cons.2 hline)
    rw [takeLine, if_neg (Ne.symm hbyte), ih hline]

theorem takeLine_append_lineFeed {line : List UInt8} (hline : 10 ∉ line) (rest : List UInt8) :
    takeLine (line ++ 10 :: rest) = (line ++ [10], rest) := by
  induction line with
  | nil => rfl
  | cons byte line ih =>
    obtain ⟨hbyte, hline⟩ := not_or.1 (mt List.mem_cons.2 hline)
    rw [List.cons_append, takeLine, if_neg (Ne.symm hbyte), ih hline]
    rfl

/-- An input has come to its end, or it is one line without a line feed, or it starts with a line
that has one. -/
theorem input_cases (input : List UInt8) :
    input = [] ∨ (input ≠ [] ∧ 10 ∉ input) ∨
      ∃ line rest, 10 ∉ line ∧ input = line ++ 10 :: rest := by
  by_cases hmem : 10 ∈ input
  · obtain ⟨line, rest, rfl, hline⟩ := List.eq_append_cons_of_mem hmem
    exact Or.inr (Or.inr ⟨line, rest, hline, rfl⟩)
  · by_cases hnil : input = []
    · exact Or.inl hnil
    · exact Or.inr (Or.inl ⟨hnil, hmem⟩)

/-- Taking a line leaves the lines behind the first one. -/
theorem lines_takeLine (input : List UInt8) : lines (takeLine input).2 = (lines input).drop 1 := by
  rcases input_cases input with rfl | ⟨hne, hline⟩ | ⟨line, rest, hline, rfl⟩
  · decide
  · rw [takeLine_of_not_mem hline, lines_of_not_mem hline hne]
    exact lines_nil
  · rw [takeLine_append_lineFeed hline, lines_append_lineFeed hline]
    rfl

/-! ## A line feed behind a text -/

/-- The last byte of a character is a line feed only if the character is one. -/
theorem eq_lineFeed_of_getLast?_utf8EncodeChar {c : Char}
    (h : (String.utf8EncodeChar c).getLast? = some 10) : c = '\n' := by
  have hvalue : c.val.toNat = 10 := by
    unfold String.utf8EncodeChar at h
    simp only at h
    split at h
    · rename_i hsmall
      rw [List.getLast?_singleton, Option.some.injEq] at h
      have hbyte := congrArg UInt8.toNat h
      rw [UInt8.toNat_ofNat_of_lt' (by simp only [UInt8.size]; omega)] at hbyte
      exact hbyte
    · exfalso
      -- In a longer code every byte behind the first one is at least 128.
      have hlong : UInt8.ofNat (c.val.toNat % 64 + 128) = 10 := by
        split at h
        · simpa using h
        · split at h
          · simpa using h
          · simpa using h
      have hbyte := congrArg UInt8.toNat hlong
      rw [UInt8.toNat_ofNat_of_lt' (by simp only [UInt8.size]; omega)] at hbyte
      have hten : (10 : UInt8).toNat = 10 := rfl
      omega
  exact Char.ext (UInt32.toNat_inj.1 hvalue)

/-- Bytes that are text stay so without a line feed at their end. -/
theorem utf8Encode_of_append_lineFeed {line : List UInt8} {cs : List Char}
    (h : line ++ [10] = cs.flatMap String.utf8EncodeChar) :
    ∃ front, cs = front ++ ['\n'] ∧ line = front.flatMap String.utf8EncodeChar := by
  rcases List.eq_nil_or_concat cs with rfl | ⟨front, c, rfl⟩
  · simp at h
  · rw [List.concat_eq_append] at h ⊢
    rw [List.flatMap_append, List.flatMap_singleton] at h
    have hlast : (String.utf8EncodeChar c).getLast? = some 10 := by
      have hends := congrArg List.getLast? h
      have hne : String.utf8EncodeChar c ≠ [] := by simp
      rw [List.getLast?_concat, List.getLast?_append, List.getLast?_eq_some_getLast hne,
        Option.some_or] at hends
      rw [List.getLast?_eq_some_getLast hne]
      exact hends.symm
    obtain rfl := eq_lineFeed_of_getLast?_utf8EncodeChar hlast
    exact ⟨front, rfl, List.append_cancel_right h⟩

/-- Bytes stand for a text exactly if they are its characters one after the other. -/
theorem fromUTF8?_eq_some_iff {line : List UInt8} {answer : String} :
    String.fromUTF8? ⟨line.toArray⟩ = some answer ↔
      line = answer.toList.flatMap String.utf8EncodeChar := by
  have hbytes : answer.toByteArray.data.toList = answer.toList.flatMap String.utf8EncodeChar := by
    rw [← String.utf8Encode_toList, List.utf8Encode, List.data_toByteArray]
  rw [← hbytes]
  constructor
  · intro h
    unfold String.fromUTF8? at h
    split at h
    · obtain rfl := Option.some.inj h
      rfl
    · cases h
  · rintro rfl
    exact dif_pos answer.isValidUTF8

theorem fromUTF8?_append_lineFeed (line : List UInt8) :
    String.fromUTF8? ⟨(line ++ [10]).toArray⟩ =
      (String.fromUTF8? ⟨line.toArray⟩).map (· ++ "\n") := by
  refine Option.ext fun answer => ?_
  rw [Option.map_eq_some_iff, fromUTF8?_eq_some_iff]
  constructor
  · intro h
    obtain ⟨front, hfront, hline⟩ := utf8Encode_of_append_lineFeed h
    refine ⟨String.ofList front, ?_, ?_⟩
    · rw [fromUTF8?_eq_some_iff, String.toList_ofList]
      exact hline
    · rw [← String.toList_inj, hfront]
      simp
  · rintro ⟨front, hfront, rfl⟩
    rw [String.toList_append, List.flatMap_append, ← fromUTF8?_eq_some_iff.1 hfront]
    rfl

/-- A blank behind a text is cut off. -/
theorem trim_concat_blank (cs : List Char) {c : Char} (hc : Text.isBlank c = true) :
    Text.trim (cs ++ [c]) = Text.trim cs := by
  unfold Text.trim Text.trimStart
  rw [List.dropWhile_append]
  by_cases hnil : cs.dropWhile Text.isBlank = []
  · rw [hnil, List.isEmpty_nil, if_pos rfl, List.dropWhile_cons_of_pos hc, List.dropWhile_nil]
  · rw [if_neg (by simpa using hnil)]
    unfold Text.dropEndWhile
    rw [List.reverse_concat, List.dropWhile_cons_of_pos hc]

/-! ## What a line decides -/

/-- A line says to go on: it is text and, apart from case and blanks at the ends, `y` or `yes`. -/
def Approves (line : List UInt8) : Prop :=
  ∃ answer, String.fromUTF8? ⟨line.toArray⟩ = some answer ∧
    (Text.asciiLowered (Text.trimmed answer) = "y" ∨
      Text.asciiLowered (Text.trimmed answer) = "yes")

theorem decisionOf_eq_proceed_iff (line : List UInt8) :
    decisionOf line = .proceed ↔ Approves line := by
  unfold decisionOf Approves
  cases String.fromUTF8? ⟨line.toArray⟩ with
  | none => simp
  | some answer =>
    simp only [Option.some.injEq, exists_eq_left']
    split <;> simp_all

/-- The line feed that ends a line does not count. -/
theorem decisionOf_append_lineFeed (line : List UInt8) :
    decisionOf (line ++ [10]) = decisionOf line := by
  unfold decisionOf
  rw [fromUTF8?_append_lineFeed]
  cases String.fromUTF8? ⟨line.toArray⟩ with
  | none => rfl
  | some answer =>
    have htrimmed : Text.trimmed (answer ++ "\n") = Text.trimmed answer := by
      unfold Text.trimmed
      rw [String.toList_append]
      exact congrArg String.ofList (trim_concat_blank _ (by decide))
    simp only [Option.map_some, htrimmed]

/-- What is taken off an input decides as its first line does, and aborts if there is none. -/
theorem decisionOf_takeLine (input : List UInt8) :
    decisionOf (takeLine input).1 = .proceed ↔
      ∃ line, (lines input)[0]? = some line ∧ Approves line := by
  rcases input_cases input with rfl | ⟨hne, hline⟩ | ⟨line, rest, hline, rfl⟩
  · have habort : decisionOf (takeLine []).1 = .abort := by decide
    simp [habort, lines_nil]
  · rw [takeLine_of_not_mem hline, lines_of_not_mem hline hne, decisionOf_eq_proceed_iff]
    simp
  · rw [takeLine_append_lineFeed hline, lines_append_lineFeed hline, decisionOf_append_lineFeed,
      decisionOf_eq_proceed_iff]
    simp

/-! ## Questions one after the other -/

namespace Console

variable (colours : Bool)

theorem length_askAll (console : Console) (questions : List Question) :
    (console.askAll colours questions).1.length = questions.length := by
  induction questions generalizing console with
  | nil => rfl
  | cons question questions ih => exact congrArg (· + 1) (ih _)

/-- After some questions the terminal is at the line that follows as many lines. -/
theorem lines_askAll (console : Console) (questions : List Question) :
    lines (console.askAll colours questions).2.input =
      (lines console.input).drop questions.length := by
  induction questions generalizing console with
  | nil => rfl
  | cons question questions ih =>
    have hrest := ih (console.ask colours question).2
    have hstep : lines (console.ask colours question).2.input = (lines console.input).drop 1 :=
      lines_takeLine console.input
    rw [hstep, List.drop_drop, Nat.add_comm] at hrest
    exact hrest

theorem shown_askAll (console : Console) (questions : List Question) :
    (console.askAll colours questions).2.shown =
      console.shown ++ String.join (questions.map (text colours)) := by
  induction questions generalizing console with
  | nil => simp [askAll, String.join]
  | cons question questions ih =>
    have hrest := ih (console.ask colours question).2
    have hstep : (console.ask colours question).2.shown =
        console.shown ++ text colours question := rfl
    rw [hstep, String.append_assoc] at hrest
    rw [List.map_cons, String.join_cons]
    exact hrest

/-- The decision on a question is that of the line with its number. -/
theorem askAll_eq_proceed_iff (console : Console) (questions : List Question) (i : Nat) :
    (console.askAll colours questions).1[i]? = some .proceed ↔
      i < questions.length ∧ ∃ line, (lines console.input)[i]? = some line ∧ Approves line := by
  induction questions generalizing console i with
  | nil => simp [askAll]
  | cons question questions ih =>
    cases i with
    | zero =>
      have hfirst := decisionOf_takeLine console.input
      simp only [askAll, ask, List.getElem?_cons_zero, Option.some.injEq, hfirst, List.length_cons,
        Nat.zero_lt_succ, true_and]
    | succ i =>
      have hrest := ih (console.ask colours question).2 i
      have hstep : lines (console.ask colours question).2.input = (lines console.input).drop 1 :=
        lines_takeLine console.input
      rw [hstep, List.getElem?_drop, Nat.add_comm 1 i] at hrest
      simp only [askAll, List.getElem?_cons_succ, List.length_cons, Nat.succ_lt_succ_iff]
      exact hrest

theorem askAll_eq_abort_iff (console : Console) (questions : List Question) (i : Nat) :
    (console.askAll colours questions).1[i]? = some .abort ↔
      i < questions.length ∧ ¬∃ line, (lines console.input)[i]? = some line ∧ Approves line := by
  have hproceed := askAll_eq_proceed_iff colours console questions i
  have hlength := length_askAll colours console questions
  by_cases hi : i < questions.length
  · rw [List.getElem?_eq_getElem (hlength ▸ hi)] at hproceed ⊢
    cases hdecision : (console.askAll colours questions).1[i] with
    | proceed => simp_all
    | abort => simp_all
  · rw [List.getElem?_eq_none (by omega)]
    simp [hi]

/-- The colours of the questions do not matter to what is read. -/
theorem input_askAll (colours' : Bool) (console console' : Console)
    (hinput : console.input = console'.input) (questions : List Question) :
    (console.askAll colours questions).2.input = (console'.askAll colours' questions).2.input := by
  induction questions generalizing console console' with
  | nil => exact hinput
  | cons question questions ih =>
    exact ih _ _ (congrArg (fun input => (takeLine input).2) hinput)

/-- A question is answered where the ones before it have left the terminal. -/
theorem getElem?_askAll (console : Console) {questions : List Question} {i : Nat}
    {question : Question} (h : questions[i]? = some question) :
    (console.askAll colours questions).1[i]? =
      some ((console.askAll colours (questions.take i)).2.ask colours question).1 := by
  induction questions generalizing console i with
  | nil => simp at h
  | cons first questions ih =>
    cases i with
    | zero =>
      obtain rfl : first = question := by simpa using h
      rfl
    | succ i => exact ih (console.ask colours first).2 (by simpa using h)

end Console

/-- **One line for each question.** Of questions put one after the other on one input, each is
answered by the line with its number: it is `y` or `yes` for going on, and anything else stops the
run, bytes that are no text and a line that is missing included. The questions take as many lines
off the input as they are themselves. So the answer to a question hangs on the line with its number
alone, whatever the other lines hold, and it is the answer that a run gets after the questions
before. What is shown are the questions in their order. -/
theorem one_line_per_question (colours : Bool) (input : List UInt8) (questions : List Question) :
    let run := (⟨input, ""⟩ : Console).askAll colours questions
    run.1.length = questions.length ∧
    (∀ i : Nat, run.1[i]? = some .proceed ↔
      i < questions.length ∧ ∃ line, (lines input)[i]? = some line ∧ Approves line) ∧
    (∀ i : Nat, run.1[i]? = some .abort ↔
      i < questions.length ∧ ¬∃ line, (lines input)[i]? = some line ∧ Approves line) ∧
    lines run.2.input = (lines input).drop questions.length ∧
    (∀ (other : List UInt8) (i : Nat), (lines other)[i]? = (lines input)[i]? →
      ((⟨other, ""⟩ : Console).askAll colours questions).1[i]? = run.1[i]?) ∧
    (∀ (i : Nat) (question : Question), questions[i]? = some question →
      run.1[i]? = some (handler input (questions.take i) question)) ∧
    run.2.shown = String.join (questions.map (text colours)) := by
  have hproceed := fun console => Console.askAll_eq_proceed_iff colours console questions
  have habort := fun console => Console.askAll_eq_abort_iff colours console questions
  have hlength := fun console => Console.length_askAll colours console questions
  refine ⟨hlength _, hproceed _, habort _, Console.lines_askAll colours _ questions, ?_, ?_, ?_⟩
  · intro other i hline
    refine Option.ext fun decision => ?_
    cases decision with
    | proceed => rw [hproceed, hproceed, hline]
    | abort => rw [habort, habort, hline]
  · intro i question hquestion
    rw [Console.getElem?_askAll colours _ hquestion]
    have hinput := Console.input_askAll colours false ⟨input, ""⟩ ⟨input, ""⟩ rfl
      (questions.take i)
    simp only [handler, Console.ask, hinput]
  · rw [Console.shown_askAll, String.empty_append]

/-- The answers are bytes that are no text, a word in capitals with a carriage return, and a word
that no line feed ends; for the fourth question there is none. The second answer is the only one
that approves, and it stays so when the first one is another. -/
theorem mixed_answers_read :
    ((⟨[255, 10, 89, 69, 83, 13, 10, 110, 111], ""⟩ : Console).askAll false
        [⟨"a.xml", "m.xml"⟩, ⟨"b.xml", "m.xml"⟩, ⟨"c.xml", "m.xml"⟩, ⟨"d.xml", "m.xml"⟩]).1 =
      [.abort, .proceed, .abort, .abort] ∧
    (lines [10, 89, 69, 83, 13, 10])[1]? = (lines [255, 10, 89, 69, 83, 13, 10, 110, 111])[1]? ∧
    ((⟨[10, 89, 69, 83, 13, 10], ""⟩ : Console).askAll false
        [⟨"a.xml", "m.xml"⟩, ⟨"b.xml", "m.xml"⟩, ⟨"c.xml", "m.xml"⟩, ⟨"d.xml", "m.xml"⟩]).1[1]? =
      some .proceed := by
  have hanswers : ((⟨[255, 10, 89, 69, 83, 13, 10, 110, 111], ""⟩ : Console).askAll false
      [⟨"a.xml", "m.xml"⟩, ⟨"b.xml", "m.xml"⟩, ⟨"c.xml", "m.xml"⟩, ⟨"d.xml", "m.xml"⟩]).1 =
        [.abort, .proceed, .abort, .abort] := by decide
  have hline : (lines [10, 89, 69, 83, 13, 10])[1]? =
      (lines [255, 10, 89, 69, 83, 13, 10, 110, 111])[1]? := by decide
  refine ⟨hanswers, hline, ?_⟩
  obtain ⟨-, -, -, -, hother, -⟩ := one_line_per_question false
    [255, 10, 89, 69, 83, 13, 10, 110, 111]
    [⟨"a.xml", "m.xml"⟩, ⟨"b.xml", "m.xml"⟩, ⟨"c.xml", "m.xml"⟩, ⟨"d.xml", "m.xml"⟩]
  rw [hother _ 1 hline, hanswers]
  rfl

end Prompt

end RobotSketch
