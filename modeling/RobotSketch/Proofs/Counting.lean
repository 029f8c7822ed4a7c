import Mathlib
import RobotSketch.Proofs.Runs
import RobotSketch.Proofs.Sketch.Reader

/-!
# Counting on the board

A counter loop becomes a loop whose counter is an `int`, and an `int` of the board has 16 bits.
`Sketch.Counts` runs such a loop around any body: the counter is compared with the bound before each
round, and counting on from the greatest value is an overflow, after which nothing is promised.

A loop runs its body as often as its document says exactly if that number is itself a value of the
counter (`Sketch.counts_iff`). Documents may ask for more, and then the loop overflows. The main
statement is `counter_loops_run_exactly_iff`.
-/
namespace RobotSketch

/-! ## Loops of the board -/

namespace Sketch

variable {σ : Type} {bound : Nat} {body : σ → σ}

/-- A loop that counts up to a bound, from a value of the counter and a state of all else. The
result is the state in which the loop is left, or nothing if the counter overflows. -/
inductive Counts (bound : Nat) (body : σ → σ) : Int16 → σ → Option σ → Prop where
  | leaves {counter : Int16} {state : σ} (hbound : bound ≤ counter.toInt) :
    Counts bound body counter state (some state)
  | again {counter : Int16} {state : σ} {result : Option σ} (hbound : counter.toInt < bound)
      (hmax : counter ≠ Int16.maxValue)
      (hrest : Counts bound body (counter + 1) (body state) result) :
    Counts bound body counter state result
  /-- The last round is run, but it cannot be counted. -/
  | overflows {counter : Int16} {state : σ} (hbound : counter.toInt < bound)
      (hmax : counter = Int16.maxValue) : Counts bound body counter state none

/-- A line is the header of a counting loop, which comes to a result around a body. -/
def Executes (header : List Char) (body : σ → σ) (start : σ) (result : Option σ) : Prop :=
  ∃ times, Token.ofLine? header = some (.count times) ∧ Counts times.toNat body 0 start result

theorem toInt_maxValue : Int16.maxValue.toInt = 32767 := rfl

theorem toInt_le_maxValue (counter : Int16) : counter.toInt ≤ 32767 := counter.toInt_le

/-- Below its greatest value the counter counts. -/
theorem toInt_add_one {counter : Int16} (h : counter ≠ Int16.maxValue) :
    (counter + 1).toInt = counter.toInt + 1 := by
  have hne : counter.toInt ≠ 32767 := fun heq => h (Int16.toInt_inj.1 heq)
  have hle := toInt_le_maxValue counter
  have hge := counter.le_toInt
  rw [Int16.toInt_add, Int16.toInt_one]
  exact Int.bmod_eq_of_le (by omega) (by omega)

/-- What a loop comes to. -/
theorem Counts.result_eq {counter : Int16} {state : σ} {result : Option σ}
    (h : Counts bound body counter state result) (hcounter : 0 ≤ counter.toInt) :
    result = if bound ≤ 32767 then some (body^[bound - counter.toInt.toNat] state) else none := by
  induction h with
  | @leaves counter state hbound =>
    have hle := toInt_le_maxValue counter
    rw [if_pos (by omega), show bound - counter.toInt.toNat = 0 by omega]
    rfl
  | @again counter state result hbound hmax _ ih =>
    have hnext := toInt_add_one hmax
    rw [ih (by omega), hnext]
    split
    · rw [← Function.iterate_succ_apply]
      congr 2
      omega
    · rfl
  | @overflows counter state hbound hmax =>
    rw [hmax, toInt_maxValue] at hbound
    rw [if_neg (by omega)]

/-- Every loop comes to something: with each round the counter is closer to its greatest value. -/
theorem exists_counts (bound : Nat) (body : σ → σ) (counter : Int16) (state : σ) :
    ∃ result, Counts bound body counter state result := by
  by_cases hbound : counter.toInt < bound
  · by_cases hmax : counter = Int16.maxValue
    · exact ⟨none, .overflows hbound hmax⟩
    · have hnext := toInt_add_one hmax
      have hle := toInt_le_maxValue (counter + 1)
      obtain ⟨result, hrest⟩ := exists_counts bound body (counter + 1) (body state)
      exact ⟨result, .again hbound hmax hrest⟩
  · exact ⟨some state, .leaves (by omega)⟩
termination_by (32767 - counter.toInt).toNat
decreasing_by omega

/-- A loop runs its body as often as its bound says, or it overflows. -/
theorem counts_iff {state : σ} {result : Option σ} :
    Counts bound body 0 state result ↔
      result = if bound ≤ 32767 then some (body^[bound] state) else none := by
  constructor
  · intro h
    exact h.result_eq (by decide)
  · rintro rfl
    obtain ⟨result, h⟩ := exists_counts bound body 0 state
    have hresult := h.result_eq (by decide)
    exact hresult ▸ h

theorem executes_countHeader (times : UInt32) (body : σ → σ) (start : σ) (result : Option σ) :
    Executes (countHeader times) body start result ↔
      result = if times.toNat ≤ 32767 then some (body^[times.toNat] start) else none := by
  rw [← counts_iff]
  constructor
  · rintro ⟨other, htoken, hcounts⟩
    rw [Token.ofLine?_countHeader] at htoken
    cases htoken
    exact hcounts
  · intro hcounts
    exact ⟨times, Token.ofLine?_countHeader times, hcounts⟩

end Sketch

/-! ## From documents to headers -/

namespace Element

mutual

/-- The numbers of rounds of the counter loops in an element, at any depth. -/
def iterations : Element → List UInt32
  | .expression .. => []
  | .sequence .. => []
  | .counterLoop _ times children => times :: iterationsAll children
  | .conditional _ _ _ _ ifBranch elseBranch => iterationsAll ifBranch ++ iterationsAll elseBranch

/-- The numbers of rounds of the counter loops in elements one after the other. -/
def iterationsAll : List Element → List UInt32
  | [] => []
  | element :: rest => iterations element ++ iterationsAll rest

end

end Element

open Element

namespace Code

/-- The line that opens a counting loop. -/
def countLine (times : UInt32) : String :=
  s!"for (int counter = 0; counter < {Text.ofNat times.toNat}; counter++) \x7b"

end Code

namespace Block

@[simp] theorem texts_append (first second : Block) :
    (first ++ second).texts = first.texts ++ second.texts :=
  List.map_append

@[simp] theorem texts_ofTexts (texts : List String) : (ofTexts texts).texts = texts := by
  simp [ofTexts, Block.texts, Function.comp_def]

@[simp] theorem texts_nested (block : Block) : block.nested.texts = block.texts := by
  simp [nested, texts]

theorem texts_braced (header : String) (body : Block) :
    (braced header body).texts = header :: (body.texts ++ ["\x7d"]) := by
  simp [braced]

end Block

namespace Code

theorem texts_cons (statement : Code) (rest : List Code) :
    (block (statement :: rest)).texts =
      (Statement.layout Condition.text Action.line statement).texts ++ (block rest).texts :=
  Block.texts_append ..

theorem texts_append (first second : List Code) :
    (block (first ++ second)).texts = (block first).texts ++ (block second).texts := by
  induction first with
  | nil => rfl
  | cons statement rest ih => rw [List.cons_append, texts_cons, texts_cons, ih, List.append_assoc]

theorem texts_count (times : UInt32) (body : List Code) :
    (block [.count times body]).texts = countLine times :: ((block body).texts ++ ["\x7d"]) := by
  rw [texts_cons, Statement.layout]
  exact (congrArg (· ++ []) (Block.texts_braced ..)).trans (List.append_nil _)

/-- The lines of both bodies are among those of a conditional, whatever its shape. -/
theorem mem_texts_arrange {shape : LoopShape} {ifTest elseTest : Condition}
    {ifBody elseBody : List Code} {text : String}
    (h : text ∈ (block ifBody).texts ∨ text ∈ (block elseBody).texts) :
    text ∈ (block (shape.arrange ifTest elseTest ifBody elseBody)).texts := by
  have hlayout : ∀ code, Statement.layoutAll Condition.text Action.line code = block code :=
    fun _ => rfl
  cases shape <;>
    simp only [LoopShape.arrange, texts_cons, Statement.layout, Statement.layoutAll, hlayout,
      Block.texts_append, Block.texts_braced, List.mem_append, List.mem_cons] <;>
    rcases h with h | h <;> simp [h]

end Code

namespace Project

variable {project : Project} {frame : Frame} {s s' : Session}

/-- A block that is put together in a session that goes on is kept. -/
theorem exists_ok_of_keeps {result : Except Error (List Code)} {whole : List Code → List Code}
    {code : List Code} (hs : s.cancelled = false)
    (h : (result.map fun body => s.keeps (whole body)) = .ok code) :
    ∃ body, result = .ok body ∧ whole body = code := by
  rcases result with error | body
  · cases h
  · have hcode : s.keeps (whole body) = code := Except.ok.inj h
    rw [Session.keeps, hs, if_neg Bool.false_ne_true] at hcode
    exact ⟨body, rfl, hcode⟩

/-- A run that was not cancelled writes out every counter loop that its elements hold. -/
theorem Runs.countLine_mem {elements : List Element} {result : Except Error (List Code)}
    (h : project.Runs frame elements s result s') {code : List Code} (hresult : result = .ok code)
    (hc : s'.cancelled = false) {times : UInt32} (htimes : times ∈ iterationsAll elements) :
    Code.countLine times ∈ (Code.block code).texts := by
  induction h generalizing code with
  | nil => simp [iterationsAll] at htimes
  | cancelled hs => rw [hs] at hc; cases hc
  | @cons frame element rest s s₁ s' first result hfirst hrest ihfirst ihrest =>
    rcases result with error | more
    · cases hresult
    · obtain rfl := Except.ok.inj hresult
      rw [Code.texts_append]
      rw [iterationsAll] at htimes
      rcases List.mem_append.1 htimes with htimes | htimes
      · have hc₁ := cancelled_of_compileList hrest.runFrom_eq hc
        refine List.mem_append_left _ (ihfirst rfl hc₁ ?_)
        simpa [iterationsAll] using htimes
      · exact List.mem_append_right _ (ihrest rfl hc htimes)
  | fails => cases hresult
  | step _ hstep =>
    -- An element that takes a single step and does not fail holds no loop.
    cases hstep with
    | again | first => simp [iterationsAll, iterations] at htimes
    | absent hwants => cases hwants <;> simp [iterationsAll, iterations] at htimes
    | _ => cases hresult
  | document => simp [iterationsAll, iterations] at htimes
  | counterLoop _ _ ih =>
    obtain ⟨body, rfl, rfl⟩ := exists_ok_of_keeps hc hresult
    rw [Code.texts_append, Code.texts_count]
    simp only [iterationsAll, iterations, List.append_nil, List.mem_cons] at htimes
    rcases htimes with rfl | htimes
    · simp
    · simp [ih rfl hc htimes]
  | conditional _ _ hif helse ihif ihelse =>
    obtain ⟨body, rfl, rfl⟩ := exists_ok_of_keeps hc hresult
    rw [Code.texts_append]
    simp only [iterationsAll, iterations, List.append_nil, List.mem_append] at htimes
    refine List.mem_append_right _ (Code.mem_texts_arrange ?_)
    rcases htimes with htimes | htimes
    · exact Or.inl (ihif rfl (cancelled_of_compileList helse.runFrom_eq hc) htimes)
    · exact Or.inr (ihelse rfl hc htimes)
  | ifBranchFails => cases hresult

/-- **When a counter loop runs as often as it says.** Let a document hold a counter loop, at any
depth. Its header stands in the code of the document, and around any body it runs that body as often
as the document says if that is at most 32767 times. Otherwise the counter overflows: there is no
value of it at which the loop would be left. -/
theorem counter_loops_run_exactly_iff {document : Node} {elements : List Element}
    (hread : readSequence document = .ok elements) {times : UInt32}
    (hloop : times ∈ iterationsAll elements) :
    (∀ (project : Project) (name : String) (directory : Path) (s s' : Session) (code : List Code),
      (project.compileSequence document name directory).runFrom s = (.ok code, s') →
      s'.cancelled = false →
      s!"for (int counter = 0; counter < {Text.ofNat times.toNat}; counter++) \x7b" ∈
        (Code.block code).texts) ∧
    (∀ (σ : Type) (body : σ → σ) (start : σ) (result : Option σ),
      Sketch.Executes
          (s!"for (int counter = 0; counter < {Text.ofNat times.toNat}; counter++) \x7b").toList
          body start result ↔
        result = if times.toNat ≤ 32767 then some (body^[times.toNat] start) else none) ∧
    (32767 < times.toNat → ∀ counter : Int16, counter.toInt < times.toNat) := by
  refine ⟨?_, ?_, fun hlarge counter => ?_⟩
  · intro project name directory s s' code hrun hc
    cases runsDocument_iff.2 hrun with
    | elements hread' hruns =>
      cases hread.symm.trans hread'
      exact hruns.countLine_mem rfl hc hloop
  · intro σ body start result
    rw [toList_countHeader]
    exact Sketch.executes_countHeader times body start result
  · have hle := Sketch.toInt_le_maxValue counter
    omega

/-- A loop that is to run 32768 times, around one of three rounds. -/
def longDance : Node := ⟨"sequence", [], "", [⟨"counter-loop", [("iterations", "32768")], "",
  [⟨"counter-loop", [("iterations", "3")], "", []⟩]⟩]⟩

/-- Both loops are read and compiled. The inner one counts to three, and the outer one overflows. -/
theorem long_dance_overflows :
    readSequence longDance = .ok [.counterLoop ⟨0, none⟩ 32768 [.counterLoop ⟨0, none⟩ 3 []]] ∧
    (∃ code s', ((⟨Documents.empty.library, .fixed .proceed, none⟩ : Project).compileSequence
        longDance "dance.xml" ⟨"p"⟩).runFrom {} = (.ok code, s') ∧ s'.cancelled = false ∧
      "for (int counter = 0; counter < 32768; counter++) \x7b" ∈ (Code.block code).texts) ∧
    Sketch.Executes "for (int counter = 0; counter < 3; counter++) \x7b".toList (· + 1) 0 (some 3) ∧
    Sketch.Executes "for (int counter = 0; counter < 32768; counter++) \x7b".toList (· + 1) 0 none ∧
    ∀ counter : Int16, counter.toInt < 32768 := by
  have hread : readSequence longDance =
      .ok [.counterLoop ⟨0, none⟩ 32768 [.counterLoop ⟨0, none⟩ 3 []]] := by cbv
  have hinner := counter_loops_run_exactly_iff hread (by decide : (3 : UInt32) ∈ _)
  have houter := counter_loops_run_exactly_iff hread (by decide : (32768 : UInt32) ∈ _)
  have hrun := runsDocument_iff.1 (@RunsDocument.elements ⟨Documents.empty.library,
    .fixed .proceed, none⟩ longDance "dance.xml" ⟨"p"⟩ {} _ _ _ hread
    (.counterLoop rfl (.counterLoop rfl .nil)))
  exact ⟨hread, ⟨_, _, hrun, rfl, houter.1 _ _ _ _ _ _ hrun rfl⟩,
    (hinner.2.1 Nat (· + 1) 0 (some 3)).2 rfl, (houter.2.1 Nat (· + 1) 0 none).2 rfl,
    houter.2.2 (by decide)⟩

end Project

end RobotSketch
