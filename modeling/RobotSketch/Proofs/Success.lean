import Mathlib
import RobotSketch.Proofs.Unfolding

/-!
# When a compilation succeeds

A project that unfolds into trees compiles, if no saved sequence stands inside itself and the
handler never stops the run: `compileProgram_succeeds`. What the program then is follows from
`compileProgram_explained`.

The last section has a project held in memory that makes use of everything a sequence can hold.
-/
namespace RobotSketch

/-! ## Parts that succeed -/

namespace Compile

variable {α β : Type} {s s' : Session}

/-- A part succeeds, with a result and a session that satisfy `post`. -/
def Succeeds (part : Compile α) (s : Session) (post : α → Session → Prop) : Prop :=
  ∃ a s', part.runFrom s = (.ok a, s') ∧ post a s'

theorem Succeeds.bind {part : Compile α} {next : α → Compile β} {middle : α → Session → Prop}
    {post : β → Session → Prop} (h : part.Succeeds s middle)
    (hnext : ∀ a s₁, middle a s₁ → (next a).Succeeds s₁ post) : (part >>= next).Succeeds s post := by
  obtain ⟨a, s₁, hpart, hmiddle⟩ := h
  obtain ⟨b, s', hrun, hpost⟩ := hnext a s₁ hmiddle
  exact ⟨b, s', bind_ok.2 ⟨a, s₁, hpart, hrun⟩, hpost⟩

theorem succeeds_pure {a : α} {post : α → Session → Prop} (h : post a s) :
    (pure a : Compile α).Succeeds s post := ⟨a, s, rfl, h⟩

theorem succeeds_get (s : Session) :
    (get : Compile Session).Succeeds s fun a s' => a = s ∧ s' = s := ⟨s, s, rfl, rfl, rfl⟩

theorem succeeds_record (opened : List NormalPath) (event : Event) (s : Session) :
    (record opened event).Succeeds s fun _ s' =>
      s'.registry = s.registry ∧ s'.cancelled = s.cancelled := ⟨(), _, rfl, rfl, rfl⟩

theorem succeeds_ofDefect {file : String} {result : Except Defect α} {a : α} (h : result = .ok a)
    (s : Session) : (ofDefect file result).Succeeds s fun b s' => b = a ∧ s' = s :=
  ⟨a, s, ofDefect_ok.2 ⟨h, rfl⟩, rfl, rfl⟩

theorem succeeds_unlessCancelled {code : List Code} {post : Session → Prop} (h : post s) :
    (unlessCancelled code).Succeeds s fun _ => post :=
  ⟨_, s, unlessCancelled_ok.2 ⟨rfl, rfl⟩, h⟩

theorem Succeeds.thenUnlessCancelled {first second : Compile (List Code)}
    {middle post : Session → Prop} (hc : s.cancelled = false)
    (h : first.Succeeds s fun _ => middle)
    (hsecond : ∀ s₁, middle s₁ → second.Succeeds s₁ fun _ => post) :
    (first.thenUnlessCancelled second).Succeeds s fun _ => post := by
  obtain ⟨code₁, s₁, hfirst, hmiddle⟩ := h
  obtain ⟨code₂, s', hrun, hpost⟩ := hsecond s₁ hmiddle
  exact ⟨code₁ ++ code₂, s',
    thenUnlessCancelled_ok.2 (Or.inr ⟨hc, code₁, s₁, code₂, hfirst, hrun, rfl⟩), hpost⟩

end Compile

open Compile

namespace Project

variable {project : Project} {frame : Frame} {place : Place} {file : String} {s : Session}

/-- The handler never stops a run. -/
def AlwaysProceeds (project : Project) : Prop :=
  ∀ before question, project.handler before question = .proceed

theorem succeeds_ask (hhandler : project.AlwaysProceeds) (frame : Frame) (file : String)
    (s : Session) :
    (project.ask frame file).Succeeds s fun _ s' =>
      s'.registry = s.registry ∧ s'.cancelled = s.cancelled := by
  refine (succeeds_get s).bind ?_
  rintro _ _ ⟨rfl, rfl⟩
  refine (succeeds_record ..).bind ?_
  intro _ s₁ h₁
  rw [hhandler, if_neg (by simp)]
  exact succeeds_pure h₁

/-- A reference to an expression with a subroutine is a call of it. -/
theorem succeeds_expressionCode_again {method : Method (List Instruction)}
    (hget : s.registry.get? file = some method) (delay : UInt32) :
    (project.expressionCode frame place file delay).Succeeds s fun _ s' => s' = s := by
  have hsubroutine : (project.subroutine? frame file).Succeeds s fun result s' =>
      result = some method.name ∧ s' = s := by
    refine (succeeds_get s).bind ?_
    rintro _ _ ⟨rfl, rfl⟩
    simp only [hget]
    exact succeeds_pure ⟨rfl, rfl⟩
  refine hsubroutine.bind ?_
  rintro _ _ ⟨rfl, rfl⟩
  exact succeeds_pure rfl

/-- A reference to an expression that is new has its body registered. -/
theorem succeeds_expressionCode_first (frame : Frame) {node : Node} {expression : Expression}
    {body : List Instruction} (hget : s.registry.get? file = none)
    (hload : project.library.load (project.expressionPath frame.directory file) = .ok (some node))
    (hread : Expression.read node = .ok expression) (hbody : expression.body = .ok body)
    (delay : UInt32) :
    (project.expressionCode frame place file delay).Succeeds s fun _ s' =>
      s'.registry = (s.registry.register file body).2 ∧ s'.cancelled = s.cancelled := by
  unfold expressionPath at hload
  have hsubroutine : (project.subroutine? frame file).Succeeds s fun result s' =>
      result.isSome ∧ s'.registry = (s.registry.register file body).2 ∧
        s'.cancelled = s.cancelled := by
    refine (succeeds_get s).bind ?_
    rintro _ _ ⟨rfl, rfl⟩
    simp only [hget, hload]
    refine (succeeds_record ..).bind ?_
    rintro _ s₁ ⟨hregistry, hcancelled⟩
    refine (succeeds_ofDefect hread s₁).bind ?_
    rintro _ _ ⟨rfl, rfl⟩
    refine (succeeds_ofDefect hbody _).bind ?_
    rintro _ s₁ ⟨rfl, rfl⟩
    refine (succeeds_get s₁).bind ?_
    rintro _ _ ⟨rfl, rfl⟩
    rw [hregistry, ← hcancelled]
    exact ⟨_, _, rfl, rfl, rfl, rfl⟩
  refine hsubroutine.bind ?_
  rintro result s₁ ⟨hsome, h₁⟩
  obtain ⟨method, rfl⟩ := Option.isSome_iff_exists.1 hsome
  exact succeeds_pure h₁

/-- A reference to an expression that has no document is passed over. -/
theorem succeeds_expressionCode_absent (hhandler : project.AlwaysProceeds) (frame : Frame)
    (hget : s.registry.get? file = none)
    (hload : project.library.load (project.expressionPath frame.directory file) = .ok none)
    (delay : UInt32) :
    (project.expressionCode frame place file delay).Succeeds s fun _ s' =>
      s'.registry = s.registry ∧ s'.cancelled = s.cancelled := by
  unfold expressionPath at hload
  have hsubroutine : (project.subroutine? frame file).Succeeds s fun result s' =>
      result = none ∧ s'.registry = s.registry ∧ s'.cancelled = s.cancelled := by
    refine (succeeds_get s).bind ?_
    rintro _ _ ⟨rfl, rfl⟩
    simp only [hget, hload]
    refine (succeeds_record ..).bind ?_
    rintro _ s₁ ⟨hregistry, hcancelled⟩
    refine (succeeds_ask hhandler frame file s₁).bind ?_
    rintro _ s₂ ⟨hregistry', hcancelled'⟩
    exact succeeds_pure ⟨rfl, hregistry'.trans hregistry, hcancelled'.trans hcancelled⟩
  refine hsubroutine.bind ?_
  rintro _ s₁ ⟨rfl, h₁⟩
  exact succeeds_pure h₁

/-- A reference to a saved sequence that has no document is passed over. -/
theorem succeeds_sequenceCode_absent (hhandler : project.AlwaysProceeds) (frame : Frame)
    {compile : Frame → List Element → Compile (List Code)}
    (hopened : (frame.directory.join file).normalize ∉ frame.opened)
    (hload : project.library.load (frame.directory.join file).normalize.path = .ok none) :
    (project.sequenceCode frame place file fun inner _ elements =>
      compile inner elements).Succeeds s fun _ s' =>
        s'.registry = s.registry ∧ s'.cancelled = s.cancelled := by
  unfold sequenceCode
  simp only [hopened, dite_false]
  refine (succeeds_record ..).bind ?_
  rintro _ s₁ ⟨hregistry, hcancelled⟩
  split
  · rename_i hother
    exact absurd (hload.symm.trans hother) (by simp)
  · refine (succeeds_ask hhandler frame file s₁).bind ?_
    rintro _ s₂ ⟨hregistry', hcancelled'⟩
    exact succeeds_pure ⟨hregistry'.trans hregistry, hcancelled'.trans hcancelled⟩
  · rename_i hother
    exact absurd (hload.symm.trans hother) (by simp)

/-- A saved sequence is put in place if its elements compile. -/
theorem succeeds_sequenceCode (frame : Frame)
    {compile : Frame → List Element → Compile (List Code)} {node : Node} {elements : List Element}
    {post : Session → Prop} (hopened : (frame.directory.join file).normalize ∉ frame.opened)
    (hload : project.library.load (frame.directory.join file).normalize.path = .ok (some node))
    (hread : readSequence node = .ok elements)
    (hcompile : ∀ s₁ : Session, s₁.registry = s.registry → s₁.cancelled = s.cancelled →
      (compile ⟨(frame.directory.join file).normalize.path.parent?.getD ⟨""⟩, file,
        frame.opened ++ [(frame.directory.join file).normalize]⟩ elements).Succeeds s₁
          fun _ => post) :
    (project.sequenceCode frame place file fun inner _ elements =>
      compile inner elements).Succeeds s fun _ => post := by
  unfold sequenceCode
  simp only [hopened, dite_false]
  refine (succeeds_record ..).bind ?_
  rintro _ s₁ ⟨hregistry, hcancelled⟩
  split
  · rename_i hother
    exact absurd (hload.symm.trans hother) (by simp)
  · rename_i hother
    exact absurd (hload.symm.trans hother) (by simp)
  · rename_i other hother
    cases hload.symm.trans hother
    refine (succeeds_ofDefect hread s₁).bind ?_
    rintro _ _ ⟨rfl, rfl⟩
    refine (hcompile _ hregistry hcancelled).bind ?_
    intro code s₂ h₂
    exact succeeds_unlessCancelled h₂

theorem succeeds_counterCode {iterations : UInt32} {children : Compile (List Code)}
    {post : Session → Prop} (h : children.Succeeds s fun _ => post) :
    (counterCode place iterations children).Succeeds s fun _ => post := by
  refine h.bind ?_
  intro code s₁ h₁
  exact succeeds_unlessCancelled h₁

theorem succeeds_conditionalCode {spec : SensorSpec} {shape : LoopShape}
    {ifTest elseTest : Condition} {ifBranch elseBranch : Compile (List Code)}
    {middle post : Session → Prop} (hconditions : spec.conditions = .ok (ifTest, elseTest))
    (hif : ifBranch.Succeeds s fun _ => middle)
    (helse : ∀ s₁, middle s₁ → elseBranch.Succeeds s₁ fun _ => post) :
    (conditionalCode frame place spec shape ifBranch elseBranch).Succeeds s fun _ => post := by
  unfold conditionalCode
  rw [hconditions]
  refine hif.bind ?_
  intro ifBody s₁ h₁
  refine (helse s₁ h₁).bind ?_
  intro elseBody s₂ h₂
  exact succeeds_unlessCancelled h₂

end Project

/-! ## Trees -/

namespace Unfolded

mutual

/-- Whether no saved sequence of a tree stands inside itself, given those that it stands in. -/
def opensOnce (opened : List NormalPath) : Unfolded → Bool
  | .expression _ _ _ => true
  | .inlined reference body =>
    (reference.directory.join reference.file).normalize ∉ opened &&
      opensOnceAll (opened ++ [(reference.directory.join reference.file).normalize]) body
  | .absent reference => (reference.directory.join reference.file).normalize ∉ opened
  | .counterLoop _ _ body => opensOnceAll opened body
  | .conditional _ _ _ _ _ ifBranch elseBranch =>
    opensOnceAll opened ifBranch && opensOnceAll opened elseBranch

/-- Whether no saved sequence of trees stands inside itself, given those that they stand in. -/
def opensOnceAll (opened : List NormalPath) : List Unfolded → Bool
  | [] => true
  | tree :: rest => opensOnce opened tree && opensOnceAll opened rest

end

end Unfolded

namespace Project

variable {project : Project}

/-- Elements that unfold compile. The identities that are known on either side of the unfolding are
those of the registry. -/
theorem Unfolds.succeeds {directory : Path} {name : String} {known known' : List String}
    {elements : List Element} {trees : List Unfolded} (hhandler : project.AlwaysProceeds)
    (h : project.Unfolds directory name known elements trees known') {opened : List NormalPath}
    (hopened : Unfolded.opensOnceAll opened trees = true) {s : Session}
    (hs : s.registry.identities = known) (hc : s.cancelled = false) :
    (project.compileList ⟨directory, name, opened⟩ elements).Succeeds s fun _ s' =>
      s'.registry.identities = known' ∧ s'.cancelled = false := by
  induction h generalizing opened s with
  | nil =>
    rw [compileList_nil]
    exact succeeds_pure ⟨hs, hc⟩
  | @first known file directory node expression name elements trees known' place delay body hnew
      hload hread hbody rest ih =>
    simp only [Unfolded.opensOnceAll, Unfolded.opensOnce, Bool.true_and] at hopened
    rw [← hs] at hnew
    have hget : s.registry.get? file = none := Registry.get?_eq_none_iff.2 hnew
    have hexpression : (project.expressionCode ⟨directory, name, opened⟩ place file delay).Succeeds s
        fun _ s' => s'.registry = (s.registry.register file body).2 ∧ s'.cancelled = s.cancelled :=
      succeeds_expressionCode_first ⟨directory, name, opened⟩ hget hload hread hbody delay
    rw [compileList_expression]
    refine hexpression.thenUnlessCancelled hc ?_
    rintro s₁ ⟨hregistry, hcancelled⟩
    refine ih hopened ?_ (hcancelled.trans hc)
    rw [hregistry, Registry.register_of_get?_none hget, ← hs]
    simp [Registry.identities]
  | @again known file directory name elements trees known' place delay hknown rest ih =>
    simp only [Unfolded.opensOnceAll, Unfolded.opensOnce, Bool.true_and] at hopened
    have hget : s.registry.get? file ≠ none := by
      intro hnone
      rw [← hs] at hknown
      exact Registry.get?_eq_none_iff.1 hnone hknown
    obtain ⟨method, hmethod⟩ := Option.ne_none_iff_exists'.1 hget
    rw [compileList_expression]
    refine Succeeds.thenUnlessCancelled hc (succeeds_expressionCode_again hmethod delay) ?_
    rintro s₁ rfl
    exact ih hopened hs hc
  | @skipped known file directory name elements trees known' place delay hnew hload rest ih =>
    simp only [Unfolded.opensOnceAll, Unfolded.opensOnce, Bool.true_and] at hopened
    have hnew' : Identifier.identity file ∉ s.registry.identities := by rwa [hs]
    have hget : s.registry.get? file = none := Registry.get?_eq_none_iff.2 hnew'
    have hexpression : (project.expressionCode ⟨directory, name, opened⟩ place file delay).Succeeds s
        fun _ s' => s'.registry = s.registry ∧ s'.cancelled = s.cancelled :=
      succeeds_expressionCode_absent hhandler ⟨directory, name, opened⟩ hget hload delay
    rw [compileList_expression]
    refine hexpression.thenUnlessCancelled hc ?_
    rintro s₁ ⟨hregistry, hcancelled⟩
    exact ih hopened (by rw [hregistry, hs]) (hcancelled.trans hc)
  | @inlined file inner known body known₁ name elements trees known' place directory node hload hread
      hbody rest ihbody ih =>
    simp only [Unfolded.opensOnceAll, Unfolded.opensOnce, Bool.and_eq_true, decide_eq_true_eq]
      at hopened
    obtain ⟨⟨hnew, hinner⟩, hrest⟩ := hopened
    have hsequence : (project.sequenceCode ⟨directory, name, opened⟩ place file
        fun inner _ elements => project.compileList inner elements).Succeeds s fun _ s' =>
          s'.registry.identities = known₁ ∧ s'.cancelled = false := by
      refine succeeds_sequenceCode ⟨directory, name, opened⟩ hnew hload hread ?_
      intro s₁ hregistry hcancelled
      exact ihbody hinner (by rw [hregistry, hs]) (hcancelled.trans hc)
    rw [compileList_sequence]
    refine hsequence.thenUnlessCancelled hc ?_
    rintro s₁ ⟨hidentities, hcancelled⟩
    exact ih hrest hidentities hcancelled
  | @absent file name known elements trees known' place directory hload rest ih =>
    simp only [Unfolded.opensOnceAll, Unfolded.opensOnce, Bool.and_eq_true, decide_eq_true_eq]
      at hopened
    have hsequence : (project.sequenceCode ⟨directory, name, opened⟩ place file
        fun inner _ elements => project.compileList inner elements).Succeeds s fun _ s' =>
          s'.registry = s.registry ∧ s'.cancelled = s.cancelled :=
      succeeds_sequenceCode_absent hhandler ⟨directory, name, opened⟩ hopened.1 hload
    rw [compileList_sequence]
    refine hsequence.thenUnlessCancelled hc ?_
    rintro s₁ ⟨hregistry, hcancelled⟩
    exact ih hopened.2 (by rw [hregistry, hs]) (hcancelled.trans hc)
  | counterLoop hbody rest ihbody ih =>
    simp only [Unfolded.opensOnceAll, Unfolded.opensOnce, Bool.and_eq_true] at hopened
    rw [compileList_counterLoop]
    refine Succeeds.thenUnlessCancelled hc (succeeds_counterCode (ihbody hopened.1 hs hc)) ?_
    rintro s₁ ⟨hidentities, hcancelled⟩
    exact ih hopened.2 hidentities hcancelled
  | @conditional ifTest elseTest directory name known ifBranch ifTrees known₁ elseBranch elseTrees
      known₂ elements trees known' place ifRepeats elseRepeats spec hconditions hif helse rest ihif
      ihelse ih =>
    simp only [Unfolded.opensOnceAll, Unfolded.opensOnce, Bool.and_eq_true] at hopened
    have hbranches : (conditionalCode ⟨directory, name, opened⟩ place spec
        (.ofRepeats ifRepeats elseRepeats) (project.compileList ⟨directory, name, opened⟩ ifBranch)
        (project.compileList ⟨directory, name, opened⟩ elseBranch)).Succeeds s fun _ s' =>
          s'.registry.identities = known₂ ∧ s'.cancelled = false := by
      refine succeeds_conditionalCode hconditions (ihif hopened.1.1 hs hc) ?_
      rintro s₁ ⟨hidentities, hcancelled⟩
      exact ihelse hopened.1.2 hidentities hcancelled
    rw [compileList_conditional]
    refine hbranches.thenUnlessCancelled hc ?_
    rintro s₁ ⟨hidentities, hcancelled⟩
    exact ih hopened.2 hidentities hcancelled

/-- A project that unfolds compiles. -/
theorem compileProgram_succeeds {root : String} {directory : Path} {trees : List Unfolded}
    (hhandler : project.AlwaysProceeds) (h : project.UnfoldsFrom root directory trees)
    (hopened : Unfolded.opensOnceAll
      [(((directory.join root).normalize.path.parent?.getD ⟨""⟩).join
        (directory.join root).normalize.path.displayName).normalize] trees = true) :
    ∃ program session, project.compileProgram root directory = (.ok program, session) ∧
      program.cancelled = false := by
  obtain ⟨node, elements, known, hload, hread, hunfolds⟩ := h
  have hprogram : (project.programOf root directory).Succeeds {} fun program _ =>
      program.cancelled = false := by
    refine (succeeds_record ..).bind ?_
    rintro _ s₁ ⟨hregistry, hcancelled⟩
    simp only [hload]
    have hsequence : (project.compileSequence node (directory.join root).normalize.path.displayName
        ((directory.join root).normalize.path.parent?.getD ⟨""⟩)).Succeeds s₁ fun _ s' =>
          s'.registry.identities = known ∧ s'.cancelled = false := by
      refine (succeeds_ofDefect hread s₁).bind ?_
      rintro _ _ ⟨rfl, rfl⟩
      exact hunfolds.succeeds hhandler hopened (by rw [hregistry]; rfl) hcancelled
    refine hsequence.bind ?_
    rintro code s₂ ⟨-, hcancelled₂⟩
    refine (succeeds_get s₂).bind ?_
    rintro _ _ ⟨rfl, rfl⟩
    rw [hcancelled₂]
    exact succeeds_pure rfl
  obtain ⟨program, session, hrun, hcancelled⟩ := hprogram
  exact ⟨program, session, hrun, hcancelled⟩

end Project

/-! ## A project held in memory -/

theorem eq_ok_of_toOption {ε α : Type} {result : Except ε α} {a : α}
    (h : result.toOption = some a) : result = .ok a := by
  cases result with
  | error error => exact absurd h (by simp [Except.toOption])
  | ok b => rw [Option.some.inj h]

namespace Sample

/-- A dance in one directory, and its steps in another one. Each directory has an expression of its
own under the same name. The dance spells that name in two ways, and a comment of it has a line end;
one expression is missing. -/
def documents : Documents := .ofList [
  (⟨"p/main.xml"⟩, "<sequence><expression file='a.xml' delay-millis='5'/>" ++
    "<expression file='A.xml'><comment>b&#10;c();</comment></expression>" ++
    "<saved-sequence file='b/s.xml'/></sequence>"),
  (⟨"p/a.xml"⟩, "<expression delay-millis='1'/>"),
  (⟨"p/b/s.xml"⟩, "<sequence><counter-loop iterations='2'><expression file='a.xml'/>" ++
    "</counter-loop><saved-sequence file='t.xml'/></sequence>"),
  (⟨"p/b/a.xml"⟩, "<expression delay-millis='2'/>"),
  (⟨"p/b/t.xml"⟩, "<sequence><loopable-conditional><sensor type='light' " ++
    "threshold-percentage='50'/><if-branch should-repeat='true'><expression file='z.xml'/>" ++
    "</if-branch></loopable-conditional></sequence>")]

def project : Project := { library := documents.library, handler := .fixed .proceed }

/-- The test of the conditional, and its opposite. -/
def tests : Condition × Condition := (⟨1, ⟨511, .less⟩⟩, ⟨1, ⟨511, .greater⟩⟩)

/-- The reference of the dance to an expression. -/
def first : Reference := ⟨⟨"p"⟩, "main.xml", ⟨0, none⟩, "a.xml"⟩

/-- The reference of the dance that spells the name in another way. -/
def spelled : Reference := ⟨⟨"p"⟩, "main.xml", ⟨1, some "b\nc();"⟩, "A.xml"⟩

/-- The reference of the steps to an expression of the same name. -/
def second : Reference := ⟨⟨"p/b"⟩, "b/s.xml", ⟨0, none⟩, "a.xml"⟩

/-- The reference to the expression that is missing. -/
def missing : Reference := ⟨⟨"p/b"⟩, "t.xml", ⟨0, none⟩, "z.xml"⟩

def stepTrees : List Unfolded := [
  .counterLoop ⟨0, none⟩ 2 [.expression second 0 .again],
  .inlined ⟨⟨"p/b"⟩, "b/s.xml", ⟨1, none⟩, "t.xml"⟩ [
    .conditional ⟨0, none⟩ tests.1 tests.2 true false [.expression missing 0 .absent] []]]

def trees : List Unfolded := [
  .expression first 5 (.first [.delay 1]),
  .expression spelled 0 .again,
  .inlined ⟨⟨"p"⟩, "main.xml", ⟨2, none⟩, "b/s.xml"⟩ stepTrees]

theorem referencesAll_trees : Unfolded.referencesAll trees =
    [(first, .first [.delay 1]), (spelled, .again), (second, .again), (missing, .absent)] := rfl

/-- What the library of the project has where the documents refer to. -/
structure Loads : Prop where
  main : project.library.load ((⟨"p"⟩ : Path).join "main.xml").normalize.path =
    .ok (some ⟨"sequence", [], "", [
      ⟨"expression", [("file", "a.xml"), ("delay-millis", "5")], "", []⟩,
      ⟨"expression", [("file", "A.xml")], "", [⟨"comment", [], "b\nc();", []⟩]⟩,
      ⟨"saved-sequence", [("file", "b/s.xml")], "", []⟩]⟩)
  steps : project.library.load ((⟨"p"⟩ : Path).join "b/s.xml").normalize.path =
    .ok (some ⟨"sequence", [], "", [
      ⟨"counter-loop", [("iterations", "2")], "", [⟨"expression", [("file", "a.xml")], "", []⟩]⟩,
      ⟨"saved-sequence", [("file", "t.xml")], "", []⟩]⟩)
  turn : project.library.load ((⟨"p/b"⟩ : Path).join "t.xml").normalize.path =
    .ok (some ⟨"sequence", [], "", [⟨"loopable-conditional", [], "", [
      ⟨"sensor", [("type", "light"), ("threshold-percentage", "50")], "", []⟩,
      ⟨"if-branch", [("should-repeat", "true")], "",
        [⟨"expression", [("file", "z.xml")], "", []⟩]⟩]⟩]⟩)
  first : project.library.load (project.expressionPath first.directory first.file) =
    .ok (some ⟨"expression", [("delay-millis", "1")], "", []⟩)
  spelled : project.library.load (project.expressionPath spelled.directory spelled.file) = .ok none
  second : project.library.load (project.expressionPath second.directory second.file) =
    .ok (some ⟨"expression", [("delay-millis", "2")], "", []⟩)
  missing : project.library.load (project.expressionPath missing.directory missing.file) = .ok none

theorem loads : Loads where
  main := eq_ok_of_toOption (by decide +kernel)
  steps := eq_ok_of_toOption (by decide +kernel)
  turn := eq_ok_of_toOption (by decide +kernel)
  first := eq_ok_of_toOption (by decide +kernel)
  spelled := eq_ok_of_toOption (by decide)
  second := eq_ok_of_toOption (by decide +kernel)
  missing := eq_ok_of_toOption (by decide)

/-- The steps unfold in their own directory. -/
theorem unfolds_steps : project.Unfolds ⟨"p/b"⟩ "b/s.xml" [Identifier.identity "a.xml"]
    [.counterLoop ⟨0, none⟩ 2 [.expression ⟨0, none⟩ "a.xml" 0], .sequence ⟨1, none⟩ "t.xml"]
    stepTrees [Identifier.identity "a.xml"] := by
  have hdirectory : (((⟨"p/b"⟩ : Path).join "t.xml").normalize.path.parent?.getD ⟨""⟩) =
      ⟨"p/b"⟩ := by decide
  have hread : readSequence ⟨"sequence", [], "", [⟨"loopable-conditional", [], "", [
      ⟨"sensor", [("type", "light"), ("threshold-percentage", "50")], "", []⟩,
      ⟨"if-branch", [("should-repeat", "true")], "",
        [⟨"expression", [("file", "z.xml")], "", []⟩]⟩]⟩]⟩ =
      .ok [.conditional ⟨0, none⟩ ⟨"light", 1, ⟨50, by decide⟩⟩ true false
        [.expression ⟨0, none⟩ "z.xml" 0] []] := by cbv
  have hconditions : SensorSpec.conditions ⟨"light", 1, ⟨50, by decide⟩⟩ = .ok tests :=
    eq_ok_of_toOption (by decide)
  refine .counterLoop (.again (by simp) .nil) (.inlined loads.turn hread ?_ .nil)
  rw [hdirectory]
  exact .conditional hconditions (.skipped (by decide) loads.missing .nil) .nil .nil

/-- The project unfolds. -/
theorem unfolds : project.UnfoldsFrom "main.xml" ⟨"p"⟩ trees := by
  have hdirectory : (((⟨"p"⟩ : Path).join "main.xml").normalize.path.parent?.getD ⟨""⟩) =
      ⟨"p"⟩ := by decide
  have hname : ((⟨"p"⟩ : Path).join "main.xml").normalize.path.displayName = "main.xml" := by
    decide
  have hinner : (((⟨"p"⟩ : Path).join "b/s.xml").normalize.path.parent?.getD ⟨""⟩) =
      ⟨"p/b"⟩ := by decide
  have hmain : readSequence ⟨"sequence", [], "", [
      ⟨"expression", [("file", "a.xml"), ("delay-millis", "5")], "", []⟩,
      ⟨"expression", [("file", "A.xml")], "", [⟨"comment", [], "b\nc();", []⟩]⟩,
      ⟨"saved-sequence", [("file", "b/s.xml")], "", []⟩]⟩ =
      .ok [.expression ⟨0, none⟩ "a.xml" 5, .expression ⟨1, some "b\nc();"⟩ "A.xml" 0,
        .sequence ⟨2, none⟩ "b/s.xml"] := by cbv
  have hsteps : readSequence ⟨"sequence", [], "", [
      ⟨"counter-loop", [("iterations", "2")], "", [⟨"expression", [("file", "a.xml")], "", []⟩]⟩,
      ⟨"saved-sequence", [("file", "t.xml")], "", []⟩]⟩ =
      .ok [.counterLoop ⟨0, none⟩ 2 [.expression ⟨0, none⟩ "a.xml" 0],
        .sequence ⟨1, none⟩ "t.xml"] := by cbv
  have hexpression : Expression.read ⟨"expression", [("delay-millis", "1")], "", []⟩ = .ok ⟨[], 1⟩ :=
    eq_ok_of_toOption (by decide)
  have hbody : (Expression.mk [] 1).body = .ok [.delay 1] := eq_ok_of_toOption (by decide)
  refine ⟨_, _, [Identifier.identity "a.xml"], loads.main, hmain, ?_⟩
  rw [hdirectory, hname]
  have hspelled : Identifier.identity "A.xml" ∈ [Identifier.identity "a.xml"] := by decide
  refine .first (by simp) loads.first hexpression hbody
    (.again hspelled (.inlined loads.steps hsteps ?_ .nil))
  rw [hinner]
  exact unfolds_steps

/-- The project compiles. -/
theorem compiles : ∃ program session,
    project.compileProgram "main.xml" ⟨"p"⟩ = (.ok program, session) ∧ program.cancelled = false :=
  Project.compileProgram_succeeds (fun _ _ => rfl) unfolds (by decide)

end Sample

end RobotSketch
