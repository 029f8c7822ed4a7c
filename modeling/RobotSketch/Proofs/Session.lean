import RobotSketch.Program
import RobotSketch.Proofs.Registry

/-!
# What a part of a compilation does when it succeeds

A part that succeeds and leaves the session uncancelled has done one of a few things, and each of
the lemmas below lists them for one part. Of the session they say what the rest of a run depends
on: the registry and the questions asked.
-/
namespace RobotSketch

namespace Compile

variable {α β : Type} {s s' : Session}

/-! ## Sequencing -/

/-- What a part makes of a session. -/
def runFrom (part : Compile α) (s : Session) : Except Error α × Session := part.run s

theorem runFrom_bind (part : Compile α) (next : α → Compile β) (s : Session) :
    (part >>= next).runFrom s =
      match part.runFrom s with
      | (.ok a, s₁) => (next a).runFrom s₁
      | (.error error, s₁) => (.error error, s₁) := by
  show (ExceptT.bindCont next (part.runFrom s).1) (part.runFrom s).2 = _
  rcases part.runFrom s with ⟨_ | a, s₁⟩ <;> rfl

/-- Two parts succeed one after the other. -/
theorem bind_ok {part : Compile α} {next : α → Compile β} {b : β} :
    (part >>= next).runFrom s = (.ok b, s') ↔
      ∃ a s₁, part.runFrom s = (.ok a, s₁) ∧ (next a).runFrom s₁ = (.ok b, s') := by
  rw [runFrom_bind]
  rcases part.runFrom s with ⟨error | a, s₁⟩
  · simp
  · constructor
    · intro h
      exact ⟨a, s₁, rfl, h⟩
    · rintro ⟨a', s₂, heq, h⟩
      cases heq
      exact h

theorem pure_ok {a b : α} : (pure a : Compile α).runFrom s = (.ok b, s') ↔ a = b ∧ s = s' := by
  show ((Except.ok a : Except Error α), s) = _ ↔ _
  simp

theorem not_throw_ok {error : Error} {b : α} :
    ¬ (throw error : Compile α).runFrom s = (.ok b, s') := by
  show ¬ ((Except.error error : Except Error α), s) = _
  simp

theorem ofDefect_ok {file : String} {result : Except Defect α} {a : α} :
    (ofDefect file result).runFrom s = (.ok a, s') ↔ result = .ok a ∧ s = s' := by
  cases result with
  | ok value => exact pure_ok.trans (by simp)
  | error defect => exact iff_of_false not_throw_ok (by simp)

/-- Statements are kept as long as the run goes on. -/
theorem unlessCancelled_ok {code result : List Code} :
    (unlessCancelled code).runFrom s = (.ok result, s') ↔
      (if s.cancelled then [] else code) = result ∧ s = s' := pure_ok

/-- Two parts are left out once the run has been cancelled. -/
theorem thenUnlessCancelled_eq (first second : Compile (List Code)) (s : Session) :
    (first.thenUnlessCancelled second).runFrom s =
      if s.cancelled then (.ok [], s)
      else (do return (← first) ++ (← second) : Compile (List Code)).runFrom s := by
  show (if s.cancelled then pure [] else _ : Compile (List Code)).runFrom s = _
  split <;> rfl

/-- One part after another, in a run that has not been cancelled before. -/
theorem thenUnlessCancelled_ok {first second : Compile (List Code)} {code : List Code} :
    (first.thenUnlessCancelled second).runFrom s = (.ok code, s') ↔
      (s.cancelled = true ∧ code = [] ∧ s = s') ∨
      (s.cancelled = false ∧ ∃ code₁ s₁ code₂, first.runFrom s = (.ok code₁, s₁) ∧
        second.runFrom s₁ = (.ok code₂, s') ∧ code = code₁ ++ code₂) := by
  rw [thenUnlessCancelled_eq]
  cases h : s.cancelled with
  | true => simp [eq_comm]
  | false =>
    simp only [Bool.false_eq_true, if_false, false_and, false_or, true_and, bind_ok, pure_ok]
    constructor
    · rintro ⟨code₁, s₁, h₁, code₂, s₂, h₂, rfl, rfl⟩
      exact ⟨code₁, s₁, code₂, h₁, h₂, rfl⟩
    · rintro ⟨code₁, s₁, code₂, h₁, h₂, rfl⟩
      exact ⟨code₁, s₁, h₁, code₂, s', h₂, rfl, rfl⟩

/-- Logging an event leaves the registry alone; only a question counts as asked. -/
theorem record_ok {opened : List NormalPath} {event : Event} {u : Unit}
    (h : (record opened event).runFrom s = (.ok u, s')) :
    s'.registry = s.registry ∧ s'.cancelled = s.cancelled ∧
      s'.asked = s.asked ++ event.question?.toList := by
  cases h
  refine ⟨rfl, rfl, ?_⟩
  cases event <;> simp [Session.asked, Event.question?]

end Compile

open Compile

namespace Project

variable {project : Project} {frame : Frame} {place : Place} {file : String}
variable {s s' : Session}

/-! ## Expressions -/

/-- Where the document of an expression is looked for. -/
def expressionPath (project : Project) (directory : Path) (file : String) : Path :=
  ((project.expressions.getD directory).join file).normalize.path

/-- A question that is answered with going on changes nothing but the log. -/
theorem ask_ok {u : Unit} (h : (project.ask frame file).runFrom s = (.ok u, s'))
    (hc : s'.cancelled = false) :
    s.cancelled = false ∧ s'.registry = s.registry ∧
      s'.asked = s.asked ++ [⟨file, frame.name⟩] := by
  obtain ⟨s₀, s₁, hget, h⟩ := bind_ok.1 h
  cases hget
  obtain ⟨_, s₂, hrecord, h⟩ := bind_ok.1 h
  obtain ⟨hregistry, hcancelled, hasked⟩ := record_ok hrecord
  split at h
  · cases h
    exact absurd hc (by simp)
  · cases h
    exact ⟨hcancelled ▸ hc, hregistry, hasked⟩

/-- What becomes of a reference to an expression. -/
theorem subroutine?_ok {result : Option String}
    (h : (project.subroutine? frame file).runFrom s = (.ok result, s'))
    (hc : s'.cancelled = false) :
    s.cancelled = false ∧
    ((∃ method, s.registry.get? file = some method ∧ result = some method.name ∧ s' = s) ∨
      (s.registry.get? file = none ∧
        project.library.load (project.expressionPath frame.directory file) = .ok none ∧
        result = none ∧ s'.registry = s.registry ∧ s'.asked = s.asked ++ [⟨file, frame.name⟩]) ∨
      (∃ node expression body, s.registry.get? file = none ∧
        project.library.load (project.expressionPath frame.directory file) = .ok (some node) ∧
        Expression.read node = .ok expression ∧ expression.body = .ok body ∧
        result = some (s.registry.register file body).1.name ∧
        s'.registry = (s.registry.register file body).2 ∧ s'.asked = s.asked)) := by
  unfold subroutine? at h
  obtain ⟨s₀, s₁, hget, h⟩ := bind_ok.1 h
  cases hget
  split at h
  · rename_i method hmethod
    obtain ⟨rfl, rfl⟩ := pure_ok.1 h
    exact ⟨hc, Or.inl ⟨method, hmethod, rfl, rfl⟩⟩
  · rename_i hnone
    obtain ⟨_, s₂, hrecord, h⟩ := bind_ok.1 h
    obtain ⟨hregistry, hcancelled, hasked⟩ := record_ok hrecord
    simp only [Event.question?, Option.toList_none, List.append_nil] at hasked
    rw [← hcancelled, ← hregistry, ← hasked]
    rw [← hregistry] at hnone
    split at h
    · exact absurd h not_throw_ok
    · rename_i hload
      obtain ⟨_, s₃, hask, h⟩ := bind_ok.1 h
      obtain ⟨rfl, rfl⟩ := pure_ok.1 h
      obtain ⟨hs₂, hregistry', hasked'⟩ := ask_ok hask hc
      exact ⟨hs₂, Or.inr (Or.inl ⟨hnone, hload, rfl, hregistry', hasked'⟩)⟩
    · rename_i node hload
      obtain ⟨expression, s₃, hs₃, h⟩ := bind_ok.1 h
      obtain ⟨hread, rfl⟩ := ofDefect_ok.1 hs₃
      obtain ⟨body, s₄, hs₄, h⟩ := bind_ok.1 h
      obtain ⟨hbody, rfl⟩ := ofDefect_ok.1 hs₄
      obtain ⟨s₅, s₆, hs₆, h⟩ := bind_ok.1 h
      cases hs₆
      rcases hregister : s₂.registry.register file body with ⟨method, registry⟩
      rw [hregister] at h
      obtain ⟨_, s₇, hs₇, h⟩ := bind_ok.1 h
      cases hs₇
      obtain ⟨_, s₈, hs₈, h⟩ := bind_ok.1 h
      obtain ⟨hregistry', hcancelled', hasked'⟩ := record_ok hs₈
      simp only [Event.question?, Option.toList_none, List.append_nil] at hasked'
      obtain ⟨rfl, rfl⟩ := pure_ok.1 h
      refine ⟨hcancelled' ▸ hc, Or.inr (Or.inr ⟨node, expression, body, hnone, hload, hread, hbody,
        ?_, ?_, hasked'⟩)⟩
      · rw [hregister]
      · rw [hregistry', hregister]

/-- The statements of a reference to an expression that has a subroutine. -/
def callCode (place : Place) (method : String) (delay : UInt32) : List Code :=
  Code.ofComment place.comment ++ .action (.call method) ::
    if delay = 0 then [] else [.action (.delay delay)]

theorem expressionCode_ok {delay : UInt32} {code : List Code}
    (h : (project.expressionCode frame place file delay).runFrom s = (.ok code, s')) :
    ∃ result, (project.subroutine? frame file).runFrom s = (.ok result, s') ∧
      code = match result with
        | none => []
        | some method => callCode place method delay := by
  obtain ⟨result, s₁, hresult, h⟩ := bind_ok.1 h
  cases result with
  | none =>
    obtain ⟨rfl, rfl⟩ := pure_ok.1 h
    exact ⟨none, hresult, rfl⟩
  | some method =>
    obtain ⟨rfl, rfl⟩ := pure_ok.1 h
    exact ⟨some method, hresult, rfl⟩

/-! ## Elements that hold others -/

/-- What becomes of a reference to a saved sequence. -/
theorem sequenceCode_ok {compile : Frame → List Element → Compile (List Code)} {code : List Code}
    (h : (project.sequenceCode frame place file fun inner _ elements =>
      compile inner elements).runFrom s = (.ok code, s'))
    (hc : s'.cancelled = false) :
    (frame.directory.join file).normalize ∉ frame.opened ∧
    ((project.library.load (frame.directory.join file).normalize.path = .ok none ∧
        s.cancelled = false ∧ code = [] ∧ s'.registry = s.registry ∧
        s'.asked = s.asked ++ [⟨file, frame.name⟩]) ∨
      ∃ node elements body s₁,
        project.library.load (frame.directory.join file).normalize.path = .ok (some node) ∧
        readSequence node = .ok elements ∧
        s₁.registry = s.registry ∧ s₁.asked = s.asked ∧
        (compile ⟨(frame.directory.join file).normalize.path.parent?.getD ⟨""⟩, file,
          frame.opened ++ [(frame.directory.join file).normalize]⟩ elements).runFrom s₁ =
            (.ok body, s') ∧
        code = inlined place file body) := by
  unfold sequenceCode at h
  simp only at h
  split at h
  · exact absurd h not_throw_ok
  · rename_i hopened
    refine ⟨hopened, ?_⟩
    obtain ⟨_, s₁, hrecord, h⟩ := bind_ok.1 h
    obtain ⟨hregistry, hcancelled, hasked⟩ := record_ok hrecord
    simp only [Event.question?, Option.toList_none, List.append_nil] at hasked
    rw [← hcancelled, ← hregistry, ← hasked]
    split at h
    · exact absurd h not_throw_ok
    · rename_i hload
      obtain ⟨_, s₂, hask, h⟩ := bind_ok.1 h
      obtain ⟨rfl, rfl⟩ := pure_ok.1 h
      obtain ⟨hs₁, hregistry', hasked'⟩ := ask_ok hask hc
      exact Or.inl ⟨hload, hs₁, rfl, hregistry', hasked'⟩
    · rename_i node hload
      obtain ⟨elements, s₂, hs₂, h⟩ := bind_ok.1 h
      obtain ⟨hread, rfl⟩ := ofDefect_ok.1 hs₂
      obtain ⟨body, s₃, hbody, h⟩ := bind_ok.1 h
      obtain ⟨rfl, rfl⟩ := unlessCancelled_ok.1 h
      exact Or.inr ⟨node, elements, body, s₁, hload, hread, rfl, rfl, hbody, by simp [hc]⟩

theorem counterCode_ok {iterations : UInt32} {children : Compile (List Code)} {code : List Code}
    (h : (counterCode place iterations children).runFrom s = (.ok code, s'))
    (hc : s'.cancelled = false) :
    ∃ body, children.runFrom s = (.ok body, s') ∧
      code = Code.ofComment place.comment ++ [.count iterations body] := by
  obtain ⟨body, s₁, hbody, h⟩ := bind_ok.1 h
  obtain ⟨rfl, rfl⟩ := unlessCancelled_ok.1 h
  exact ⟨body, hbody, by simp [hc]⟩

theorem conditionalCode_ok {spec : SensorSpec} {shape : LoopShape}
    {ifBranch elseBranch : Compile (List Code)} {code : List Code}
    (h : (conditionalCode frame place spec shape ifBranch elseBranch).runFrom s = (.ok code, s'))
    (hc : s'.cancelled = false) :
    ∃ ifTest elseTest ifBody s₁ elseBody, spec.conditions = .ok (ifTest, elseTest) ∧
      ifBranch.runFrom s = (.ok ifBody, s₁) ∧ elseBranch.runFrom s₁ = (.ok elseBody, s') ∧
      code = Code.ofComment place.comment ++ shape.arrange ifTest elseTest ifBody elseBody := by
  unfold conditionalCode at h
  split at h
  · exact absurd h not_throw_ok
  · rename_i ifTest elseTest hconditions
    obtain ⟨ifBody, s₁, hif, h⟩ := bind_ok.1 h
    obtain ⟨elseBody, s₂, helse, h⟩ := bind_ok.1 h
    obtain ⟨rfl, rfl⟩ := unlessCancelled_ok.1 h
    exact ⟨ifTest, elseTest, ifBody, s₁, elseBody, hconditions, hif, helse, by simp [hc]⟩

/-! ## Lists of elements -/

variable {elements rest : List Element}

theorem compileList_nil (project : Project) (frame : Frame) :
    project.compileList frame [] = pure [] := by
  rw [compileList.eq_def]

theorem compileList_expression (project : Project) (frame : Frame) (place : Place) (file : String)
    (delay : UInt32) (rest : List Element) :
    project.compileList frame (.expression place file delay :: rest) =
      (project.expressionCode frame place file delay).thenUnlessCancelled
        (project.compileList frame rest) := by
  rw [compileList.eq_def]

theorem compileList_sequence (project : Project) (frame : Frame) (place : Place) (file : String)
    (rest : List Element) :
    project.compileList frame (.sequence place file :: rest) =
      (project.sequenceCode frame place file fun inner _ elements =>
        project.compileList inner elements).thenUnlessCancelled
          (project.compileList frame rest) := by
  rw [compileList.eq_def]

theorem compileList_counterLoop (project : Project) (frame : Frame) (place : Place)
    (iterations : UInt32) (children rest : List Element) :
    project.compileList frame (.counterLoop place iterations children :: rest) =
      (counterCode place iterations (project.compileList frame children)).thenUnlessCancelled
        (project.compileList frame rest) := by
  rw [compileList.eq_def]

theorem compileList_conditional (project : Project) (frame : Frame) (place : Place)
    (spec : SensorSpec) (ifRepeats elseRepeats : Bool) (ifBranch elseBranch rest : List Element) :
    project.compileList frame
        (.conditional place spec ifRepeats elseRepeats ifBranch elseBranch :: rest) =
      (conditionalCode frame place spec (.ofRepeats ifRepeats elseRepeats)
        (project.compileList frame ifBranch)
        (project.compileList frame elseBranch)).thenUnlessCancelled
          (project.compileList frame rest) := by
  rw [compileList.eq_def]

/-- Once the run has been cancelled, nothing more happens. -/
theorem compileList_of_cancelled (project : Project) (frame : Frame) (elements : List Element)
    (h : s.cancelled = true) : (project.compileList frame elements).runFrom s = (.ok [], s) := by
  cases elements with
  | nil => rw [compileList_nil]; rfl
  | cons element rest =>
    cases element <;>
      simp only [compileList_expression, compileList_sequence, compileList_counterLoop,
        compileList_conditional] <;>
      exact thenUnlessCancelled_ok.2 (Or.inl ⟨h, rfl, rfl⟩)

/-- A list that is compiled without the run being cancelled was not cancelled before. -/
theorem cancelled_of_compileList {code : List Code}
    (h : (project.compileList frame elements).runFrom s = (.ok code, s'))
    (hc : s'.cancelled = false) : s.cancelled = false := by
  cases hs : s.cancelled with
  | false => rfl
  | true =>
    rw [compileList_of_cancelled project frame elements hs] at h
    cases h
    exact absurd hc (by simp [hs])

/-- The parts of a list that is compiled without the run being cancelled. -/
theorem thenCompileList_ok {first : Compile (List Code)} {code : List Code}
    (h : (first.thenUnlessCancelled (project.compileList frame rest)).runFrom s = (.ok code, s'))
    (hc : s'.cancelled = false) :
    ∃ code₁ s₁ code₂, first.runFrom s = (.ok code₁, s₁) ∧ s₁.cancelled = false ∧
      (project.compileList frame rest).runFrom s₁ = (.ok code₂, s') ∧ code = code₁ ++ code₂ := by
  rcases thenUnlessCancelled_ok.1 h with ⟨hs, -, rfl⟩ | ⟨-, code₁, s₁, code₂, h₁, h₂, hcode⟩
  · exact absurd hc (by simp [hs])
  · exact ⟨code₁, s₁, code₂, h₁, cancelled_of_compileList h₂ hc, h₂, hcode⟩

end Project

end RobotSketch
