import RobotSketch.Proofs.Linking
import RobotSketch.Proofs.Sketch.Machine

/-!
# What a project does

The behaviour of a project is read off its documents: `Performs` says which traces the trees of a
project have, without any code. A conditional decides by one reading which of its branches to run,
and is come back to after a branch that repeats. Behaviour that does not end is there through its
starts: a trace is whatever has been emitted at some time.

The main statement is `Project.sketch_shows_iff_performs`: the text of the compiled sketch, read
again and run, shows exactly the traces that the trees of its project have. One half goes by
induction on how a trace is performed, the other by the number of steps that the machine takes and,
for saved sequences, which take none, by the size of the trees.
-/
namespace RobotSketch

open Sketch

/-! ## Behaviour of trees -/

namespace Unfolded

/-- What a reference to an expression emits: the body that the registry holds for its file, and then
the delay of the reference if it has one. -/
def outputs (registry : Registry (List Instruction)) (reference : Reference) (delay : UInt32)
    (use : Use) : List Output :=
  match use, registry.get? reference.file with
  | .absent, _ => []
  | _, none => []
  | _, some method =>
    method.body.filterMap outputOf? ++ if delay = 0 then [] else [.delay delay]

/-- Whether a conditional runs its first branch, given what the sensors read. The first test decides,
unless the second branch is the only one that repeats: then it is run as long as its own test
passes. -/
def takesFirst (sensors : UInt8 → Int) (ifTest elseTest : Condition)
    (ifRepeats elseRepeats : Bool) : Bool :=
  if elseRepeats && !ifRepeats then !elseTest.holds (sensors elseTest.slot)
  else ifTest.holds (sensors ifTest.slot)

/-- Trees, run one after the other when so many readings have been taken, have a trace. -/
inductive Performs (registry : Registry (List Instruction)) (readings : Nat → UInt8 → Int) :
    List Unfolded → Nat → List Output → Prop where
  /-- Nothing has been emitted yet. -/
  | start (trees : List Unfolded) (taken : Nat) : Performs registry readings trees taken []
  /-- An expression is under way. -/
  | part {reference delay use rest taken trace}
      (htrace : trace <+: outputs registry reference delay use) :
    Performs registry readings (.expression reference delay use :: rest) taken trace
  | expression {reference delay use rest taken trace}
      (hrest : Performs registry readings rest taken trace) :
    Performs registry readings (.expression reference delay use :: rest) taken
      (outputs registry reference delay use ++ trace)
  | inlined {reference body rest taken trace}
      (hbody : Performs registry readings (body ++ rest) taken trace) :
    Performs registry readings (.inlined reference body :: rest) taken trace
  | absent {reference rest taken trace} (hrest : Performs registry readings rest taken trace) :
    Performs registry readings (.absent reference :: rest) taken trace
  | counterLoop {place iterations body rest taken trace}
      (hrounds : Performs registry readings
        ((List.replicate iterations.toNat body).flatten ++ rest) taken trace) :
    Performs registry readings (.counterLoop place iterations body :: rest) taken trace
  | firstBranch {place ifTest elseTest ifRepeats elseRepeats ifBranch elseBranch rest taken trace}
      (hfirst : takesFirst (readings taken) ifTest elseTest ifRepeats elseRepeats = true)
      (hbranch : Performs registry readings (ifBranch ++ if ifRepeats then
        .conditional place ifTest elseTest ifRepeats elseRepeats ifBranch elseBranch :: rest
        else rest) (taken + 1) trace) :
    Performs registry readings
      (.conditional place ifTest elseTest ifRepeats elseRepeats ifBranch elseBranch :: rest) taken
      trace
  | secondBranch {place ifTest elseTest ifRepeats elseRepeats ifBranch elseBranch rest taken trace}
      (hsecond : takesFirst (readings taken) ifTest elseTest ifRepeats elseRepeats = false)
      (hbranch : Performs registry readings (elseBranch ++ if elseRepeats then
        .conditional place ifTest elseTest ifRepeats elseRepeats ifBranch elseBranch :: rest
        else rest) (taken + 1) trace) :
    Performs registry readings
      (.conditional place ifTest elseTest ifRepeats elseRepeats ifBranch elseBranch :: rest) taken
      trace

/-! ## The statements of trees -/

/-- The code of trees without its comments. -/
def statements (registry : Registry (List Instruction)) (trees : List Unfolded) :
    List (Statement Condition Step) :=
  uncommentAll (codeAll registry trees)

section

variable (registry : Registry (List Instruction)) (rest : List Unfolded)

theorem statements_nil : statements registry [] = [] := rfl

theorem statements_append (first second : List Unfolded) :
    statements registry (first ++ second) =
      statements registry first ++ statements registry second := by
  simp [statements]

theorem statements_replicate (times : Nat) (body : List Unfolded) :
    statements registry (List.replicate times body).flatten =
      (List.replicate times (statements registry body)).flatten := by
  induction times with
  | zero => rfl
  | succ times ih =>
    rw [List.replicate_succ, List.replicate_succ, List.flatten_cons, List.flatten_cons,
      statements_append, ih]

theorem uncommentAll_arrange (shape : LoopShape) (ifTest elseTest : Condition)
    (ifBody elseBody : List Code) :
    uncommentAll (shape.arrange ifTest elseTest ifBody elseBody) =
      shape.arrange ifTest elseTest (uncommentAll ifBody) (uncommentAll elseBody) := by
  cases shape <;> simp [LoopShape.arrange, uncommentAll, uncomment]

theorem statements_inlined (reference : Reference) (body : List Unfolded) :
    statements registry (.inlined reference body :: rest) = statements registry (body ++ rest) := by
  rw [statements, codeAll, code, Project.inlined, uncommentAll_append, uncommentAll_append,
    uncommentAll_ofComment, statements_append]
  simp [statements, uncommentAll, uncomment, stepOfAction?]

theorem statements_absent (reference : Reference) :
    statements registry (.absent reference :: rest) = statements registry rest := rfl

theorem statements_counterLoop (place : Place) (iterations : UInt32) (body : List Unfolded) :
    statements registry (.counterLoop place iterations body :: rest) =
      .count iterations (statements registry body) :: statements registry rest := by
  rw [statements, codeAll, code, uncommentAll_append, uncommentAll_append, uncommentAll_ofComment]
  rfl

theorem statements_conditional (place : Place) (ifTest elseTest : Condition)
    (ifRepeats elseRepeats : Bool) (ifBranch elseBranch : List Unfolded) :
    statements registry
        (.conditional place ifTest elseTest ifRepeats elseRepeats ifBranch elseBranch :: rest) =
      (LoopShape.ofRepeats ifRepeats elseRepeats).arrange ifTest elseTest
        (statements registry ifBranch) (statements registry elseBranch) ++
        statements registry rest := by
  rw [statements, codeAll, code, uncommentAll_append, uncommentAll_append, uncommentAll_ofComment,
    uncommentAll_arrange]
  rfl

theorem statements_call (reference : Reference) (delay : UInt32) {use : Use} {name : String}
    (h : call? registry (reference, use) = some name) :
    statements registry (.expression reference delay use :: rest) =
      .action (.call name) :: ((if delay = 0 then [] else [Output.delay delay]).map
        (fun output => .action (.emit output)) ++ statements registry rest) := by
  rw [statements, codeAll, code, h, uncommentAll_append]
  show uncommentAll (Project.callCode reference.place name delay) ++ _ = _
  rw [Project.callCode, uncommentAll_append, uncommentAll_ofComment, List.nil_append]
  split <;> rfl

theorem statements_of_call?_eq_none (reference : Reference) (delay : UInt32) {use : Use}
    (h : call? registry (reference, use) = none) :
    statements registry (.expression reference delay use :: rest) = statements registry rest := by
  rw [statements, codeAll, code, h]
  rfl

end

/-! ## Both sides step by step -/

/-- The functions have one for every method of the registry, which does what the method says. -/
def Defined (functions : List Function) (registry : Registry (List Instruction)) : Prop :=
  ∀ method ∈ registry.methods,
    functions.find? (·.name == method.name) = some ⟨method.name, bodyOf method.body⟩

variable {functions : List Function} {registry : Registry (List Instruction)}
variable {readings : Nat → UInt8 → Int}

theorem outputs_of_call?_eq_none {reference : Reference} (delay : UInt32) {use : Use}
    (h : call? registry (reference, use) = none) : outputs registry reference delay use = [] := by
  cases use with
  | absent => simp only [outputs]
  | first body =>
    have hget : registry.get? reference.file = none := Option.map_eq_none_iff.1 h
    simp only [outputs, hget]
  | again =>
    have hget : registry.get? reference.file = none := Option.map_eq_none_iff.1 h
    simp only [outputs, hget]

theorem outputs_of_get? {reference : Reference} (delay : UInt32) {use : Use} {name : String}
    (h : call? registry (reference, use) = some name) {method : Method (List Instruction)}
    (hget : registry.get? reference.file = some method) : outputs registry reference delay use =
      method.body.filterMap outputOf? ++ if delay = 0 then [] else [.delay delay] := by
  cases use with
  | absent => cases h
  | first body => simp only [outputs, hget]
  | again => simp only [outputs, hget]

/-- A reference to an expression either has no code and emits nothing, or its code emits what the
reference does. -/
theorem expression_cases (hdefined : Defined functions registry) (reference : Reference)
    (delay : UInt32) (use : Use) (rest : List Unfolded) (taken : Nat) :
    (outputs registry reference delay use = [] ∧
      statements registry (.expression reference delay use :: rest) = statements registry rest) ∨
    Reaches functions readings (statements registry (.expression reference delay use :: rest)) taken
      (outputs registry reference delay use) (statements registry rest) taken := by
  cases hcall : call? registry (reference, use) with
  | none =>
    exact Or.inl ⟨outputs_of_call?_eq_none delay hcall,
      statements_of_call?_eq_none registry rest reference delay hcall⟩
  | some name =>
    right
    obtain ⟨method, hget, rfl⟩ := get?_of_call? hcall
    have houtputs := outputs_of_get? delay hcall hget
    have hcalled : Reaches functions readings
        (statements registry (.expression reference delay use :: rest)) taken []
        ((outputs registry reference delay use).map (fun output => .action (.emit output)) ++
          statements registry rest) taken := by
      rw [statements_call registry rest reference delay hcall, houtputs, List.map_append,
        List.append_assoc]
      exact reaches_call (hdefined method (Registry.mem_of_get? hget).1)
    exact hcalled.emits

theorem reaches_firstBranch {place : Place} {ifTest elseTest : Condition}
    {ifRepeats elseRepeats : Bool} {ifBranch elseBranch rest : List Unfolded} {taken : Nat}
    (h : takesFirst (readings taken) ifTest elseTest ifRepeats elseRepeats = true) :
    Reaches functions readings (statements registry
        (.conditional place ifTest elseTest ifRepeats elseRepeats ifBranch elseBranch :: rest))
      taken []
      (statements registry (ifBranch ++ if ifRepeats then
        .conditional place ifTest elseTest ifRepeats elseRepeats ifBranch elseBranch :: rest
        else rest))
      (taken + 1) := by
  rw [statements_append]
  match ifRepeats, elseRepeats with
  | false, false =>
    rw [statements_conditional]
    exact reaches_branch_of_holds _ _ h
  | false, true =>
    rw [statements_conditional]
    exact reaches_loopWhile_of_not_holds _ (by simpa [takesFirst] using h)
  | true, false =>
    rw [if_pos rfl, statements_conditional]
    exact reaches_loopWhile_of_holds _ h
  | true, true =>
    rw [if_pos rfl, statements_conditional]
    exact (reaches_forever _).trans (reaches_branch_of_holds _ _ h)

theorem reaches_secondBranch {place : Place} {ifTest elseTest : Condition}
    {ifRepeats elseRepeats : Bool} {ifBranch elseBranch rest : List Unfolded} {taken : Nat}
    (h : takesFirst (readings taken) ifTest elseTest ifRepeats elseRepeats = false) :
    Reaches functions readings (statements registry
        (.conditional place ifTest elseTest ifRepeats elseRepeats ifBranch elseBranch :: rest))
      taken []
      (statements registry (elseBranch ++ if elseRepeats then
        .conditional place ifTest elseTest ifRepeats elseRepeats ifBranch elseBranch :: rest
        else rest))
      (taken + 1) := by
  rw [statements_append]
  match ifRepeats, elseRepeats with
  | false, false =>
    rw [statements_conditional]
    exact reaches_branch_of_not_holds _ _ h
  | false, true =>
    rw [if_pos rfl, statements_conditional]
    exact reaches_loopWhile_of_holds _ (by simpa [takesFirst] using h)
  | true, false =>
    rw [statements_conditional]
    exact reaches_loopWhile_of_not_holds _ h
  | true, true =>
    rw [if_pos rfl, statements_conditional]
    exact (reaches_forever _).trans (reaches_branch_of_not_holds _ _ h)

/-! ## Both halves -/

/-- What trees perform, the machine emits when their code is left to run. -/
theorem Performs.traces (hdefined : Defined functions registry) {trees : List Unfolded}
    {taken : Nat} {trace : List Output} (h : Performs registry readings trees taken trace) :
    Traces functions readings (statements registry trees) taken trace := by
  induction h with
  | start trees taken => exact traces_nil _ taken
  | @part reference delay use rest taken trace htrace =>
    rcases expression_cases hdefined reference delay use rest taken with ⟨hnil, -⟩ | hreaches
    · rw [hnil] at htrace
      rw [List.prefix_nil.1 htrace]
      exact traces_nil _ taken
    · exact hreaches.traces_of_isPrefix htrace
  | @expression reference delay use rest taken trace hrest ih =>
    rcases expression_cases hdefined reference delay use rest taken with ⟨hnil, heq⟩ | hreaches
    · rw [hnil, heq]
      exact ih
    · exact hreaches.traces_append ih
  | inlined hbody ih =>
    rw [statements_inlined]
    exact ih
  | absent hrest ih =>
    rw [statements_absent]
    exact ih
  | counterLoop hrounds ih =>
    rw [statements_append, statements_replicate] at ih
    rw [statements_counterLoop]
    exact (reaches_count _ _).traces_append ih
  | firstBranch hfirst hbranch ih => exact (reaches_firstBranch hfirst).traces_append ih
  | secondBranch hsecond hbranch ih => exact (reaches_secondBranch hsecond).traces_append ih

theorem sizeOf_append (first second : List Unfolded) :
    sizeOf (first ++ second) + 1 = sizeOf first + sizeOf second := by
  induction first with
  | nil =>
    rw [List.nil_append, List.nil.sizeOf_spec]
    omega
  | cons tree rest ih =>
    rw [List.cons_append, List.cons.sizeOf_spec, List.cons.sizeOf_spec]
    omega

/-- What the machine emits when the code of trees is left to run, the trees perform. -/
theorem performs_of_tracesIn (hdefined : Defined functions registry) {steps : Nat}
    {trees : List Unfolded} {taken : Nat} {trace : List Output}
    (h : TracesIn functions readings steps (statements registry trees) taken trace) :
    Performs registry readings trees taken trace := by
  match trees with
  | [] =>
    rw [statements_nil] at h
    rw [h.eq_nil]
    exact .start [] taken
  | .expression reference delay use :: rest =>
    rcases expression_cases hdefined reference delay use rest taken with ⟨hnil, heq⟩ | hreaches
    · rw [heq] at h
      have hwhole : Performs registry readings (.expression reference delay use :: rest) taken
          (outputs registry reference delay use ++ trace) :=
        .expression (performs_of_tracesIn hdefined h)
      rwa [hnil] at hwhole
    · rcases hreaches.tracesIn_cases h with hpart | ⟨fewer, hfewer, later, rfl, hlater⟩
      · exact .part hpart
      · exact .expression (performs_of_tracesIn hdefined hlater)
  | .inlined reference body :: rest =>
    rw [statements_inlined] at h
    exact .inlined (performs_of_tracesIn hdefined h)
  | .absent reference :: rest =>
    rw [statements_absent] at h
    exact .absent (performs_of_tracesIn hdefined h)
  | .counterLoop place iterations body :: rest =>
    rw [statements_counterLoop] at h
    rcases (reaches_count _ _).tracesIn_of_silent h with rfl | ⟨fewer, hfewer, hlater⟩
    · exact .start _ taken
    · rw [← statements_replicate, ← statements_append] at hlater
      exact .counterLoop (performs_of_tracesIn hdefined hlater)
  | .conditional place ifTest elseTest ifRepeats elseRepeats ifBranch elseBranch :: rest =>
    cases htakes : takesFirst (readings taken) ifTest elseTest ifRepeats elseRepeats with
    | true =>
      rcases (reaches_firstBranch htakes).tracesIn_of_silent h with rfl | ⟨fewer, hfewer, hlater⟩
      · exact .start _ taken
      · exact .firstBranch htakes (performs_of_tracesIn hdefined hlater)
    | false =>
      rcases (reaches_secondBranch htakes).tracesIn_of_silent h with rfl | ⟨fewer, hfewer, hlater⟩
      · exact .start _ taken
      · exact .secondBranch htakes (performs_of_tracesIn hdefined hlater)
termination_by (steps, sizeOf trees)
decreasing_by
  · exact Prod.Lex.right _ (by simp only [List.cons.sizeOf_spec]; omega)
  · exact Prod.Lex.left _ _ hfewer
  · have hsize := sizeOf_append body rest
    exact Prod.Lex.right _ (by simp only [List.cons.sizeOf_spec, inlined.sizeOf_spec]; omega)
  · exact Prod.Lex.right _ (by simp only [List.cons.sizeOf_spec]; omega)
  · exact Prod.Lex.left _ _ hfewer
  · exact Prod.Lex.left _ _ hfewer
  · exact Prod.Lex.left _ _ hfewer

end Unfolded

/-! ## Compiled sketches -/

theorem Unfolded.defined_functionsOf {registry : Registry (List Instruction)} (h : registry.Sound)
    (code : List Code) : Defined (functionsOf code registry.methods) registry := by
  intro method hmethod
  have hnodup : ((functionsOf code registry.methods).map (·.name)).Nodup := by
    rw [names_functionsOf]
    exact nodup_names h
  have hmem : (⟨method.name, bodyOf method.body⟩ : Function) ∈
      functionsOf code registry.methods := by
    simp only [functionsOf, List.mem_cons, List.mem_map]
    exact Or.inr (Or.inr ⟨method, hmethod, rfl⟩)
  exact find?_of_nodup_map hnodup hmem rfl

/-- The functions of a sound registry show what the trees of the main loop perform. -/
theorem Unfolded.shows_iff_performs {registry : Registry (List Instruction)} (h : registry.Sound)
    (trees : List Unfolded) (readings : Nat → UInt8 → Int) (trace : List Output) :
    Shows (functionsOf (codeAll registry trees) registry.methods) readings trace ↔
      Performs registry readings trees 0 trace := by
  have hdefined := defined_functionsOf h (codeAll registry trees)
  have hfind : (functionsOf (codeAll registry trees) registry.methods).find? (·.name == "loop") =
      some ⟨"loop", statements registry trees⟩ := rfl
  have hloop : Reaches (functionsOf (codeAll registry trees) registry.methods) readings
      [.action (.call "loop")] 0 [] (statements registry trees ++ []) 0 := reaches_call hfind
  rw [List.append_nil] at hloop
  constructor
  · rintro ⟨steps, hsteps⟩
    rcases hloop.tracesIn_of_silent ⟨_, rfl, hsteps⟩ with rfl | ⟨fewer, -, hfewer⟩
    · exact .start trees 0
    · exact performs_of_tracesIn hdefined hfewer
  · intro hperforms
    exact hloop.traces_append (hperforms.traces hdefined) _ rfl

namespace Project

variable {project : Project} {root : String} {directory : Path} {program : Program}
variable {session : Session}

/-- Compilation keeps the behaviour. The text of a compiled sketch, read again and run, shows exactly
the traces that the trees perform into which the documents unfold, whatever the sensors read. What
was asked about is what the trees leave out. -/
theorem sketch_shows_iff_performs
    (h : project.compileProgram root directory = (.ok program, session))
    (hc : program.cancelled = false) :
    ∃ functions trees, Sketch.read? program.source = some functions ∧
      project.UnfoldsFrom root directory trees ∧
      program.methods = (Unfolded.registryOf trees).methods ∧
      session.asked = Unfolded.questionsAll trees ∧
      ∀ readings trace, Sketch.Shows functions readings trace ↔
        Unfolded.Performs ⟨program.methods⟩ readings trees 0 trace := by
  obtain ⟨trees, hexplained⟩ := compileProgram_explained h hc
  refine ⟨_, trees, hexplained.read?_source, hexplained.unfolds, hexplained.methods,
    hexplained.asked, fun readings trace => ?_⟩
  rw [hexplained.registry_eq, hexplained.methods]
  exact Unfolded.shows_iff_performs (Unfolded.sound_registryOf trees) trees readings trace

/-- Whatever its sensors read, the sample runs the expression of the dance, pauses, runs the same
expression under its other name, and then twice in the loop of its steps. -/
theorem sample_sketch_shows : ∃ program session functions,
    Sample.project.compileProgram "main.xml" ⟨"p"⟩ = (.ok program, session) ∧
    program.cancelled = false ∧ Sketch.read? program.source = some functions ∧
    ∀ readings,
      Sketch.Shows functions readings [.delay 1, .delay 5, .delay 1, .delay 1, .delay 1] := by
  obtain ⟨program, session, h, hc⟩ := Sample.compiles
  obtain ⟨functions, trees, hread, hunfolds, hmethods, -, hshows⟩ := sketch_shows_iff_performs h hc
  obtain rfl := hunfolds.unique Sample.unfolds
  refine ⟨program, session, functions, h, hc, hread, fun readings => (hshows readings _).2 ?_⟩
  rw [hmethods]
  have hfirst : Unfolded.outputs (Unfolded.registryOf Sample.trees) Sample.first 5
      (.first [.delay 1]) = [.delay 1, .delay 5] := by decide
  have hspelled : Unfolded.outputs (Unfolded.registryOf Sample.trees) Sample.spelled 0 .again =
      [.delay 1] := by decide
  have hsecond : Unfolded.outputs (Unfolded.registryOf Sample.trees) Sample.second 0 .again =
      [.delay 1] := by decide
  generalize Unfolded.registryOf Sample.trees = registry at hfirst hspelled hsecond ⊢
  have hloop : Unfolded.Performs registry readings (Sample.stepTrees ++ []) 0
      (Unfolded.outputs registry Sample.second 0 .again ++
        (Unfolded.outputs registry Sample.second 0 .again ++ [])) :=
    .counterLoop (.expression (.expression (.start _ 0)))
  have hall : Unfolded.Performs registry readings Sample.trees 0
      (Unfolded.outputs registry Sample.first 5 (.first [.delay 1]) ++
        (Unfolded.outputs registry Sample.spelled 0 .again ++ _)) :=
    .expression (.expression (.inlined hloop))
  rw [hfirst, hspelled, hsecond] at hall
  exact hall

end Project

end RobotSketch
