import RobotSketch.Proofs.References
import RobotSketch.Proofs.Registry.History
import RobotSketch.Proofs.Sketch.Reader

/-!
# Calls and definitions

Calls stand in the nested blocks of a sketch, and definitions come from the registry that the run
has filled on the way. Here the two are brought together: what is called is what references to
expressions have become (`Unfolded.mem_calls_codeAll`), and what is registered was registered for a
reference (`Registry.exists_use_of_mem_registerAll`).

It follows that a compiled sketch is well-formed, so that it can be read again
(`Project.ExplainedFrom.read?_source`), and that it links (`Project.sketch_links`).
-/
namespace RobotSketch

/-! ## Bodies of expressions -/

theorem DeviceCommand.isRendered_render {command : DeviceCommand} {rendering : Rendering}
    (h : command.render = .ok rendering) : (Instruction.device rendering).IsRendered := by
  unfold DeviceCommand.render at h
  split at h
  · cases h
    exact ⟨_, rfl⟩
  · cases rendering with
    | supported call => trivial
    | unsupported line =>
      -- a known service never gives a comment
      simp only [bind, Except.bind] at h
      split at h
      · cases h
      · split at h <;> cases h

theorem DeviceCommand.isRendered_mapM {commands : List DeviceCommand}
    {renderings : List Rendering} (h : commands.mapM (·.render) = .ok renderings) :
    ∀ rendering ∈ renderings, (Instruction.device rendering).IsRendered := by
  induction commands generalizing renderings with
  | nil =>
    cases h
    simp
  | cons command rest ih =>
    rw [List.mapM_cons] at h
    cases hcommand : command.render with
    | error defect =>
      rw [hcommand] at h
      cases h
    | ok rendering =>
      cases hrest : rest.mapM (·.render) with
      | error defect =>
        rw [hcommand, hrest] at h
        cases h
      | ok others =>
        rw [hcommand, hrest] at h
        cases h
        exact List.forall_mem_cons.2 ⟨isRendered_render hcommand, ih hrest⟩

/-- What the body of an expression has for a service that the board lacks is a comment. -/
theorem Expression.isRendered_body {expression : Expression} {body : List Instruction}
    (h : expression.body = .ok body) : ∀ instruction ∈ body, instruction.IsRendered := by
  unfold Expression.body at h
  cases hdevices : expression.commands.mapM (·.render) with
  | error defect =>
    rw [hdevices] at h
    cases h
  | ok devices =>
    rw [hdevices] at h
    cases h
    intro instruction hinstruction
    rcases List.mem_append.1 hinstruction with hdevice | hdelay
    · obtain ⟨rendering, hrendering, rfl⟩ := List.mem_map.1 hdevice
      exact DeviceCommand.isRendered_mapM hdevices rendering hrendering
    · split at hdelay
      · exact absurd hdelay List.not_mem_nil
      · rw [List.mem_singleton.1 hdelay]
        trivial

theorem Project.Settles.documentBody {project : Project} {known known' : List String}
    {uses : List (Reference × Use)} (h : project.Settles known uses known')
    {reference : Reference} {body : List Instruction} (hmem : (reference, .first body) ∈ uses) :
    project.DocumentBody reference body := by
  obtain ⟨before, after, rfl⟩ := List.append_of_mem hmem
  obtain ⟨known₁, -, hafter⟩ := h.split
  cases hafter with
  | first hnew hload hread hbody rest => exact ⟨_, _, hload, hread, hbody⟩

/-! ## Calls of code -/

namespace Sketch

/-- The subroutine that a step calls. -/
def Step.call? : Step → Option String
  | .call method => some method
  | .emit _ => none

/-- The subroutines that statements call, in the order of the text. -/
def calls (statements : List (Statement Condition Step)) : List String :=
  (Statement.actionsAll statements).filterMap Step.call?

/-- Comments call nothing. -/
theorem calls_uncommentAll (code : List Code) : calls (uncommentAll code) = Code.calls code := by
  induction code using Statement.inductionAll with
  | nil => rfl
  | action act rest ih =>
    rw [Code.calls_action, ← ih]
    cases act <;> rfl
  | count times body rest ihbody ih =>
    rw [Code.calls_count, ← ihbody, ← ih]
    simp [calls, uncommentAll, uncomment, Statement.actionsAll, Statement.actions]
  | branch test yes no rest ihyes ihno ih =>
    rw [Code.calls_branch, ← ihyes, ← ihno, ← ih]
    simp [calls, uncommentAll, uncomment, Statement.actionsAll, Statement.actions]
  | loopWhile test body rest ihbody ih =>
    rw [Code.calls_loopWhile, ← ihbody, ← ih]
    simp [calls, uncommentAll, uncomment, Statement.actionsAll, Statement.actions]
  | forever body rest ihbody ih =>
    rw [Code.calls_forever, ← ihbody, ← ih]
    simp [calls, uncommentAll, uncomment, Statement.actionsAll, Statement.actions]

end Sketch

namespace Code

@[simp] theorem calls_nil : calls [] = [] := rfl

@[simp] theorem calls_ofComment (comment : Option String) : calls (ofComment comment) = [] := by
  rw [← Sketch.calls_uncommentAll, Sketch.uncommentAll_ofComment]
  rfl

@[simp] theorem calls_callCode (place : Place) (method : String) (delay : UInt32) :
    calls (Project.callCode place method delay) = [method] := by
  unfold Project.callCode
  split <;> simp [Action.call?]

@[simp] theorem calls_inlined (place : Place) (file : String) (body : List Code) :
    calls (Project.inlined place file body) = calls body := by
  simp [Project.inlined, Action.call?]

/-- However the branches of a conditional are arranged, both are there. -/
theorem mem_calls_arrange {shape : LoopShape} {ifTest elseTest : Condition}
    {ifBody elseBody : List Code} {name : String} :
    name ∈ calls (shape.arrange ifTest elseTest ifBody elseBody) ↔
      name ∈ calls ifBody ∨ name ∈ calls elseBody := by
  cases shape <;> simp [LoopShape.arrange, or_comm]

end Code

namespace Unfolded

mutual

theorem mem_calls_code {registry : Registry (List Instruction)} {tree : Unfolded} {name : String} :
    name ∈ Code.calls (code registry tree) ↔
      ∃ entry ∈ references tree, call? registry entry = some name := by
  match tree with
  | .expression reference delay use =>
    simp only [code, references, List.mem_singleton, exists_eq_left]
    cases call? registry (reference, use) with
    | none => simp
    | some method => simp [eq_comm]
  | .inlined reference body =>
    rw [code, references, Code.calls_inlined]
    exact mem_calls_codeAll
  | .absent reference => simp [code, references]
  | .counterLoop place iterations body =>
    rw [code, references, Code.calls_append, Code.calls_ofComment, List.nil_append,
      Code.calls_count, Code.calls_nil, List.append_nil]
    exact mem_calls_codeAll
  | .conditional place ifTest elseTest ifRepeats elseRepeats ifBranch elseBranch =>
    rw [code, references, Code.calls_append, Code.calls_ofComment, List.nil_append,
      Code.mem_calls_arrange, mem_calls_codeAll, mem_calls_codeAll]
    simp only [List.mem_append, or_and_right, exists_or]

/-- What is called is what references have become. -/
theorem mem_calls_codeAll {registry : Registry (List Instruction)} {trees : List Unfolded}
    {name : String} :
    name ∈ Code.calls (codeAll registry trees) ↔
      ∃ entry ∈ referencesAll trees, call? registry entry = some name := by
  match trees with
  | [] => simp [codeAll, referencesAll]
  | tree :: rest =>
    rw [codeAll, referencesAll, Code.calls_append, List.mem_append, mem_calls_code,
      mem_calls_codeAll]
    simp only [List.mem_append, or_and_right, exists_or]

end

/-- What is called for a reference is the method that its file is registered under. -/
theorem get?_of_call? {registry : Registry (List Instruction)} {reference : Reference} {use : Use}
    {name : String} (h : call? registry (reference, use) = some name) :
    ∃ method, registry.get? reference.file = some method ∧ method.name = name := by
  cases use with
  | absent => cases h
  | first body => exact Option.map_eq_some_iff.1 h
  | again => exact Option.map_eq_some_iff.1 h

/-- A method of a run was registered for a reference that has its body. -/
theorem exists_first_of_mem {trees : List Unfolded} {method : Method (List Instruction)}
    (h : method ∈ (registryOf trees).methods) :
    ∃ reference, (reference, .first method.body) ∈ referencesAll trees ∧
      method.identity = reference.identity := by
  rcases Registry.exists_use_of_mem_registerAll h with h | ⟨use, huse, hidentity, hbody⟩
  · exact absurd h List.not_mem_nil
  · obtain ⟨⟨reference, how⟩, hentry, hfirst⟩ := List.mem_filterMap.1 huse
    cases how with
    | again => cases hfirst
    | absent => cases hfirst
    | first body =>
      cases hfirst
      subst hbody
      exact ⟨reference, hentry, hidentity⟩

end Unfolded

/-! ## Sketches that are read again -/

namespace Sketch

theorem names_functionsOf (code : List Code) (methods : List (Method (List Instruction))) :
    (functionsOf code methods).map (·.name) = "setup" :: "loop" :: methods.map (·.name) := by
  simp [functionsOf, Function.comp_def]

/-- The functions of a sound registry have names of their own, the two fixed ones included. -/
theorem nodup_names {registry : Registry (List Instruction)} (h : registry.Sound) :
    ("setup" :: "loop" :: registry.methods.map (·.name)).Nodup := by
  have hfixed : ∀ name ∈ Identifier.reserved, name ∉ registry.methods.map (·.name) := by
    intro name hreserved hmem
    obtain ⟨method, hmethod, rfl⟩ := List.mem_map.1 hmem
    exact (h.named method hmethod).2 hreserved
  refine List.nodup_cons.2 ⟨?_, List.nodup_cons.2 ⟨hfixed _ (by decide), h.names_nodup⟩⟩
  rw [List.mem_cons, not_or]
  exact ⟨by decide, hfixed _ (by decide)⟩

end Sketch

namespace Project

variable {project : Project} {root : String} {directory : Path} {program : Program}
variable {session : Session} {trees : List Unfolded}

/-- Every subroutine that the code of a project calls is registered. -/
theorem ExplainedFrom.exists_method (h : project.ExplainedFrom root directory program session trees)
    {name : String} (hname : name ∈ Code.calls (Unfolded.codeAll (Unfolded.registryOf trees) trees)) :
    ∃ method ∈ program.methods, method.name = name := by
  obtain ⟨entry, -, hcall⟩ := Unfolded.mem_calls_codeAll.1 hname
  obtain ⟨method, hget, rfl⟩ := Unfolded.get?_of_call? hcall
  rw [h.methods]
  exact ⟨method, (Registry.mem_of_get? hget).1, rfl⟩

/-- Every subroutine that is registered is called. -/
theorem ExplainedFrom.mem_calls (h : project.ExplainedFrom root directory program session trees)
    {method : Method (List Instruction)} (hmethod : method ∈ program.methods) :
    method.name ∈ Code.calls (Unfolded.codeAll (Unfolded.registryOf trees) trees) := by
  rw [h.methods] at hmethod
  obtain ⟨reference, hentry, hidentity⟩ := Unfolded.exists_first_of_mem hmethod
  refine Unfolded.mem_calls_codeAll.2 ⟨_, hentry, ?_⟩
  have hget := (Unfolded.sound_registryOf trees).get?_of_mem hmethod hidentity
  simp [Unfolded.call?, hget]

theorem ExplainedFrom.isWellFormed (h : project.ExplainedFrom root directory program session trees) :
    Sketch.IsWellFormed (Unfolded.codeAll (Unfolded.registryOf trees) trees) program.methods := by
  have hnames : ∀ method ∈ program.methods, Identifier.IsIdentifier method.name.toList := by
    rw [h.methods]
    exact fun method hmethod => ((Unfolded.sound_registryOf trees).named method hmethod).1
  refine ⟨fun name hname => ?_, hnames, fun method hmethod => ?_⟩
  · obtain ⟨method, hmethod, rfl⟩ := h.exists_method hname
    exact hnames method hmethod
  · rw [h.methods] at hmethod
    obtain ⟨reference, hentry, -⟩ := Unfolded.exists_first_of_mem hmethod
    obtain ⟨known, hsettles⟩ := h.unfolds.settles
    obtain ⟨node, expression, -, -, hbody⟩ := hsettles.documentBody hentry
    exact Expression.isRendered_body hbody

/-- The text of a compiled program is read as the code of its trees and the bodies of its methods. -/
theorem ExplainedFrom.read?_source (h : project.ExplainedFrom root directory program session trees) :
    Sketch.read? program.source = some (Sketch.functionsOf
      (Unfolded.codeAll (Unfolded.registryOf trees) trees) program.methods) := by
  rw [h.source]
  exact Sketch.read?_render h.isWellFormed

/-- A compiled sketch links. Its text defines the two fixed functions and one for every method, under
names that are pairwise distinct; what the main loop calls is, each time, exactly one of the
methods; and every method is called by the main loop. -/
theorem sketch_links (h : project.compileProgram root directory = (.ok program, session))
    (hc : program.cancelled = false) :
    ∃ functions loop, Sketch.read? program.source = some functions ∧
      functions.map (·.name) = "setup" :: "loop" :: program.methods.map (·.name) ∧
      (functions.map (·.name)).Nodup ∧ ⟨"loop", loop⟩ ∈ functions ∧
      (∀ name ∈ Sketch.calls loop, ∃! method, method ∈ program.methods ∧ method.name = name) ∧
      ∀ method ∈ program.methods, method.name ∈ Sketch.calls loop := by
  obtain ⟨trees, hexplained⟩ := compileProgram_explained h hc
  have hsound := Unfolded.sound_registryOf trees
  refine ⟨_, Sketch.uncommentAll (Unfolded.codeAll (Unfolded.registryOf trees) trees),
    hexplained.read?_source, Sketch.names_functionsOf _ _, ?_, ?_, ?_, ?_⟩
  · rw [Sketch.names_functionsOf, hexplained.methods]
    exact Sketch.nodup_names hsound
  · simp [Sketch.functionsOf]
  · intro name hname
    rw [Sketch.calls_uncommentAll] at hname
    obtain ⟨method, hmethod, rfl⟩ := hexplained.exists_method hname
    refine ⟨method, ⟨hmethod, rfl⟩, fun other hother => ?_⟩
    rw [hexplained.methods] at hmethod hother
    exact hsound.eq_of_name_eq hother.1 hmethod hother.2
  · intro method hmethod
    rw [Sketch.calls_uncommentAll]
    exact hexplained.mem_calls hmethod

/-- The sample, which calls one expression from two places, links. -/
theorem sample_sketch_links : ∃ program session functions loop,
    Sample.project.compileProgram "main.xml" ⟨"p"⟩ = (.ok program, session) ∧
    program.cancelled = false ∧ Sketch.read? program.source = some functions ∧
    (functions.map (·.name)).Nodup ∧ ⟨"loop", loop⟩ ∈ functions ∧
    ∀ method ∈ program.methods, method.name ∈ Sketch.calls loop := by
  obtain ⟨program, session, h, hc⟩ := Sample.compiles
  obtain ⟨functions, loop, hread, -, hnodup, hloop, -, hcalled⟩ := sketch_links h hc
  exact ⟨program, session, functions, loop, h, hc, hread, hnodup, hloop, hcalled⟩

end Project

end RobotSketch
