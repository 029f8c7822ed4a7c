import RobotSketch.Proofs.Session

/-!
# What a project comes to

From one of its sequences, a project unfolds into a finite tree: saved sequences stand in place,
each read in its own directory, and every reference to an expression is settled. `Unfolds` says
which tree, by looking at the documents alone; a project in which a sequence leads back to itself
has no tree.

How a reference is settled depends on the references before it, in the order in which the documents
put them. The first reference of an identity that has a document has a subroutine made for it; the
references of that identity that follow share it. A reference that has no document and comes before
all that have one is left out.

The main statement is `compileList_explained`: a run that succeeds without being cancelled emits the
code of the tree, registers the bodies of the first references, and asks about what is absent, all
in the order of the tree. The tree is the only one there is (`Unfolds.unique`).
-/
namespace RobotSketch

/-! ## Trees -/

/-- A reference: the document it stands in, and what it says. -/
structure Reference where
  directory : Path
  /-- The name of the document. -/
  enclosing : String
  place : Place
  file : String
  deriving DecidableEq, Repr

/-- What a reference is known by. -/
def Reference.identity (reference : Reference) : String := Identifier.identity reference.file

/-- The question about a reference whose document is missing. -/
def Reference.question (reference : Reference) : Question :=
  ⟨reference.file, reference.enclosing⟩

/-- How a reference to an expression is settled. -/
inductive Use where
  /-- It is the first of its identity that has a document, and this is its body. -/
  | first (body : List Instruction)
  /-- It comes after the first one of its identity. -/
  | again
  /-- It has no document, and neither has any one of its identity before it. -/
  | absent
  deriving DecidableEq, Repr

/-- An element in place. -/
inductive Unfolded where
  | expression (reference : Reference) (delay : UInt32) (use : Use)
  /-- A saved sequence, with its elements. -/
  | inlined (reference : Reference) (body : List Unfolded)
  /-- A saved sequence that has no document. -/
  | absent (reference : Reference)
  | counterLoop (place : Place) (iterations : UInt32) (body : List Unfolded)
  | conditional (place : Place) (ifTest elseTest : Condition) (ifRepeats elseRepeats : Bool)
      (ifBranch elseBranch : List Unfolded)

namespace Unfolded

mutual

/-- The references to expressions, in order, and how each is settled. -/
def references : Unfolded → List (Reference × Use)
  | .expression reference _ use => [(reference, use)]
  | .inlined _ body => referencesAll body
  | .absent _ => []
  | .counterLoop _ _ body => referencesAll body
  | .conditional _ _ _ _ _ ifBranch elseBranch =>
    referencesAll ifBranch ++ referencesAll elseBranch

def referencesAll : List Unfolded → List (Reference × Use)
  | [] => []
  | tree :: rest => references tree ++ referencesAll rest

end

mutual

/-- The questions that a tree gives rise to, in order. -/
def questions : Unfolded → List Question
  | .expression reference _ .absent => [reference.question]
  | .expression _ _ _ => []
  | .inlined _ body => questionsAll body
  | .absent reference => [reference.question]
  | .counterLoop _ _ body => questionsAll body
  | .conditional _ _ _ _ _ ifBranch elseBranch =>
    questionsAll ifBranch ++ questionsAll elseBranch

def questionsAll : List Unfolded → List Question
  | [] => []
  | tree :: rest => questions tree ++ questionsAll rest

end

/-- The call that a reference to an expression becomes, if it becomes one. -/
def call? (registry : Registry (List Instruction)) : Reference × Use → Option String
  | (_, .absent) => none
  | (reference, _) => (registry.get? reference.file).map (·.name)

mutual

/-- The code of a tree, given the registry of the whole run. -/
def code (registry : Registry (List Instruction)) : Unfolded → List Code
  | .expression reference delay use =>
    match call? registry (reference, use) with
    | none => []
    | some method => Project.callCode reference.place method delay
  | .inlined reference body =>
    Project.inlined reference.place reference.file (codeAll registry body)
  | .absent _ => []
  | .counterLoop place iterations body =>
    Code.ofComment place.comment ++ [.count iterations (codeAll registry body)]
  | .conditional place ifTest elseTest ifRepeats elseRepeats ifBranch elseBranch =>
    Code.ofComment place.comment ++
      (LoopShape.ofRepeats ifRepeats elseRepeats).arrange ifTest elseTest
        (codeAll registry ifBranch) (codeAll registry elseBranch)

def codeAll (registry : Registry (List Instruction)) : List Unfolded → List Code
  | [] => []
  | tree :: rest => code registry tree ++ codeAll registry rest

end

/-- The file and the body of a reference that is the first of its identity. -/
def firstUse? : Reference × Use → Option (String × List Instruction)
  | (reference, .first body) => some (reference.file, body)
  | _ => none

/-- The bodies that trees have registered, with their files. -/
def firstUses (trees : List Unfolded) : List (String × List Instruction) :=
  (referencesAll trees).filterMap firstUse?

@[simp] theorem referencesAll_append (first second : List Unfolded) :
    referencesAll (first ++ second) = referencesAll first ++ referencesAll second := by
  induction first with
  | nil => rfl
  | cons tree rest ih => simp [referencesAll, ih]

@[simp] theorem questionsAll_append (first second : List Unfolded) :
    questionsAll (first ++ second) = questionsAll first ++ questionsAll second := by
  induction first with
  | nil => rfl
  | cons tree rest ih => simp [questionsAll, ih]

@[simp] theorem codeAll_append (registry : Registry (List Instruction))
    (first second : List Unfolded) :
    codeAll registry (first ++ second) = codeAll registry first ++ codeAll registry second := by
  induction first with
  | nil => rfl
  | cons tree rest ih => simp [codeAll, ih]

@[simp] theorem firstUses_append (first second : List Unfolded) :
    firstUses (first ++ second) = firstUses first ++ firstUses second := by
  simp [firstUses]

end Unfolded

/-! ## Unfolding -/

open Compile

namespace Project

/-- The elements of a document called `name` in a directory unfold into trees. The lists of texts
are the identities that have a subroutine before and after. -/
inductive Unfolds (project : Project) :
    Path → String → List String → List Element → List Unfolded → List String → Prop where
  | nil {directory : Path} {name : String} {known : List String} :
    Unfolds project directory name known [] [] known
  | first {known : List String} {file : String} {directory : Path} {node : Node}
      {expression : Expression} {name : String} {elements : List Element} {trees : List Unfolded}
      {known' : List String} {place : Place} {delay : UInt32} {body : List Instruction}
      (hnew : Identifier.identity file ∉ known)
      (hload : project.library.load (project.expressionPath directory file) = .ok (some node))
      (hread : Expression.read node = .ok expression) (hbody : expression.body = .ok body)
      (rest : Unfolds project directory name (known ++ [Identifier.identity file]) elements trees
        known') :
    Unfolds project directory name known (.expression place file delay :: elements)
      (.expression ⟨directory, name, place, file⟩ delay (.first body) :: trees) known'
  | again {known : List String} {file : String} {directory : Path} {name : String}
      {elements : List Element} {trees : List Unfolded} {known' : List String} {place : Place}
      {delay : UInt32} (hknown : Identifier.identity file ∈ known)
      (rest : Unfolds project directory name known elements trees known') :
    Unfolds project directory name known (.expression place file delay :: elements)
      (.expression ⟨directory, name, place, file⟩ delay .again :: trees) known'
  | skipped {known : List String} {file : String} {directory : Path} {name : String}
      {elements : List Element} {trees : List Unfolded} {known' : List String} {place : Place}
      {delay : UInt32} (hnew : Identifier.identity file ∉ known)
      (hload : project.library.load (project.expressionPath directory file) = .ok none)
      (rest : Unfolds project directory name known elements trees known') :
    Unfolds project directory name known (.expression place file delay :: elements)
      (.expression ⟨directory, name, place, file⟩ delay .absent :: trees) known'
  | inlined {file : String} {inner : List Element} {known : List String} {body : List Unfolded}
      {known₁ : List String} {name : String} {elements : List Element} {trees : List Unfolded}
      {known' : List String} {place : Place} {directory : Path} {node : Node}
      (hload : project.library.load (directory.join file).normalize.path = .ok (some node))
      (hread : readSequence node = .ok inner)
      (hbody : Unfolds project ((directory.join file).normalize.path.parent?.getD ⟨""⟩) file known
        inner body known₁)
      (rest : Unfolds project directory name known₁ elements trees known') :
    Unfolds project directory name known (.sequence place file :: elements)
      (.inlined ⟨directory, name, place, file⟩ body :: trees) known'
  | absent {file name : String} {known : List String} {elements : List Element}
      {trees : List Unfolded} {known' : List String} {place : Place} {directory : Path}
      (hload : project.library.load (directory.join file).normalize.path = .ok none)
      (rest : Unfolds project directory name known elements trees known') :
    Unfolds project directory name known (.sequence place file :: elements)
      (.absent ⟨directory, name, place, file⟩ :: trees) known'
  | counterLoop {directory : Path} {name : String} {known : List String} {children : List Element}
      {body : List Unfolded} {known₁ : List String} {elements : List Element}
      {trees : List Unfolded} {known' : List String} {place : Place} {iterations : UInt32}
      (hbody : Unfolds project directory name known children body known₁)
      (rest : Unfolds project directory name known₁ elements trees known') :
    Unfolds project directory name known (.counterLoop place iterations children :: elements)
      (.counterLoop place iterations body :: trees) known'
  | conditional {ifTest elseTest : Condition} {directory : Path} {name : String}
      {known : List String} {ifBranch : List Element} {ifTrees : List Unfolded}
      {known₁ : List String} {elseBranch : List Element} {elseTrees : List Unfolded}
      {known₂ : List String} {elements : List Element} {trees : List Unfolded}
      {known' : List String} {place : Place} {ifRepeats elseRepeats : Bool} {spec : SensorSpec}
      (hconditions : spec.conditions = .ok (ifTest, elseTest))
      (hif : Unfolds project directory name known ifBranch ifTrees known₁)
      (helse : Unfolds project directory name known₁ elseBranch elseTrees known₂)
      (rest : Unfolds project directory name known₂ elements trees known') :
    Unfolds project directory name known
      (.conditional place spec ifRepeats elseRepeats ifBranch elseBranch :: elements)
      (.conditional place ifTest elseTest ifRepeats elseRepeats ifTrees elseTrees :: trees) known'

variable {project : Project} {directory : Path} {name : String}

/-- A list unfolds in one way only. -/
theorem Unfolds.unique {known known₁ known₂ : List String} {elements : List Element}
    {trees₁ trees₂ : List Unfolded} (h₁ : project.Unfolds directory name known elements trees₁ known₁)
    (h₂ : project.Unfolds directory name known elements trees₂ known₂) :
    trees₁ = trees₂ ∧ known₁ = known₂ := by
  induction h₁ generalizing trees₂ known₂ with
  | nil => cases h₂; exact ⟨rfl, rfl⟩
  | first hnew hload hread hbody rest ih =>
    cases h₂ with
    | first hnew' hload' hread' hbody' rest' =>
      cases hload.symm.trans hload'
      cases hread.symm.trans hread'
      cases hbody.symm.trans hbody'
      obtain ⟨rfl, rfl⟩ := ih rest'
      exact ⟨rfl, rfl⟩
    | again hknown => exact absurd hknown hnew
    | skipped _ hload' => cases hload.symm.trans hload'
  | again hknown rest ih =>
    cases h₂ with
    | again hknown' rest' =>
      obtain ⟨rfl, rfl⟩ := ih rest'
      exact ⟨rfl, rfl⟩
    | first hnew => exact absurd hknown hnew
    | skipped hnew => exact absurd hknown hnew
  | skipped hnew hload rest ih =>
    cases h₂ with
    | skipped _ _ rest' =>
      obtain ⟨rfl, rfl⟩ := ih rest'
      exact ⟨rfl, rfl⟩
    | first _ hload' => cases hload.symm.trans hload'
    | again hknown => exact absurd hknown hnew
  | inlined hload hread hbody rest ihbody ih =>
    cases h₂ with
    | inlined hload' hread' hbody' rest' =>
      cases hload.symm.trans hload'
      cases hread.symm.trans hread'
      obtain ⟨rfl, rfl⟩ := ihbody hbody'
      obtain ⟨rfl, rfl⟩ := ih rest'
      exact ⟨rfl, rfl⟩
    | absent hload' => cases hload.symm.trans hload'
  | absent hload rest ih =>
    cases h₂ with
    | absent _ rest' =>
      obtain ⟨rfl, rfl⟩ := ih rest'
      exact ⟨rfl, rfl⟩
    | inlined hload' => cases hload.symm.trans hload'
  | counterLoop hbody rest ihbody ih =>
    cases h₂ with
    | counterLoop hbody' rest' =>
      obtain ⟨rfl, rfl⟩ := ihbody hbody'
      obtain ⟨rfl, rfl⟩ := ih rest'
      exact ⟨rfl, rfl⟩
  | conditional hconditions hif helse rest ihif ihelse ih =>
    cases h₂ with
    | conditional hconditions' hif' helse' rest' =>
      cases hconditions.symm.trans hconditions'
      obtain ⟨rfl, rfl⟩ := ihif hif'
      obtain ⟨rfl, rfl⟩ := ihelse helse'
      obtain ⟨rfl, rfl⟩ := ih rest'
      exact ⟨rfl, rfl⟩

/-- Lists one after the other unfold one after the other. -/
theorem Unfolds.append {known known₁ known₂ : List String} {first second : List Element}
    {trees₁ trees₂ : List Unfolded} (h₁ : project.Unfolds directory name known first trees₁ known₁)
    (h₂ : project.Unfolds directory name known₁ second trees₂ known₂) :
    project.Unfolds directory name known (first ++ second) (trees₁ ++ trees₂) known₂ := by
  induction h₁ with
  | nil => exact h₂
  | first hnew hload hread hbody _ ih => exact .first hnew hload hread hbody (ih h₂)
  | again hknown _ ih => exact .again hknown (ih h₂)
  | skipped hnew hload _ ih => exact .skipped hnew hload (ih h₂)
  | inlined hload hread hbody _ _ ih => exact .inlined hload hread hbody (ih h₂)
  | absent hload _ ih => exact .absent hload (ih h₂)
  | counterLoop hbody _ _ ih => exact .counterLoop hbody (ih h₂)
  | conditional hconditions hif helse _ _ _ ih => exact .conditional hconditions hif helse (ih h₂)

/-! ## Runs -/

/-- A run over the elements of a frame emits `code`, and the trees account for all it does. The code
is the one for every registry that goes on from the one the run leaves. -/
structure Explained (project : Project) (frame : Frame) (s : Session) (elements : List Element)
    (trees : List Unfolded) (code : List Code) (s' : Session) : Prop where
  unfolds : project.Unfolds frame.directory frame.name s.registry.identities elements trees
    s'.registry.identities
  registry : s'.registry = s.registry.registerAll (Unfolded.firstUses trees)
  asked : s'.asked = s.asked ++ Unfolded.questionsAll trees
  code : ∀ registry, s'.registry.methods <+: registry.methods →
    Unfolded.codeAll registry trees = code

variable {frame : Frame} {s s₁ s' : Session}

theorem Explained.grows {elements : List Element} {trees : List Unfolded} {code : List Code}
    (h : project.Explained frame s elements trees code s') :
    s.registry.methods <+: s'.registry.methods := by
  rw [h.registry]
  exact Registry.methods_prefix_registerAll ..

theorem Explained.append {first second : List Element} {trees₁ trees₂ : List Unfolded}
    {code₁ code₂ : List Code} (h₁ : project.Explained frame s first trees₁ code₁ s₁)
    (h₂ : project.Explained frame s₁ second trees₂ code₂ s') :
    project.Explained frame s (first ++ second) (trees₁ ++ trees₂) (code₁ ++ code₂) s' where
  unfolds := h₁.unfolds.append h₂.unfolds
  registry := by rw [h₂.registry, h₁.registry, Unfolded.firstUses_append, Registry.registerAll_append]
  asked := by rw [h₂.asked, h₁.asked, Unfolded.questionsAll_append, List.append_assoc]
  code registry hstart := by
    rw [Unfolded.codeAll_append, h₁.code registry (h₂.grows.trans hstart),
      h₂.code registry hstart]

/-- A list without elements does nothing. -/
theorem Explained.nil (project : Project) (frame : Frame) (s : Session) :
    project.Explained frame s [] [] [] s :=
  ⟨.nil, rfl, by simp [Unfolded.questionsAll], fun _ _ => rfl⟩

theorem explained_expression {place : Place} {file : String} {delay : UInt32} {code : List Code}
    (h : (project.expressionCode frame place file delay).runFrom s = (.ok code, s'))
    (hc : s'.cancelled = false) :
    ∃ use, project.Explained frame s [.expression place file delay]
      [.expression ⟨frame.directory, frame.name, place, file⟩ delay use] code s' := by
  obtain ⟨result, hresult, rfl⟩ := expressionCode_ok h
  obtain ⟨-, hcases⟩ := subroutine?_ok hresult hc
  rcases hcases with ⟨method, hget, rfl, rfl⟩ | ⟨hget, hload, rfl, hregistry, hasked⟩ |
    ⟨node, expression, body, hget, hload, hread, hbody, rfl, hregistry, hasked⟩
  · refine ⟨.again, .again (Registry.identity_mem_of_get? hget) .nil, rfl, ?_, fun registry h => ?_⟩
    · simp [Unfolded.questionsAll, Unfolded.questions]
    · simp [Unfolded.codeAll, Unfolded.code, Unfolded.call?, Registry.get?_of_isPrefix h hget]
  · refine ⟨.absent, ?_, ?_, ?_, fun registry h => rfl⟩
    · rw [hregistry]
      exact .skipped (Registry.get?_eq_none_iff.1 hget) hload .nil
    · rw [hregistry]
      rfl
    · rw [hasked]
      rfl
  · have hregister := Registry.get?_register s.registry file body
    rw [← hregistry] at hregister
    refine ⟨.first body, ?_, hregistry, ?_, fun registry h => ?_⟩
    · have hidentities : s'.registry.identities =
          s.registry.identities ++ [Identifier.identity file] := by
        rw [hregistry, Registry.register_of_get?_none hget]
        simp [Registry.identities]
      rw [hidentities]
      exact .first (Registry.get?_eq_none_iff.1 hget) hload hread hbody .nil
    · simp [hasked, Unfolded.questionsAll, Unfolded.questions]
    · simp [Unfolded.codeAll, Unfolded.code, Unfolded.call?, Registry.get?_of_isPrefix h hregister]

theorem explained_absent {place : Place} {file : String}
    (hload : project.library.load (frame.directory.join file).normalize.path = .ok none)
    (hregistry : s'.registry = s.registry) (hasked : s'.asked = s.asked ++ [⟨file, frame.name⟩]) :
    project.Explained frame s [.sequence place file]
      [.absent ⟨frame.directory, frame.name, place, file⟩] [] s' where
  unfolds := by rw [hregistry]; exact .absent hload .nil
  registry := hregistry
  asked := hasked
  code _ _ := rfl

/-- A saved sequence in place, given its elements. -/
theorem Explained.inlined {place : Place} {file : String} {node : Node} {elements : List Element}
    {opened : List NormalPath} {trees : List Unfolded} {body : List Code}
    (hload : project.library.load (frame.directory.join file).normalize.path = .ok (some node))
    (hread : readSequence node = .ok elements) (hregistry : s₁.registry = s.registry)
    (hasked : s₁.asked = s.asked)
    (h : project.Explained
      ⟨(frame.directory.join file).normalize.path.parent?.getD ⟨""⟩, file, opened⟩ s₁ elements trees
      body s') :
    project.Explained frame s [.sequence place file]
      [.inlined ⟨frame.directory, frame.name, place, file⟩ trees]
      (Project.inlined place file body) s' where
  unfolds := by
    have hunfolds := h.unfolds
    dsimp only at hunfolds
    rw [hregistry] at hunfolds
    exact .inlined hload hread hunfolds .nil
  registry := by simpa [Unfolded.firstUses, Unfolded.referencesAll, Unfolded.references, hregistry]
    using h.registry
  asked := by simpa [Unfolded.questionsAll, Unfolded.questions, hasked] using h.asked
  code registry hgrows := by simp [Unfolded.codeAll, Unfolded.code, h.code registry hgrows]

/-- A counter loop, given its children. -/
theorem Explained.counterLoop {place : Place} {iterations : UInt32} {children : List Element}
    {trees : List Unfolded} {body : List Code}
    (h : project.Explained frame s children trees body s') :
    project.Explained frame s [.counterLoop place iterations children]
      [.counterLoop place iterations trees]
      (Code.ofComment place.comment ++ [.count iterations body]) s' where
  unfolds := .counterLoop h.unfolds .nil
  registry := by simpa [Unfolded.firstUses, Unfolded.referencesAll, Unfolded.references]
    using h.registry
  asked := by simpa [Unfolded.questionsAll, Unfolded.questions] using h.asked
  code registry hgrows := by simp [Unfolded.codeAll, Unfolded.code, h.code registry hgrows]

/-- A conditional, given its branches. -/
theorem Explained.conditional {place : Place} {spec : SensorSpec} {ifRepeats elseRepeats : Bool}
    {ifTest elseTest : Condition} {ifBranch elseBranch : List Element}
    {ifTrees elseTrees : List Unfolded} {ifBody elseBody : List Code}
    (hconditions : spec.conditions = .ok (ifTest, elseTest))
    (hif : project.Explained frame s ifBranch ifTrees ifBody s₁)
    (helse : project.Explained frame s₁ elseBranch elseTrees elseBody s') :
    project.Explained frame s [.conditional place spec ifRepeats elseRepeats ifBranch elseBranch]
      [.conditional place ifTest elseTest ifRepeats elseRepeats ifTrees elseTrees]
      (Code.ofComment place.comment ++
        (LoopShape.ofRepeats ifRepeats elseRepeats).arrange ifTest elseTest ifBody elseBody) s' where
  unfolds := .conditional hconditions hif.unfolds helse.unfolds .nil
  registry := by
    rw [helse.registry, hif.registry, ← Registry.registerAll_append]
    simp [Unfolded.firstUses, Unfolded.referencesAll, Unfolded.references]
  asked := by
    rw [helse.asked, hif.asked]
    simp [Unfolded.questionsAll, Unfolded.questions]
  code registry hgrows := by
    simp [Unfolded.codeAll, Unfolded.code, hif.code registry (helse.grows.trans hgrows),
      helse.code registry hgrows]

/-- A run that succeeds without being cancelled is accounted for by the trees that the documents
unfold into. -/
theorem compileList_explained (frame : Frame) (elements : List Element) {code : List Code}
    {s s' : Session} (h : (project.compileList frame elements).runFrom s = (.ok code, s'))
    (hc : s'.cancelled = false) :
    ∃ trees, project.Explained frame s elements trees code s' := by
  match elements with
  | [] =>
    rw [compileList_nil] at h
    obtain ⟨rfl, rfl⟩ := pure_ok.1 h
    exact ⟨[], .nil project frame s⟩
  | .expression place file delay :: rest =>
    rw [compileList_expression] at h
    obtain ⟨code₁, s₁, code₂, h₁, hc₁, h₂, rfl⟩ := thenCompileList_ok h hc
    obtain ⟨use, hfirst⟩ := explained_expression h₁ hc₁
    obtain ⟨trees, hrest⟩ := compileList_explained frame rest h₂ hc
    exact ⟨_, hfirst.append hrest⟩
  | .sequence place file :: rest =>
    rw [compileList_sequence] at h
    obtain ⟨code₁, s₁, code₂, h₁, hc₁, h₂, rfl⟩ := thenCompileList_ok h hc
    obtain ⟨trees, hrest⟩ := compileList_explained frame rest h₂ hc
    obtain ⟨hopened, hcases⟩ := sequenceCode_ok h₁ hc₁
    rcases hcases with ⟨hload, -, rfl, hregistry, hasked⟩ |
      ⟨node, inner, body, s₀, hload, hread, hregistry, hasked, hbody, rfl⟩
    · exact ⟨_, (explained_absent hload hregistry hasked).append hrest⟩
    · have hclosed := Library.closed_lt hload hopened
      obtain ⟨innerTrees, hinner⟩ := compileList_explained _ inner hbody hc₁
      exact ⟨_, (Explained.inlined hload hread hregistry hasked hinner).append hrest⟩
  | .counterLoop place iterations children :: rest =>
    rw [compileList_counterLoop] at h
    obtain ⟨code₁, s₁, code₂, h₁, hc₁, h₂, rfl⟩ := thenCompileList_ok h hc
    obtain ⟨body, hbody, rfl⟩ := counterCode_ok h₁ hc₁
    obtain ⟨bodyTrees, hchildren⟩ := compileList_explained frame children hbody hc₁
    obtain ⟨trees, hrest⟩ := compileList_explained frame rest h₂ hc
    exact ⟨_, hchildren.counterLoop.append hrest⟩
  | .conditional place spec ifRepeats elseRepeats ifBranch elseBranch :: rest =>
    rw [compileList_conditional] at h
    obtain ⟨code₁, s₁, code₂, h₁, hc₁, h₂, rfl⟩ := thenCompileList_ok h hc
    obtain ⟨ifTest, elseTest, ifBody, s₀, elseBody, hconditions, hif, helse, rfl⟩ :=
      conditionalCode_ok h₁ hc₁
    have hc₀ := cancelled_of_compileList helse hc₁
    obtain ⟨ifTrees, hifTrees⟩ := compileList_explained frame ifBranch hif hc₀
    obtain ⟨elseTrees, helseTrees⟩ := compileList_explained frame elseBranch helse hc₁
    obtain ⟨trees, hrest⟩ := compileList_explained frame rest h₂ hc
    exact ⟨_, (Explained.conditional hconditions hifTrees helseTrees).append hrest⟩
termination_by (project.library.closed frame.opened, sizeOf elements)

/-! ## Programs -/

/-- The sequence at `root` in a directory unfolds into trees. -/
def UnfoldsFrom (project : Project) (root : String) (directory : Path) (trees : List Unfolded) :
    Prop :=
  ∃ node elements known,
    project.library.load (directory.join root).normalize.path = .ok (some node) ∧
    readSequence node = .ok elements ∧
    project.Unfolds ((directory.join root).normalize.path.parent?.getD ⟨""⟩)
      (directory.join root).normalize.path.displayName [] elements trees known

theorem UnfoldsFrom.unique {root : String} {trees₁ trees₂ : List Unfolded}
    (h₁ : project.UnfoldsFrom root directory trees₁)
    (h₂ : project.UnfoldsFrom root directory trees₂) : trees₁ = trees₂ := by
  obtain ⟨node, elements, known, hload, hread, hunfolds⟩ := h₁
  obtain ⟨node', elements', known', hload', hread', hunfolds'⟩ := h₂
  cases hload.symm.trans hload'
  cases hread.symm.trans hread'
  exact (hunfolds.unique hunfolds').1

end Project

def Unfolded.registryOf (trees : List Unfolded) : Registry (List Instruction) :=
  Registry.empty.registerAll (firstUses trees)

theorem Unfolded.sound_registryOf (trees : List Unfolded) : (registryOf trees).Sound :=
  Registry.sound_empty.registerAll _

namespace Project

/-- A program accounted for by the trees that its project unfolds into. -/
structure ExplainedFrom (project : Project) (root : String) (directory : Path) (program : Program)
    (session : Session) (trees : List Unfolded) : Prop where
  unfolds : project.UnfoldsFrom root directory trees
  methods : program.methods = (Unfolded.registryOf trees).methods
  asked : session.asked = Unfolded.questionsAll trees
  source : program.source =
    Sketch.render (Code.block (Unfolded.codeAll (Unfolded.registryOf trees) trees))
      (program.methods.map (·.lines))

/-- A program that is compiled without being cancelled is the one of its trees. -/
theorem compileProgram_explained {project : Project} {root : String} {directory : Path}
    {program : Program} {session : Session}
    (h : project.compileProgram root directory = (.ok program, session))
    (hc : program.cancelled = false) :
    ∃ trees, project.ExplainedFrom root directory program session trees := by
  obtain ⟨_, s₁, hrecord, h⟩ :=
    bind_ok.1 (show (project.programOf root directory).runFrom {} = (.ok program, session) from h)
  obtain ⟨hregistry, -, hasked⟩ := record_ok hrecord
  split at h
  · exact absurd h not_throw_ok
  · exact absurd h not_throw_ok
  · rename_i node hload
    obtain ⟨code, s₂, hcode, h⟩ := bind_ok.1 h
    obtain ⟨elements, s₃, hs₃, hcode⟩ := bind_ok.1 hcode
    obtain ⟨hread, rfl⟩ := ofDefect_ok.1 hs₃
    obtain ⟨s₄, s₅, hget, h⟩ := bind_ok.1 h
    cases hget
    split at h
    · obtain ⟨rfl, rfl⟩ := pure_ok.1 h
      exact absurd hc (by simp)
    · rename_i hs₂
      obtain ⟨rfl, rfl⟩ := pure_ok.1 h
      obtain ⟨trees, hexplained⟩ := compileList_explained _ elements hcode (by simpa using hs₂)
      have hempty : s₁.registry = Registry.empty := hregistry
      have hfinal : s₂.registry = Unfolded.registryOf trees := by
        rw [hexplained.registry, hempty]
        rfl
      have hunfolds := hexplained.unfolds
      dsimp only at hunfolds
      rw [hempty] at hunfolds
      refine ⟨trees, ⟨node, elements, _, hload, hread, hunfolds⟩, ?_, ?_, ?_⟩
      · rw [hfinal]
      · rw [hexplained.asked, hasked]
        rfl
      · rw [← hfinal, hexplained.code _ List.prefix_rfl]

end Project

end RobotSketch
