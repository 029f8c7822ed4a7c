import RobotSketch.Proofs.Success

/-!
# How references to expressions are settled

Only the order of the references counts for how each of them is settled, and not where in the tree
they stand. `Settles` says so of the list of references, and `Unfolds.settles` that the references
of an unfolded project are settled in this way.

An identity has a subroutine from the first reference of that identity on whose document exists
(`Settles.mem_known`), and the subroutine has the body of that document for good
(`Settles.get?_first`).
-/
namespace RobotSketch

namespace Project

variable {project : Project}

/-- The references are settled one after the other. The lists of texts are the identities that have
a subroutine before and after. -/
inductive Settles (project : Project) :
    List String → List (Reference × Use) → List String → Prop where
  | nil {known : List String} : Settles project known [] known
  | first {known known' : List String} {node : Node} {expression : Expression}
      {entries : List (Reference × Use)} {reference : Reference} {body : List Instruction}
      (hnew : reference.identity ∉ known)
      (hload : project.library.load
        (project.expressionPath reference.directory reference.file) = .ok (some node))
      (hread : Expression.read node = .ok expression) (hbody : expression.body = .ok body)
      (rest : Settles project (known ++ [reference.identity]) entries known') :
    Settles project known ((reference, .first body) :: entries) known'
  | again {known known' : List String} {entries : List (Reference × Use)} {reference : Reference}
      (hknown : reference.identity ∈ known)
      (rest : Settles project known entries known') :
    Settles project known ((reference, .again) :: entries) known'
  | absent {known known' : List String} {entries : List (Reference × Use)} {reference : Reference}
      (hnew : reference.identity ∉ known)
      (hload : project.library.load
        (project.expressionPath reference.directory reference.file) = .ok none)
      (rest : Settles project known entries known') :
    Settles project known ((reference, .absent) :: entries) known'

namespace Settles

theorem append {known known₁ known₂ : List String} {first second : List (Reference × Use)}
    (h₁ : project.Settles known first known₁) (h₂ : project.Settles known₁ second known₂) :
    project.Settles known (first ++ second) known₂ := by
  induction h₁ with
  | nil => exact h₂
  | first hnew hload hread hbody _ ih => exact .first hnew hload hread hbody (ih h₂)
  | again hknown _ ih => exact .again hknown (ih h₂)
  | absent hnew hload _ ih => exact .absent hnew hload (ih h₂)

/-- What is settled first is settled without what follows. -/
theorem split {known known₂ : List String} {first second : List (Reference × Use)}
    (h : project.Settles known (first ++ second) known₂) :
    ∃ known₁, project.Settles known first known₁ ∧ project.Settles known₁ second known₂ := by
  induction first generalizing known with
  | nil => exact ⟨known, .nil, h⟩
  | cons entry entries ih =>
    cases h with
    | first hnew hload hread hbody rest =>
      obtain ⟨known₁, h₁, h₂⟩ := ih rest
      exact ⟨known₁, .first hnew hload hread hbody h₁, h₂⟩
    | again hknown rest =>
      obtain ⟨known₁, h₁, h₂⟩ := ih rest
      exact ⟨known₁, .again hknown h₁, h₂⟩
    | absent hnew hload rest =>
      obtain ⟨known₁, h₁, h₂⟩ := ih rest
      exact ⟨known₁, .absent hnew hload h₁, h₂⟩

end Settles

/-- The references of an unfolded list are settled in their order. -/
theorem Unfolds.settles {directory : Path} {name : String} {known known' : List String}
    {elements : List Element} {trees : List Unfolded}
    (h : project.Unfolds directory name known elements trees known') :
    project.Settles known (Unfolded.referencesAll trees) known' := by
  induction h with
  | nil => exact .nil
  | first hnew hload hread hbody _ ih => exact .first hnew hload hread hbody ih
  | again hknown _ ih => exact .again hknown ih
  | skipped hnew hload _ ih => exact .absent hnew hload ih
  | inlined _ _ _ _ ihbody ih => exact ihbody.append ih
  | absent _ _ ih => exact ih
  | counterLoop _ _ ihbody ih => exact ihbody.append ih
  | conditional _ _ _ _ ihif ihelse ih => exact (ihif.append ihelse).append ih

theorem UnfoldsFrom.settles {root : String} {directory : Path} {trees : List Unfolded}
    (h : project.UnfoldsFrom root directory trees) :
    ∃ known, project.Settles [] (Unfolded.referencesAll trees) known := by
  obtain ⟨node, elements, known, -, -, hunfolds⟩ := h
  exact ⟨known, hunfolds.settles⟩

/-! ## Known identities -/

/-- There is a document where a reference points to. -/
def HasDocument (project : Project) (reference : Reference) : Prop :=
  project.library.load (project.expressionPath reference.directory reference.file) ≠ .ok none

namespace Settles

/-- The identities known afterwards are those known before and those of the references that have a
document. -/
theorem mem_known {known known' : List String} {entries : List (Reference × Use)}
    (h : project.Settles known entries known') (identity : String) :
    identity ∈ known' ↔ identity ∈ known ∨
      ∃ entry ∈ entries, entry.1.identity = identity ∧ project.HasDocument entry.1 := by
  induction h with
  | nil => simp
  | @first known node expression entries known' reference body hnew hload hread hbody rest ih =>
    have hdocument : project.HasDocument reference := by
      unfold HasDocument
      rw [hload]
      simp
    rw [ih, List.mem_append, List.mem_singleton]
    simp only [List.mem_cons, exists_eq_or_imp]
    constructor
    · rintro ((hknown | rfl) | hlater)
      · exact Or.inl hknown
      · exact Or.inr (Or.inl ⟨rfl, hdocument⟩)
      · exact Or.inr (Or.inr hlater)
    · rintro (hknown | ⟨rfl, -⟩ | hlater)
      · exact Or.inl (Or.inl hknown)
      · exact Or.inl (Or.inr rfl)
      · exact Or.inr hlater
  | @again known entries known' reference hknown rest ih =>
    simp only [ih, List.mem_cons, exists_eq_or_imp]
    constructor
    · rintro (hmem | hlater)
      · exact Or.inl hmem
      · exact Or.inr (Or.inr hlater)
    · rintro (hmem | ⟨rfl, -⟩ | hlater)
      · exact Or.inl hmem
      · exact Or.inl hknown
      · exact Or.inr hlater
  | @absent known entries known' reference hnew hload rest ih =>
    simp only [ih, List.mem_cons, exists_eq_or_imp]
    constructor
    · rintro (hmem | hlater)
      · exact Or.inl hmem
      · exact Or.inr (Or.inr hlater)
    · rintro (hmem | ⟨-, hdocument⟩ | hlater)
      · exact Or.inl hmem
      · exact absurd hload hdocument
      · exact Or.inr hlater

/-- A reference is left out exactly if neither it nor any one of its identity before it has a
document. -/
theorem use_eq_absent_iff {known : List String} {before after : List (Reference × Use)}
    {reference : Reference} {use : Use}
    (h : project.Settles [] (before ++ (reference, use) :: after) known) :
    use = .absent ↔ ¬ project.HasDocument reference ∧
      ∀ entry ∈ before, entry.1.identity = reference.identity → ¬ project.HasDocument entry.1 := by
  obtain ⟨known₁, hbefore, hafter⟩ := h.split
  have hmem := hbefore.mem_known reference.identity
  cases hafter with
  | first hnew hload hread hbody rest =>
    simp only [reduceCtorEq, false_iff]
    rintro ⟨hnone, -⟩
    exact hnone (by simp [HasDocument, hload])
  | again hknown rest =>
    simp only [reduceCtorEq, false_iff]
    rintro ⟨-, hnone⟩
    rcases hmem.1 hknown with hnil | ⟨entry, hentry, hidentity, hdocument⟩
    · exact absurd hnil (by simp)
    · exact hnone entry hentry hidentity hdocument
  | absent hnew hload rest =>
    simp only [true_iff]
    refine ⟨fun hdocument => hdocument hload, fun entry hentry hidentity hdocument => ?_⟩
    exact hnew (hmem.2 (Or.inr ⟨entry, hentry, hidentity, hdocument⟩))

/-- The first reference of its identity that has a document is read. -/
theorem use_eq_first {known : List String} {before after : List (Reference × Use)}
    {reference : Reference} {use : Use}
    (h : project.Settles [] (before ++ (reference, use) :: after) known)
    (hdocument : project.HasDocument reference)
    (hfirst : ∀ entry ∈ before,
      entry.1.identity = reference.identity → ¬ project.HasDocument entry.1) :
    ∃ node expression body,
      project.library.load (project.expressionPath reference.directory reference.file) =
        .ok (some node) ∧
      Expression.read node = .ok expression ∧ expression.body = .ok body ∧ use = .first body := by
  obtain ⟨known₁, hbefore, hafter⟩ := h.split
  cases hafter with
  | first hnew hload hread hbody rest => exact ⟨_, _, _, hload, hread, hbody, rfl⟩
  | again hknown rest =>
    rcases (hbefore.mem_known reference.identity).1 hknown with hnil | ⟨entry, hentry, hsame, hhas⟩
    · exact absurd hnil (by simp)
    · exact absurd hhas (hfirst entry hentry hsame)
  | absent hnew hload rest => exact absurd hload hdocument

/-! ## Registered bodies -/

/-- The registry that references build up knows the identities that they make known. -/
theorem identities_registerAll {known known' : List String} {entries : List (Reference × Use)}
    (h : project.Settles known entries known') {registry : Registry (List Instruction)}
    (hregistry : registry.identities = known) :
    (registry.registerAll (entries.filterMap Unfolded.firstUse?)).identities = known' := by
  induction h generalizing registry with
  | nil => exact hregistry
  | @first known node expression entries known' reference body hnew hload hread hbody rest ih =>
    have hget : registry.get? reference.file = none :=
      Registry.get?_eq_none_iff.2 (by rw [hregistry]; exact hnew)
    have hnext : (registry.register reference.file body).2.identities =
        known ++ [reference.identity] := by
      rw [Registry.register_of_get?_none hget, ← hregistry]
      simp [Registry.identities, Reference.identity]
    exact ih hnext
  | again _ _ ih => exact ih hregistry
  | absent _ _ _ ih => exact ih hregistry

/-- What the first reference of an identity registers is found in the end. -/
theorem get?_first {known known' : List String} {before after : List (Reference × Use)}
    {reference : Reference} {body : List Instruction}
    (h : project.Settles known (before ++ (reference, .first body) :: after) known')
    {registry : Registry (List Instruction)} (hregistry : registry.identities = known) :
    ∃ method, method.body = body ∧ (registry.registerAll
      ((before ++ (reference, .first body) :: after).filterMap Unfolded.firstUse?)).get?
        reference.file = some method := by
  obtain ⟨known₁, hbefore, hafter⟩ := h.split
  rw [List.filterMap_append, Registry.registerAll_append]
  have hidentities := hbefore.identities_registerAll hregistry
  generalize registry.registerAll (before.filterMap Unfolded.firstUse?) = middle at hidentities ⊢
  cases hafter with
  | first hnew hload hread hbody rest =>
    have hget : middle.get? reference.file = none :=
      Registry.get?_eq_none_iff.2 (by rw [hidentities]; exact hnew)
    refine ⟨(middle.register reference.file body).1, ?_, ?_⟩
    · rw [Registry.register_of_get?_none hget]
    · have hgrows := Registry.methods_prefix_registerAll (middle.register reference.file body).2
        (after.filterMap Unfolded.firstUse?)
      exact Registry.get?_of_isPrefix hgrows (Registry.get?_register middle reference.file body)

end Settles

end Project

/-! ## Questions -/

namespace Unfolded

mutual

theorem question_mem_questions {tree : Unfolded} {reference : Reference}
    (h : (reference, Use.absent) ∈ references tree) : reference.question ∈ questions tree := by
  match tree with
  | .expression other delay use =>
    rw [references, List.mem_singleton] at h
    obtain ⟨rfl, rfl⟩ := Prod.mk.inj h
    simp [questions]
  | .inlined other body => exact question_mem_questionsAll h
  | .absent other => exact absurd h (by simp [references])
  | .counterLoop place iterations body => exact question_mem_questionsAll h
  | .conditional place ifTest elseTest ifRepeats elseRepeats ifBranch elseBranch =>
    rw [references, List.mem_append] at h
    rw [questions, List.mem_append]
    rcases h with h | h
    · exact Or.inl (question_mem_questionsAll h)
    · exact Or.inr (question_mem_questionsAll h)

/-- A reference that is left out is asked about. -/
theorem question_mem_questionsAll {trees : List Unfolded} {reference : Reference}
    (h : (reference, Use.absent) ∈ referencesAll trees) :
    reference.question ∈ questionsAll trees := by
  match trees with
  | [] => exact absurd h (by simp [referencesAll])
  | tree :: rest =>
    rw [referencesAll, List.mem_append] at h
    rw [questionsAll, List.mem_append]
    rcases h with h | h
    · exact Or.inl (question_mem_questions h)
    · exact Or.inr (question_mem_questionsAll h)

end

end Unfolded

/-! ## What a call runs -/

/-- The document that a reference points to is an expression with this body. -/
def Project.DocumentBody (project : Project) (reference : Reference) (body : List Instruction) :
    Prop :=
  ∃ node expression,
    project.library.load (project.expressionPath reference.directory reference.file) =
      .ok (some node) ∧
    Expression.read node = .ok expression ∧ expression.body = .ok body

/-- A reference has become the call of a subroutine with this body. -/
def Program.Runs (program : Program) (entry : Reference × Use) (body : List Instruction) : Prop :=
  ∃ method ∈ program.methods, Unfolded.call? ⟨program.methods⟩ entry = some method.name ∧
    method.body = body

namespace Project

variable {project : Project} {root : String} {directory : Path} {program : Program}
variable {session : Session} {trees : List Unfolded}

theorem ExplainedFrom.registry_eq (h : project.ExplainedFrom root directory program session trees) :
    (⟨program.methods⟩ : Registry (List Instruction)) = Unfolded.registryOf trees := by
  rw [h.methods]

theorem DocumentBody.congr {first second : Reference} {body : List Instruction}
    (h : project.DocumentBody first body)
    (hpath : project.expressionPath first.directory first.file =
      project.expressionPath second.directory second.file) : project.DocumentBody second body := by
  obtain ⟨node, expression, hload, hread, hbody⟩ := h
  rw [hpath] at hload
  exact ⟨node, expression, hload, hread, hbody⟩

/-- A reference that is left out was asked about, and nothing is called for it. -/
theorem ExplainedFrom.passedOver
    (h : project.ExplainedFrom root directory program session trees)
    {before after : List (Reference × Use)} {reference : Reference} {use : Use}
    (hentry : Unfolded.referencesAll trees = before ++ (reference, use) :: after)
    (hnone : ∀ entry ∈ before ++ [(reference, use)],
      entry.1.identity = reference.identity → ¬ project.HasDocument entry.1) :
    reference.question ∈ session.asked ∧
      Unfolded.call? ⟨program.methods⟩ (reference, use) = none := by
  obtain ⟨known, hsettles⟩ := h.unfolds.settles
  rw [hentry] at hsettles
  rw [List.forall_mem_append] at hnone
  have huse : use = .absent :=
    hsettles.use_eq_absent_iff.2 ⟨hnone.2 (reference, use) (by simp) rfl, hnone.1⟩
  subst huse
  refine ⟨?_, rfl⟩
  rw [h.asked]
  apply Unfolded.question_mem_questionsAll
  rw [hentry]
  simp

/-- From the first reference of an identity on whose document exists, references of that identity
run the expression of that document. -/
theorem ExplainedFrom.runs (h : project.ExplainedFrom root directory program session trees)
    {before after earlier later : List (Reference × Use)} {reference first : Reference}
    {use firstUse : Use}
    (hentry : Unfolded.referencesAll trees = before ++ (reference, use) :: after)
    (hearlier : before ++ [(reference, use)] = earlier ++ (first, firstUse) :: later)
    (hidentity : first.identity = reference.identity) (hdocument : project.HasDocument first)
    (hfirst : ∀ entry ∈ earlier,
      entry.1.identity = first.identity → ¬ project.HasDocument entry.1) :
    ∃ body, project.DocumentBody first body ∧ program.Runs (reference, use) body := by
  obtain ⟨known, hsettles⟩ := h.unfolds.settles
  have hsplit : Unfolded.referencesAll trees = earlier ++ (first, firstUse) :: (later ++ after) := by
    rw [hentry, ← List.singleton_append, ← List.append_assoc, hearlier, List.append_assoc,
      List.cons_append]
  have hsettles' := hsettles
  rw [hsplit] at hsettles
  rw [hentry] at hsettles'
  obtain ⟨node, expression, body, hload, hread, hbody, rfl⟩ := hsettles.use_eq_first hdocument hfirst
  have hempty : (Registry.empty : Registry (List Instruction)).identities = [] := rfl
  obtain ⟨method, hmethod, hget⟩ := hsettles.get?_first hempty
  have hget' : (⟨program.methods⟩ : Registry (List Instruction)).get? reference.file =
      some method := by
    rw [h.registry_eq, Registry.get?_congr _ hidentity.symm]
    unfold Unfolded.registryOf Unfolded.firstUses
    rw [hsplit]
    exact hget
  have huse : use ≠ .absent := by
    intro habsent
    obtain ⟨hself, hbefore⟩ := hsettles'.use_eq_absent_iff.1 habsent
    have hmem : (first, Use.first body) ∈ before ++ [(reference, use)] := by rw [hearlier]; simp
    rcases List.mem_append.1 hmem with hmem | hmem
    · exact hbefore _ hmem hidentity hdocument
    · obtain ⟨rfl, -⟩ := Prod.mk.inj (List.mem_singleton.1 hmem)
      exact hself hdocument
  refine ⟨body, ⟨node, expression, hload, hread, hbody⟩, method,
    (Registry.mem_of_get? hget').1, ?_, hmethod⟩
  cases use with
  | absent => exact absurd rfl huse
  | first _ => simp [Unfolded.call?, hget']
  | again => simp [Unfolded.call?, hget']

/-- What every reference to an expression has come to. Of the references of its identity, up to the
reference itself, either none has a document: then it was asked about, and nothing is called for it.
Or one is the first to have a document: then what is called is a subroutine with the body of that
document, which is the reference's own one if both are looked for at the same path. -/
theorem references_run_first_document
    (h : project.compileProgram root directory = (.ok program, session))
    (hc : program.cancelled = false) :
    ∃ trees, project.ExplainedFrom root directory program session trees ∧
      ∀ before reference use after,
        Unfolded.referencesAll trees = before ++ (reference, use) :: after →
        ((∀ entry ∈ before ++ [(reference, use)],
            entry.1.identity = reference.identity → ¬ project.HasDocument entry.1) →
          reference.question ∈ session.asked ∧
            Unfolded.call? ⟨program.methods⟩ (reference, use) = none) ∧
        ∀ earlier first firstUse later,
          before ++ [(reference, use)] = earlier ++ (first, firstUse) :: later →
          first.identity = reference.identity → project.HasDocument first →
          (∀ entry ∈ earlier, entry.1.identity = first.identity → ¬ project.HasDocument entry.1) →
          ∃ body, project.DocumentBody first body ∧ program.Runs (reference, use) body ∧
            (project.expressionPath first.directory first.file =
                project.expressionPath reference.directory reference.file →
              project.DocumentBody reference body) := by
  obtain ⟨trees, hexplained⟩ := compileProgram_explained h hc
  refine ⟨trees, hexplained, fun before reference use after hentry => ⟨?_, ?_⟩⟩
  · intro hnone
    exact hexplained.passedOver hentry hnone
  · intro earlier first firstUse later hearlier hidentity hdocument hfirst
    obtain ⟨body, hbody, hruns⟩ := hexplained.runs hentry hearlier hidentity hdocument hfirst
    exact ⟨body, hbody, hruns, hbody.congr⟩

/-- The first reference of the sample runs its own expression, and the last one is passed over. -/
theorem sample_references_run_first_document : ∃ program session,
    Sample.project.compileProgram "main.xml" ⟨"p"⟩ = (.ok program, session) ∧
    program.cancelled = false ∧
    (∃ body, Sample.project.DocumentBody Sample.first body ∧
      program.Runs (Sample.first, .first [.delay 1]) body) ∧
    Sample.missing.question ∈ session.asked := by
  obtain ⟨program, session, h, hc⟩ := Sample.compiles
  obtain ⟨trees, hexplained, hreferences⟩ := references_run_first_document h hc
  obtain rfl := hexplained.unfolds.unique Sample.unfolds
  rw [Sample.referencesAll_trees] at hreferences
  refine ⟨program, session, h, hc, ?_, ?_⟩
  · have hdocument : Sample.project.HasDocument Sample.first := by
      unfold HasDocument
      rw [Sample.loads.first]
      simp
    obtain ⟨body, hbody, hruns, -⟩ := (hreferences [] _ _ _ rfl).2 [] _ _ _ rfl rfl hdocument
      (by simp)
    exact ⟨body, hbody, hruns⟩
  · refine ((hreferences [_, _, _] _ _ _ rfl).1 ?_).1
    have hfirst : Sample.first.identity ≠ Sample.missing.identity := by decide
    have hspelled : Sample.spelled.identity ≠ Sample.missing.identity := by decide
    have hsecond : Sample.second.identity ≠ Sample.missing.identity := by decide
    simp [hfirst, hspelled, hsecond, HasDocument, Sample.loads.missing]

/-- A reference does not always run its own expression, nor is it always asked about when it has none.
In the sample, the steps refer to an expression of their own directory, and what is called has the
body of another one. The dance spells a name in a way under which there is no document: something is
called all the same, and nothing was asked. -/
theorem sample_references_share_method : ∃ program session,
    Sample.project.expressions = none ∧
    Sample.project.compileProgram "main.xml" ⟨"p"⟩ = (.ok program, session) ∧
    program.cancelled = false ∧
    Sample.project.ExplainedFrom "main.xml" ⟨"p"⟩ program session Sample.trees ∧
    ((Sample.second, .again) ∈ Unfolded.referencesAll Sample.trees ∧
      Sample.project.DocumentBody Sample.second [.delay 2] ∧
      ¬ program.Runs (Sample.second, .again) [.delay 2]) ∧
    ((Sample.spelled, .again) ∈ Unfolded.referencesAll Sample.trees ∧
      ¬ Sample.project.HasDocument Sample.spelled ∧
      Sample.spelled.question ∉ session.asked ∧
      program.Runs (Sample.spelled, .again) [.delay 1]) := by
  obtain ⟨program, session, h, hc⟩ := Sample.compiles
  obtain ⟨trees, hexplained⟩ := compileProgram_explained h hc
  obtain rfl := hexplained.unfolds.unique Sample.unfolds
  have hread : Expression.read ⟨"expression", [("delay-millis", "2")], "", []⟩ = .ok ⟨[], 2⟩ :=
    eq_ok_of_toOption (by decide)
  have hbody : (Expression.mk [] 2).body = .ok [.delay 2] := eq_ok_of_toOption (by decide)
  have hmethods : (Unfolded.registryOf Sample.trees).methods =
      [⟨Identifier.identity "a.xml", "a", [.delay 1]⟩] := by decide
  have hcall : Unfolded.call? (Unfolded.registryOf Sample.trees) (Sample.spelled, .again) =
      some "a" := by decide
  refine ⟨program, session, rfl, h, hc, hexplained, ⟨?_, ⟨_, _, Sample.loads.second, hread, hbody⟩, ?_⟩,
    ?_, ?_, ?_, ?_⟩
  · rw [Sample.referencesAll_trees]
    simp
  · rintro ⟨method, hmethod, -, hother⟩
    rw [hexplained.methods, hmethods, List.mem_singleton] at hmethod
    subst hmethod
    exact absurd hother (by decide)
  · rw [Sample.referencesAll_trees]
    simp
  · simp [HasDocument, Sample.loads.spelled]
  · rw [hexplained.asked]
    decide
  · refine ⟨⟨Identifier.identity "a.xml", "a", [.delay 1]⟩, ?_, ?_, rfl⟩
    · rw [hexplained.methods, hmethods]
      simp
    · rw [hexplained.registry_eq]
      exact hcall

end Project

end RobotSketch
