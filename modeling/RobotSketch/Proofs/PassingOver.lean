import RobotSketch.Proofs.Deleting
import RobotSketch.Proofs.Interruption

/-!
# Passing over what is missing

A run that is never stopped passes over the saved sequences that have no document. The main
statement is `passing_over_is_deleting`: the project comes to the same program if they are deleted
from its documents, and then only the questions about expressions are left.

Both projects unfold alike (`Unfolds.kept`). The trees differ in the saved sequences that are absent
and in positions, which are nowhere in the program (`Unfolded.DoesSame`).
-/
namespace RobotSketch

/-! ## Documents -/

namespace Documents

variable {documents : Documents} {directory : Path} {file : String}

/-- Whether a file has no document, for the documents of a directory. -/
def lacks (documents : Documents) (directory : Path) (file : String) : Bool :=
  (documents.source? (directory.join file)).isNone

/-- The documents, each without the saved sequences that have no document. -/
def withoutMissing (documents : Documents) : Library where
  load path := (documents.load path).map (Option.map
    (Node.withoutMissing (documents.lacks (path.normalize.path.parent?.getD ⟨""⟩))))
  finite := by
    obtain ⟨keys, hkeys⟩ := documents.library.finite
    refine ⟨keys, fun path node h => ?_⟩
    cases hload : documents.load path.normalize.path with
    | error error => rw [hload] at h; cases h
    | ok loaded =>
      rw [hload] at h
      cases loaded with
      | none => cases h
      | some document => exact hkeys path document hload

theorem load_of_source {path : Path} {source : String} {node : Node}
    (hsource : documents.source? path = some source) (hparse : Node.parse source = .ok node) :
    documents.load path = .ok (some node) := by
  simp only [load, hsource, Node.parseFile, hparse]
  rfl

theorem load_withoutMissing (path : Path) : documents.withoutMissing.load path.normalize.path =
    (documents.load path.normalize.path).map (Option.map
      (Node.withoutMissing (documents.lacks (path.normalize.path.parent?.getD ⟨""⟩)))) := by
  show (documents.load path.normalize.path).map _ = _
  rw [path.normalize_path_normalize]

theorem load_withoutMissing_of_none {path : Path}
    (h : documents.load path.normalize.path = .ok none) :
    documents.withoutMissing.load path.normalize.path = .ok none := by
  rw [load_withoutMissing, h]
  rfl

theorem load_withoutMissing_of_some {path : Path} {node : Node}
    (h : documents.load path.normalize.path = .ok (some node)) :
    documents.withoutMissing.load path.normalize.path = .ok (some
      (node.withoutMissing (documents.lacks (path.normalize.path.parent?.getD ⟨""⟩)))) := by
  rw [load_withoutMissing, h]
  rfl

/-- Texts that are written without the saved sequences that are missing. -/
def WrittenWithout (documents written : Documents) : Prop :=
  List.Forall₂ (fun entry entry' => entry'.1 = entry.1 ∧
    Node.parse entry'.2 = (Node.parse entry.2).map
      (Node.withoutMissing (documents.lacks (entry.1.path.parent?.getD ⟨""⟩))))
    documents.entries written.entries

/-- Such texts have the same documents. -/
theorem WrittenWithout.library_eq {written : Documents} (h : documents.WrittenWithout written) :
    written.library = documents.withoutMissing := by
  have hload : written.load = documents.withoutMissing.load := by
    funext path
    show written.load path = (documents.load path).map _
    unfold load source?
    unfold WrittenWithout at h
    generalize documents.lacks = lacks at h ⊢
    generalize documents.entries = entries at h ⊢
    generalize written.entries = entries' at h ⊢
    induction h with
    | nil => rfl
    | @cons entry entry' rest rest' hentry hrest ih =>
      obtain ⟨hkey, hparse⟩ := hentry
      by_cases hpath : entry.1 = path.normalize
      · rw [List.find?_cons_of_pos (by simp [hkey, hpath]),
          List.find?_cons_of_pos (by simp [hpath])]
        simp only [Option.map_some, Node.parseFile, hparse, hpath]
        cases Node.parse entry.2 <;> rfl
      · rw [List.find?_cons_of_neg (by simp [hkey, hpath]),
          List.find?_cons_of_neg (by simp [hpath])]
        exact ih
  unfold library
  simp only [hload]

theorem lacks_eq_isNone (documents : Documents) (directory : Path) (file : String) :
    documents.lacks directory file =
      (documents.source? (directory.join file).normalize.path).isNone := by
  rw [lacks, source?, source?, Path.normalize_path_normalize]

theorem lacks_of_load_none (h : documents.load (directory.join file).normalize.path = .ok none) :
    documents.lacks directory file = true := by
  rw [lacks_eq_isNone]
  unfold load at h
  split at h
  · rename_i hnone
    rw [hnone]
    rfl
  · rename_i source hsource
    cases hparse : Node.parseFile source (directory.join file).normalize.path.displayName with
    | error error => rw [hparse] at h; cases h
    | ok node => rw [hparse] at h; cases h

theorem lacks_of_load_some {node : Node}
    (h : documents.load (directory.join file).normalize.path = .ok (some node)) :
    documents.lacks directory file = false := by
  rw [lacks_eq_isNone]
  unfold load at h
  split at h
  · cases h
  · rename_i hsome
    rw [hsome]
    rfl

end Documents

/-! ## Trees -/

namespace Unfolded

/-- The questions about expressions among those that trees give rise to, in order. -/
def expressionQuestions (trees : List Unfolded) : List Question :=
  ((referencesAll trees).filter (·.2 == .absent)).map (·.1.question)

theorem opensOnceAll_append (opened : List NormalPath) (first second : List Unfolded) :
    opensOnceAll opened (first ++ second) =
      (opensOnceAll opened first && opensOnceAll opened second) := by
  induction first with
  | nil => simp [opensOnceAll]
  | cons tree rest ih => simp [opensOnceAll, ih, Bool.and_assoc]

/-- Trees do the same as others, and ask only what these ask about expressions. -/
structure DoesSame (trees trees' : List Unfolded) : Prop where
  code : ∀ registry, codeAll registry trees' = codeAll registry trees
  firstUses : firstUses trees' = firstUses trees
  asks : questionsAll trees' = expressionQuestions trees
  opensOnce : ∀ opened, opensOnceAll opened trees = true → opensOnceAll opened trees' = true

namespace DoesSame

theorem nil : DoesSame [] [] := ⟨fun _ => rfl, rfl, rfl, fun _ => id⟩

theorem append {first first' second second' : List Unfolded} (h₁ : DoesSame first first')
    (h₂ : DoesSame second second') : DoesSame (first ++ second) (first' ++ second') where
  code registry := by rw [codeAll_append, codeAll_append, h₁.code, h₂.code]
  firstUses := by rw [firstUses_append, firstUses_append, h₁.firstUses, h₂.firstUses]
  asks := by
    rw [questionsAll_append, h₁.asks, h₂.asks]
    simp [expressionQuestions]
  opensOnce opened h := by
    rw [opensOnceAll_append, Bool.and_eq_true] at h
    rw [opensOnceAll_append, h₁.opensOnce opened h.1, h₂.opensOnce opened h.2]
    rfl

variable {directory : Path} {name file : String} {place place' : Place}
variable {body body' ifBranch ifBranch' elseBranch elseBranch' : List Unfolded}

/-- A saved sequence that has no document leaves no trace but its question. -/
theorem absent (reference : Reference) : DoesSame [.absent reference] [] :=
  ⟨fun _ => rfl, rfl, rfl, fun _ _ => rfl⟩

theorem expression (hcomment : place'.comment = place.comment) (delay : UInt32) (use : Use) :
    DoesSame [.expression ⟨directory, name, place, file⟩ delay use]
      [.expression ⟨directory, name, place', file⟩ delay use] where
  code registry := by
    cases use <;> simp [codeAll, Unfolded.code, call?, Project.callCode, hcomment]
  firstUses := by cases use <;> rfl
  asks := by cases use <;> rfl
  opensOnce _ _ := rfl

theorem inlined (hcomment : place'.comment = place.comment) (h : DoesSame body body') :
    DoesSame [.inlined ⟨directory, name, place, file⟩ body]
      [.inlined ⟨directory, name, place', file⟩ body'] where
  code registry := by simp [codeAll, Unfolded.code, Project.inlined, hcomment, h.code]
  firstUses := by
    simpa [Unfolded.firstUses, referencesAll, references] using h.firstUses
  asks := by
    simpa [questionsAll, questions, expressionQuestions, referencesAll, references] using h.asks
  opensOnce opened := by
    simp only [opensOnceAll, Unfolded.opensOnce, Bool.and_eq_true, Bool.and_true]
    exact fun hopened => ⟨hopened.1, h.opensOnce _ hopened.2⟩

theorem counterLoop (hcomment : place'.comment = place.comment) (iterations : UInt32)
    (h : DoesSame body body') :
    DoesSame [.counterLoop place iterations body] [.counterLoop place' iterations body'] where
  code registry := by simp [codeAll, Unfolded.code, hcomment, h.code]
  firstUses := by
    simpa [Unfolded.firstUses, referencesAll, references] using h.firstUses
  asks := by
    simpa [questionsAll, questions, expressionQuestions, referencesAll, references] using h.asks
  opensOnce opened := by
    simpa only [opensOnceAll, Unfolded.opensOnce, Bool.and_true] using h.opensOnce opened

theorem conditional (hcomment : place'.comment = place.comment) (ifTest elseTest : Condition)
    (ifRepeats elseRepeats : Bool) (hif : DoesSame ifBranch ifBranch')
    (helse : DoesSame elseBranch elseBranch') :
    DoesSame [.conditional place ifTest elseTest ifRepeats elseRepeats ifBranch elseBranch]
      [.conditional place' ifTest elseTest ifRepeats elseRepeats ifBranch' elseBranch'] where
  code registry := by simp [codeAll, Unfolded.code, hcomment, hif.code, helse.code]
  firstUses := by
    simpa [Unfolded.firstUses, referencesAll, references] using
      congrArg₂ (· ++ ·) hif.firstUses helse.firstUses
  asks := by
    simpa [questionsAll, questions, expressionQuestions, referencesAll, references] using
      congrArg₂ (· ++ ·) hif.asks helse.asks
  opensOnce opened := by
    simp only [opensOnceAll, Unfolded.opensOnce, Bool.and_eq_true, Bool.and_true]
    exact fun hopened => ⟨hif.opensOnce opened hopened.1, helse.opensOnce opened hopened.2⟩

end DoesSame

end Unfolded

/-! ## Both projects unfold alike -/

/-- The project of a library, with a handler that never stops a run. -/
def Library.proceeding (library : Library) (expressions : Option Path) : Project :=
  { library, handler := .fixed .proceed, expressions }

namespace Project

variable {documents : Documents} {expressions : Option Path}

theorem alwaysProceeds_proceeding (library : Library) (expressions : Option Path) :
    (library.proceeding expressions).AlwaysProceeds := fun _ _ => rfl

/-- What the elements of a document unfold into is done as well by what the elements that are kept
unfold into. -/
theorem Unfolds.kept {directory : Path} {name : String} {known known' : List String}
    {elements elements' : List Element} {trees : List Unfolded}
    (h : (documents.library.proceeding expressions).Unfolds directory name known elements trees
      known')
    (hkept : Element.Kept (documents.lacks directory) elements elements') :
    ∃ trees', (documents.withoutMissing.proceeding expressions).Unfolds directory name known
      elements' trees' known' ∧ Unfolded.DoesSame trees trees' := by
  induction h generalizing elements' with
  | nil =>
    cases hkept
    exact ⟨[], .nil, .nil⟩
  | first hnew hload hread hbody rest ih =>
    cases hkept with
    | expression hcomment hrest =>
      obtain ⟨trees', hunfolds, hsame⟩ := ih hrest
      have hload' := Documents.load_withoutMissing_of_some hload
      rw [Expression.withoutMissing_of_read _ hread] at hload'
      exact ⟨_, .first hnew hload' hread hbody hunfolds,
        (Unfolded.DoesSame.expression hcomment _ _).append hsame⟩
  | again hknown rest ih =>
    cases hkept with
    | expression hcomment hrest =>
      obtain ⟨trees', hunfolds, hsame⟩ := ih hrest
      exact ⟨_, .again hknown hunfolds, (Unfolded.DoesSame.expression hcomment _ _).append hsame⟩
  | skipped hnew hload rest ih =>
    cases hkept with
    | expression hcomment hrest =>
      obtain ⟨trees', hunfolds, hsame⟩ := ih hrest
      exact ⟨_, .skipped hnew (Documents.load_withoutMissing_of_none hload) hunfolds,
        (Unfolded.DoesSame.expression hcomment _ _).append hsame⟩
  | inlined hload hread hbody rest ihbody ih =>
    cases hkept with
    | deleted hmissing hrest =>
      cases hmissing.symm.trans (Documents.lacks_of_load_some hload)
    | sequence hcomment hfound hrest =>
      obtain ⟨inner', hread', hinner⟩ := exists_readSequence_withoutMissing _ hread
      obtain ⟨body', hbody', hsameBody⟩ := ihbody hinner
      obtain ⟨trees', hunfolds, hsame⟩ := ih hrest
      exact ⟨_, .inlined (Documents.load_withoutMissing_of_some hload) hread' hbody' hunfolds,
        (hsameBody.inlined hcomment).append hsame⟩
  | absent hload rest ih =>
    cases hkept with
    | deleted hmissing hrest =>
      obtain ⟨trees', hunfolds, hsame⟩ := ih hrest
      exact ⟨trees', hunfolds, (Unfolded.DoesSame.absent _).append hsame⟩
    | sequence hcomment hfound hrest =>
      cases hfound.symm.trans (Documents.lacks_of_load_none hload)
  | counterLoop hbody rest ihbody ih =>
    cases hkept with
    | counterLoop hcomment hchildren hrest =>
      obtain ⟨body', hbody', hsameBody⟩ := ihbody hchildren
      obtain ⟨trees', hunfolds, hsame⟩ := ih hrest
      exact ⟨_, .counterLoop hbody' hunfolds, (hsameBody.counterLoop hcomment _).append hsame⟩
  | conditional hconditions hif helse rest ihif ihelse ih =>
    cases hkept with
    | conditional hcomment hifKept helseKept hrest =>
      obtain ⟨ifTrees', hif', hsameIf⟩ := ihif hifKept
      obtain ⟨elseTrees', helse', hsameElse⟩ := ihelse helseKept
      obtain ⟨trees', hunfolds, hsame⟩ := ih hrest
      exact ⟨_, .conditional hconditions hif' helse' hunfolds,
        (Unfolded.DoesSame.conditional hcomment _ _ _ _ hsameIf hsameElse).append hsame⟩

/-- In trees that a run compiles, no saved sequence stands inside itself. -/
theorem Unfolds.opensOnceAll {project : Project} {directory : Path} {name : String}
    {known known' : List String} {elements : List Element} {trees : List Unfolded}
    (h : project.Unfolds directory name known elements trees known') {opened : List NormalPath}
    {code : List Code} {s s' : Session}
    (hrun : (project.compileList ⟨directory, name, opened⟩ elements).runFrom s = (.ok code, s'))
    (hc : s'.cancelled = false) : Unfolded.opensOnceAll opened trees = true := by
  induction h generalizing opened code s s' with
  | nil => rfl
  | first _ _ _ _ _ ih | again _ _ ih | skipped _ _ _ ih =>
    rw [compileList_expression] at hrun
    obtain ⟨_, _, _, -, -, hrest, -⟩ := thenCompileList_ok hrun hc
    simpa [Unfolded.opensOnceAll, Unfolded.opensOnce] using ih hrest hc
  | inlined hload hread _ _ ihbody ih =>
    rw [compileList_sequence] at hrun
    obtain ⟨_, s₁, _, hfirst, hc₁, hrest, -⟩ := thenCompileList_ok hrun hc
    obtain ⟨hclosed, ⟨hnone, -⟩ | ⟨_, _, _, _, hload', hread', -, -, hbody, -⟩⟩ :=
      sequenceCode_ok hfirst hc₁
    · cases hload.symm.trans hnone
    · cases hload.symm.trans hload'
      cases hread.symm.trans hread'
      simp [Unfolded.opensOnceAll, Unfolded.opensOnce, hclosed, ihbody hbody hc₁, ih hrest hc]
  | absent _ _ ih =>
    rw [compileList_sequence] at hrun
    obtain ⟨_, s₁, _, hfirst, hc₁, hrest, -⟩ := thenCompileList_ok hrun hc
    obtain ⟨hclosed, -⟩ := sequenceCode_ok hfirst hc₁
    simp [Unfolded.opensOnceAll, Unfolded.opensOnce, hclosed, ih hrest hc]
  | counterLoop _ _ ihbody ih =>
    rw [compileList_counterLoop] at hrun
    obtain ⟨_, s₁, _, hfirst, hc₁, hrest, -⟩ := thenCompileList_ok hrun hc
    obtain ⟨_, hbody, -⟩ := counterCode_ok hfirst hc₁
    simp [Unfolded.opensOnceAll, Unfolded.opensOnce, ihbody hbody hc₁, ih hrest hc]
  | conditional _ _ _ _ ihif ihelse ih =>
    rw [compileList_conditional] at hrun
    obtain ⟨_, s₁, _, hfirst, hc₁, hrest, -⟩ := thenCompileList_ok hrun hc
    obtain ⟨_, _, _, s₀, _, -, hif, helse, -⟩ := conditionalCode_ok hfirst hc₁
    have hc₀ := cancelled_of_compileList helse hc₁
    simp [Unfolded.opensOnceAll, Unfolded.opensOnce, ihif hif hc₀, ihelse helse hc₁, ih hrest hc]

/-! ## Programs -/

variable {root : String} {directory : Path} {program : Program} {session : Session}

/-- A program that compiles comes from a run over the elements of its root. -/
theorem exists_runs_of_compileProgram {project : Project}
    (h : project.compileProgram root directory = (.ok program, session)) :
    program.cancelled = session.cancelled ∧ ∃ node elements code,
      project.library.load (directory.join root).normalize.path = .ok (some node) ∧
      readSequence node = .ok elements ∧
      project.Runs ⟨(directory.join root).normalize.path.parent?.getD ⟨""⟩,
        (directory.join root).normalize.path.displayName,
        [(((directory.join root).normalize.path.parent?.getD ⟨""⟩).join
          (directory.join root).normalize.path.displayName).normalize]⟩ elements
        (rootSession root directory) (.ok code) session := by
  obtain ⟨result, s, hruns⟩ := exists_runsRoot project root directory
  rw [compileProgram_eq hruns] at h
  rcases result with error | code
  · cases h
  · cases h
    refine ⟨programFrom_cancelled session code, ?_⟩
    cases hruns with
    | document hload hruns =>
      cases hruns with
      | elements hread hruns => exact ⟨_, _, code, hload, hread, hruns⟩

/-- A handler that never stops a run does not have it cancelled. -/
theorem cancelled_of_alwaysProceeds {project : Project} (hhandler : project.AlwaysProceeds)
    (h : project.compileProgram root directory = (.ok program, session)) :
    program.cancelled = false := by
  obtain ⟨hc, node, elements, code, -, -, hruns⟩ := exists_runs_of_compileProgram h
  rw [hc]
  exact (hruns.goesOn hhandler rfl).cancelled

/-- In the trees of a program, no saved sequence stands inside itself. -/
theorem UnfoldsFrom.opensOnceAll {project : Project} {trees : List Unfolded}
    (hunfolds : project.UnfoldsFrom root directory trees)
    (h : project.compileProgram root directory = (.ok program, session))
    (hc : program.cancelled = false) :
    Unfolded.opensOnceAll [(((directory.join root).normalize.path.parent?.getD ⟨""⟩).join
      (directory.join root).normalize.path.displayName).normalize] trees = true := by
  obtain ⟨node, elements, known, hload, hread, hunfolds⟩ := hunfolds
  obtain ⟨hcancelled, _, _, code, hload', hread', hruns⟩ := exists_runs_of_compileProgram h
  cases hload.symm.trans hload'
  cases hread.symm.trans hread'
  exact hunfolds.opensOnceAll hruns.runFrom_eq (hcancelled.symm.trans hc)

theorem UnfoldsFrom.kept {trees : List Unfolded}
    (h : (documents.library.proceeding expressions).UnfoldsFrom root directory trees) :
    ∃ trees', (documents.withoutMissing.proceeding expressions).UnfoldsFrom root directory trees' ∧
      Unfolded.DoesSame trees trees' := by
  obtain ⟨node, elements, known, hload, hread, hunfolds⟩ := h
  obtain ⟨elements', hread', hkept⟩ := exists_readSequence_withoutMissing _ hread
  obtain ⟨trees', hunfolds', hsame⟩ := hunfolds.kept hkept
  exact ⟨trees', ⟨_, elements', known, Documents.load_withoutMissing_of_some hload, hread',
    hunfolds'⟩, hsame⟩

/-- Trees that do the same make the same program. -/
theorem ExplainedFrom.program_eq {project project' : Project} {trees trees' : List Unfolded}
    {program' : Program} {session' : Session}
    (h : project.ExplainedFrom root directory program session trees)
    (h' : project'.ExplainedFrom root directory program' session' trees')
    (hsame : Unfolded.DoesSame trees trees') (hc : program.cancelled = program'.cancelled) :
    program' = program := by
  have hregistry : Unfolded.registryOf trees' = Unfolded.registryOf trees := by
    rw [Unfolded.registryOf, hsame.firstUses, Unfolded.registryOf]
  have hmethods : program'.methods = program.methods := by
    rw [h'.methods, hregistry, h.methods]
  have hsource : program'.source = program.source := by
    rw [h'.source, h.source, hregistry, hsame.code, hmethods]
  cases program
  cases program'
  simp_all

end Project

namespace PassedOverSample

/-- A dance that goes through its steps twice, and refers to a saved sequence that is missing. -/
def dance : String := "<sequence><counter-loop iterations='2'><saved-sequence file='g'/>" ++
  "<saved-sequence file='b/s'/></counter-loop></sequence>"

/-- The steps refer to a saved sequence by the name of the dance, which has no document in their own
directory. One of their expressions is missing, too. -/
def steps : String := "<sequence><saved-sequence file='m'/><expression file='a'/>" ++
  "<expression file='z'/></sequence>"

/-- The dance without what is missing. -/
def keptDance : String :=
  "<sequence><counter-loop iterations='2'><saved-sequence file='b/s'/></counter-loop></sequence>"

/-- The steps without what is missing, except for the expression. -/
def keptSteps : String := "<sequence><expression file='a'/><expression file='z'/></sequence>"

def documents : Documents :=
  .ofList [(⟨"p/m"⟩, dance), (⟨"p/b/s"⟩, steps), (⟨"p/b/a"⟩, "<expression delay-millis='1'/>")]

def written : Documents :=
  .ofList [(⟨"p/m"⟩, keptDance), (⟨"p/b/s"⟩, keptSteps), (⟨"p/b/a"⟩, "<expression delay-millis='1'/>")]

/-- What the texts read as. -/
structure Parses : Prop where
  dance : Node.parse dance = .ok ⟨"sequence", [], "", [
    ⟨"counter-loop", [("iterations", "2")], "", [
      ⟨"saved-sequence", [("file", "g")], "", []⟩, ⟨"saved-sequence", [("file", "b/s")], "", []⟩]⟩]⟩
  steps : Node.parse steps = .ok ⟨"sequence", [], "", [
    ⟨"saved-sequence", [("file", "m")], "", []⟩, ⟨"expression", [("file", "a")], "", []⟩,
    ⟨"expression", [("file", "z")], "", []⟩]⟩
  keptDance : Node.parse keptDance = .ok ⟨"sequence", [], "", [
    ⟨"counter-loop", [("iterations", "2")], "", [
      ⟨"saved-sequence", [("file", "b/s")], "", []⟩]⟩]⟩
  keptSteps : Node.parse keptSteps = .ok ⟨"sequence", [], "", [
    ⟨"expression", [("file", "a")], "", []⟩, ⟨"expression", [("file", "z")], "", []⟩]⟩
  expression : Node.parse "<expression delay-millis='1'/>" =
    .ok ⟨"expression", [("delay-millis", "1")], "", []⟩

theorem parses : Parses where
  dance := eq_ok_of_toOption (by decide +kernel)
  steps := eq_ok_of_toOption (by decide +kernel)
  keptDance := eq_ok_of_toOption (by decide +kernel)
  keptSteps := eq_ok_of_toOption (by decide +kernel)
  expression := eq_ok_of_toOption (by decide +kernel)

theorem writtenWithout : documents.WrittenWithout written := by
  have hgone : documents.lacks ⟨"p"⟩ "g" = true := by decide
  have hsteps : documents.lacks ⟨"p"⟩ "b/s" = false := by decide
  have hdance : documents.lacks ⟨"p/b"⟩ "m" = true := by decide
  have hp : (⟨"p/m"⟩ : Path).normalize.path.parent?.getD ⟨""⟩ = ⟨"p"⟩ := by decide
  have hb : (⟨"p/b/s"⟩ : Path).normalize.path.parent?.getD ⟨""⟩ = ⟨"p/b"⟩ := by decide
  refine .cons ⟨rfl, ?_⟩ (.cons ⟨rfl, ?_⟩ (.cons ⟨rfl, ?_⟩ .nil))
  · rw [parses.expression]
    rfl
  · rw [parses.steps, parses.keptSteps, hb]
    simp [Except.map, Node.withoutMissing, Node.deleteAll, Node.delete, Node.isMissing,
      Node.attribute?, hdance]
  · rw [parses.dance, parses.keptDance, hp]
    simp [Except.map, Node.withoutMissing, Node.deleteAll, Node.delete, Node.isMissing,
      Node.attribute?, hgone, hsteps]

def stepTrees : List Unfolded := [
  .absent ⟨⟨"p/b"⟩, "b/s", ⟨0, none⟩, "m"⟩,
  .expression ⟨⟨"p/b"⟩, "b/s", ⟨1, none⟩, "a"⟩ 0 (.first [.delay 1]),
  .expression ⟨⟨"p/b"⟩, "b/s", ⟨2, none⟩, "z"⟩ 0 .absent]

def trees : List Unfolded := [.counterLoop ⟨0, none⟩ 2 [
  .absent ⟨⟨"p"⟩, "m", ⟨0, none⟩, "g"⟩,
  .inlined ⟨⟨"p"⟩, "m", ⟨1, none⟩, "b/s"⟩ stepTrees]]

theorem unfolds_steps : (documents.library.proceeding none).Unfolds ⟨"p/b"⟩ "b/s" []
    [.sequence ⟨0, none⟩ "m", .expression ⟨1, none⟩ "a" 0, .expression ⟨2, none⟩ "z" 0] stepTrees
    [Identifier.identity "a"] := by
  have hm : documents.load ((⟨"p/b"⟩ : Path).join "m").normalize.path = .ok none :=
    eq_ok_of_toOption (by decide)
  have ha : documents.load ((⟨"p/b"⟩ : Path).join "a").normalize.path =
      .ok (some ⟨"expression", [("delay-millis", "1")], "", []⟩) :=
    Documents.load_of_source (by decide) parses.expression
  have hz : documents.load ((⟨"p/b"⟩ : Path).join "z").normalize.path = .ok none :=
    eq_ok_of_toOption (by decide)
  have hread : Expression.read ⟨"expression", [("delay-millis", "1")], "", []⟩ = .ok ⟨[], 1⟩ :=
    eq_ok_of_toOption (by decide)
  have hbody : (Expression.mk [] 1).body = .ok [.delay 1] := eq_ok_of_toOption (by decide)
  exact .absent hm (.first (by simp) ha hread hbody (.skipped (by decide) hz .nil))

/-- The project unfolds. -/
theorem unfolds : (documents.library.proceeding none).UnfoldsFrom "m" ⟨"p"⟩ trees := by
  have hdirectory : ((⟨"p"⟩ : Path).join "m").normalize.path.parent?.getD ⟨""⟩ = ⟨"p"⟩ := by
    decide
  have hname : ((⟨"p"⟩ : Path).join "m").normalize.path.displayName = "m" := by decide
  have hinner : ((⟨"p"⟩ : Path).join "b/s").normalize.path.parent?.getD ⟨""⟩ = ⟨"p/b"⟩ := by
    decide
  have hdance : documents.load ((⟨"p"⟩ : Path).join "m").normalize.path = .ok (some _) :=
    Documents.load_of_source (by decide) parses.dance
  have hsteps : documents.load ((⟨"p"⟩ : Path).join "b/s").normalize.path = .ok (some _) :=
    Documents.load_of_source (by decide) parses.steps
  have hgone : documents.load ((⟨"p"⟩ : Path).join "g").normalize.path = .ok none :=
    eq_ok_of_toOption (by decide)
  have hreadDance : readSequence ⟨"sequence", [], "", [⟨"counter-loop", [("iterations", "2")], "", [
      ⟨"saved-sequence", [("file", "g")], "", []⟩,
      ⟨"saved-sequence", [("file", "b/s")], "", []⟩]⟩]⟩ =
      .ok [.counterLoop ⟨0, none⟩ 2 [.sequence ⟨0, none⟩ "g", .sequence ⟨1, none⟩ "b/s"]] := by cbv
  have hreadSteps : readSequence ⟨"sequence", [], "", [⟨"saved-sequence", [("file", "m")], "", []⟩,
      ⟨"expression", [("file", "a")], "", []⟩, ⟨"expression", [("file", "z")], "", []⟩]⟩ =
      .ok [.sequence ⟨0, none⟩ "m", .expression ⟨1, none⟩ "a" 0, .expression ⟨2, none⟩ "z" 0] := by
    cbv
  refine ⟨_, _, [Identifier.identity "a"], hdance, hreadDance, ?_⟩
  rw [hdirectory, hname]
  refine .counterLoop (.absent hgone (.inlined hsteps hreadSteps ?_ .nil)) .nil
  rw [hinner]
  exact unfolds_steps

/-- The project compiles. -/
theorem compiles : ∃ program session,
    (documents.library.proceeding none).compileProgram "m" ⟨"p"⟩ = (.ok program, session) := by
  obtain ⟨program, session, h, -⟩ := Project.compileProgram_succeeds
    (Project.alwaysProceeds_proceeding _ _) unfolds (by decide)
  exact ⟨program, session, h⟩

end PassedOverSample

namespace Project

/-- Passing over the saved sequences that have no document is the same as deleting them from the
documents. A project that compiles, with a handler that never stops the run, compiles into the same
program without them. What is asked then are the questions about expressions, in the same order. -/
theorem passing_over_is_deleting (documents : Documents) (expressions : Option Path)
    (h : (documents.library.proceeding expressions).compileProgram root directory =
      (.ok program, session)) :
    ∃ trees session',
      (documents.library.proceeding expressions).ExplainedFrom root directory program session
        trees ∧
      (documents.withoutMissing.proceeding expressions).compileProgram root directory =
        (.ok program, session') ∧
      session'.asked = Unfolded.expressionQuestions trees ∧
      ∀ written, documents.WrittenWithout written →
        (written.library.proceeding expressions).compileProgram root directory =
          (.ok program, session') := by
  have hc := cancelled_of_alwaysProceeds (alwaysProceeds_proceeding _ _) h
  obtain ⟨trees, hexplained⟩ := compileProgram_explained h hc
  obtain ⟨trees', hunfolds, hsame⟩ := hexplained.unfolds.kept
  have hopened := hsame.opensOnce _ (hexplained.unfolds.opensOnceAll h hc)
  obtain ⟨program', session', h', hc'⟩ :=
    compileProgram_succeeds (alwaysProceeds_proceeding _ _) hunfolds hopened
  obtain ⟨other, hexplained'⟩ := compileProgram_explained h' hc'
  obtain rfl := hexplained'.unfolds.unique hunfolds
  rw [hexplained.program_eq hexplained' hsame (hc.trans hc'.symm)] at h'
  refine ⟨trees, session', hexplained, h', hexplained'.asked.trans hsame.asks, ?_⟩
  intro written hwritten
  rw [hwritten.library_eq, h']

/-- A question of the steps is all that is left to ask once what is missing is not written. -/
theorem sample_passing_over_is_deleting : ∃ program session session',
    (PassedOverSample.documents.library.proceeding none).compileProgram "m" ⟨"p"⟩ =
      (.ok program, session) ∧
    session.asked = [⟨"g", "m"⟩, ⟨"m", "b/s"⟩, ⟨"z", "b/s"⟩] ∧
    (PassedOverSample.written.library.proceeding none).compileProgram "m" ⟨"p"⟩ =
      (.ok program, session') ∧
    session'.asked = [⟨"z", "b/s"⟩] := by
  obtain ⟨program, session, h⟩ := PassedOverSample.compiles
  obtain ⟨trees, session', hexplained, -, hasked, hwritten⟩ :=
    passing_over_is_deleting PassedOverSample.documents none h
  obtain rfl := hexplained.unfolds.unique PassedOverSample.unfolds
  exact ⟨program, session, session', h, hexplained.asked,
    hwritten _ PassedOverSample.writtenWithout, hasked⟩

end Project

end RobotSketch
