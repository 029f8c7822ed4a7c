import RobotSketch.Command
import RobotSketch.Proofs.Removal

/-!
# Stale sketches

A sketch at the path that a command writes to is stale once the command fails. Whether it stays is
decided by how far the command comes: compiling a sequence ends in `persist`, which removes it,
while a document without a file name and an expression that cannot be compiled end the command
before. First come the parts of a run that change no files (`settings_apply`,
`findExpressions_apply`, `compile_apply`), then the one that does (`persist_apply`), then the
commands. The main statement is `stale_sketch_stays_iff`.
-/
namespace RobotSketch

namespace Simulation

/-! ## What a machine is asked to do -/

def environment (simulation : Simulation) : Environment :=
  fun name => simulation.settings.lookup name

/-- The settings in use: the defaults if the configuration file cannot be used. -/
def config (simulation : Simulation) : Config :=
  ((Config.loadOrDefault simulation.describe simulation.environment : StateM Tree _)
    simulation.tree).1.toOption.getD {}

/-- Where the expressions of a sequence in a directory are. -/
def expressions (simulation : Simulation) (directory : Path) (arguments : Arguments) :
    Option Path :=
  match arguments.expressions with
  | some expressions => some expressions
  | none =>
    ((Command.findExpressions simulation.config.expressions directory : StateM Simulation _)
      simulation).1

/-- What comes of compiling a sequence. -/
def compiled (simulation : Simulation) (directory : Path) (root : String) (arguments : Arguments) :
    Except Error Program :=
  let policy := arguments.onMissing.getD simulation.config.onMissing
  let project : Project := ⟨simulation.tree.library, policy.handler simulation.input,
    simulation.expressions directory arguments⟩
  (project.compileProgram root directory).1

/-- Where the sketch of a document goes. -/
def outputPath (simulation : Simulation) (arguments : Arguments) (name : String) : Path :=
  arguments.output.getD
    (sketchPath simulation.config.outputDirectory name simulation.config.sketchFolders)

/-- Two machines that differ in what they have written out at most. -/
structure Alike (simulation other : Simulation) : Prop where
  tree : other.tree = simulation.tree
  settings : other.settings = simulation.settings
  describe : other.describe = simulation.describe
  input : other.input = simulation.input

theorem pure_apply {α : Type} (value : α) (simulation : Simulation) :
    (pure value : StateM Simulation α) simulation = (value, simulation) := rfl

theorem bind_apply {σ α β : Type} (first : StateM σ α) (next : α → StateM σ β) (state : σ) :
    (first >>= next) state = next (first state).1 (first state).2 := rfl

/-! ## Parts that change no files -/

/-- What reads the configuration file does the same on a machine and on its files. -/
theorem load_apply (describe : String → String) (environment : Environment) (path : Path)
    (simulation : Simulation) :
    (Config.load describe environment path : StateM Simulation _) simulation =
      (((Config.load describe environment path : StateM Tree _) simulation.tree).1,
        simulation) := by
  have hreadTree : (Files.read path : StateM Tree _) simulation.tree =
      (simulation.tree.read path, simulation.tree) := rfl
  have hread : (Files.read path : StateM Simulation _) simulation =
      (simulation.tree.read path, simulation) := rfl
  have hentry : (Files.hasEntry path : StateM Simulation Bool) simulation =
      (((Files.hasEntry path : StateM Tree Bool) simulation.tree).1, simulation) := rfl
  have hentryTree : ((Files.hasEntry path : StateM Tree Bool) simulation.tree).2 =
      simulation.tree := rfl
  unfold Config.load
  rw [bind_apply, hentry, bind_apply, hentryTree]
  cases ((Files.hasEntry path : StateM Tree Bool) simulation.tree).1 with
  | false => rfl
  | true =>
    simp only [if_true]
    rw [bind_apply, hread, bind_apply, hreadTree]
    cases simulation.tree.read path with
    | error fault => rfl
    | ok text =>
      simp only
      cases Config.parse? text <;> rfl

theorem settings_apply (colours : Bool) (simulation : Simulation) :
    ∃ after, (Command.settings colours : StateM Simulation _) simulation =
      (simulation.config, after) ∧ simulation.Alike after := by
  have hload : (Config.loadOrDefault simulation.describe simulation.environment :
      StateM Simulation _) simulation =
        (((Config.loadOrDefault simulation.describe simulation.environment : StateM Tree _)
          simulation.tree).1, simulation) := by
    unfold Config.loadOrDefault
    rw [bind_apply, load_apply, bind_apply]
    generalize (Config.load simulation.describe simulation.environment
      (Config.pathFor simulation.environment) : StateM Tree _) simulation.tree = loaded
    rfl
  have hdescribe : (Machine.describe : StateM Simulation _) simulation =
      (simulation.describe, simulation) := rfl
  have henvironment : (Machine.environment : StateM Simulation _) simulation =
      (simulation.environment, simulation) := rfl
  unfold Command.settings config
  rw [bind_apply, hdescribe, bind_apply, henvironment, bind_apply, hload]
  cases ((Config.loadOrDefault simulation.describe simulation.environment : StateM Tree _)
    simulation.tree).1 with
  | ok config => exact ⟨_, rfl, rfl, rfl, rfl, rfl⟩
  | error error => exact ⟨_, rfl, rfl, rfl, rfl, rfl⟩

/-- Where expressions are depends on the files alone. -/
theorem findExpressions_apply (configured directory : Path) {simulation other : Simulation}
    (h : simulation.Alike other) :
    (Command.findExpressions configured directory : StateM Simulation _) other =
      (((Command.findExpressions configured directory : StateM Simulation _) simulation).1,
        other) := by
  have hdirectory (path : Path) (simulation : Simulation) :
      (Files.isDirectory path : StateM Simulation Bool) simulation =
        (simulation.tree.isDirectory path, simulation) := rfl
  unfold Command.findExpressions
  split
  · rfl
  · simp only [bind_apply, hdirectory, h.tree]
    cases simulation.tree.isDirectory (directory.join configured.text) with
    | true => rfl
    | false =>
      cases directory.parent? with
      | none => rfl
      | some parent =>
        simp only [Bool.false_eq_true, if_false, bind_apply, hdirectory, h.tree]
        rfl

/-! ## Removing a stale sketch -/

theorem change_apply (operation : Tree → Except Fault Tree) (tree : Tree) :
    Tree.change operation tree =
      match operation tree with
      | .ok after => (.ok (), after)
      | .error fault => (.error fault, tree) := by
  have hget : Tree.change operation tree =
      (match operation tree with
        | .ok after => do
          set after
          return .ok ()
        | .error fault => return .error fault : StateM Tree (Except Fault Unit)) tree := rfl
  rw [hget]
  cases operation tree <;> rfl

/-- A removal leaves no file at its path, whether it succeeds or not. -/
theorem remove_apply (path : Path) (simulation : Simulation) :
    ∃ result tree, (Files.remove path : StateM Simulation _) simulation =
      (result, { simulation with tree }) ∧ ¬ tree.HasFile path := by
  have hremove : (Files.remove path : StateM Simulation _) simulation =
      onTree (Tree.change (·.remove path)) simulation := rfl
  rw [hremove, onTree, change_apply]
  cases hresult : simulation.tree.remove path with
  | ok after => exact ⟨_, after, rfl, Tree.not_hasFile_of_remove hresult⟩
  | error fault =>
    refine ⟨_, simulation.tree, rfl, fun hfile => ?_⟩
    obtain ⟨after, hafter⟩ := Tree.remove_of_hasFile hfile
    rw [hresult] at hafter
    cases hafter

/-- What a compilation without a sketch leaves: no file, and nothing to report as done. -/
theorem persist_apply {compiled : Except Error Program}
    (h : ∀ program, compiled = .ok program → program.cancelled = true) (path : Path)
    (simulation : Simulation) :
    ∃ result tree, (persist compiled path : StateM Simulation _) simulation =
        (result, { simulation with tree }) ∧ ¬ tree.HasFile path ∧
      ∀ program, result = .ok program → program.cancelled = true := by
  obtain ⟨removed, tree, hremove, hfile⟩ := remove_apply path simulation
  unfold persist
  cases compiled with
  | error error =>
    refine ⟨.error error, tree, ?_, hfile, by simp⟩
    simp only [bind_apply, hremove]
    rfl
  | ok program =>
    have hstale : ∃ stale, (removeStale path : StateM Simulation _) simulation =
        (stale, { simulation with tree }) := by
      unfold removeStale
      rw [bind_apply, hremove]
      cases removed with
      | ok _ => exact ⟨_, rfl⟩
      | error fault => cases fault <;> exact ⟨_, rfl⟩
    obtain ⟨stale, hstale⟩ := hstale
    have hcancelled := h program rfl
    refine ⟨stale.map fun _ => program, tree, ?_, hfile, ?_⟩
    · simp only [writeProgram, hcancelled, if_true, bind_apply, hstale]
      cases stale <;> rfl
    · intro other hother
      cases stale with
      | ok _ =>
        obtain rfl := Except.ok.inj hother
        exact hcancelled
      | error _ => cases hother

/-! ## Commands that write no sketch -/

/-- A compilation leaves the files alone. -/
theorem compile_apply (job : Job) (simulation : Simulation) :
    ∃ after, (Machine.compile job : StateM Simulation _) simulation =
      (((⟨simulation.tree.library, job.policy.handler simulation.input, job.expressions⟩ :
        Project).compileProgram job.root job.directory).1, after) ∧ simulation.Alike after := by
  have hcompile : (Machine.compile job : StateM Simulation _) simulation =
      compile job simulation := rfl
  rw [hcompile]
  unfold compile
  rw [bind_apply]
  by_cases hpolicy : job.policy = .prompt
  · simp only [hpolicy, if_true]
    exact ⟨_, rfl, rfl, rfl, rfl, rfl⟩
  · simp only [hpolicy, if_false]
    exact ⟨_, rfl, rfl, rfl, rfl, rfl⟩

/-- The sketch of a compilation that was not written is not there. -/
theorem reportSketch_apply {compiled : Except Error Program}
    (h : ∀ program, compiled = .ok program → program.cancelled = true) (path : Path)
    (shown : Program → String) (simulation : Simulation) :
    ∃ result after, (do
        match ← persist compiled path with
        | .error error => return .error error
        | .ok program =>
          if program.cancelled then return .ok .cancelled
          Machine.print (shown program)
          return .ok .done : StateM Simulation (Except Error Outcome)) simulation =
        (result, after) ∧
      result ≠ .ok .done ∧ ¬ after.tree.HasFile path := by
  obtain ⟨result, tree, hpersist, hfile, hcancelled⟩ := persist_apply h path simulation
  rw [bind_apply, hpersist]
  cases result with
  | error error => exact ⟨_, _, rfl, by simp, hfile⟩
  | ok program =>
    simp only [hcancelled program rfl, if_true]
    exact ⟨_, _, rfl, by simp, hfile⟩

/-- A compilation that is not written: what the command reports is an error or a cancelled run, and
no file is left at its path. -/
theorem runCompile_apply {simulation other : Simulation} (halike : simulation.Alike other)
    {document directory : Path} {root : String} {arguments : Arguments} (colours : Bool)
    (hprint : arguments.print = false)
    (hsplit : Command.splitDocument document = .ok (directory, root))
    (hfails : ∀ program, simulation.compiled directory root arguments = .ok program →
      program.cancelled = true) :
    ∃ result after, (Command.runCompile simulation.config colours document arguments :
        StateM Simulation _) other = (result, after) ∧ result ≠ .ok .done ∧
      ¬ after.tree.HasFile (simulation.outputPath arguments root) := by
  have hcompile : ∃ between, (Machine.compile ⟨root, directory,
      simulation.expressions directory arguments,
      arguments.onMissing.getD simulation.config.onMissing, colours⟩ : StateM Simulation _) other =
        (simulation.compiled directory root arguments, between) := by
    obtain ⟨between, hcompile, -⟩ := compile_apply ⟨root, directory,
      simulation.expressions directory arguments,
      arguments.onMissing.getD simulation.config.onMissing, colours⟩ other
    rw [halike.tree, halike.input] at hcompile
    exact ⟨between, hcompile⟩
  obtain ⟨between, hcompile⟩ := hcompile
  generalize simulation.compiled directory root arguments = compiled at hfails hcompile
  have hreport := reportSketch_apply hfails (simulation.outputPath arguments root)
  unfold outputPath at hreport ⊢
  unfold expressions at hcompile
  unfold Command.runCompile Command.compileWith
  rw [hsplit]
  cases hexpressions : arguments.expressions with
  | some expressions =>
    simp only [hexpressions] at hcompile
    dsimp only [Option.isSome_some, Option.getD_some]
    rw [if_pos rfl, bind_apply, pure_apply, bind_apply, hcompile, hprint,
      if_neg Bool.false_ne_true]
    exact hreport _ between
  | none =>
    simp only [hexpressions] at hcompile
    dsimp only [Option.isSome_none, Option.getD_none]
    rw [if_neg Bool.false_ne_true, bind_apply, findExpressions_apply _ _ halike, bind_apply,
      hcompile, hprint, if_neg Bool.false_ne_true]
    exact hreport _ between

theorem runCompile_unnamed (simulation : Simulation) (config : Config) (colours : Bool)
    {document : Path} {error : Error} (arguments : Arguments)
    (hsplit : Command.splitDocument document = .error error) :
    (Command.runCompile config colours document arguments : StateM Simulation _) simulation =
      (.error error, simulation) := by
  unfold Command.runCompile Command.compileWith
  rw [hsplit]
  rfl

theorem report_apply (colours : Bool) {result : Except String Outcome} (h : result ≠ .ok .done)
    (simulation : Simulation) :
    ∃ code errors, (Command.report colours result : StateM Simulation _) simulation =
      (code, { simulation with errors }) ∧ code ≠ 0 := by
  cases result with
  | error message => exact ⟨1, _, rfl, by decide⟩
  | ok outcome =>
    cases outcome with
    | done => exact absurd rfl h
    | cancelled => exact ⟨2, _, rfl, by decide⟩

theorem runExpression_unnamed (simulation : Simulation) (config : Config) (colours : Bool)
    {document : Path} {error : Error} (arguments : Arguments)
    (hsplit : Command.splitDocument document = .error error) :
    (Command.runExpression config colours document arguments : StateM Simulation _) simulation =
      (.error error, simulation) := by
  unfold Command.runExpression
  rw [hsplit]
  rfl

theorem runExpression_failed (simulation : Simulation) (config : Config) (colours : Bool)
    {document directory : Path} {name : String} {error : Error} (arguments : Arguments)
    (hsplit : Command.splitDocument document = .ok (directory, name))
    (hfails : compileExpression simulation.tree.library document = .error error) :
    (Command.runExpression config colours document arguments : StateM Simulation _) simulation =
      (.error error, simulation) := by
  have hread : (Files.read document : StateM Simulation _) simulation =
      (simulation.tree.read document, simulation) := rfl
  have hsketch : expressionSketch document
      (documentOfRead document (simulation.tree.read document)) = .error error := hfails
  unfold Command.runExpression
  rw [hsplit]
  dsimp only
  rw [bind_apply, hread, hsketch]
  rfl

/-- A command that has a path to write to, and documents of which no sketch can be made. -/
inductive Fails (simulation : Simulation) : Invocation → Path → Prop
  /-- The compilation of the sequence fails or is cancelled. -/
  | sequence {document directory : Path} {root : String} {arguments : Arguments}
      (hprint : arguments.print = false)
      (hsplit : Command.splitDocument document = .ok (directory, root))
      (hfails : ∀ program, simulation.compiled directory root arguments = .ok program →
        program.cancelled = true) :
    Fails simulation (.compile document arguments) (simulation.outputPath arguments root)
  /-- The compilation of the expression fails. -/
  | expression {document directory : Path} {name : String} {arguments : Arguments} {error : Error}
      (hprint : arguments.print = false)
      (hsplit : Command.splitDocument document = .ok (directory, name))
      (hfails : compileExpression simulation.tree.library document = .error error) :
    Fails simulation (.expression document arguments) (simulation.outputPath arguments name)
  /-- The path of the sequence has no file name. -/
  | unnamedSequence {document out : Path} {arguments : Arguments}
      (hprint : arguments.print = false) (hname : document.fileName? = none)
      (hout : arguments.output = some out) : Fails simulation (.compile document arguments) out
  /-- The path of the expression has no file name. -/
  | unnamedExpression {document out : Path} {arguments : Arguments}
      (hprint : arguments.print = false) (hname : document.fileName? = none)
      (hout : arguments.output = some out) : Fails simulation (.expression document arguments) out

end Simulation

/-- Whether a command that fails never comes to removing a stale sketch. -/
def Invocation.PassesOverStale : Invocation → Prop
  | .compile document _ => document.fileName? = none
  | .expression _ _ => True
  | _ => False

namespace Simulation

/-! ## Whole runs -/

/-- What is run for a command that makes a sketch. -/
def command? (config : Config) (colours : Bool) :
    Invocation → Option (StateM Simulation (Except Error Outcome))
  | .compile document arguments => some (Command.runCompile config colours document arguments)
  | .expression document arguments => some (Command.runExpression config colours document arguments)
  | _ => none

/-- Runs a command and reports how it ended. -/
def reported (colours : Bool) (command : StateM Simulation (Except Error Outcome)) :
    StateM Simulation UInt8 := do
  Command.report colours ((← command).mapError Error.message)

/-- A run takes the settings, runs a command and reports how it ended. -/
theorem run_eq_reported (simulation : Simulation) (arguments : List String) :
    ∃ colours between, simulation.Alike between ∧ ∀ command,
      command? simulation.config colours (Invocation.parse arguments) = some command →
        simulation.run arguments = reported colours command between := by
  have henvironment : (Machine.environment : StateM Simulation _) simulation =
      (simulation.environment, simulation) := rfl
  have hterminal : (Machine.atTerminal : StateM Simulation _) simulation =
      (false, simulation) := rfl
  unfold run Command.run
  rw [bind_apply, henvironment, bind_apply, hterminal]
  dsimp only
  generalize Terminal.coloursOn simulation.environment false = colours
  obtain ⟨between, hsettings, halike⟩ := settings_apply colours simulation
  refine ⟨colours, between, halike, fun command hcommand => ?_⟩
  unfold reported
  cases hparse : Invocation.parse arguments with
  | compile document given =>
    rw [hparse] at hcommand
    obtain rfl := Option.some.inj hcommand
    dsimp only
    rw [bind_apply, hsettings]
  | expression document given =>
    rw [hparse] at hcommand
    obtain rfl := Option.some.inj hcommand
    dsimp only
    rw [bind_apply, hsettings]
  | _ => simp [hparse, command?] at hcommand

/-- A command that was not done is reported, and its files stay as it left them. -/
theorem reported_apply {command : StateM Simulation (Except Error Outcome)}
    {simulation after : Simulation} {result : Except Error Outcome} (colours : Bool)
    (hcommand : command simulation = (result, after)) (hdone : result ≠ .ok .done) :
    (reported colours command simulation).1 ≠ 0 ∧
      (reported colours command simulation).2.tree = after.tree := by
  have hmessage : result.mapError Error.message ≠ .ok .done := by
    cases result with
    | error error => simp [Except.mapError]
    | ok outcome => simpa [Except.mapError] using hdone
  obtain ⟨code, errors, hreport, hcode⟩ := report_apply colours hmessage after
  rw [reported, bind_apply, hcommand, hreport]
  exact ⟨hcode, rfl⟩

theorem Fails.command_apply {simulation other : Simulation} {invocation : Invocation} {out : Path}
    (h : simulation.Fails invocation out) (halike : simulation.Alike other) (colours : Bool) :
    ∃ command result after, command? simulation.config colours invocation = some command ∧
      command other = (result, after) ∧ result ≠ .ok .done ∧
      (after.tree.HasFile out ↔ simulation.tree.HasFile out ∧ invocation.PassesOverStale) := by
  have hunnamed {document : Path} (hname : document.fileName? = none) :
      Command.splitDocument document = .error (.missingReference document.text ".") := by
    rw [Command.splitDocument, hname]
  cases h with
  | @sequence document _ _ _ hprint hsplit hfails =>
    obtain ⟨result, after, hcommand, hdone, hfile⟩ :=
      runCompile_apply halike colours hprint hsplit hfails
    have hnamed : document.fileName? ≠ none := fun hname => by
      rw [hunnamed hname] at hsplit
      cases hsplit
    exact ⟨_, result, after, rfl, hcommand, hdone, iff_of_false hfile fun h => hnamed h.2⟩
  | expression hprint hsplit hfails =>
    rw [← halike.tree] at hfails ⊢
    exact ⟨_, _, _, rfl, runExpression_failed other _ colours _ hsplit hfails, by simp,
      (and_iff_left trivial).symm⟩
  | unnamedSequence hprint hname hout =>
    rw [← halike.tree]
    exact ⟨_, _, _, rfl, runCompile_unnamed other _ colours _ (hunnamed hname), by simp,
      (and_iff_left hname).symm⟩
  | unnamedExpression hprint hname hout =>
    rw [← halike.tree]
    exact ⟨_, _, _, rfl, runExpression_unnamed other _ colours _ (hunnamed hname), by simp,
      (and_iff_left trivial).symm⟩

/-- **Stale sketches.** A command whose documents give no sketch fails, and afterwards there is a
file at its path exactly if there was one before and the command never comes to removing it: a
command for an expression, or for a sequence whose path has no file name. -/
theorem stale_sketch_stays_iff {simulation : Simulation} {arguments : List String} {out : Path}
    (h : simulation.Fails (Invocation.parse arguments) out) :
    (simulation.run arguments).1 ≠ 0 ∧
    ((simulation.run arguments).2.tree.HasFile out ↔
      simulation.tree.HasFile out ∧ (Invocation.parse arguments).PassesOverStale) := by
  obtain ⟨colours, between, halike, hrun⟩ := simulation.run_eq_reported arguments
  obtain ⟨command, result, after, hcommand, hresult, hdone, hfile⟩ := h.command_apply halike colours
  obtain ⟨hcode, htree⟩ := reported_apply colours hresult hdone
  rw [hrun command hcommand, htree]
  exact ⟨hcode, hfile⟩

/-- A machine with a sketch and nothing else. -/
def sample : Simulation where
  tree := ⟨[("out.ino", .file "stale".toUTF8)], []⟩

/-- The arguments of a command for a document that is not there. -/
def sampleArguments : Arguments where
  document := some ⟨"gone.xml"⟩
  output := some ⟨"out.ino"⟩

theorem sample_expression_fails :
    sample.Fails (Invocation.parse ["expression", "gone.xml", "-o", "out.ino"]) ⟨"out.ino"⟩ := by
  have hparse : Invocation.parse ["expression", "gone.xml", "-o", "out.ino"] =
      .expression ⟨"gone.xml"⟩ sampleArguments := by decide
  have hsplit : Command.splitDocument ⟨"gone.xml"⟩ = .ok (⟨"."⟩, "gone.xml") := rfl
  have hfails : compileExpression sample.tree.library ⟨"gone.xml"⟩ =
      .error (.missingReference "gone.xml" "") := rfl
  rw [hparse]
  exact .expression rfl hsplit hfails

theorem sample_sequence_fails :
    sample.Fails (Invocation.parse ["compile", "gone.xml", "-o", "out.ino"]) ⟨"out.ino"⟩ := by
  have hparse : Invocation.parse ["compile", "gone.xml", "-o", "out.ino"] =
      .compile ⟨"gone.xml"⟩ sampleArguments := by decide
  have hsplit : Command.splitDocument ⟨"gone.xml"⟩ = .ok (⟨"."⟩, "gone.xml") := rfl
  have hfails : sample.compiled ⟨"."⟩ "gone.xml" sampleArguments =
      .error (.missingReference "gone.xml" ".") := rfl
  rw [hparse]
  refine .sequence rfl hsplit fun program hprogram => ?_
  rw [hfails] at hprogram
  cases hprogram

/-- The sketch stays for the one command and goes for the other. -/
theorem sample_stale_sketch :
    (sample.run ["expression", "gone.xml", "-o", "out.ino"]).2.tree.HasFile ⟨"out.ino"⟩ ∧
    ¬ (sample.run ["compile", "gone.xml", "-o", "out.ino"]).2.tree.HasFile ⟨"out.ino"⟩ := by
  have hstale : sample.tree.HasFile ⟨"out.ino"⟩ := ⟨"stale".toUTF8, rfl⟩
  have hexpression :
      (Invocation.parse ["expression", "gone.xml", "-o", "out.ino"]).PassesOverStale := trivial
  refine ⟨(stale_sketch_stays_iff sample_expression_fails).2.2 ⟨hstale, hexpression⟩, fun h => ?_⟩
  have hsequence := ((stale_sketch_stays_iff sample_sequence_fails).2.1 h).2
  exact absurd hsequence (show ¬ (⟨"gone.xml"⟩ : Path).fileName? = none by decide)

end Simulation

end RobotSketch
