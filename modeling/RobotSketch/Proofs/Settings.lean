import RobotSketch.Proofs.StaleSketches

/-!
# Where settings come from

Four sources give settings: the arguments, the environment, the configuration file and the built-in
defaults. Each is a layer that gives some of the settings and leaves the others open, and the rule
is that a setting comes from the first source that gives it (`Simulation.ruled`). A compilation
takes all its settings from one record (`runCompile_eq_compileWith`), the arguments on top of what
was loaded (`Simulation.used`). What is loaded follows the rule without a configuration file and
with a valid one; with a file that cannot be used, the environment is dropped along with it
(`config_eq`). The main statement is `settings_follow_rule_iff`.
-/
namespace RobotSketch

/-! ## Layers -/

/-- The settings that one source gives; the others are left open. -/
structure Layer where
  outputDirectory : Option Path := none
  expressions : Option Path := none
  onMissing : Option Policy := none
  sketchFolders : Option Bool := none
  deriving DecidableEq, Repr

namespace Layer

/-- What a layer gives, and what another one gives of the settings it leaves open. -/
def atop (layer below : Layer) : Layer where
  outputDirectory := layer.outputDirectory.or below.outputDirectory
  expressions := layer.expressions.or below.expressions
  onMissing := layer.onMissing.or below.onMissing
  sketchFolders := layer.sketchFolders.or below.sketchFolders

/-- The settings that a layer gives, and given ones where it leaves them open. -/
def onto (layer : Layer) (config : Config) : Config where
  outputDirectory := layer.outputDirectory.getD config.outputDirectory
  expressions := layer.expressions.getD config.expressions
  onMissing := layer.onMissing.getD config.onMissing
  sketchFolders := layer.sketchFolders.getD config.sketchFolders

theorem onto_atop (layer below : Layer) (config : Config) :
    (layer.atop below).onto config = layer.onto (below.onto config) := by
  simp only [atop, onto, Option.getD_or]

/-- A setting is left open above and given below, as something else than its default. -/
def Shows {α : Type} (above below : Option α) (default : α) : Prop :=
  above = none ∧ ∃ value, below = some value ∧ value ≠ default

theorem getD_getD_eq_iff {α : Type} (above below : Option α) (default : α) :
    above.getD (below.getD default) = above.getD default ↔ ¬ Shows above below default := by
  cases above <;> cases below <;> simp [Shows]

/-- A layer changes some of the given settings that the layer above it leaves open. -/
def ShowsThrough (below above : Layer) (config : Config) : Prop :=
  Shows above.outputDirectory below.outputDirectory config.outputDirectory ∨
    Shows above.expressions below.expressions config.expressions ∨
    Shows above.onMissing below.onMissing config.onMissing ∨
    Shows above.sketchFolders below.sketchFolders config.sketchFolders

theorem onto_onto_eq_iff (above below : Layer) (config : Config) :
    above.onto (below.onto config) = above.onto config ↔ ¬ below.ShowsThrough above config := by
  simp only [onto, Config.mk.injEq, getD_getD_eq_iff, ShowsThrough, not_or]

/-- What the arguments give. No switch is about the output directory or the folders. -/
def ofArguments (arguments : Arguments) : Layer where
  expressions := arguments.expressions
  onMissing := arguments.onMissing

/-- What the environment gives. A variable that does not parse gives nothing. -/
def ofEnvironment (environment : Environment) : Layer where
  outputDirectory := (environment "CHIRP_OUTPUT_DIR").map (⟨·⟩)
  expressions := (environment "CHIRP_EXPRESSIONS_DIR").map (⟨·⟩)
  onMissing := (environment "CHIRP_ON_MISSING").bind fun text => (Policy.read text).toOption
  sketchFolders := (environment "CHIRP_SKETCH_FOLDERS").bind Config.flagOfText?

/-- What a table of settings gives. -/
def ofMembers (members : Toml.Members) : Layer where
  outputDirectory := (members.lookup "output_dir").bind Config.pathOf?
  expressions := (members.lookup "expressions_dir").bind Config.pathOf?
  onMissing := (members.lookup "on_missing").bind Config.policyOf?
  sketchFolders := (members.lookup "sketch_folders").bind Config.flagOf?

end Layer

/-! ## The configuration file -/

namespace Config

theorem overridden_eq_onto (config : Config) (environment : Environment) :
    config.overridden environment = (Layer.ofEnvironment environment).onto config := rfl

/-- Whether a key is absent or stands for an item that can be read. -/
def holds {α : Type} (members : Toml.Members) (key : String) (read : Toml.Item → Option α) : Bool :=
  (members.lookup key).all fun item => (read item).isSome

def isValid (members : Toml.Members) : Bool :=
  holds members "output_dir" pathOf? && holds members "expressions_dir" pathOf? &&
    holds members "on_missing" policyOf? && holds members "sketch_folders" flagOf?

theorem setting?_eq {α : Type} (members : Toml.Members) (key : String)
    (read : Toml.Item → Option α) (default : α) :
    setting? members key read default =
      if holds members key read then some (((members.lookup key).bind read).getD default)
      else none := by
  unfold setting? holds
  cases members.lookup key with
  | none => rfl
  | some item => cases hread : read item <;> simp [hread]

/-- The settings of a valid table are those it gives and the defaults. -/
theorem ofMembers?_eq (members : Toml.Members) :
    ofMembers? members =
      if isValid members then some ((Layer.ofMembers members).onto {}) else none := by
  simp only [ofMembers?, setting?_eq, isValid, Bool.and_eq_true]
  by_cases houtput : holds members "output_dir" pathOf?
  · by_cases hexpressions : holds members "expressions_dir" pathOf?
    · by_cases hmissing : holds members "on_missing" policyOf?
      · by_cases hfolders : holds members "sketch_folders" flagOf?
        · simp [houtput, hexpressions, hmissing, hfolders, Layer.onto, Layer.ofMembers]
        · simp [hfolders]
      · simp [hmissing]
    · simp [hexpressions]
  · simp [houtput]

/-- The table in the text of a configuration file, if all settings in it can be read. -/
def table? (text : String) : Option Toml.Members := (Toml.parse? text).filter isValid

theorem parse?_eq (text : String) :
    parse? text = (table? text).map fun members => (Layer.ofMembers members).onto {} := by
  unfold parse? table?
  cases Toml.parse? text with
  | none => rfl
  | some members =>
    rw [Option.bind_eq_bind, Option.bind_some, ofMembers?_eq, Option.filter_some]
    split <;> rfl

end Config

/-- The states of a configuration file. -/
inductive ConfigFile where
  | absent
  /-- It cannot be read, is no TOML, or has a setting of the wrong kind. -/
  | unusable
  | valid (members : Toml.Members)
  deriving Repr

/-- What a configuration file gives. -/
def ConfigFile.layer : ConfigFile → Layer
  | .valid members => .ofMembers members
  | _ => {}

/-! ## Compiling with settings -/

namespace Command

variable {m : Type → Type} [Monad m] [Machine m]

/-- A compilation takes every setting from the arguments on top of the loaded settings. -/
theorem runCompile_eq_compileWith (config : Config) (colours : Bool) (document : Path)
    (arguments : Arguments) :
    (runCompile config colours document arguments : m (Except Error Outcome)) =
      compileWith ((Layer.ofArguments arguments).onto config) arguments.expressions.isSome
        arguments.output arguments.print colours document := rfl

end Command

/-! ## Settings of a run -/

namespace Simulation

/-- The state of the configuration file on a machine. -/
def configFile (simulation : Simulation) : ConfigFile :=
  let path := Config.pathFor simulation.environment
  if ((Files.hasEntry path : StateM Tree Bool) simulation.tree).1 then
    match simulation.tree.read path with
    | .error _ => .unusable
    | .ok text => (Config.table? text).elim .unusable .valid
  else .absent

/-- The settings that a compilation with given arguments uses. -/
def used (simulation : Simulation) (arguments : Arguments) : Config :=
  (Layer.ofArguments arguments).onto simulation.config

/-- The settings by the rule: each comes from the first of the arguments, the environment, the
configuration file and the defaults that gives it. -/
def ruled (simulation : Simulation) (arguments : Arguments) : Config :=
  ((Layer.ofArguments arguments).atop
    ((Layer.ofEnvironment simulation.environment).atop simulation.configFile.layer)).onto {}

/-- What is loaded, by the state of the configuration file. -/
theorem config_eq (simulation : Simulation) :
    simulation.config =
      match simulation.configFile with
      | .unusable => {}
      | file => (Layer.ofEnvironment simulation.environment).onto (file.layer.onto {}) := by
  have hentry (path : Path) : (Files.hasEntry path : StateM Tree Bool) simulation.tree =
      (((Files.hasEntry path : StateM Tree Bool) simulation.tree).1, simulation.tree) := rfl
  have hread (path : Path) : (Files.read path : StateM Tree _) simulation.tree =
      (simulation.tree.read path, simulation.tree) := rfl
  unfold config configFile Config.loadOrDefault Config.load
  rw [bind_apply, bind_apply, hentry]
  simp only [Config.overridden_eq_onto]
  cases ((Files.hasEntry (Config.pathFor simulation.environment) : StateM Tree Bool)
    simulation.tree).1 with
  | false => rfl
  | true =>
    simp only [if_true, bind_apply, hread]
    cases simulation.tree.read (Config.pathFor simulation.environment) with
    | error fault => rfl
    | ok text =>
      simp only [Config.parse?_eq]
      cases Config.table? text <;> rfl

theorem used_eq_ruled (arguments : Arguments) {simulation : Simulation}
    (h : simulation.configFile ≠ .unusable) :
    simulation.used arguments = simulation.ruled arguments := by
  rw [used, ruled, config_eq, Layer.onto_atop, Layer.onto_atop]
  cases hfile : simulation.configFile with
  | unusable => exact absurd hfile h
  | absent => rfl
  | valid members => rfl

theorem used_of_unusable (arguments : Arguments) {simulation : Simulation}
    (h : simulation.configFile = .unusable) :
    simulation.used arguments = (Layer.ofArguments arguments).onto {} := by
  rw [used, config_eq, h]

theorem ruled_of_unusable (arguments : Arguments) {simulation : Simulation}
    (h : simulation.configFile = .unusable) :
    simulation.ruled arguments = (Layer.ofArguments arguments).onto
      ((Layer.ofEnvironment simulation.environment).onto {}) := by
  rw [ruled, h, Layer.onto_atop, Layer.onto_atop]
  rfl

theorem used_eq_ruled_iff (simulation : Simulation) (arguments : Arguments) :
    simulation.used arguments = simulation.ruled arguments ↔
      ¬ (simulation.configFile = .unusable ∧
        (Layer.ofEnvironment simulation.environment).ShowsThrough (.ofArguments arguments) {}) := by
  by_cases hfile : simulation.configFile = .unusable
  · rw [used_of_unusable arguments hfile, ruled_of_unusable arguments hfile, eq_comm,
      Layer.onto_onto_eq_iff]
    simp only [hfile, true_and]
  · exact iff_of_true (used_eq_ruled arguments hfile) fun h => hfile h.1

/-- A run that compiles a sequence does so with the settings in use. -/
theorem run_eq_compileWith (simulation : Simulation) {commandLine : List String} {document : Path}
    {arguments : Arguments} (h : Invocation.parse commandLine = .compile document arguments) :
    ∃ colours between, simulation.Alike between ∧
      simulation.run commandLine =
        reported colours (Command.compileWith (simulation.used arguments)
          arguments.expressions.isSome arguments.output arguments.print colours document)
          between := by
  obtain ⟨colours, between, halike, hrun⟩ := simulation.run_eq_reported commandLine
  refine ⟨colours, between, halike, ?_⟩
  rw [hrun (Command.runCompile simulation.config colours document arguments) (by rw [h]; rfl),
    Command.runCompile_eq_compileWith]
  rfl

/-- **Settings.** A compilation uses the settings of the rule, except with a configuration file
that cannot be used: then the defaults stand in for the environment too, so that it differs from
the rule exactly if a variable gives something else for a setting that the arguments leave open. -/
theorem settings_follow_rule_iff (simulation : Simulation) {commandLine : List String}
    {document : Path} {arguments : Arguments}
    (h : Invocation.parse commandLine = .compile document arguments) :
    (∃ colours between, simulation.Alike between ∧
      simulation.run commandLine =
        reported colours (Command.compileWith (simulation.used arguments)
          arguments.expressions.isSome arguments.output arguments.print colours document)
          between) ∧
    (simulation.used arguments = simulation.ruled arguments ↔
      ¬ (simulation.configFile = .unusable ∧
        (Layer.ofEnvironment simulation.environment).ShowsThrough (.ofArguments arguments) {})) ∧
    (simulation.configFile = .unusable →
      simulation.used arguments = (Layer.ofArguments arguments).onto {}) :=
  ⟨simulation.run_eq_compileWith h, simulation.used_eq_ruled_iff arguments,
    used_of_unusable arguments⟩

/-- A machine with a directory in place of the configuration file, and a variable against folders
of their own for sketches. -/
def unconfigured : Simulation where
  tree := ⟨[("home", .directory [(".chirp", .directory [("config.toml", .directory [])])])], []⟩
  settings := [("HOME", "home"), ("CHIRP_SKETCH_FOLDERS", "false")]

/-- The variable is passed over: the sketch goes into a folder of its own. -/
theorem unconfigured_passes_over_variable :
    unconfigured.configFile = .unusable ∧
    unconfigured.used { document := some ⟨"dance.xml"⟩ } ≠
      unconfigured.ruled { document := some ⟨"dance.xml"⟩ } ∧
    (unconfigured.used { document := some ⟨"dance.xml"⟩ }).sketchFolders = true ∧
    (unconfigured.ruled { document := some ⟨"dance.xml"⟩ }).sketchFolders = false := by
  have hparse : Invocation.parse ["compile", "dance.xml"] =
      .compile ⟨"dance.xml"⟩ { document := some ⟨"dance.xml"⟩ } := by decide
  have hfile : unconfigured.configFile = .unusable := rfl
  have hflag : Config.flagOfText? "false" = some false := by decide
  obtain ⟨-, hiff, hused⟩ := unconfigured.settings_follow_rule_iff hparse
  have hshows : (Layer.ofEnvironment unconfigured.environment).ShowsThrough
      (.ofArguments { document := some ⟨"dance.xml"⟩ }) {} :=
    .inr (.inr (.inr ⟨rfl, false, hflag, by decide⟩))
  refine ⟨hfile, fun heq => hiff.1 heq ⟨hfile, hshows⟩, ?_, ?_⟩
  · rw [hused hfile]
    rfl
  · rw [ruled_of_unusable _ hfile]
    exact congrArg (fun flag => (flag : Option Bool).getD true) hflag

end Simulation

end RobotSketch
