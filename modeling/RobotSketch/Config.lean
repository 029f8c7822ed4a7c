import RobotSketch.Files
import RobotSketch.Toml.Reader

/-!
# Configuration

Settings come from the built-in defaults, from the configuration file, and from the environment,
each overriding the ones before. A file that cannot be used is an error, and a variable that
cannot be used is passed over.
-/
namespace RobotSketch

/-- What to do about missing documents. -/
inductive Policy where
  /-- Ask each time. -/
  | prompt
  /-- Leave them out. -/
  | skip
  /-- Stop the run. -/
  | abort
  deriving DecidableEq, Repr

namespace Policy

def word : Policy → String
  | .prompt => "prompt"
  | .skip => "skip"
  | .abort => "abort"

def ofWord? : String → Option Policy
  | "prompt" => some .prompt
  | "skip" => some .skip
  | "abort" => some .abort
  | _ => none

/-- Reads a policy, apart from case and blanks at the ends. The error is the message that says
what is wrong. -/
def read (text : String) : Except String Policy :=
  let word := Text.asciiLowered (Text.trimmed text)
  match ofWord? word with
  | some policy => .ok policy
  | none => .error s!"unknown missing-reference policy '{word}'"

end Policy

structure Config where
  /-- Where sketches are written. -/
  outputDirectory : Path := ⟨"."⟩
  /-- Where expressions are found. -/
  expressions : Path := ⟨"expressions"⟩
  onMissing : Policy := .prompt
  /-- Whether each sketch has a folder of its own. -/
  sketchFolders : Bool := true
  deriving DecidableEq, Repr

namespace Config

/-! ## The file -/

/-- The settings as the text of a configuration file. -/
def render (config : Config) : String :=
  let folders := if config.sketchFolders then "true" else "false"
  s!"output_dir = {Toml.quoted config.outputDirectory.text}\n" ++
    s!"expressions_dir = {Toml.quoted config.expressions.text}\n" ++
    s!"on_missing = {Toml.quoted config.onMissing.word}\n" ++
    s!"sketch_folders = {folders}\n"

/-- The path that an item stands for. -/
def pathOf? : Toml.Item → Option Path
  | .string text => some ⟨text⟩
  | _ => none

/-- Whether an item holds nothing. -/
def isHollow : Toml.Item → Bool
  | .array items => items.isEmpty
  | .inline members => members.isEmpty
  | .table _ members => members.isEmpty
  | .tables list => list.isEmpty
  | _ => false

/-- The policy that an item stands for: a word, or a table that holds nothing under one word. -/
def policyOf? : Toml.Item → Option Policy
  | .string word => Policy.ofWord? word
  | .inline [(word, item)] => if isHollow item then Policy.ofWord? word else none
  | .table _ [(word, item)] => if isHollow item then Policy.ofWord? word else none
  | _ => none

def flagOf? : Toml.Item → Option Bool
  | .bool value => some value
  | _ => none

/-- The setting under a key, or the default if the key is absent. -/
def setting? {α : Type} (members : Toml.Members) (key : String) (read : Toml.Item → Option α)
    (default : α) : Option α :=
  match members.lookup key with
  | some item => read item
  | none => some default

/-- The settings that a table holds. -/
def ofMembers? (members : Toml.Members) : Option Config := do
  let default : Config := {}
  return {
    outputDirectory := ← setting? members "output_dir" pathOf? default.outputDirectory
    expressions := ← setting? members "expressions_dir" pathOf? default.expressions
    onMissing := ← setting? members "on_missing" policyOf? default.onMissing
    sketchFolders := ← setting? members "sketch_folders" flagOf? default.sketchFolders }

/-- The settings that the text of a configuration file holds. -/
def parse? (text : String) : Option Config := Toml.parse? text >>= ofMembers?

end Config

/-! ## The environment -/

/-- The variables that are set, with their values. -/
abbrev Environment := String → Option String

namespace Config

/-- The truth value that the text of a variable stands for. -/
def flagOfText? (text : String) : Option Bool :=
  match Text.trimmed text with
  | "true" => some true
  | "false" => some false
  | _ => none

/-- The settings with those that the environment overrides. -/
def overridden (config : Config) (environment : Environment) : Config where
  outputDirectory := ((environment "CHIRP_OUTPUT_DIR").map (⟨·⟩)).getD config.outputDirectory
  expressions := ((environment "CHIRP_EXPRESSIONS_DIR").map (⟨·⟩)).getD config.expressions
  onMissing := ((environment "CHIRP_ON_MISSING").bind fun text => (Policy.read text).toOption).getD
    config.onMissing
  sketchFolders := ((environment "CHIRP_SKETCH_FOLDERS").bind flagOfText?).getD
    config.sketchFolders

/-- Where the configuration file is, given the home directory. -/
def pathIn (home : String) : Path := ((⟨home⟩ : Path).join ".chirp").join "config.toml"

def pathFor (environment : Environment) : Path :=
  pathIn ((environment "HOME" <|> environment "USERPROFILE").getD ".")

end Config

/-! ## Loading and saving -/

/-- Why a configuration file cannot be used. -/
inductive ConfigError where
  | unreadable (path : Path) (fault : Fault)
  /-- The text is no configuration, for the reason that the reader of its format gives. -/
  | unparsable (details : String)
  | noDirectory (fault : Fault)
  | unwritable (path : Path) (fault : Fault)
  deriving DecidableEq, Repr

def ConfigError.message : ConfigError → String
  | .unreadable path fault => s!"Failed to read config at {path.text}: {fault.message}"
  | .unparsable details => s!"Failed to parse config: {details}"
  | .noDirectory fault => s!"Failed to create config directory: {fault.message}"
  | .unwritable path fault => s!"Failed to write config at {path.text}: {fault.message}"

namespace Config

variable {m : Type → Type} [Monad m] [Files m]

/-- Loads the settings from a file, if it is there, with those that the environment overrides.
`describe` words what is wrong with a text that is no configuration. -/
def load (describe : String → String) (environment : Environment) (path : Path) :
    m (Except ConfigError (Option Config)) := do
  if ← Files.hasEntry path then
    match ← Files.read path with
    | .error fault => return .error (.unreadable path fault)
    | .ok text =>
      match parse? text with
      | none => return .error (.unparsable (describe text))
      | some config => return .ok (some (config.overridden environment))
  else return .ok none

/-- Loads the settings from the configuration file; without one they are the defaults with those
that the environment overrides. -/
def loadOrDefault (describe : String → String) (environment : Environment) :
    m (Except ConfigError Config) := do
  return (← load describe environment (pathFor environment)).map fun config =>
    config.getD (({} : Config).overridden environment)

/-- Saves settings in a file, with the directories it needs. -/
def save (config : Config) (path : Path) : m (Except ConfigError Unit) := do
  match ← (match path.parent? with
      | some parent => Files.makeDirectories parent
      | none => return .ok ()) with
  | .error fault => return .error (.noDirectory fault)
  | .ok () => return (← Files.write path config.render).mapError (.unwritable path)

end Config

end RobotSketch
