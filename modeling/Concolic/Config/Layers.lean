import Concolic.Config.Library
import Concolic.Config.Search

/-! # Layers of configuration

A configuration has four layers: defaults, a file, a text in the environment, and single variables
of the environment. A later layer is laid over the earlier ones, key by key, and the entries of one
layer in the order of their merging. -/

namespace Concolic

/-- Why there is no configuration. -/
inductive ConfigError where
  /-- The key of a default is no path. -/
  | badPath (key : String)
  /-- A file or a text is not in its format, or is no table. -/
  | badText (format : Format)
  /-- A setting is of the wrong type. -/
  | wrongType (key : String)
  /-- The bound on the number of elements is not positive. -/
  | nonPositiveBound (bound : Int64)
deriving DecidableEq, Repr

/-- The error in words. -/
def ConfigError.message : ConfigError → String
  | badPath key => s!"The key `{key}` is no path"
  | badText _ => "The configuration is not in its format"
  | wrongType key => s!"The setting `{key}` has the wrong type"
  | nonPositiveBound bound => s!"The maximum symbolic size must be positive, got {bound.toInt}"

/-- What loading a configuration warns of. -/
inductive ConfigNotice where
  /-- The text in the environment is in no known format. -/
  | unknownFormat (name : String)
deriving DecidableEq, Repr

/-- The notice in words. -/
def ConfigNotice.message : ConfigNotice → String
  | unknownFormat name => s!"Unknown format for config string: {name}"

/-- All layers of a configuration. -/
structure Layers where
  /-- The settings where no other layer has them. -/
  defaults : Layer
  /-- The settings of the file. -/
  file : Layer
  /-- The settings of the text in the environment. -/
  inline : Layer
  /-- The settings of single variables. -/
  environment : Layer

namespace Layers

/-- The layer of a kind. -/
def get (l : Layers) : LayerKind → Layer
  | .defaults => l.defaults
  | .file => l.file
  | .inline => l.inline
  | .environment => l.environment

/-- `l` with the entries of each layer in the order in which they are merged. -/
def arranged (order : MergeOrder) (l : Layers) : Layers where
  defaults := order.arrange .defaults l.defaults
  file := order.arrange .file l.file
  inline := order.arrange .inline l.inline
  environment := order.arrange .environment l.environment

/-- All layers of `l`, each laid over the ones before. -/
def merged (lib : ConfigLibrary) (l : Layers) : Settings :=
  lib.overlay (lib.overlay (lib.overlay (lib.overlay [] l.defaults) l.file) l.inline) l.environment

/-! ## Where layers come from -/

/-- `layer` with `s` at `p`, where it had at most one setting before. -/
def setDefault (layer : Layer) (p : SettingPath) (s : Setting) : Layer :=
  layer.filter (fun e => e.1 != p) ++ [(p, s)]

/-- The layer of defaults, whose keys have to be paths. Of the defaults at one place the last one
counts. -/
def ofDefaults (lib : ConfigLibrary) (defaults : Settings) : Except ConfigError Layer :=
  defaults.foldlM (fun layer e =>
    match lib.path? e.1 with
    | some p => .ok (setDefault layer p e.2)
    | none => .error (.badPath e.1)) []

/-- The layer of the text `cs` in the format `f`. -/
def ofText (lib : ConfigLibrary) (f : Format) (cs : List Char) : Except ConfigError Layer :=
  match lib.read? f cs with
  | some es => .ok (lib.layerOf es)
  | none => .error (.badText f)

/-- The layer of a configuration file, if there is one. -/
def ofFile (lib : ConfigLibrary) : Option (Format × List UInt8) → Except ConfigError Layer
  | none => .ok []
  | some (f, bytes) => ofText lib f (lib.textOf bytes)

/-- The text in the environment with its format. Both variables have to be set; a format that is not
known is told and the text is passed over. -/
def inlineText (env : Environment) (group : String) :
    Option (Format × String) × List ConfigNotice :=
  match env.value? (group ++ "_CONFIG_STR"), env.value? (group ++ "_CONFIG_STR_FMT") with
  | some text, some name =>
    match Format.ofExtension? name with
    | some f => (some (f, text), [])
    | none => (none, [.unknownFormat name])
  | _, _ => (none, [])

/-- The layer of the text in the environment, if there is one. -/
def ofInline (lib : ConfigLibrary) : Option (Format × String) → Except ConfigError Layer
  | none => .ok []
  | some (f, text) => ofText lib f text.toList

end Layers

/-! ## Loading -/

/-- What a configuration is loaded from. -/
structure ConfigSource where
  /-- The files. -/
  files : FileTree
  /-- The working directory. -/
  workDir : Place
  /-- More directories from which the file is searched upward. -/
  alsoFrom : List Place := []
  /-- The environment. -/
  environment : Environment

namespace ConfigSource

/-- The configuration file of `name`: in the directory where the search for `name` stops, or else in
the working directory. -/
def file? (s : ConfigSource) (name : String) : Option (Format × List UInt8) :=
  match s.files.search? (s.workDir :: s.alsoFrom) name with
  | some dir => s.files.configFile? dir name
  | none => s.files.configFile? s.workDir name

/-- Loads the configuration with the file `name`, the variables of `group` and `defaults`. -/
def load (lib : ConfigLibrary) (order : MergeOrder) (s : ConfigSource) (name group : String)
    (defaults : Settings) : Except ConfigError Settings × List ConfigNotice :=
  match Layers.ofDefaults lib defaults with
  | .error error => (.error error, [])
  | .ok defaults =>
    let (inline, notices) := Layers.inlineText s.environment group
    let result := do
      let file ← Layers.ofFile lib (s.file? name)
      let inline ← Layers.ofInline lib inline
      let environment := lib.layerOf (lib.settingsOf s.environment group)
      return Layers.merged lib (Layers.arranged order ⟨defaults, file, inline, environment⟩)
    (result, notices)

end ConfigSource
end Concolic
