import Concolic.Config.Format.Ini
import Concolic.Config.Format.Json
import Concolic.Config.Format.Json5
import Concolic.Config.Format.Ron
import Concolic.Config.Format.Toml
import Concolic.Config.Format.Yaml

/-! # Formats of configurations

The formats that a configuration may be written in. The extension of a file's name says which it is.
The outermost setting is a table, whose entries are what is read. -/

namespace Concolic

/-- A format of configurations. -/
inductive Format where
  | toml
  | json
  | json5
  | yaml
  | ron
  | ini
deriving DecidableEq, Repr

namespace Format

/-- All formats. -/
def all : List Format := [toml, json, json5, yaml, ron, ini]

/-- The extensions of files in a format. -/
def extensions : Format → List String
  | toml => ["toml"]
  | json => ["json"]
  | json5 => ["json5"]
  | yaml => ["yaml", "yml"]
  | ron => ["ron"]
  | ini => ["ini"]

/-- The format of an extension. -/
def ofExtension? (extension : String) : Option Format :=
  all.find? fun f => extension ∈ f.extensions

/-- The extensions of all formats. -/
def allExtensions : List String := all.flatMap extensions

/-- `all` lists every format. -/
theorem mem_all (f : Format) : f ∈ all := by
  cases f <;> decide

/-- `ofExtension? extension` is some format iff `extension ∈ allExtensions`. -/
theorem ofExtension?_isSome_iff (extension : String) :
    (ofExtension? extension).isSome ↔ extension ∈ allExtensions := by
  simp [ofExtension?, allExtensions]

/-- The setting that a text is in a format. -/
def setting? (f : Format) (cs : List Char) : Option Setting :=
  match f with
  | toml => Toml.read? cs
  | json => Setting.readJson? cs
  | json5 => Json5.read? cs
  | yaml => Yaml.read? cs
  | ron => Ron.read? cs
  | ini => Ini.read? cs

/-- Reads a configuration. -/
def read? (f : Format) (cs : List Char) : Option Settings :=
  match f.setting? cs with
  | some (.table entries) => some entries
  | _ => none

end Format
end Concolic
