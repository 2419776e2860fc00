import Concolic.Config.Environment
import Concolic.Config.Format
import Concolic.Config.Path
import Concolic.Text.Utf8

/-! # The library behind configurations

How texts are read, keys are understood as paths, variables become settings and one setting is laid
over others is up to a library: configurations are loaded over any `ConfigLibrary`. The one at hand,
`ConfigLibrary.standard`, is made of the readers of each format and of the laying of settings over
the place at a path. A library keeps the entries of a source in maps that have no order, so in which
order these are merged is a parameter as well (`MergeOrder`). -/

namespace Concolic

/-- What a configuration is loaded with. -/
structure ConfigLibrary where
  /-- The text of a file. -/
  textOf (bytes : List UInt8) : List Char
  /-- The entries of the table that a text is in a format. -/
  read? (format : Format) (text : List Char) : Option Settings
  /-- The path that a key spells, if it spells one. -/
  path? (key : String) : Option SettingPath
  /-- The settings that the variables of a group are. -/
  settingsOf (env : Environment) (group : String) : Settings
  /-- Entries with a setting laid over the place at a path. -/
  lay (path : SettingPath) (new : Setting) (es : Settings) : Settings
  /-- The integer that a setting stands for. -/
  integer? (s : Setting) : Option Int64

/-- The mark of the byte order, which may start a file. -/
def byteOrderMark : List UInt8 := [0xEF, 0xBB, 0xBF]

/-- The library at hand: the text of a file goes without a mark of the byte order at its start. -/
def ConfigLibrary.standard : ConfigLibrary where
  textOf bytes := Utf8.decodeLossy (if byteOrderMark.isPrefixOf bytes then bytes.drop 3 else bytes)
  read? := Format.read?
  path? := SettingPath.ofText?
  settingsOf := Environment.settings
  lay := SettingPath.lay
  integer? := Setting.toInt64?

/-! ## Layers -/

/-- Settings with the places that they are laid over. -/
abbrev Layer := List (SettingPath × Setting)

/-- Where a layer of a configuration comes from. -/
inductive LayerKind where
  /-- The settings where no other layer has them. -/
  | defaults
  /-- The settings of the file. -/
  | file
  /-- The settings of the text in the environment. -/
  | inline
  /-- The settings of single variables. -/
  | environment
deriving DecidableEq, Repr

/-- The order in which the entries of each layer are merged: `(arrange kind layer).Perm layer`. -/
structure MergeOrder where
  /-- The entries in order. -/
  arrange (kind : LayerKind) (layer : Layer) : Layer
  /-- Each entry is there once. -/
  perm (kind : LayerKind) (layer : Layer) : (arrange kind layer).Perm layer

/-- The order in which the entries are listed. -/
def MergeOrder.listed : MergeOrder where
  arrange _ layer := layer
  perm _ layer := .refl layer

namespace ConfigLibrary

variable (lib : ConfigLibrary)

/-- The path that `key` stands for: `lib.path? key`, or else the key as it is. -/
def pathOf (key : String) : SettingPath := (lib.path? key).getD ⟨key, []⟩

/-- The layer of `es`: each setting goes to `lib.pathOf` of its key. -/
def layerOf (es : Settings) : Layer := es.map fun e => (lib.pathOf e.1, e.2)

/-- `layer` laid over `es`, one entry after the other. -/
def overlay (es : Settings) (layer : Layer) : Settings :=
  layer.foldl (fun es e => lib.lay e.1 e.2 es) es

end ConfigLibrary
end Concolic
