import Concolic.Config.Format
import Concolic.FileTree

/-! # Searching for configuration files

A configuration file is searched for by the front of its name, from a directory upward. The search
stops at the first directory with any entry whose name starts that way; which file of that directory
is read depends on its whole name. So an entry with a longer name hides the files of directories
further up. -/

namespace Concolic

/-- The directories from `p` upward, `p` first. -/
def Place.upward (p : Place) : List Place := (FileTree.wayTo p).reverse ++ [[]]

/-- The place that `path` leads to from `p` if no part of it leads back. -/
def Place.join (p : Place) (path : String) : Place :=
  p ++ (FileTree.partsOf path).filter fun part => part != "" && part != "."

/-- The path of a place from the root. -/
def Place.text (p : Place) : String := String.intercalate "/" p

namespace FileTree

/-- Whether the directory `p` has an entry whose name starts with `start`. -/
def hasEntry (t : FileTree) (p : Place) (start : String) : Bool :=
  (t.names p).any fun name => start.toList.isPrefixOf name.toList

/-- The first directory from `starts` upward with `t.hasEntry p start`. -/
def search? (t : FileTree) (starts : List Place) (start : String) : Option Place :=
  (starts.flatMap Place.upward).find? fun p => t.hasEntry p start

/-! ## Files with extensions -/

/-- The extension of a file's name: what is behind the last point, which does not start the name. -/
def extension? (name : String) : Option String :=
  let behind := name.toList.reverse.takeWhile (· != '.')
  if behind.length + 1 < name.toList.length then some (String.ofList behind.reverse) else none

/-- `p` with `ending` added to its name. The root and the way back have no name. -/
def extended? (p : Place) (ending : String) : Option Place :=
  match p.getLast? with
  | none => none
  | some name => if name = ".." then none else some (p.dropLast ++ [name ++ ending])

/-- The content of a regular file on the way from the root. -/
def fileAt? (t : FileTree) (p : Place) : Option (List UInt8) :=
  match t.follow [] p with
  | .error _ => none
  | .ok q =>
    match t.get? q with
    | some (.file bytes) => some bytes
    | _ => none

/-- The configuration file of a name in a directory, and its format: the file of that very name if
there is one, and otherwise the first with an extension of a format behind the name. A file of that
very name without such an extension is none, and hides the others. -/
def configFile? (t : FileTree) (dir : Place) (name : String) : Option (Format × List UInt8) :=
  if '\x00' ∈ name.toList ∨ name.toList.head? = some '/' then none
  else
    match t.contentAt? dir name with
    | some bytes =>
      match ((dir.join name).getLast?.bind extension?).bind Format.ofExtension? with
      | some f => some (f, bytes)
      | none => none
    | none =>
      Format.allExtensions.findSome? fun extension => do
        let p ← extended? (dir.join name) ("." ++ extension)
        let bytes ← t.fileAt? p
        let f ← Format.ofExtension? extension
        return (f, bytes)

end FileTree
end Concolic
