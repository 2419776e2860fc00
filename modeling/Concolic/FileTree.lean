import Concolic.Text.Utf8

/-! # File trees

The files that a program sees: directories and regular files below one root, found by paths from a
working directory. A path that leaves the tree finds nothing. Opening, creating and listing follow
the rules of the operating system, and so do their errors. -/

namespace Concolic

/-- Why a file cannot be used. -/
inductive FileError where
  /-- Nothing has that path. -/
  | notFound
  /-- A directory is used as a file. -/
  | isDirectory
  /-- A file is used as a directory. -/
  | notDirectory
  /-- A name has more bytes than a directory can hold. -/
  | nameTooLong
  /-- The path holds a NUL, which ends paths. -/
  | interiorNul
  /-- The content is no UTF-8 text. -/
  | notText
  /-- The system fails for another reason, in its own words. -/
  | system (words : String)
deriving DecidableEq, Repr

/-- The error in words. -/
def FileError.message : FileError → String
  | notFound => "No such file or directory (os error 2)"
  | isDirectory => "Is a directory (os error 21)"
  | notDirectory => "Not a directory (os error 20)"
  | nameTooLong => "File name too long (os error 36)"
  | interiorNul => "file name contained an unexpected NUL byte"
  | notText => "stream did not contain valid UTF-8"
  | system words => words

/-- What a path leads to. -/
inductive Entry where
  /-- A directory. -/
  | directory
  /-- A regular file with its content. -/
  | file (bytes : List UInt8)
deriving DecidableEq, Repr

/-- The names that lead from the root to an entry. -/
abbrev Place := List String

/-- The files below a root, which is a directory. -/
structure FileTree where
  /-- Entries by their place, the latest put first. -/
  entries : List (Place × Entry) := []
deriving DecidableEq, Repr

namespace FileTree

/-- The entry at `p`; the root is a directory. -/
def get? (t : FileTree) (p : Place) : Option Entry :=
  if p = [] then some .directory else t.entries.lookup p

/-- `t` with `e` put at `p`. -/
def put (t : FileTree) (p : Place) (e : Entry) : FileTree :=
  { entries := (p, e) :: t.entries }

/-- The places that lead to a place, the root excluded and the place included. -/
def wayTo : Place → List Place
  | [] => []
  | name :: rest => [name] :: (wayTo rest).map (name :: ·)

/-- `t` with a directory made at `p`, with all directories that lead to it. -/
def makeDirectory (t : FileTree) (p : Place) : FileTree :=
  (wayTo p).foldl (fun t q => if (t.get? q).isSome then t else t.put q .directory) t

/-- `t` with the file `bytes` made at `p`, with all directories that lead to it. -/
def makeFile (t : FileTree) (p : Place) (bytes : List UInt8) : FileTree :=
  (t.makeDirectory p.dropLast).put p (.file bytes)

/-- The names in the directory `p`. -/
def names (t : FileTree) (p : Place) : List String :=
  t.entries.filterMap fun (q, _) =>
    match q.getLast? with
    | some name => if q.dropLast = p then some name else none
    | none => none

/-! ## Paths -/

/-- The parts of a text between slashes. -/
def splitSlash : List Char → List (List Char)
  | [] => [[]]
  | c :: cs =>
    if c = '/' then [] :: splitSlash cs
    else
      match splitSlash cs with
      | [] => [[c]]
      | part :: parts => (c :: part) :: parts

/-- The parts of a path between slashes. -/
def partsOf (path : String) : List String := (splitSlash path.toList).map String.ofList

/-- The greatest number of bytes in a name. -/
def nameLimit : Nat := 255

/-- Goes from `p` one `part` of a path further. -/
def step (t : FileTree) (p : Place) (part : String) : Except FileError Place :=
  match t.get? p with
  | none => .error .notFound
  | some (.file _) => .error .notDirectory
  | some .directory =>
    if part = "" ∨ part = "." then .ok p
    else if part = ".." then
      if p = [] then .error .notFound else .ok p.dropLast
    else if nameLimit < Utf8.length part.toList then .error .nameTooLong
    else if (t.get? (p ++ [part])).isSome then .ok (p ++ [part])
    else .error .notFound

/-- Follows the parts of a path from `p`. -/
def follow (t : FileTree) (p : Place) : List String → Except FileError Place
  | [] => .ok p
  | part :: parts =>
    match t.step p part with
    | .error error => .error error
    | .ok p => t.follow p parts

/-- Refuses paths that no directory of the tree holds. -/
def checkPath (path : String) : Except FileError Unit :=
  if '\x00' ∈ path.toList then .error .interiorNul
  else if path = "" ∨ path.toList.head? = some '/' then .error .notFound
  else .ok ()

/-- The place that `path` leads to from `workDir`. -/
def locate (t : FileTree) (workDir : Place) (path : String) : Except FileError Place :=
  match checkPath path with
  | .error error => .error error
  | .ok () => t.follow workDir (partsOf path)

/-- Opens the entry at a path for reading. -/
def openPath (t : FileTree) (workDir : Place) (path : String) : Except FileError Entry :=
  match t.locate workDir path with
  | .error error => .error error
  | .ok p =>
    match t.get? p with
    | none => .error .notFound
    | some entry => .ok entry

/-- The place of a file that may be created at `path`: its directory exists, and it is no
directory. -/
def target (t : FileTree) (workDir : Place) (path : String) : Except FileError Place :=
  match checkPath path with
  | .error error => .error error
  | .ok () =>
    let named := (partsOf path).reverse.dropWhile (· == "")
    let slashed := (partsOf path).getLast? = some ""
    match named with
    | [] => .error .notFound
    | name :: before =>
      match t.follow workDir (before.reverse ++ ["."]) with
      | .error error => .error error
      | .ok dir =>
        if slashed then .error .isDirectory
        else if name = "." ∨ name = ".." then .error .isDirectory
        else if nameLimit < Utf8.length name.toList then .error .nameTooLong
        else if t.get? (dir ++ [name]) = some .directory then .error .isDirectory
        else .ok (dir ++ [name])

/-- The bytes of the file at a path, read to the end. A directory can be opened, but it cannot be
read. -/
def readPath (t : FileTree) (workDir : Place) (path : String) : Except FileError (List UInt8) :=
  match t.openPath workDir path with
  | .error error => .error error
  | .ok .directory => .error .isDirectory
  | .ok (.file bytes) => .ok bytes

/-- The content of a regular file at a path. -/
def contentAt? (t : FileTree) (workDir : Place) (path : String) : Option (List UInt8) :=
  match t.openPath workDir path with
  | .ok (.file bytes) => some bytes
  | _ => none

end FileTree
end Concolic
