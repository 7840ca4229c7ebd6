import Ravel.Path

/-!
# Files

The files and directories below the directory that a program runs in. Whatever only looks at files
does so through a `Reader`, which the tree is one source of. A reader stands for `os.Stat`,
`os.ReadFile` and `os.Open` with what is read from there.
-/

namespace Ravel

/-- Why a file cannot be opened, read or created. -/
inductive FileError where
  | missing
  /-- A path goes on below a file. -/
  | notDirectory
  | isDirectory
  | nameTooLong
  | denied
  deriving DecidableEq, Repr

namespace FileError

/-- The message of an error. -/
def message : FileError → Text
  | .missing => Text.ofString "no such file or directory"
  | .notDirectory => Text.ofString "not a directory"
  | .isDirectory => Text.ofString "is a directory"
  | .nameTooLong => Text.ofString "file name too long"
  | .denied => Text.ofString "permission denied"

/-- The message of an error with what was done to which path. -/
def during (action : String) (path : Text) (e : FileError) : Text :=
  Text.ofString action ++ 32 :: path ++ Text.ofString ": " ++ e.message

/-- The message of an error in reading. A directory can be opened, but not read. -/
def whenReading (path : Text) : FileError → Text
  | .isDirectory => FileError.isDirectory.during "read" path
  | e => e.during "open" path

/-- The message of an error in creating. -/
def whenCreating (path : Text) (e : FileError) : Text := e.during "open" path

end FileError

/-- How a program looks at files: whether there is something at a path, and what the file there
holds. What is there need not be readable. -/
structure Reader where
  stat : Text → Except FileError Unit
  read : Text → Except FileError Text

instance : CoeFun Reader fun _ => Text → Except FileError Text := ⟨Reader.read⟩

/-- There is a file or a directory of a path. -/
def Reader.exists (files : Reader) (path : Text) : Bool := (files.stat path).isOk

/-- What stands at a place in a tree. -/
inductive FileTree.Entry where
  | file (content : Text)
  | directory
  deriving DecidableEq, Repr

/-- A tree of files: its entries by the names on the way to them. -/
structure FileTree where
  entries : List (List Text × FileTree.Entry) := []

namespace FileTree

/-- The longest name that a file can have. -/
def nameLimit : Nat := 255

/-- Follows the elements of a path from a directory: the place that they lead to and what stands
there. All but the last of them have to lead to directories. -/
def follow (tree : FileTree) (place : List Text) :
    List Text → Except FileError (List Text × Option Entry)
  | [] => .ok (place, some .directory)
  | element :: rest =>
    if element.isEmpty || element = Path.current then tree.follow place rest
    else if element = Path.parent then tree.follow place.dropLast rest
    else if nameLimit < element.length then .error .nameTooLong
    else
      let place := place ++ [element]
      match tree.entries.lookup place with
      | some .directory => tree.follow place rest
      | some (.file content) =>
        if rest.isEmpty then .ok (place, some (.file content)) else .error .notDirectory
      | none => if rest.isEmpty then .ok (place, none) else .error .missing

/-- The place that a path leads to and what stands there. The tree holds nothing for a path from
the root of the system. -/
def find (tree : FileTree) (path : Text) : Except FileError (List Text × Option Entry) :=
  if path.isEmpty || Path.isRooted path then .error .missing
  else tree.follow [] (Path.elements path)

/-- Whether there is something at a path. -/
def stat (tree : FileTree) (path : Text) : Except FileError Unit :=
  match tree.find path with
  | .error e => .error e
  | .ok (_, none) => .error .missing
  | .ok (_, some _) => .ok ()

/-- The contents of a file. -/
def content (tree : FileTree) (path : Text) : Except FileError Text :=
  match tree.find path with
  | .error e => .error e
  | .ok (_, none) => .error .missing
  | .ok (_, some .directory) => .error .isDirectory
  | .ok (_, some (.file content)) => .ok content

/-- A tree as it is looked at. -/
def read (tree : FileTree) : Reader := ⟨tree.stat, tree.content⟩

/-- Creates a file or replaces its contents. -/
def write (tree : FileTree) (path content : Text) : Except FileError FileTree :=
  match tree.find path with
  | .error e => .error e
  | .ok (_, some .directory) => .error .isDirectory
  | .ok (place, _) => .ok ⟨(place, .file content) :: tree.entries⟩

/-- Adds a directory and those above it. -/
def addDirectory (tree : FileTree) (path : Text) : FileTree :=
  let names := (Path.elements path).filter fun e => !e.isEmpty && e != Path.current
  ⟨(List.range names.length).map (fun n => (names.take (n + 1), .directory)) ++ tree.entries⟩

/-- Adds a file and the directories above it. -/
def addFile (tree : FileTree) (path content : Text) : FileTree :=
  let names := (Path.elements path).filter fun e => !e.isEmpty && e != Path.current
  let above := tree.addDirectory (Text.join [47] names.dropLast)
  ⟨(names, .file content) :: above.entries⟩

end FileTree

end Ravel
