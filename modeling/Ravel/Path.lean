import Ravel.Text.Basic

/-!
# Paths

The path of a file: elements with slashes between them. Paths are tidied by their text alone, so
an element `..` takes the element before it away whether or not that is a directory.

Source: `filepath.Join`, `filepath.Ext`.
-/

namespace Ravel.Path

/-- The element that stands for the directory itself. -/
def current : Text := [46]

/-- The element that stands for the directory above. -/
def parent : Text := [46, 46]

/-- The elements of a path; slashes in a row have empty elements between them. -/
def elements (path : Text) : List Text := path.splitOn 47

/-- A path that starts at the root. -/
def isRooted (path : Text) : Bool := path.head? = some 47

/-- Adds an element to those of a tidy path, the last one first. -/
def push (rooted : Bool) (stack : List Text) (element : Text) : List Text :=
  if element.isEmpty || element = current then stack
  else if element = parent then
    match stack with
    | [] => if rooted then [] else [parent]
    | top :: rest => if top = parent then parent :: stack else rest
  else element :: stack

/-- The shortest path with the same elements, as far as the text tells; never empty. -/
def clean (path : Text) : Text :=
  let rooted := isRooted path
  let body := Text.join [47] ((elements path).foldl (push rooted) []).reverse
  if rooted then 47 :: body else if body.isEmpty then current else body

/-- The path of a name in a directory; an empty directory does not count. -/
def join (directory name : Text) : Text :=
  if directory.isEmpty then clean name else clean (directory ++ 47 :: name)

/-- The extension of a path: what its last element has from its last point on. -/
def extension (path : Text) : Text :=
  let last := path.reverse.takeWhile (· != 47)
  if last.contains 46 then 46 :: (last.takeWhile (· != 46)).reverse else []

end Ravel.Path
