import LogicTest.Directory.Tree

/-!
# The files of a directory

A search for files goes depth first and through each directory in the order of its names. The path
of what it meets is that of the directory, a slash unless it ends in one, and the name. A directory
is listed by its path: one whose path cannot be followed is met, but what is in it is not.
-/
namespace LogicTest

/-- What a search meets: a file, or a path that it cannot go on from. -/
inductive Found where
  | file (path : Path) (content : List UInt8) | closed (path : Path) (cause : FileError)
  deriving DecidableEq, Repr

namespace Directory

/-- What a search meets below a directory, its entries taken as they stand; `stem` is the path of
the directory up to and including its last slash. -/
def found (stem : Path) : Directory → List Found
  | empty => []
  | file name content others => .file (stem ++ name) content :: others.found stem
  | sub name entries others =>
    (match pathError? (stem ++ name) with
      | some cause => [.closed (stem ++ name) cause]
      | none => entries.found (stem ++ name ++ [slash])) ++ others.found stem

end Directory

/-- What a search meets that starts at an entry of path `root`. -/
def Entry.found (root : Path) : Entry → List Found
  | file content => [.file root content]
  | directory entries =>
    entries.sorted.found
      (if root.getLast? = some Directory.slash then root else root ++ [Directory.slash])

/-- What a search meets at or below `root`, which has to lead somewhere. -/
def findFiles (view : FileView) (root : Path) : List Found :=
  match view root with
  | .ok entry => entry.found root
  | .error cause => [.closed root cause]

end LogicTest
