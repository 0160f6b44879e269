import LogicTest.Directory.Path

/-!
# File trees

A process sees one tree of files from its root, and has a current directory in it. A path that
begins with a slash is followed from the root, any other from the current directory. Files can be
limited in size, so that a file which was made cannot always be written.
-/
namespace LogicTest

/-- The size up to which a file can be written, and why it cannot be written on from there. -/
structure WriteLimit where
  size : Nat
  cause : FileError
  deriving DecidableEq, Repr

structure FileTree where
  root : Directory
  /-- the location of the current directory -/
  current : List Name
  limit : Option WriteLimit
  deriving DecidableEq, Repr

/-- What paths lead to. -/
abbrev FileView := Path → Except FileError Entry

namespace FileTree

/-- Where a path starts. -/
def origin (tree : FileTree) (path : Path) : List Name :=
  if path.head? = some Directory.slash then [] else tree.current

/-- The location that a path leads to. -/
def follow (tree : FileTree) (path : Path) : Except FileError (List Name) :=
  tree.root.follow (tree.origin path) (path.splitOn Directory.slash)

/-- The entry that a path leads to. -/
def lookup (tree : FileTree) : FileView := fun path => do
  if let some cause := Directory.pathError? path then throw cause
  match tree.root.entryAt? (← tree.follow path) with
  | some entry => return entry
  | none => throw .notFound

/-- The content of the file that a path leads to. -/
def contentAt? (tree : FileTree) (path : Path) : Option (List UInt8) :=
  match tree.lookup path with
  | .ok (.file content) => some content
  | _ => none

def put (tree : FileTree) (entry : Entry) (location : List Name) : FileTree :=
  { tree with root := tree.root.put entry location }

/-- Where a file is made that `path` names, or is if it is there. The directory for it has to exist;
a path that ends in a slash does not name a file. -/
def target (tree : FileTree) (path : Path) : Except FileError (List Name) := do
  if let some cause := Directory.pathError? path then throw cause
  let named := (path.reverse.dropWhile (· == Directory.slash)).reverse
  let steps := named.splitOn Directory.slash
  let name := if named = path then steps.getLastD [] else []
  let parent ← tree.root.follow (tree.origin path) steps.dropLast
  match tree.root.creationError? parent name with
  | some cause => throw cause
  | none => return parent ++ [name]

/-- Makes the file at a location and writes its content, of which it refuses what is above the
limit. -/
def fill (tree : FileTree) (location : List Name) (content : List UInt8) :
    FileTree × Option FileError :=
  match tree.limit.filter (·.size < content.length) with
  | none => (tree.put (.file content) location, none)
  | some limit => (tree.put (.file (content.take limit.size)) location, some limit.cause)

end FileTree
end LogicTest
