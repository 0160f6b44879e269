import LogicTest.Directory.Basic

/-!
# Paths

A path is made of steps between slashes and is followed from a directory: a name leads to the entry
of that name, two dots lead to the parent, one dot or an empty step nowhere else; the root is its
own parent. Each step starts from a directory, so what follows a file's name, be it only a slash, is
an error.

A path as a whole is limited in length, whether or not what it leads to exists, and so is a name,
once it is looked for in a directory. Like names, paths are bytes; where they are shown, bytes that
are not those of a text are replaced.
-/
namespace LogicTest

abbrev Path := List UInt8

namespace Path

def ofText (text : Text) : Path := Utf8.encode text

/-- The path as it is shown. -/
def display (path : Path) : Text := Utf8.decodeLossy path

end Path

/-- Why the system refuses to open, list, create or write what a path names. -/
inductive FileError where
  | notFound | notDirectory | isDirectory | nameTooLong | nulByte | noSpace | other (reason : Text)
  deriving DecidableEq, Repr

def FileError.message : FileError → Text
  | notFound => "No such file or directory (os error 2)".toList
  | notDirectory => "Not a directory (os error 20)".toList
  | isDirectory => "Is a directory (os error 21)".toList
  | nameTooLong => "File name too long (os error 36)".toList
  | nulByte => "file name contained an unexpected NUL byte".toList
  | noSpace => "No space left on device (os error 28)".toList
  | other reason => reason

namespace Directory

def slash : UInt8 := 0x2F

def dot : UInt8 := 0x2E

def nul : UInt8 := 0

/-- The length of the longest name. -/
def nameLimit : Nat := 255

/-- The length of the longest path. -/
def pathLimit : Nat := 4095

/-- Why a path cannot be followed, whatever there is. -/
def pathError? (path : Path) : Option FileError :=
  if nul ∈ path then some .nulByte
  else if path.length > pathLimit then some .nameTooLong
  else if path.isEmpty then some .notFound
  else none

/-- Whether a step leads nowhere but to the directory that it starts from. -/
def staysPut (step : Name) : Bool := step = [] || step = [dot]

def leadsUp (step : Name) : Bool := step = [dot, dot]

/-- The answer to a name that is in no entry of a directory. -/
def missing (name : Name) : FileError :=
  if name.length > nameLimit then .nameTooLong else .notFound

/-- Follows steps from a location, all locations being those in the directory `root`. -/
def follow (root : Directory) : List Name → List Name → Except FileError (List Name)
  | here, [] => .ok here
  | here, step :: steps =>
    match root.entryAt? here with
    | none => .error .notFound
    | some (.file _) => .error .notDirectory
    | some (.directory _) =>
      if staysPut step then root.follow here steps
      else if leadsUp step then root.follow here.dropLast steps
      else if (root.entryAt? (here ++ [step])).isSome then root.follow (here ++ [step]) steps
      else .error (missing step)

/-- Why no file can be made under `name` in the directory at a location. That a directory is named
is found out before the name is looked for. -/
def creationError? (root : Directory) (here : List Name) (name : Name) : Option FileError :=
  match root.entryAt? here with
  | none => some .notFound
  | some (.file _) => some .notDirectory
  | some (.directory entries) =>
    if staysPut name || leadsUp name then some .isDirectory
    else if name.length > nameLimit then some .nameTooLong
    else match entries.find? name with
      | some (.directory _) => some .isDirectory
      | _ => none

end Directory
end LogicTest
