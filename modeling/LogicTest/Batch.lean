import LogicTest.Directory.Search
import LogicTest.Script

/-!
# Batches of script files

Every file at or below a root is a script, named by its path as it is shown. Each is parsed on its
own: neither a file that cannot be parsed nor a root that does not exist keeps the others from being
parsed.
-/
namespace LogicTest

/-- The failure of a search at `path`. -/
def ScriptError.ofSearch (path : Path) (cause : FileError) : ScriptError :=
  ⟨path.display, 0, .searchFailed path.display cause⟩

/-- A file that cannot be opened. -/
def ScriptError.ofOpen (path : Path) (cause : FileError) : ScriptError :=
  ⟨path.display, 0, .openFailed cause⟩

/-- The paths of the files at or below `root`, and the errors of the search. -/
def walk (view : FileView) (root : Path) : List (Except ScriptError Path) :=
  (findFiles view root).map fun
    | .file path _ => .ok path
    | .closed path cause => .error (.ofSearch path cause)

/-- A parse that fails before anything is read. -/
def Parse.failed (error : ScriptError) : Parse := ⟨.error error, [], [], []⟩

/-- Parses a file that was found. -/
def parseContent (policy : Policy) (path : Path) (content : List UInt8) : Parse :=
  parse policy path.display (.ofBytes content)

/-- Parses the file that `path` leads to. -/
def parseFile (policy : Policy) (view : FileView) (path : Path) : Parse :=
  match view path with
  | .ok (.file content) => parseContent policy path content
  | .ok (.directory _) => .failed (.ofOpen path .isDirectory)
  | .error cause => .failed (.ofOpen path cause)

/-- Parses what a search met; a file is opened by its path. With the failure of a search stands the
path that it is reported with, which is a text. -/
def parseFound (policy : Policy) : Found → Path × Parse
  | .file path content => (path, match Directory.pathError? path with
    | some cause => .failed (.ofOpen path cause)
    | none => parseContent policy path content)
  | .closed path cause => (.ofText path.display, .failed (.ofSearch path cause))

/-- Parses every file at or below the roots; with each parse stands the path that it is of. -/
def parseFiles (policy : Policy) (view : FileView) (roots : List Path) : List (Path × Parse) :=
  roots.flatMap fun root => (findFiles view root).map (parseFound policy)

end LogicTest
