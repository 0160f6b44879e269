import LogicTest.Text.Utf8

/-!
# Directories

A directory is a finite tree of named files and directories; there are no links. Its entries stand
in no particular order, and whoever needs an order sorts them. Names are bytes, and compared as
such: the bytes need not be those of a text.
-/
namespace LogicTest

/-- The name of a file or a directory. -/
abbrev Name := List UInt8

/-- The entries of a directory: none, or one entry and the others. -/
inductive Directory where
  | empty
  | file (name : Name) (content : List UInt8) (others : Directory)
  | sub (name : Name) (entries : Directory) (others : Directory)
  deriving DecidableEq, Repr

/-- What a path leads to. -/
inductive Entry where
  | file (content : List UInt8) | directory (entries : Directory)
  deriving DecidableEq, Repr

namespace Directory

/-- A directory with one entry in front of the others. -/
def cons (name : Name) (entry : Entry) (others : Directory) : Directory :=
  match entry with
  | .file content => file name content others
  | .directory entries => sub name entries others

def find? (name : Name) : Directory → Option Entry
  | empty => none
  | file other content others => if other = name then some (.file content) else others.find? name
  | sub other entries others =>
    if other = name then some (.directory entries) else others.find? name

/-- Makes `entry` the one entry under `name`, in the place of the former one if there is one. -/
def set (name : Name) (entry : Entry) : Directory → Directory
  | empty => cons name entry empty
  | file other content others =>
    if other = name then cons name entry others else file other content (others.set name entry)
  | sub other entries others =>
    if other = name then cons name entry others else sub other entries (others.set name entry)

/-- The entries of the directory `name`: none if there is no such directory. -/
def subdirectory (directory : Directory) (name : Name) : Directory :=
  match directory.find? name with
  | some (.directory entries) => entries
  | _ => empty

/-- The entry at a location, the names from the top downwards. -/
def entryAt? (directory : Directory) : List Name → Option Entry
  | [] => some (.directory directory)
  | [name] => directory.find? name
  | name :: rest => match directory.find? name with
    | some (.directory entries) => entries.entryAt? rest
    | _ => none

/-- Makes `entry` the entry at a location, with the directories on the way to it. -/
def put (entry : Entry) : List Name → Directory → Directory
  | [], directory => directory
  | [name], directory => directory.set name entry
  | name :: rest, directory =>
    directory.set name (.directory (put entry rest (directory.subdirectory name)))

/-- Puts an entry before the first one of a greater name. -/
def insert (name : Name) (entry : Entry) : Directory → Directory
  | empty => cons name entry empty
  | file other content others =>
    if name < other then cons name entry (file other content others)
    else file other content (others.insert name entry)
  | sub other entries others =>
    if name < other then cons name entry (sub other entries others)
    else sub other entries (others.insert name entry)

/-- The same tree with the entries of every directory in the order of their names. -/
def sorted : Directory → Directory
  | empty => empty
  | file name content others => others.sorted.insert name (.file content)
  | sub name entries others => others.sorted.insert name (.directory entries.sorted)

end Directory
end LogicTest
