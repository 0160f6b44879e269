import LogicTest.Batch
import LogicTest.Proofs.Directory.Found

/-!
# Outlines

The outline of a file tree is what is left of it when its files are emptied. Where paths lead, what
a search meets and in which order, depends on the outline only (`walk_outline`); and a file that
takes the place of another does not change it (`outline_put`).
-/
namespace LogicTest

def Directory.outline : Directory → Directory
  | empty => empty
  | file name _ others => file name [] others.outline
  | sub name entries others => sub name entries.outline others.outline

def Entry.outline : Entry → Entry
  | file _ => file []
  | directory entries => directory entries.outline

def Found.outline : Found → Found
  | file path _ => file path []
  | closed path cause => closed path cause

def FileTree.outline (tree : FileTree) : FileTree := { tree with root := tree.root.outline }

namespace Directory

theorem outline_cons (name : Name) (entry : Entry) (others : Directory) :
    (cons name entry others).outline = cons name entry.outline others.outline := by
  cases entry <;> rfl

theorem find?_outline (name : Name) (directory : Directory) :
    directory.outline.find? name = (directory.find? name).map Entry.outline := by
  induction directory using consInduction with
  | empty => rfl
  | cons other entry others _ ih =>
    rw [outline_cons, find?_cons, find?_cons]
    split
    · rfl
    · exact ih

/-! ## Where paths lead -/

theorem entryAt?_outline (directory : Directory) (location : List Name) :
    directory.outline.entryAt? location = (directory.entryAt? location).map Entry.outline := by
  induction location generalizing directory with
  | nil => rfl
  | cons name rest ih =>
    rw [entryAt?_cons, entryAt?_cons, find?_outline]
    cases directory.find? name with
    | none => rfl
    | some entry =>
      cases entry with
      | directory entries => simpa [Entry.outline] using ih entries
      | file content => cases rest <;> rfl

theorem follow_outline (root : Directory) (here : List Name) (steps : List Name) :
    root.outline.follow here steps = root.follow here steps := by
  induction steps generalizing here with
  | nil => rfl
  | cons step steps ih =>
    rw [follow, follow]
    simp only [entryAt?_outline, Option.isSome_map, ih]
    cases root.entryAt? here with
    | none => rfl
    | some entry => cases entry <;> rfl

end Directory

theorem FileTree.follow_outline (tree : FileTree) (path : Path) :
    tree.outline.follow path = tree.follow path :=
  tree.root.follow_outline (tree.origin path) (path.splitOn Directory.slash)

theorem FileTree.lookup_outline (tree : FileTree) (path : Path) :
    tree.outline.lookup path = (tree.lookup path).map Entry.outline := by
  rw [lookup_eq, lookup_eq, follow_outline]
  cases Directory.pathError? path with
  | some cause => rfl
  | none =>
    cases tree.follow path with
    | error cause => rfl
    | ok location =>
      simp only [Except.bind, outline, Directory.entryAt?_outline]
      cases tree.root.entryAt? location <;> rfl

/-! ## What a search meets -/

namespace Directory

theorem outline_insert (name : Name) (entry : Entry) (directory : Directory) :
    (directory.insert name entry).outline = directory.outline.insert name entry.outline := by
  induction directory using consInduction with
  | empty => exact outline_cons name entry empty
  | cons other first others _ ih =>
    rw [insert_cons, outline_cons, insert_cons]
    split
    · rw [outline_cons, outline_cons]
    · rw [outline_cons, ih]

theorem outline_sorted (directory : Directory) :
    directory.sorted.outline = directory.outline.sorted := by
  induction directory with
  | empty => rfl
  | file name content others ih =>
    rw [sorted, outline_insert, ih]
    rfl
  | sub name entries others ihentries ih =>
    rw [sorted, outline_insert, ih, Entry.outline, ihentries]
    rfl

theorem found_outline (stem : Path) (directory : Directory) :
    directory.outline.found stem = (directory.found stem).map Found.outline := by
  induction directory generalizing stem with
  | empty => rfl
  | file name content others ih =>
    rw [outline, found, found, ih]
    rfl
  | sub name entries others ihentries ih =>
    rw [outline, found, found, ih, List.map_append]
    cases pathError? (stem ++ name) with
    | some cause => rfl
    | none => rw [ihentries]

end Directory

theorem Entry.found_outline (root : Path) (entry : Entry) :
    entry.outline.found root = (entry.found root).map Found.outline := by
  cases entry with
  | file content => rfl
  | directory entries =>
    rw [outline, found, found, ← Directory.outline_sorted, Directory.found_outline]

theorem findFiles_outline (tree : FileTree) (root : Path) :
    findFiles tree.outline.lookup root = (findFiles tree.lookup root).map Found.outline := by
  rw [findFiles, findFiles, tree.lookup_outline]
  cases tree.lookup root with
  | error cause => rfl
  | ok entry => exact entry.found_outline root

/-- What a walk comes to depends on the outline only. -/
theorem walk_outline (tree : FileTree) (root : Path) :
    walk tree.outline.lookup root = walk tree.lookup root := by
  rw [walk, walk, findFiles_outline, List.map_map]
  refine List.map_congr_left fun found _ => ?_
  cases found <;> rfl

namespace Directory

theorem wellFormed_outline (directory : Directory) :
    directory.outline.WellFormed ↔ directory.WellFormed := by
  induction directory with
  | empty => rfl
  | file name content others ih => simp [outline, WellFormed, find?_outline, ih]
  | sub name entries others ihentries ih =>
    simp [outline, WellFormed, find?_outline, ihentries, ih]

/-! ## Files that are replaced -/

theorem outline_set {directory : Directory} {name : Name} {former entry : Entry}
    (hformer : directory.find? name = some former) (houtline : entry.outline = former.outline) :
    (directory.set name entry).outline = directory.outline := by
  induction directory using consInduction with
  | empty => cases hformer
  | cons other first others _ ih =>
    rw [find?_cons] at hformer
    rw [set_cons]
    split at hformer
    next heq =>
      cases hformer
      rw [if_pos heq, outline_cons, outline_cons, houtline, heq]
    next hne => rw [if_neg hne, outline_cons, outline_cons, ih hformer]

theorem outline_put {directory : Directory} {location : List Name} {former : List UInt8}
    (hformer : directory.entryAt? location = some (.file former)) (content : List UInt8) :
    (directory.put (.file content) location).outline = directory.outline := by
  induction location generalizing directory with
  | nil => cases hformer
  | cons name rest ih =>
    rw [entryAt?_cons] at hformer
    obtain ⟨first, hfirst, hformer⟩ := Option.bind_eq_some_iff.1 hformer
    rw [put_cons]
    refine outline_set hfirst ?_
    cases first with
    | file first =>
      rw [if_pos (Entry.eq_nil_of_at?_file hformer)]
      rfl
    | directory entries =>
      have hrest : rest ≠ [] := by
        rintro rfl
        cases hformer
      rw [Entry.at?_directory] at hformer
      rw [if_neg hrest, subdirectory_of_find? hfirst, Entry.outline, ih hformer, Entry.outline]

end Directory

/-- The content of an entry that is a file. -/
def Entry.content? : Entry → Option (List UInt8)
  | file content => some content
  | directory _ => none

namespace Directory

section
variable {directory : Directory} {location : List Name} {former : List UInt8}
  (hformer : directory.entryAt? location = some (.file former)) (content : List UInt8)
include hformer

theorem wellFormed_put (hdirectory : directory.WellFormed) :
    (directory.put (.file content) location).WellFormed := by
  rwa [← wellFormed_outline, outline_put hformer, wellFormed_outline]

theorem content?_entryAt?_put {here : List Name} (hne : here ≠ location) :
    ((directory.put (.file content) location).entryAt? here).map Entry.content? =
      (directory.entryAt? here).map Entry.content? := by
  have houtline := congrArg (entryAt? · here) (outline_put hformer content)
  simp only [entryAt?_outline] at houtline
  cases hentry : directory.entryAt? here with
  | none =>
    rw [hentry] at houtline
    rw [Option.map_eq_none_iff.1 houtline]
  | some entry =>
    cases entry with
    | file kept => rw [entryAt?_put_file_of_ne hformer hne hentry]
    | directory entries =>
      rw [hentry] at houtline
      obtain ⟨changed, hchanged, hentries⟩ := Option.map_eq_some_iff.1 houtline
      rw [hchanged]
      cases changed with
      | file other => cases hentries
      | directory other => rfl

end

end Directory

namespace FileTree

section
variable {tree : FileTree} {location : List Name} {former : List UInt8}
  (hformer : tree.root.entryAt? location = some (.file former)) (content : List UInt8)
include hformer

theorem outline_put : (tree.put (.file content) location).outline = tree.outline := by
  rw [outline, put, Directory.outline_put hformer, outline]

/-- What a walk comes to does not depend on what is in the files. -/
theorem walk_put (root : Path) :
    walk (tree.put (.file content) location).lookup root = walk tree.lookup root := by
  rw [← walk_outline, outline_put hformer, walk_outline]

theorem follow_put (path : Path) :
    (tree.put (.file content) location).follow path = tree.follow path := by
  rw [← follow_outline, outline_put hformer, follow_outline]

/-- A path that leads elsewhere leads to what it led to, but for what is in directories. -/
theorem content?_lookup_put {path : Path} (hpath : ¬ tree.Denotes path location) :
    ((tree.put (.file content) location).lookup path).map Entry.content? =
      (tree.lookup path).map Entry.content? := by
  rw [lookup_eq, lookup_eq, follow_put hformer]
  cases Directory.pathError? path with
  | some cause => rfl
  | none =>
    cases hhere : tree.follow path with
    | error cause => rfl
    | ok here =>
      have hne : here ≠ location := by
        rintro rfl
        exact hpath hhere
      have hcontent := Directory.content?_entryAt?_put hformer content hne
      simp only [Except.bind, put]
      generalize (tree.root.put (.file content) location).entryAt? here = changed at hcontent ⊢
      generalize tree.root.entryAt? here = entry at hcontent ⊢
      cases changed <;> cases entry <;> simp_all [Except.map]

end

end FileTree
end LogicTest
