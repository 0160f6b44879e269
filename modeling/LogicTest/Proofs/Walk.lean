import Mathlib.Data.List.Nodup
import LogicTest.Batch
import LogicTest.Proofs.Directory.Order

/-!
# Walks

A walk comes to every file below its root once, in the order of the locations, and to each directory
whose path is too long for it to be listed. Main statement: `walk_lists_files`.
-/
namespace LogicTest

/-- The path of what a walk comes to: a file, or what it cannot go on from, as it is shown. -/
def walkedPath : Except ScriptError Path → Path
  | .ok path => path
  | .error error => .ofText error.file

/-- What a walk comes to where a search meets something. -/
def Found.walked : Found → Except ScriptError Path
  | file path _ => .ok path
  | closed path cause => .error (.ofSearch path cause)

theorem walk_eq (view : FileView) (root : Path) :
    walk view root = (findFiles view root).map Found.walked := by
  refine List.map_congr_left fun found _ => ?_
  cases found <;> rfl

namespace Directory

variable {directory : Directory} {stem : Path}

/-- The path of no directory is too long. -/
def Fits (stem : Path) (directory : Directory) : Prop :=
  ∀ location entries, location ≠ [] → directory.entryAt? location = some (.directory entries) →
    (pathBelow stem location).length ≤ pathLimit

theorem Fits.listed {location : List Name} {entry : Entry} (h : Fits stem directory)
    (hentry : directory.entryAt? location = some entry) : Listed stem location := by
  rintro above hne hproper ⟨rest, rfl⟩
  rw [entryAt?_append] at hentry
  obtain ⟨first, hfirst, hrest⟩ := Option.bind_eq_some_iff.1 hentry
  cases first with
  | file content =>
    rw [Entry.eq_nil_of_at?_file hrest, List.append_nil] at hproper
    exact absurd rfl hproper
  | directory entries => exact h above entries hne hfirst

theorem Fits.meets_iff {location : List Name} {found : Found} (h : Fits stem directory) :
    Meets stem directory location found ↔ ∃ content,
      directory.entryAt? location = some (.file content) ∧
        found = .file (pathBelow stem location) content := by
  constructor
  · rintro ⟨hbelow, -, entry, hentry, hstops⟩
    cases hstops with
    | file content => exact ⟨content, hentry, rfl⟩
    | closed entries long => exact absurd (h _ _ hbelow hentry) (Nat.not_le.2 long)
  · rintro ⟨content, hentry, rfl⟩
    refine ⟨?_, h.listed hentry, _, hentry, .file content⟩
    rintro rfl
    cases hentry

theorem Stops.path_eq {path : Path} {entry : Entry} {found : Found} (h : Stops path entry found) :
    found.path = path := by
  cases h <;> rfl

end Directory

variable {tree : FileTree} {root : Path} {entries : Directory}

theorem walk_of_directory {view : FileView} (hroot : view root = .ok (.directory entries)) :
    walk view root = (entries.sorted.met (Directory.stemOf root)).map (·.2.walked) := by
  have hfound : findFiles view root = (Entry.directory entries).found root := by
    rw [findFiles, hroot]
  rw [walk_eq, hfound, Directory.found_directory, List.map_map]
  rfl

/-- A walk comes to what there is to meet, in order, and to each path once. -/
theorem walk_directory (htree : tree.root.WellFormed)
    (hroot : tree.lookup root = .ok (.directory entries)) :
    ∃ visits : List (List Name × Found),
      walk tree.lookup root = visits.map (·.2.walked) ∧
      (∀ location found, (location, found) ∈ visits ↔
        entries.Meets (Directory.stemOf root) location found) ∧
      visits.Pairwise (fun one two => Directory.Before one.1 two.1) ∧
      (visits.map (·.2.path)).Nodup := by
  have hentries := FileTree.wellFormed_of_lookup htree hroot
  obtain ⟨hnul, -⟩ := Directory.pathError?_eq_none_iff.1 (FileTree.lookup_eq_ok_iff.1 hroot).1
  have hmem (location : List Name) (found : Found) :
      (location, found) ∈ entries.sorted.met (Directory.stemOf root) ↔
        entries.Meets (Directory.stemOf root) location found :=
    Directory.mem_met_sorted hnul hentries
  have hbefore := (Directory.ordered_sorted hentries).pairwise_met (Directory.stemOf root)
  refine ⟨entries.sorted.met (Directory.stemOf root), walk_of_directory hroot, hmem, hbefore, ?_⟩
  obtain ⟨base, hstem, -⟩ := Directory.exists_base root
  rw [List.nodup_iff_pairwise_ne, List.pairwise_map]
  refine hbefore.imp_of_mem fun {one two} hone htwo hlt heq => hlt.ne ?_
  obtain ⟨hone_below, -, first, hfirst, hone_stops⟩ := (hmem _ _).1 hone
  obtain ⟨htwo_below, -, second, hsecond, htwo_stops⟩ := (hmem _ _).1 htwo
  rw [hone_stops.path_eq, htwo_stops.path_eq, hstem] at heq
  exact Directory.pathBelow_inj hone_below htwo_below (hentries.of_entryAt? hfirst).1
    (hentries.of_entryAt? hsecond).1 heq

/-- Where every directory can be listed, a walk comes to the files and to nothing else. -/
theorem walk_files (htree : tree.root.WellFormed)
    (hroot : tree.lookup root = .ok (.directory entries))
    (hfits : entries.Fits (Directory.stemOf root)) :
    ∃ files : List (List Name),
      walk tree.lookup root =
        files.map (fun location => .ok (Directory.pathBelow (Directory.stemOf root) location)) ∧
      (∀ location, location ∈ files ↔ ∃ content,
        entries.entryAt? location = some (.file content)) ∧
      files.Pairwise Directory.Before := by
  obtain ⟨visits, hwalk, hmem, hbefore, -⟩ := walk_directory htree hroot
  refine ⟨visits.map (·.1), ?_, fun location => ?_, List.pairwise_map.2 hbefore⟩
  · rw [hwalk, List.map_map]
    refine List.map_congr_left fun visit hvisit => ?_
    obtain ⟨content, -, hfound⟩ := hfits.meets_iff.1 ((hmem visit.1 visit.2).1 hvisit)
    rw [hfound]
    rfl
  · constructor
    · intro h
      obtain ⟨visit, hvisit, rfl⟩ := List.mem_map.1 h
      obtain ⟨content, hentry, -⟩ := hfits.meets_iff.1 ((hmem visit.1 visit.2).1 hvisit)
      exact ⟨content, hentry⟩
    · rintro ⟨content, hentry⟩
      exact List.mem_map.2
        ⟨(location, _), (hmem _ _).2 (hfits.meets_iff.2 ⟨content, hentry, rfl⟩), rfl⟩

/-- The files that a walk comes to are among what is met, in the same order. -/
theorem filterMap_walked (visits : List (List Name × Found)) :
    ((visits.map (·.2.walked)).filterMap Except.toOption).Sublist (visits.map (·.2.path)) := by
  induction visits with
  | nil => exact .slnil
  | cons visit visits ih =>
    obtain ⟨location, found⟩ := visit
    cases found with
    | file path content => exact ih.cons_cons path
    | closed path cause => exact ih.cons path

/-- A walk comes once to a file whose path is not too long. -/
theorem count_walk (htree : tree.root.WellFormed)
    (hroot : tree.lookup root = .ok (.directory entries)) {location : List Name}
    {content : List UInt8} (hfile : entries.entryAt? location = some (.file content))
    (hsize : (Directory.pathBelow (Directory.stemOf root) location).length ≤
      Directory.pathLimit) :
    ((walk tree.lookup root).filterMap Except.toOption).count
      (Directory.pathBelow (Directory.stemOf root) location) = 1 := by
  obtain ⟨visits, hwalk, hmem, -, hnodup⟩ := walk_directory htree hroot
  have hbelow : location ≠ [] := by
    rintro rfl
    cases hfile
  have hvisit := (hmem location _).2
    ⟨hbelow, Directory.listed_of_size hsize, _, hfile, .file content⟩
  rw [hwalk]
  refine List.count_eq_one_of_mem (hnodup.sublist (filterMap_walked visits)) ?_
  exact List.mem_filterMap.2 ⟨.ok _, List.mem_map.2 ⟨_, hvisit, rfl⟩, rfl⟩

/-- A walk lists each file at or below its root once. From a file it comes to the file only. Below a
directory it comes to the files and to each topmost directory whose path is too long, to each once
and in the order of the locations, which are compared name by name and names by their bytes. So
where every directory can be listed it comes to the files only, and to nothing if there are none. A
root that leads nowhere is one error. -/
theorem walk_lists_files {tree : FileTree} (htree : tree.root.WellFormed) (root : Path) :
    (∀ content, tree.lookup root = .ok (.file content) →
      walk tree.lookup root = [.ok root]) ∧
    (∀ entries, tree.lookup root = .ok (.directory entries) →
      let stem := Directory.stemOf root
      (∃ visits : List (List Name × Found),
        walk tree.lookup root = visits.map (·.2.walked) ∧
        (∀ location found, (location, found) ∈ visits ↔ entries.Meets stem location found) ∧
        visits.Pairwise (fun one two => one.1 < two.1) ∧
        (visits.map (·.2.path)).Nodup) ∧
      (entries.Fits stem →
        (∃ files : List (List Name),
          walk tree.lookup root =
            files.map (fun location => .ok (Directory.pathBelow stem location)) ∧
          (∀ location, location ∈ files ↔ ∃ content,
            entries.entryAt? location = some (.file content)) ∧
          files.Pairwise (fun one two => one < two)) ∧
        ((∀ location content, entries.entryAt? location ≠ some (.file content)) →
          walk tree.lookup root = []))) ∧
    ∀ cause, tree.lookup root = .error cause →
      ∃ error, walk tree.lookup root = [.error error] ∧
        error.diagnostic = ⟨root.display, 0, .io,
          "reading directory entry: IO error for operation on ".toList ++ root.display ++
            ": ".toList ++ cause.message⟩ := by
  refine ⟨fun content hroot => ?_, fun entries hroot => ?_, fun cause hroot => ?_⟩
  · rw [walk_eq, findFiles, hroot]
    rfl
  · intro stem
    refine ⟨walk_directory htree hroot, fun hfits => ?_⟩
    obtain ⟨files, hwalk, hmem, hbefore⟩ := walk_files htree hroot hfits
    refine ⟨⟨files, hwalk, hmem, hbefore⟩, fun hnone => ?_⟩
    have hempty : files = [] := List.eq_nil_iff_forall_not_mem.2 fun location hlocation => by
      obtain ⟨content, hcontent⟩ := (hmem location).1 hlocation
      exact hnone location content hcontent
    rw [hwalk, hempty, List.map_nil]
  · refine ⟨.ofSearch root cause, ?_, rfl⟩
    rw [walk_eq, findFiles, hroot]
    rfl

/-- In the order of the locations `a/x` comes before `a.b`, though the path of `a.b` is the lesser
one; an absolute path and one that leads up are followed like any other. -/
theorem walk_lists_files_dot :
    let name (text : String) : Name := Utf8.encode text.toList
    let below : Directory := .file (name "a.b") [] (.sub (name "a") (.file (name "x") [] .empty)
      .empty)
    let tree : FileTree := ⟨.sub (name "d") below (.sub (name "e") .empty .empty), [name "e"], none⟩
    let files (root : String) : List (Except ScriptError Path) :=
      [.ok (name (root ++ "/a/x")), .ok (name (root ++ "/a.b"))]
    tree.root.WellFormed ∧
      (∀ root ∈ ["/d", "../d"], ∃ visits : List (List Name × Found),
        files root = visits.map (·.2.walked) ∧
        visits.Pairwise (fun one two => one.1 < two.1)) ∧
      name "/d/a.b" < name "/d/a/x" ∧
      walk tree.lookup (name "..") = files "../d" ∧
      ∃ error, walk tree.lookup (name "a") = [.error error] ∧
        error.diagnostic = ⟨"a".toList, 0, .io,
          "reading directory entry: IO error for operation on ".toList ++ "a".toList ++
            ": ".toList ++ FileError.message .notFound⟩ := by
  intro name below tree files
  have htree : tree.root.WellFormed := by decide +kernel
  refine ⟨htree, fun root hroot => ?_, by decide +kernel, by decide +kernel, ?_⟩
  · have hwalk : walk tree.lookup (name root) = files root := by
      rcases List.mem_pair.1 hroot with rfl | rfl <;> decide +kernel
    have hlookup : tree.lookup (name root) = .ok (.directory below) := by
      rcases List.mem_pair.1 hroot with rfl | rfl <;> decide +kernel
    obtain ⟨⟨visits, hvisits, -, hbefore, -⟩, -⟩ :=
      (walk_lists_files htree (name root)).2.1 _ hlookup
    exact ⟨visits, hwalk ▸ hvisits, hbefore⟩
  · have hdisplay : Path.display (name "a") = "a".toList := by decide +kernel
    obtain ⟨error, hwalk, hdiagnostic⟩ :=
      (walk_lists_files htree (name "a")).2.2 .notFound (by decide +kernel)
    exact ⟨error, hwalk, hdisplay ▸ hdiagnostic⟩

/-- A file is not listed below a directory whose path is too long for the system. -/
theorem walk_long_directory :
    ¬ ∀ (tree : FileTree) (root : Path) (entries : Directory) (location : List Name)
      (content : List UInt8), tree.root.WellFormed →
      tree.lookup root = .ok (.directory entries) →
      entries.entryAt? location = some (.file content) →
      .ok (Directory.pathBelow (Directory.stemOf root) location) ∈ walk tree.lookup root := by
  intro h
  let name (text : String) : Name := Utf8.encode text.toList
  let directory : Directory := .sub (name "d") (.file (name "f") [] .empty) .empty
  let tree : FileTree := ⟨directory, [], none⟩
  let root : Path := Directory.dot :: List.replicate 4094 Directory.slash
  have hroot : tree.lookup root = .ok (.directory directory) := FileTree.lookup_dot rfl (by decide)
  have hlisted := h tree root directory [name "d", name "f"] [] (by decide) hroot rfl
  have herror : Directory.pathError? (Directory.stemOf root ++ name "d") = some .nameTooLong := by
    decide +kernel
  have hmet : directory.sorted.met (Directory.stemOf root) =
      [([name "d"], .closed (Directory.stemOf root ++ name "d") .nameTooLong)] := by
    have hsorted : directory.sorted = directory := rfl
    rw [hsorted, Directory.met, herror]
    rfl
  rw [walk_of_directory hroot, hmet] at hlisted
  cases List.mem_singleton.1 hlisted

end LogicTest
