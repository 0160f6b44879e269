import LogicTest.Directory.Search
import LogicTest.Proofs.Directory.Locations

/-!
# What a search finds

A search goes down to the files and to the directories whose paths are too long, and meets each at
its location (`mem_met`), in whatever order the entries stand (`met_sorted`). So the path under
which a file is found leads to it (`denotes_of_found`).
-/
namespace LogicTest

def Found.path : Found → Path
  | file path _ => path
  | closed path _ => path

namespace Directory

variable {directory : Directory} {stem : Path} {name : Name}

/-! ## Locations of what is met -/

/-- What a search meets below a directory, with the locations where it is. -/
def met (stem : Path) : Directory → List (List Name × Found)
  | empty => []
  | file name content others => ([name], .file (stem ++ name) content) :: others.met stem
  | sub name entries others =>
    (match pathError? (stem ++ name) with
      | some cause => [([name], .closed (stem ++ name) cause)]
      | none => (entries.met (stem ++ name ++ [slash])).map fun (rest, found) =>
        (name :: rest, found)) ++ others.met stem

/-- What a search meets at one entry of a directory, with the locations where it is. -/
def metAt (stem : Path) (name : Name) (entry : Entry) : List (List Name × Found) :=
  (cons name entry empty).met stem

theorem met_cons (stem : Path) (name : Name) (entry : Entry) (others : Directory) :
    (cons name entry others).met stem = metAt stem name entry ++ others.met stem := by
  cases entry with
  | file content => rfl
  | directory entries => simp [metAt, cons, met]

theorem metAt_directory (stem : Path) (name : Name) (entries : Directory) :
    metAt stem name (.directory entries) = match pathError? (stem ++ name) with
      | some cause => [([name], .closed (stem ++ name) cause)]
      | none => (entries.met (stem ++ name ++ [slash])).map fun (rest, found) =>
        (name :: rest, found) :=
  List.append_nil _

theorem found_eq_met (stem : Path) (directory : Directory) :
    directory.found stem = (directory.met stem).map (·.2) := by
  induction directory generalizing stem with
  | empty => rfl
  | file name content others ih => rw [found, met, List.map_cons, ih]
  | sub name entries others ihentries ih =>
    rw [found, met, List.map_append, ih, ihentries]
    cases pathError? (stem ++ name) with
    | some cause => rfl
    | none => simp

/-! ## What there is to meet -/

/-- The directories on the way to a location have paths that can be followed, so they are listed. -/
def Listed (stem : Path) (location : List Name) : Prop :=
  ∀ above, above ≠ [] → above ≠ location → above <+: location →
    (pathBelow stem above).length ≤ pathLimit

/-- Where a search does not go on from an entry: at a file, and at a directory whose path is too
long. -/
inductive Stops (path : Path) : Entry → Found → Prop where
  | file (content : List UInt8) : Stops path (.file content) (.file path content)
  | closed (entries : Directory) (long : pathLimit < path.length) :
      Stops path (.directory entries) (.closed path .nameTooLong)

/-- What there is for a search to meet at a location below a directory. -/
structure Meets (stem : Path) (directory : Directory) (location : List Name) (found : Found) :
    Prop where
  below : location ≠ []
  listed : Listed stem location
  stops : ∃ entry ∈ directory.entryAt? location, Stops (pathBelow stem location) entry found

theorem listed_of_size {location : List Name}
    (h : (pathBelow stem location).length ≤ pathLimit) : Listed stem location := by
  rintro above hne hproper ⟨rest, rfl⟩
  have hrest : rest ≠ [] := by
    rintro rfl
    exact hproper (List.append_nil above).symm
  obtain ⟨tail, htail⟩ := prefix_pathBelow (pathBelow stem above ++ [slash]) rest
  rw [pathBelow_append stem hne hrest, ← htail, List.length_append, List.length_append] at h
  omega

theorem listed_singleton (stem : Path) (name : Name) : Listed stem [name] := by
  rintro (_ | ⟨first, others⟩) hne hproper habove
  · exact absurd rfl hne
  · obtain ⟨rfl, hothers⟩ := List.cons_prefix_cons.1 habove
    exact absurd (by rw [List.prefix_nil.1 hothers]) hproper

theorem listed_cons {rest : List Name} (hrest : rest ≠ []) :
    Listed stem (name :: rest) ↔
      (stem ++ name).length ≤ pathLimit ∧ Listed (stem ++ name ++ [slash]) rest := by
  constructor
  · intro h
    have hfirst := h [name] nofun (by simpa using hrest.symm) (by simp)
    refine ⟨hfirst, fun above hne hproper habove => ?_⟩
    rw [← pathBelow_cons _ _ hne]
    exact h (name :: above) nofun (by simpa using hproper) (by simpa using habove)
  · rintro ⟨hfirst, hothers⟩ (_ | ⟨other, above⟩) hne hproper habove
    · exact absurd rfl hne
    · obtain ⟨rfl, hbelow⟩ := List.cons_prefix_cons.1 habove
      by_cases hnil : above = []
      · rw [hnil]
        exact hfirst
      · rw [pathBelow_cons _ _ hnil]
        exact hothers above hnil (fun heq => hproper (heq ▸ rfl)) hbelow

theorem meets_singleton {found : Found} : Meets stem directory [name] found ↔
    ∃ entry ∈ directory.find? name, Stops (stem ++ name) entry found :=
  ⟨fun h => h.stops, fun h => ⟨nofun, listed_singleton stem name, h⟩⟩

theorem meets_cons {rest : List Name} (hrest : rest ≠ []) {found : Found} :
    Meets stem directory (name :: rest) found ↔ (stem ++ name).length ≤ pathLimit ∧
      ∃ entries, directory.find? name = some (.directory entries) ∧
        Meets (stem ++ name ++ [slash]) entries rest found := by
  constructor
  · rintro ⟨-, hlisted, entry, hentry, hstops⟩
    obtain ⟨hsize, hlisted⟩ := (listed_cons hrest).1 hlisted
    rw [entryAt?_cons] at hentry
    obtain ⟨first, hfirst, hentry⟩ := Option.bind_eq_some_iff.1 hentry
    cases first with
    | file content => exact absurd (Entry.eq_nil_of_at?_file hentry) hrest
    | directory entries =>
      rw [Entry.at?_directory] at hentry
      rw [pathBelow_cons _ _ hrest] at hstops
      exact ⟨hsize, entries, hfirst, hrest, hlisted, entry, hentry, hstops⟩
  · rintro ⟨hsize, entries, hname, -, hlisted, entry, hentry, hstops⟩
    refine ⟨nofun, (listed_cons hrest).2 ⟨hsize, hlisted⟩, entry, ?_, ?_⟩
    · rw [entryAt?_cons, hname, Option.bind_some, Entry.at?_directory]
      exact hentry
    · rwa [pathBelow_cons _ _ hrest]

theorem meets_congr {one two : Directory} {location : List Name} {found : Found}
    (h : one.entryAt? location = two.entryAt? location) :
    Meets stem one location found ↔ Meets stem two location found :=
  ⟨fun ⟨below, listed, stops⟩ => ⟨below, listed, h ▸ stops⟩,
    fun ⟨below, listed, stops⟩ => ⟨below, listed, h ▸ stops⟩⟩

section
variable {rest : List Name} {found : Found}

theorem meets_of_file {content : List UInt8}
    (hname : directory.find? name = some (.file content)) :
    Meets stem directory (name :: rest) found ↔
      rest = [] ∧ found = .file (stem ++ name) content := by
  constructor
  · intro h
    by_cases hrest : rest = []
    · subst hrest
      obtain ⟨first, hfirst, hstops⟩ := meets_singleton.1 h
      cases hname.symm.trans hfirst
      cases hstops
      exact ⟨rfl, rfl⟩
    · obtain ⟨-, entries, hentries, -⟩ := (meets_cons hrest).1 h
      cases hname.symm.trans hentries
  · rintro ⟨rfl, rfl⟩
    exact meets_singleton.2 ⟨_, hname, .file content⟩

theorem meets_of_long {entries : Directory}
    (hname : directory.find? name = some (.directory entries))
    (hsize : ¬ (stem ++ name).length ≤ pathLimit) :
    Meets stem directory (name :: rest) found ↔
      rest = [] ∧ found = .closed (stem ++ name) .nameTooLong := by
  constructor
  · intro h
    by_cases hrest : rest = []
    · subst hrest
      obtain ⟨first, hfirst, hstops⟩ := meets_singleton.1 h
      cases hname.symm.trans hfirst
      cases hstops
      exact ⟨rfl, rfl⟩
    · exact absurd ((meets_cons hrest).1 h).1 hsize
  · rintro ⟨rfl, rfl⟩
    exact meets_singleton.2 ⟨_, hname, .closed entries (Nat.not_le.1 hsize)⟩

theorem meets_of_listed {entries : Directory}
    (hname : directory.find? name = some (.directory entries))
    (hsize : (stem ++ name).length ≤ pathLimit) :
    Meets stem directory (name :: rest) found ↔
      Meets (stem ++ name ++ [slash]) entries rest found := by
  by_cases hrest : rest = []
  · subst hrest
    refine ⟨fun h => ?_, fun h => absurd rfl h.below⟩
    obtain ⟨first, hfirst, hstops⟩ := meets_singleton.1 h
    cases hname.symm.trans hfirst
    cases hstops with
    | closed _ long => exact absurd hsize (Nat.not_le.2 long)
  · rw [meets_cons hrest]
    refine ⟨fun ⟨_, below, hbelow, h⟩ => ?_, fun h => ⟨hsize, entries, hname, h⟩⟩
    cases hname.symm.trans hbelow
    exact h

end

theorem exists_of_mem_metAt {entry : Entry} {location : List Name} {found : Found}
    (h : (location, found) ∈ metAt stem name entry) : ∃ rest, location = name :: rest := by
  cases entry with
  | file content =>
    cases List.mem_singleton.1 h
    exact ⟨[], rfl⟩
  | directory entries =>
    rw [metAt_directory] at h
    split at h
    · cases List.mem_singleton.1 h
      exact ⟨[], rfl⟩
    · obtain ⟨⟨rest, below⟩, -, heq⟩ := List.mem_map.1 h
      cases heq
      exact ⟨rest, rfl⟩

theorem noNul_append_name (hstem : nul ∉ stem) (hname : IsName name) :
    nul ∉ stem ++ name ++ [slash] := by
  have hslash : nul ≠ slash := by decide
  simp [hstem, hname.noNul, hslash]

/-- What is met at an entry is what there is to meet below its name. -/
theorem mem_metAt (hstem : nul ∉ stem) (hname : IsName name) {entry : Entry}
    (hentry : directory.find? name = some entry)
    (hentries : ∀ entries, entry = .directory entries → ∀ rest found,
      (rest, found) ∈ entries.met (stem ++ name ++ [slash]) ↔
        Meets (stem ++ name ++ [slash]) entries rest found)
    {rest : List Name} {found : Found} :
    (name :: rest, found) ∈ metAt stem name entry ↔ Meets stem directory (name :: rest) found := by
  cases entry with
  | file content =>
    rw [meets_of_file hentry]
    simp [metAt, cons, met]
  | directory entries =>
    have hnul : nul ∉ stem ++ name := by simp [hstem, hname.noNul]
    have hpath := pathError?_of_noNul hnul (List.append_ne_nil_of_right_ne_nil stem hname.ne_nil)
    rw [metAt_directory, hpath]
    by_cases hsize : (stem ++ name).length ≤ pathLimit
    · rw [if_pos hsize, meets_of_listed hentry hsize, ← hentries entries rfl]
      simp
    · rw [if_neg hsize, meets_of_long hentry hsize]
      simp

/-- A search meets what there is for it to meet. -/
theorem mem_met (hstem : nul ∉ stem) (hdirectory : directory.WellFormed) {location : List Name}
    {found : Found} :
    (location, found) ∈ directory.met stem ↔ Meets stem directory location found := by
  induction directory using consInduction generalizing stem location found with
  | empty =>
    refine ⟨nofun, fun ⟨hbelow, _, entry, hentry, _⟩ => ?_⟩
    obtain ⟨name, rest, rfl⟩ := List.exists_cons_of_ne_nil hbelow
    rw [entryAt?_cons] at hentry
    cases hentry
  | cons name entry others ihentries ih =>
    obtain ⟨hname, hnew, hentries, hothers⟩ := wellFormed_cons.1 hdirectory
    rw [met_cons, List.mem_append, ih hstem hothers]
    cases location with
    | nil =>
      refine ⟨?_, fun h => absurd rfl h.below⟩
      rintro (h | h)
      · obtain ⟨rest, hrest⟩ := exists_of_mem_metAt h
        cases hrest
      · exact absurd rfl h.below
    | cons other rest =>
      by_cases hother : other = name
      · subst hother
        have hnone : ¬ Meets stem others (other :: rest) found := by
          rintro ⟨-, -, below, hbelow, -⟩
          exact find?_ne_none_of_entryAt? hbelow hnew
        rw [or_iff_left hnone]
        refine mem_metAt hstem hname find?_cons_self fun entries heq rest found => ?_
        exact ihentries entries heq (noNul_append_name hstem hname) (hentries entries heq)
      · have hnone : (other :: rest, found) ∉ metAt stem name entry := fun h => by
          obtain ⟨below, hbelow⟩ := exists_of_mem_metAt h
          exact hother (List.cons.inj hbelow).1
        rw [or_iff_right hnone]
        refine meets_congr ?_
        rw [entryAt?_cons, entryAt?_cons, find?_cons_of_ne hother]

/-! ## The order of the entries -/

theorem insert_cons (name other : Name) (entry first : Entry) (others : Directory) :
    (cons other first others).insert name entry =
      if name < other then cons name entry (cons other first others)
      else cons other first (others.insert name entry) := by
  cases first <;> rfl

theorem met_insert (stem : Path) (name : Name) (entry : Entry) (others : Directory) :
    ((others.insert name entry).met stem).Perm (metAt stem name entry ++ others.met stem) := by
  induction others using consInduction with
  | empty => rw [insert, met_cons]
  | cons other first others _ ih =>
    rw [insert_cons]
    split
    · rw [met_cons]
    · rw [met_cons, met_cons]
      exact (ih.append_left _).trans (List.perm_append_comm_assoc _ _ _)

/-- The order of the entries does not change what is met. -/
theorem met_sorted (stem : Path) (directory : Directory) :
    (directory.sorted.met stem).Perm (directory.met stem) := by
  induction directory generalizing stem with
  | empty => exact .refl _
  | file name content others ih => exact (met_insert _ _ _ _).trans ((ih stem).append_left _)
  | sub name entries others ihentries ih =>
    have hentries : (metAt stem name (.directory entries.sorted)).Perm
        (metAt stem name (.directory entries)) := by
      rw [metAt_directory, metAt_directory]
      cases pathError? (stem ++ name) with
      | some cause => exact .refl _
      | none => exact (ihentries _).map _
    rw [sub_eq_cons, met_cons]
    exact (met_insert _ _ _ _).trans (hentries.append (ih stem))

/-! ## Paths of files that are found -/

theorem found_directory (root : Path) (entries : Directory) :
    (Entry.directory entries).found root = (entries.sorted.met (stemOf root)).map (·.2) :=
  found_eq_met _ _

/-- A search of a directory comes to what there is to meet in it. -/
theorem mem_met_sorted {root : Path} (hroot : nul ∉ root) {entries : Directory}
    (hentries : entries.WellFormed) {location : List Name} {found : Found} :
    (location, found) ∈ entries.sorted.met (stemOf root) ↔
      Meets (stemOf root) entries location found := by
  rw [(met_sorted _ _).mem_iff, mem_met (noNul_stemOf hroot) hentries]

end Directory

namespace FileTree
open Directory

/-- The path under which a search finds a file leads to that file, unless it is too long to be
followed. -/
theorem denotes_of_found {tree : FileTree} (htree : tree.root.WellFormed) {root path : Path}
    {entry : Entry} {content : List UInt8} (hroot : tree.lookup root = .ok entry)
    (h : .file path content ∈ entry.found root) :
    (∃ location, tree.Denotes path location ∧
      tree.root.entryAt? location = some (.file content)) ∧
    pathError? path = if path.length ≤ pathLimit then none else some .nameTooLong := by
  obtain ⟨herror, here, hdenotes, hhere⟩ := lookup_eq_ok_iff.1 hroot
  obtain ⟨hnul, -, hne⟩ := pathError?_eq_none_iff.1 herror
  cases entry with
  | file first =>
    cases List.mem_singleton.1 h
    exact ⟨⟨here, hdenotes, hhere⟩, pathError?_of_noNul hnul hne⟩
  | directory entries =>
    have hentries := (htree.of_entryAt? hhere).2 entries rfl
    rw [found_directory] at h
    obtain ⟨⟨location, found⟩, hmet, hfound⟩ := List.mem_map.1 h
    obtain rfl : found = .file path content := hfound
    obtain ⟨hlocation, -, entry, hfile, hstops⟩ := (mem_met_sorted hnul hentries).1 hmet
    cases hstops
    have hnames := (hentries.of_entryAt? hfile).1
    refine ⟨⟨here ++ location, ?_, ?_⟩, pathError?_pathBelow herror hnames⟩
    · exact denotes_pathBelow hdenotes hne hhere hfile hlocation hnames
    · rw [entryAt?_append, hhere, Option.bind_some, Entry.at?_directory, hfile]

end FileTree
end LogicTest
