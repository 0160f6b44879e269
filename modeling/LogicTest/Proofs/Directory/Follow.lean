import LogicTest.Directory.Tree
import LogicTest.Proofs.Directory.Entries

/-!
# Following paths

The steps of a path are followed one part after the other. They lead where they led before when a
file is put into the directory, as long as no directory gives way to it; so a file that is written
is found under the path it was written to (`contentAt?_put`).
-/
namespace LogicTest
namespace Directory

variable {root : Directory}

theorem follow_append (here one two : List Name) :
    root.follow here (one ++ two) = (root.follow here one).bind (root.follow · two) := by
  induction one generalizing here with
  | nil => rw [List.nil_append, follow, Except.bind]
  | cons step steps ih =>
    rw [List.cons_append, follow, follow]
    split
    · rfl
    · rfl
    · split
      · exact ih _
      · split
        · exact ih _
        · split
          · exact ih _
          · rfl

/-- Everything that is in one directory is in the other, and what is a directory is one there. -/
def Keeps (root changed : Directory) : Prop :=
  ∀ here found, root.entryAt? here = some found →
    ∃ kept, changed.entryAt? here = some kept ∧ (found.isDirectory → kept.isDirectory)

theorem Keeps.entries {changed entries : Directory} (h : root.Keeps changed)
    {here : List Name} (hhere : root.entryAt? here = some (.directory entries)) :
    ∃ kept, changed.entryAt? here = some (.directory kept) := by
  obtain ⟨kept, hkept, hdirectory⟩ := h _ _ hhere
  cases kept with
  | file content => exact absurd (hdirectory rfl) nofun
  | directory kept => exact ⟨kept, hkept⟩

theorem Keeps.isSome {changed : Directory} (h : root.Keeps changed) {here : List Name}
    (hhere : (root.entryAt? here).isSome) : (changed.entryAt? here).isSome := by
  obtain ⟨found, hfound⟩ := Option.isSome_iff_exists.1 hhere
  obtain ⟨kept, hkept, -⟩ := h _ _ hfound
  exact Option.isSome_iff_exists.2 ⟨kept, hkept⟩

/-- Where entries are kept, steps lead where they led. -/
theorem Keeps.follow {changed : Directory} (h : root.Keeps changed) {here reached : List Name}
    {steps : List Name} (hreached : root.follow here steps = .ok reached) :
    changed.follow here steps = .ok reached := by
  fun_induction root.follow here steps with
  | case1 here => exact hreached
  | case2 | case3 | case7 => cases hreached
  | case4 here step steps entries hhere hstays ih =>
    obtain ⟨kept, hkept⟩ := h.entries hhere
    simp only [Directory.follow, hkept, hstays, if_true]
    exact ih hreached
  | case5 here step steps entries hhere hstays hup ih =>
    obtain ⟨kept, hkept⟩ := h.entries hhere
    simp only [Directory.follow, hkept, hstays, hup, if_true]
    exact ih hreached
  | case6 here step steps entries hhere hstays hup hstep ih =>
    obtain ⟨kept, hkept⟩ := h.entries hhere
    simp only [Directory.follow, hkept, hstays, hup, h.isSome hstep, if_true]
    exact ih hreached

theorem follow_name {here : List Name} {entries : Directory} {name : Name}
    (hhere : root.entryAt? here = some (.directory entries)) (hstays : ¬ staysPut name)
    (hup : ¬ leadsUp name) (hname : (root.entryAt? (here ++ [name])).isSome) :
    root.follow here [name] = .ok (here ++ [name]) := by
  simp only [follow, hhere, hstays, hup, hname, if_true]
  rfl

/-! ## Paths that cannot be followed -/

theorem pathError?_eq_none_iff {path : Path} :
    pathError? path = none ↔ nul ∉ path ∧ path.length ≤ pathLimit ∧ path ≠ [] := by
  unfold pathError?
  split
  next hnul => simp [hnul]
  next hnul =>
    split
    next hsize => simp [hnul, Nat.not_le.2 hsize]
    next hsize => simp [hnul, Nat.not_lt.1 hsize]

/-- A path without NUL is refused for its length only. -/
theorem pathError?_of_noNul {path : Path} (hnul : nul ∉ path) (hne : path ≠ []) :
    pathError? path = if path.length ≤ pathLimit then none else some .nameTooLong := by
  by_cases hsize : path.length ≤ pathLimit
  · rw [if_pos hsize, pathError?_eq_none_iff]
    exact ⟨hnul, hsize, hne⟩
  · rw [if_neg hsize, pathError?, if_neg hnul, if_pos (Nat.not_le.1 hsize)]

/-- What a path leads to has to be a directory for anything to be in it. -/
theorem directory_of_entryAt?_concat {here : List Name} {name : Name} {entry : Entry}
    (h : root.entryAt? (here ++ [name]) = some entry) :
    ∃ entries, root.entryAt? here = some (.directory entries) := by
  rw [entryAt?_append] at h
  obtain ⟨above, habove, h⟩ := Option.bind_eq_some_iff.1 h
  cases above with
  | file content => cases h
  | directory entries => exact ⟨entries, habove⟩

/-- Where a file can be made there is a directory, and no directory has the name of the file. -/
theorem creationError?_eq_none {here : List Name} {name : Name}
    (h : root.creationError? here name = none) :
    ∃ entries, root.entryAt? here = some (.directory entries) ∧ ¬ staysPut name ∧ ¬ leadsUp name ∧
      ∀ below, root.entryAt? (here ++ [name]) ≠ some (.directory below) := by
  unfold creationError? at h
  split at h
  · cases h
  · cases h
  next entries hentries =>
    split at h
    · cases h
    next hname =>
      rw [Bool.or_eq_true, not_or] at hname
      split at h
      · cases h
      · split at h
        · cases h
        next hfree =>
          have hfind : root.entryAt? (here ++ [name]) = entries.find? name := by
            rw [entryAt?_append, hentries, Option.bind_some, Entry.at?_directory]
            rfl
          exact ⟨entries, hentries, hname.1, hname.2, fun below => hfind ▸ hfree below⟩

end Directory

namespace FileTree
open Directory

variable {tree : FileTree}

/-! ## What a path leads to -/

theorem lookup_eq (tree : FileTree) (path : Path) :
    tree.lookup path = match pathError? path with
      | some cause => .error cause
      | none => (tree.follow path).bind fun location =>
        match tree.root.entryAt? location with
        | some entry => .ok entry
        | none => .error .notFound := by
  unfold lookup
  cases pathError? path with
  | some cause => rfl
  | none =>
    cases tree.follow path with
    | error cause => rfl
    | ok location =>
      simp only [Except.bind, bind]
      cases tree.root.entryAt? location <;> rfl

theorem lookup_eq_ok_iff {path : Path} {entry : Entry} :
    tree.lookup path = .ok entry ↔ pathError? path = none ∧
      ∃ location, tree.follow path = .ok location ∧ tree.root.entryAt? location = some entry := by
  rw [lookup_eq]
  cases pathError? path with
  | some cause => simp
  | none =>
    cases tree.follow path with
    | error cause => simp [Except.bind]
    | ok location => cases hentry : tree.root.entryAt? location <;> simp [Except.bind, hentry]

/-! ## Files that are made -/

theorem bind_eq_ok {α β : Type} {action : Except FileError α} {f : α → Except FileError β} {b : β}
    (h : action >>= f = .ok b) : ∃ a, action = .ok a ∧ f a = .ok b := by
  cases action with
  | error cause => cases h
  | ok a => exact ⟨a, rfl, h⟩

/-- What has to hold for a file to be made: its path is followed up to a directory, in which no
directory has its name. -/
theorem target_eq_ok {path : Path} {location : List Name} (h : tree.target path = .ok location) :
    pathError? path = none ∧ ∃ here name,
      tree.root.follow (tree.origin path) (path.splitOn slash).dropLast = .ok here ∧
      (path.splitOn slash).getLastD [] = name ∧ location = here ++ [name] ∧
      tree.root.creationError? here name = none := by
  unfold target at h
  extract_lets named steps name at h
  cases herror : pathError? path with
  | some cause =>
    rw [herror] at h
    cases h
  | none =>
    simp only [herror] at h
    obtain ⟨here, hhere, h⟩ := bind_eq_ok h
    cases hcreation : tree.root.creationError? here name with
    | some cause =>
      rw [hcreation] at h
      cases h
    | none =>
      rw [hcreation] at h
      cases h
      obtain ⟨-, -, hstays, -⟩ := creationError?_eq_none hcreation
      have hnamed : named = path := Decidable.by_contra fun hnamed => hstays (by
        simp only [name, if_neg hnamed]
        rfl)
      have hname : name = (path.splitOn slash).getLastD [] := by
        simp only [name, if_pos hnamed, steps, hnamed]
      exact ⟨rfl, here, name, hnamed ▸ hhere, hname.symm, rfl, hcreation⟩

theorem splitOn_eq_concat (path : Path) :
    path.splitOn slash =
      (path.splitOn slash).dropLast ++ [(path.splitOn slash).getLastD []] := by
  have hne : path.splitOn slash ≠ [] := List.splitOn_ne_nil slash path
  rw [List.getLastD_eq_getLast?, List.getLast?_eq_some_getLast hne]
  exact (List.dropLast_concat_getLast hne).symm

/-- A file that is made is found under the path it was made by. -/
theorem contentAt?_put {path : Path} {location : List Name} (h : tree.target path = .ok location)
    (content : List UInt8) :
    (tree.put (.file content) location).contentAt? path = some content := by
  obtain ⟨herror, here, name, hhere, hname, rfl, hcreation⟩ := target_eq_ok h
  obtain ⟨-, -, hstays, hup, hfree⟩ := creationError?_eq_none hcreation
  let changed := tree.root.put (.file content) (here ++ [name])
  have hkeeps : tree.root.Keeps changed := fun _ _ hfound => entryAt?_put_file content hfree hfound
  have hwritten : changed.entryAt? (here ++ [name]) = some (.file content) :=
    entryAt?_put_self _ (by simp) tree.root
  obtain ⟨entries, hentries⟩ := directory_of_entryAt?_concat hwritten
  have hfollow : changed.follow (tree.origin path) (path.splitOn slash) = .ok (here ++ [name]) := by
    rw [splitOn_eq_concat, hname, follow_append, hkeeps.follow hhere]
    exact follow_name hentries hstays hup (Option.isSome_of_eq_some hwritten)
  have hlookup : (tree.put (.file content) (here ++ [name])).lookup path = .ok (.file content) :=
    lookup_eq_ok_iff.2 ⟨herror, _, hfollow, hwritten⟩
  rw [contentAt?, hlookup]

end FileTree
end LogicTest
