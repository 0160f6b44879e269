import LogicTest.Proofs.Directory.Follow

/-!
# Locations and their paths

A location below a directory has a path: that of the directory and the names on the way. In a
directory as a file system has it the path leads to the location (`denotes_pathBelow`), no other
location has it (`pathBelow_inj`), and it can be followed unless it is too long
(`pathError?_pathBelow`).
-/
namespace LogicTest

/-- A name that a file system takes: one step, which leads to an entry. -/
structure IsName (name : Name) : Prop where
  stepsIn : ¬ Directory.staysPut name
  stepsDown : ¬ Directory.leadsUp name
  noSlash : Directory.slash ∉ name
  noNul : Directory.nul ∉ name

theorem IsName.ne_nil {name : Name} (h : IsName name) : name ≠ [] := by
  rintro rfl
  exact h.stepsIn rfl

instance (name : Name) : Decidable (IsName name) :=
  decidable_of_iff (¬ Directory.staysPut name ∧ ¬ Directory.leadsUp name ∧
      Directory.slash ∉ name ∧ Directory.nul ∉ name)
    ⟨fun ⟨h1, h2, h3, h4⟩ => ⟨h1, h2, h3, h4⟩, fun ⟨h1, h2, h3, h4⟩ => ⟨h1, h2, h3, h4⟩⟩

namespace Directory

/-- A directory as a file system has it: no two entries share a name. -/
def WellFormed : Directory → Prop
  | empty => True
  | file name _ others => IsName name ∧ others.find? name = none ∧ others.WellFormed
  | sub name entries others =>
    IsName name ∧ others.find? name = none ∧ entries.WellFormed ∧ others.WellFormed

instance decidableWellFormed : (directory : Directory) → Decidable directory.WellFormed
  | empty => inferInstanceAs (Decidable True)
  | file name _ others =>
    have := decidableWellFormed others
    inferInstanceAs (Decidable (IsName name ∧ others.find? name = none ∧ others.WellFormed))
  | sub name entries others =>
    have := decidableWellFormed entries
    have := decidableWellFormed others
    inferInstanceAs (Decidable
      (IsName name ∧ others.find? name = none ∧ entries.WellFormed ∧ others.WellFormed))

/-- The path of a location below a directory whose path, up to and including its last slash, is
`stem`. -/
def pathBelow (stem : Path) : List Name → Path
  | [] => stem
  | [name] => stem ++ name
  | name :: rest => pathBelow (stem ++ name ++ [slash]) rest

variable {directory : Directory} {stem : Path} {name : Name}

theorem wellFormed_cons {entry : Entry} {others : Directory} :
    (cons name entry others).WellFormed ↔ IsName name ∧ others.find? name = none ∧
      (∀ entries, entry = .directory entries → entries.WellFormed) ∧ others.WellFormed := by
  cases entry <;> simp [cons, WellFormed]

theorem WellFormed.of_find? (h : directory.WellFormed) {entry : Entry}
    (hentry : directory.find? name = some entry) :
    IsName name ∧ ∀ entries, entry = .directory entries → entries.WellFormed := by
  induction directory using consInduction with
  | empty => cases hentry
  | cons other first others _ ih =>
    obtain ⟨hname, -, hentries, hothers⟩ := wellFormed_cons.1 h
    rw [find?_cons] at hentry
    split at hentry
    next heq =>
      cases hentry
      exact ⟨heq ▸ hname, hentries⟩
    next => exact ih hothers hentry

/-- Every name on the way to an entry is one that the file system takes, and a directory that is
reached is well-formed. -/
theorem WellFormed.of_entryAt? (h : directory.WellFormed) {location : List Name} {entry : Entry}
    (hentry : directory.entryAt? location = some entry) :
    (∀ name ∈ location, IsName name) ∧
      ∀ entries, entry = .directory entries → entries.WellFormed := by
  induction location generalizing directory with
  | nil =>
    cases hentry
    exact ⟨nofun, by rintro _ ⟨⟩; exact h⟩
  | cons name rest ih =>
    rw [entryAt?_cons] at hentry
    obtain ⟨first, hfirst, hentry⟩ := Option.bind_eq_some_iff.1 hentry
    obtain ⟨hname, hentries⟩ := h.of_find? hfirst
    cases first with
    | file content =>
      obtain rfl := Entry.eq_nil_of_at?_file hentry
      cases hentry
      exact ⟨List.forall_mem_singleton.2 hname, nofun⟩
    | directory below =>
      rw [Entry.at?_directory] at hentry
      obtain ⟨hrest, hreached⟩ := ih (hentries below rfl) hentry
      exact ⟨List.forall_mem_cons.2 ⟨hname, hrest⟩, hreached⟩

theorem find?_ne_none_of_entryAt? {rest : List Name} {entry : Entry}
    (h : directory.entryAt? (name :: rest) = some entry) : directory.find? name ≠ none := by
  intro hnone
  rw [entryAt?_cons, hnone] at h
  cases h

/-! ## The path of a location -/

theorem prefix_pathBelow (stem : Path) (location : List Name) :
    stem <+: pathBelow stem location := by
  fun_induction pathBelow stem location with
  | case1 stem => exact List.prefix_rfl
  | case2 stem name => exact List.prefix_append stem name
  | case3 stem name rest _ ih =>
    have hstem : stem <+: stem ++ name ++ [slash] := ⟨name ++ [slash], by simp⟩
    exact hstem.trans ih

theorem pathBelow_cons {rest : List Name} (stem : Path) (name : Name) (hrest : rest ≠ []) :
    pathBelow stem (name :: rest) = pathBelow (stem ++ name ++ [slash]) rest := by
  cases rest with
  | nil => exact absurd rfl hrest
  | cons => rw [pathBelow]; nofun

theorem pathBelow_append {above rest : List Name} (stem : Path) (habove : above ≠ [])
    (hrest : rest ≠ []) :
    pathBelow stem (above ++ rest) = pathBelow (pathBelow stem above ++ [slash]) rest := by
  induction above generalizing stem with
  | nil => exact absurd rfl habove
  | cons name above ih =>
    rw [List.cons_append, pathBelow_cons _ _ (List.append_ne_nil_of_right_ne_nil above hrest)]
    by_cases hnil : above = []
    · subst hnil
      rfl
    · rw [ih _ hnil, pathBelow_cons _ _ hnil]

theorem splitOn_pathBelow (base : Path) {location : List Name} (hne : location ≠ [])
    (hnames : ∀ name ∈ location, slash ∉ name) :
    (pathBelow (base ++ [slash]) location).splitOn slash = base.splitOn slash ++ location := by
  induction location generalizing base with
  | nil => exact absurd rfl hne
  | cons name rest ih =>
    obtain ⟨hname, hrest⟩ := List.forall_mem_cons.1 hnames
    have hsplit : (base ++ [slash] ++ name).splitOn slash = base.splitOn slash ++ [name] := by
      rw [List.append_assoc, List.singleton_append, List.splitOn_append_cons_self,
        List.splitOn_eq_singleton hname]
    cases rest with
    | nil => exact hsplit
    | cons next rest =>
      rw [pathBelow_cons _ _ (List.cons_ne_nil next rest), ih _ nofun hrest, hsplit,
        List.append_assoc, List.singleton_append]

theorem pathBelow_inj {base : Path} {one two : List Name} (hone : one ≠ []) (htwo : two ≠ [])
    (hone_names : ∀ name ∈ one, IsName name) (htwo_names : ∀ name ∈ two, IsName name)
    (h : pathBelow (base ++ [slash]) one = pathBelow (base ++ [slash]) two) : one = two := by
  have hsplit := congrArg (List.splitOn slash) h
  rw [splitOn_pathBelow base hone fun name hname => (hone_names name hname).noSlash,
    splitOn_pathBelow base htwo fun name hname => (htwo_names name hname).noSlash] at hsplit
  exact List.append_cancel_left hsplit

/-! ## Where paths lead -/

/-- A location is reached by its names. -/
theorem follow_names {here location : List Name} {entries : Directory} {entry : Entry}
    (hhere : directory.entryAt? here = some (.directory entries))
    (hentry : entries.entryAt? location = some entry) (hnames : ∀ name ∈ location, IsName name) :
    directory.follow here location = .ok (here ++ location) := by
  induction location generalizing here entries with
  | nil =>
    rw [List.append_nil]
    rfl
  | cons name rest ih =>
    obtain ⟨hname, hrest⟩ := List.forall_mem_cons.1 hnames
    rw [entryAt?_cons] at hentry
    obtain ⟨first, hfirst, hentry⟩ := Option.bind_eq_some_iff.1 hentry
    have hnext : directory.entryAt? (here ++ [name]) = some first := by
      rw [entryAt?_append, hhere, Option.bind_some, Entry.at?_directory]
      exact hfirst
    have hstep := follow_name hhere hname.stepsIn hname.stepsDown (Option.isSome_of_eq_some hnext)
    rw [← List.singleton_append, follow_append, hstep, ← List.append_assoc]
    cases first with
    | file content =>
      rw [Entry.eq_nil_of_at?_file hentry, List.append_nil]
      rfl
    | directory below =>
      rw [Entry.at?_directory] at hentry
      exact ih hnext hentry hrest

/-- An empty step leads nowhere. -/
theorem follow_empty {here reached : List Name} (h : directory.follow here [[]] = .ok reached) :
    reached = here := by
  rw [follow] at h
  split at h
  · cases h
  · cases h
  · cases h
    rfl

/-- The path of a directory up to and including its last slash, which is added if it is missing. -/
def stemOf (root : Path) : Path := if root.getLast? = some slash then root else root ++ [slash]

theorem exists_base (root : Path) :
    ∃ base, stemOf root = base ++ [slash] ∧ (root = base ++ [slash] ∨ root = base) := by
  unfold stemOf
  split
  next hlast =>
    obtain ⟨base, hbase⟩ := List.getLast?_eq_some_iff.1 hlast
    exact ⟨base, hbase, .inl hbase⟩
  next => exact ⟨root, rfl, .inr rfl⟩

/-- A slash at the end of the path of a directory makes no difference. -/
theorem follow_base {here reached : List Name} {root base : Path}
    (hbase : root = base ++ [slash] ∨ root = base)
    (h : directory.follow here (root.splitOn slash) = .ok reached) :
    directory.follow here (base.splitOn slash) = .ok reached := by
  rcases hbase with rfl | rfl
  · rw [List.splitOn_append_cons_self, List.splitOn_nil, follow_append] at h
    cases hfollow : directory.follow here (base.splitOn slash) with
    | error cause =>
      rw [hfollow] at h
      cases h
    | ok place =>
      rw [hfollow] at h
      rw [follow_empty h]
  · exact h

theorem prefix_stemOf_pathBelow (root : Path) (location : List Name) :
    root <+: pathBelow (stemOf root) location := by
  refine List.IsPrefix.trans ?_ (prefix_pathBelow _ _)
  unfold stemOf
  split
  · exact List.prefix_rfl
  · exact List.prefix_append _ _

theorem noNul_stemOf {root : Path} (h : nul ∉ root) : nul ∉ stemOf root := by
  unfold stemOf
  split
  · exact h
  · intro hmem
    exact (List.mem_append.1 hmem).elim h (by decide)

theorem mem_pathBelow {b : UInt8} {location : List Name} (h : b ∈ pathBelow stem location) :
    b ∈ stem ∨ b = slash ∨ ∃ name ∈ location, b ∈ name := by
  fun_induction pathBelow stem location with
  | case1 stem => exact .inl h
  | case2 stem name =>
    rcases List.mem_append.1 h with h | h
    · exact .inl h
    · exact .inr (.inr ⟨name, List.mem_cons_self, h⟩)
  | case3 stem name rest _ ih =>
    rcases ih h with hstem | hslash | ⟨other, hother, hb⟩
    · rcases List.mem_append.1 hstem with hstem | hslash
      · rcases List.mem_append.1 hstem with hstem | hname
        · exact .inl hstem
        · exact .inr (.inr ⟨name, List.mem_cons_self, hname⟩)
      · exact .inr (.inl (List.mem_singleton.1 hslash))
    · exact .inr (.inl hslash)
    · exact .inr (.inr ⟨other, List.mem_cons_of_mem _ hother, hb⟩)

theorem pathError?_pathBelow {root : Path} {location : List Name}
    (hroot : pathError? root = none) (hnames : ∀ name ∈ location, IsName name) :
    pathError? (pathBelow (stemOf root) location) =
      if (pathBelow (stemOf root) location).length ≤ pathLimit then none
      else some .nameTooLong := by
  obtain ⟨hnul, -, hne⟩ := pathError?_eq_none_iff.1 hroot
  have hbegins := prefix_stemOf_pathBelow root location
  refine pathError?_of_noNul (fun hmem => ?_) fun hnil => hne (List.prefix_nil.1 (hnil ▸ hbegins))
  rcases mem_pathBelow hmem with hstem | hslash | ⟨name, hname, hb⟩
  · exact noNul_stemOf hnul hstem
  · exact absurd hslash (by decide)
  · exact (hnames name hname).noNul hb

end Directory

namespace FileTree
open Directory

variable {tree : FileTree}

/-- The path leads to the location. -/
def Denotes (tree : FileTree) (path : Path) (location : List Name) : Prop :=
  tree.follow path = .ok location

theorem origin_of_prefix {root path : Path} (hne : root ≠ []) (h : root <+: path) :
    tree.origin path = tree.origin root := by
  obtain ⟨tail, rfl⟩ := h
  cases root with
  | nil => exact absurd rfl hne
  | cons b root => rfl

/-- The path of a location below the directory that a path leads to leads to that location. -/
theorem denotes_pathBelow {root : Path} {here location : List Name} {entries : Directory}
    {entry : Entry} (hroot : tree.Denotes root here) (hne : root ≠ [])
    (hhere : tree.root.entryAt? here = some (.directory entries))
    (hentry : entries.entryAt? location = some entry) (hlocation : location ≠ [])
    (hnames : ∀ name ∈ location, IsName name) :
    tree.Denotes (pathBelow (stemOf root) location) (here ++ location) := by
  obtain ⟨base, hstem, hbase⟩ := exists_base root
  rw [Denotes, follow, origin_of_prefix hne (prefix_stemOf_pathBelow root location), hstem,
    splitOn_pathBelow base hlocation fun name hname => (hnames name hname).noSlash, follow_append,
    follow_base hbase hroot]
  exact follow_names hhere hentry hnames

/-- A dot leads to the current directory, with any number of slashes behind it. -/
theorem denotes_dot {entries : Directory}
    (hcurrent : tree.root.entryAt? tree.current = some (.directory entries)) (slashes : Nat) :
    tree.Denotes (dot :: List.replicate slashes slash) tree.current := by
  have horigin (path : Path) : tree.origin (dot :: path) = tree.current := rfl
  have hstay {step : Name} (hstep : staysPut step) :
      tree.root.follow tree.current [step] = .ok tree.current := by
    simp only [Directory.follow, hcurrent, hstep, if_true]
  induction slashes with
  | zero =>
    rw [Denotes, follow, horigin]
    exact hstay rfl
  | succ slashes ih =>
    rw [Denotes, follow, horigin] at ih ⊢
    rw [List.replicate_succ', ← List.cons_append, List.splitOn_append_cons_self, List.splitOn_nil,
      follow_append, ih]
    exact hstay rfl

theorem lookup_dot {entries : Directory}
    (hcurrent : tree.root.entryAt? tree.current = some (.directory entries)) {slashes : Nat}
    (hsize : slashes < pathLimit) :
    tree.lookup (dot :: List.replicate slashes slash) = .ok (.directory entries) := by
  have hnul : nul ∉ dot :: List.replicate slashes slash := fun hmem => by
    rcases List.mem_cons.1 hmem with hdot | hslash
    · cases hdot
    · cases List.eq_of_mem_replicate hslash
  have herror : pathError? (dot :: List.replicate slashes slash) = none := by
    rw [pathError?_eq_none_iff, List.length_cons, List.length_replicate]
    exact ⟨hnul, hsize, List.cons_ne_nil _ _⟩
  exact lookup_eq_ok_iff.2 ⟨herror, _, denotes_dot hcurrent slashes, hcurrent⟩

theorem wellFormed_of_lookup (h : tree.root.WellFormed) {path : Path} {entries : Directory}
    (hentries : tree.lookup path = .ok (.directory entries)) : entries.WellFormed := by
  obtain ⟨-, location, -, hentry⟩ := lookup_eq_ok_iff.1 hentries
  exact (h.of_entryAt? hentry).2 entries rfl

end FileTree
end LogicTest
