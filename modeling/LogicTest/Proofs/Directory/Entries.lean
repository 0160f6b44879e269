import LogicTest.Directory.Basic

/-!
# Entries and locations

What a location leads to, one name at a time, and what becomes of it when an entry is put at some
location: it is found there (`entryAt?_put_self`), and when it is a file that takes the place of no
directory, every entry is kept, a directory as a directory (`entryAt?_put_file`).
-/
namespace LogicTest

def Entry.isDirectory : Entry → Bool
  | file _ => false
  | directory _ => true

/-- What a location leads to from an entry. -/
def Entry.at? : Entry → List Name → Option Entry
  | entry, [] => some entry
  | directory entries, name :: rest => entries.entryAt? (name :: rest)
  | file _, _ :: _ => none

@[simp] theorem Entry.at?_nil (entry : Entry) : entry.at? [] = some entry := by
  cases entry <;> rfl

@[simp] theorem Entry.at?_directory (entries : Directory) (location : List Name) :
    (directory entries).at? location = entries.entryAt? location := by
  cases location <;> rfl

/-- Nothing is below a file. -/
theorem Entry.eq_nil_of_at?_file {content : List UInt8} {location : List Name} {entry : Entry}
    (h : (file content).at? location = some entry) : location = [] := by
  cases location with
  | nil => rfl
  | cons => cases h

namespace Directory

variable {directory : Directory} {name other : Name} {entry : Entry}

theorem sub_eq_cons (name : Name) (entries others : Directory) :
    Directory.sub name entries others = cons name (.directory entries) others := rfl

/-- Induction on the entries of a directory, and of the directories among them. -/
@[elab_as_elim]
theorem consInduction {motive : Directory → Prop} (empty : motive empty)
    (cons : ∀ name entry others, (∀ entries, entry = .directory entries → motive entries) →
      motive others → motive (cons name entry others))
    (directory : Directory) : motive directory := by
  induction directory with
  | empty => exact empty
  | file name content others ih => exact cons name (.file content) others nofun ih
  | sub name entries others ihentries ih =>
    refine cons name (.directory entries) others (fun below hbelow => ?_) ih
    cases hbelow
    exact ihentries

theorem find?_cons (other : Name) (entry : Entry) (others : Directory) (name : Name) :
    (cons other entry others).find? name =
      if other = name then some entry else others.find? name := by
  cases entry <;> rfl

@[simp] theorem find?_cons_self : (cons name entry directory).find? name = some entry := by
  rw [find?_cons, if_pos rfl]

@[simp] theorem find?_cons_of_ne (h : other ≠ name) :
    (cons name entry directory).find? other = directory.find? other := by
  rw [find?_cons, if_neg h.symm]

theorem set_cons (former : Entry) :
    (cons other former directory).set name entry =
      if other = name then cons name entry directory
      else cons other former (directory.set name entry) := by
  cases former <;> rfl

@[simp] theorem find?_set_self : (directory.set name entry).find? name = some entry := by
  induction directory using consInduction with
  | empty => exact find?_cons_self
  | cons first former others _ ih =>
    rw [set_cons]
    split
    · exact find?_cons_self
    next hne => rw [find?_cons_of_ne (Ne.symm hne), ih]

@[simp] theorem find?_set_of_ne (h : other ≠ name) :
    (directory.set name entry).find? other = directory.find? other := by
  induction directory using consInduction with
  | empty => exact find?_cons_of_ne h
  | cons first former others _ ih =>
    rw [set_cons]
    split
    next heq => rw [heq, find?_cons_of_ne h, find?_cons_of_ne h]
    next => rw [find?_cons, find?_cons, ih]

theorem entryAt?_cons (directory : Directory) (name : Name) (rest : List Name) :
    directory.entryAt? (name :: rest) = (directory.find? name).bind (·.at? rest) := by
  cases rest with
  | nil =>
    rw [entryAt?]
    cases directory.find? name <;> simp
  | cons next rest =>
    rw [entryAt?]
    · cases directory.find? name with
      | none => rfl
      | some entry => cases entry <;> rfl
    · nofun

theorem entryAt?_append (directory : Directory) (one two : List Name) :
    directory.entryAt? (one ++ two) = (directory.entryAt? one).bind (·.at? two) := by
  induction one generalizing directory with
  | nil => simp [entryAt?]
  | cons name rest ih =>
    rw [List.cons_append, entryAt?_cons, entryAt?_cons, Option.bind_assoc]
    congr 1
    funext entry
    cases entry with
    | directory entries => simp [ih]
    | file content => cases rest <;> cases two <;> rfl

theorem put_cons (directory : Directory) (entry : Entry) (name : Name) (rest : List Name) :
    directory.put entry (name :: rest) = directory.set name (if rest = [] then entry else
      .directory ((directory.subdirectory name).put entry rest)) := by
  cases rest with
  | nil => rfl
  | cons next rest =>
    rw [put, if_neg nofun]
    nofun

theorem subdirectory_of_find? {entries : Directory}
    (h : directory.find? name = some (.directory entries)) :
    directory.subdirectory name = entries := by
  rw [subdirectory, h]

/-- What is put at a location is found there. -/
theorem entryAt?_put_self (entry : Entry) {location : List Name} (h : location ≠ [])
    (directory : Directory) : (directory.put entry location).entryAt? location = some entry := by
  induction location generalizing directory with
  | nil => exact absurd rfl h
  | cons name rest ih =>
    rw [put_cons, entryAt?_cons, find?_set_self, Option.bind_some]
    split
    next hrest => simp [hrest]
    next hrest => rw [Entry.at?_directory, ih hrest]

/-- No entry is lost to a file that is put where no directory is, and a directory stays one. -/
theorem entryAt?_put_file {location : List Name} (content : List UInt8)
    (hfree : ∀ entries, directory.entryAt? location ≠ some (.directory entries))
    {here : List Name} {found : Entry} (hfound : directory.entryAt? here = some found) :
    ∃ kept, (directory.put (.file content) location).entryAt? here = some kept ∧
      (found.isDirectory → kept.isDirectory) := by
  induction location generalizing directory here found with
  | nil => exact absurd rfl (hfree directory)
  | cons name rest ih =>
    cases here with
    | nil => exact ⟨_, rfl, fun _ => rfl⟩
    | cons other here =>
      rw [put_cons]
      rw [entryAt?_cons] at hfound
      by_cases hother : other = name
      · subst hother
        obtain ⟨first, hfirst, hfound⟩ := Option.bind_eq_some_iff.1 hfound
        rw [entryAt?_cons, find?_set_self, Option.bind_some]
        have hfree' (entries : Directory) : first.at? rest ≠ some (.directory entries) := by
          simpa [entryAt?_cons, hfirst] using hfree entries
        cases first with
        | file former =>
          -- the file is in the way to the location, or at it
          obtain rfl := Entry.eq_nil_of_at?_file hfound
          cases hfound
          exact ⟨_, Entry.at?_nil _, nofun⟩
        | directory entries =>
          have hrest : rest ≠ [] := by
            rintro rfl
            exact hfree' entries rfl
          rw [if_neg hrest, subdirectory_of_find? hfirst, Entry.at?_directory]
          simp only [Entry.at?_directory] at hfree' hfound
          exact ih hfree' hfound
      · exact ⟨found, by rw [entryAt?_cons, find?_set_of_ne hother, hfound], id⟩

/-- A file that takes the place of another leaves the other files as they are. -/
theorem entryAt?_put_file_of_ne {location here : List Name} {former content kept : List UInt8}
    (hformer : directory.entryAt? location = some (.file former)) (hne : here ≠ location)
    (hkept : directory.entryAt? here = some (.file kept)) :
    (directory.put (.file content) location).entryAt? here = some (.file kept) := by
  induction location generalizing directory here with
  | nil => cases hformer
  | cons name rest ih =>
    cases here with
    | nil => cases hkept
    | cons other here =>
      rw [put_cons, entryAt?_cons]
      rw [entryAt?_cons] at hformer hkept
      by_cases hother : other = name
      · subst hother
        obtain ⟨first, hfirst, hformer⟩ := Option.bind_eq_some_iff.1 hformer
        rw [hfirst, Option.bind_some] at hkept
        rw [find?_set_self, Option.bind_some]
        have hne : here ≠ rest := fun h => hne (h ▸ rfl)
        cases first with
        | file first =>
          -- both locations end at this file
          have hhere := Entry.eq_nil_of_at?_file hkept
          exact absurd (hhere.trans (Entry.eq_nil_of_at?_file hformer).symm) hne
        | directory entries =>
          have hrest : rest ≠ [] := by
            rintro rfl
            cases hformer
          rw [if_neg hrest, subdirectory_of_find? hfirst, Entry.at?_directory]
          simp only [Entry.at?_directory] at hformer hkept
          exact ih hformer hne hkept
      · rw [find?_set_of_ne hother, hkept]

end Directory
end LogicTest
