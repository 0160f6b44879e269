import LogicTest.Proofs.Directory.Found

/-!
# The order of a search

A search goes through the sorted entries of each directory, so it meets everything in the order of
the locations, which are compared name by name and not as paths (`Ordered.pairwise_met`).
-/
namespace LogicTest.Directory

variable {directory : Directory} {stem : Path} {name : Name}

/-! ## Sorted entries -/

/-- The entries of every directory are in the order of their names. -/
def Ordered : Directory → Prop
  | empty => True
  | file name _ others => (∀ other, others.find? other ≠ none → name < other) ∧ others.Ordered
  | sub name entries others =>
    (∀ other, others.find? other ≠ none → name < other) ∧ entries.Ordered ∧ others.Ordered

theorem ordered_cons {entry : Entry} {others : Directory} :
    (cons name entry others).Ordered ↔ (∀ other, others.find? other ≠ none → name < other) ∧
      (∀ entries, entry = .directory entries → entries.Ordered) ∧ others.Ordered := by
  cases entry <;> simp [cons, Ordered]

theorem find?_cons_ne_none {entry : Entry} {others : Directory} {other : Name} :
    (cons name entry others).find? other ≠ none ↔ other = name ∨ others.find? other ≠ none := by
  rw [find?_cons]
  split
  next heq => simp [heq]
  next hne => simp [Ne.symm hne]

theorem find?_insert_ne_none {entry : Entry} {others : Directory} {other : Name}
    (h : (others.insert name entry).find? other ≠ none) :
    other = name ∨ others.find? other ≠ none := by
  induction others using consInduction with
  | empty => exact find?_cons_ne_none.1 h
  | cons first former others _ ih =>
    rw [insert_cons] at h
    split at h
    · exact find?_cons_ne_none.1 h
    · rcases find?_cons_ne_none.1 h with heq | h
      · exact .inr (find?_cons_ne_none.2 (.inl heq))
      · exact (ih h).imp_right fun h => find?_cons_ne_none.2 (.inr h)

theorem ordered_insert {entry : Entry} {others : Directory} (hnew : others.find? name = none)
    (hentries : ∀ entries, entry = .directory entries → entries.Ordered) (h : others.Ordered) :
    (others.insert name entry).Ordered := by
  induction others using consInduction with
  | empty => exact ordered_cons.2 ⟨nofun, hentries, trivial⟩
  | cons first former others _ ih =>
    obtain ⟨hleast, hformer, hothers⟩ := ordered_cons.1 h
    rw [find?_cons] at hnew
    split at hnew
    · cases hnew
    next hne =>
      rw [insert_cons]
      split
      next hlt =>
        refine ordered_cons.2 ⟨fun other hother => ?_, hentries, h⟩
        rcases find?_cons_ne_none.1 hother with rfl | hother
        · exact hlt
        · exact List.lt_trans hlt (hleast other hother)
      next hge =>
        refine ordered_cons.2 ⟨fun other hother => ?_, hformer, ih hnew hothers⟩
        rcases find?_insert_ne_none hother with rfl | hother
        · exact Decidable.by_contra fun hlt =>
            hne (List.le_antisymm (List.not_lt.1 hge) (List.not_lt.1 hlt))
        · exact hleast other hother

theorem find?_sorted_ne_none {other : Name} (h : directory.sorted.find? other ≠ none) :
    directory.find? other ≠ none := by
  induction directory with
  | empty => exact h
  | file name content others ih | sub name entries others _ ih =>
    rw [find?]
    split
    · nofun
    next hne => exact ih ((find?_insert_ne_none h).resolve_left (Ne.symm hne))

theorem find?_sorted_eq_none (h : directory.find? name = none) :
    directory.sorted.find? name = none :=
  Decidable.by_contra fun hne => find?_sorted_ne_none hne h

/-- Sorting puts the entries in order, since no two of them share a name. -/
theorem ordered_sorted (h : directory.WellFormed) : directory.sorted.Ordered := by
  induction directory with
  | empty => trivial
  | file name content others ih =>
    obtain ⟨-, hnew, hothers⟩ := h
    exact ordered_insert (find?_sorted_eq_none hnew) nofun (ih hothers)
  | sub name entries others ihentries ih =>
    obtain ⟨-, hnew, hentries, hothers⟩ := h
    refine ordered_insert (find?_sorted_eq_none hnew) ?_ (ih hothers)
    rintro _ ⟨⟩
    exact ihentries hentries

/-! ## Locations in order -/

/-- Locations in order: name by name, and names by their bytes. -/
def Before (one two : List Name) : Prop := one < two

theorem before_of_lt {one two : Name} (h : one < two) (above below : List Name) :
    Before (one :: above) (two :: below) :=
  List.cons_lt_cons_iff.2 (.inl h)

theorem Before.cons {one two : List Name} (h : Before one two) (name : Name) :
    Before (name :: one) (name :: two) :=
  List.cons_lt_cons_iff.2 (.inr ⟨rfl, h⟩)

theorem Before.ne {one two : List Name} (h : Before one two) : one ≠ two := by
  rintro rfl
  exact List.lt_irrefl _ h

theorem exists_of_mem_met {location : List Name} {found : Found}
    (h : (location, found) ∈ directory.met stem) :
    ∃ name rest, location = name :: rest ∧ directory.find? name ≠ none := by
  induction directory using consInduction with
  | empty => cases h
  | cons first entry others _ ih =>
    rw [met_cons] at h
    rcases List.mem_append.1 h with h | h
    · obtain ⟨rest, rfl⟩ := exists_of_mem_metAt h
      exact ⟨first, rest, rfl, find?_cons_ne_none.2 (.inl rfl)⟩
    · obtain ⟨name, rest, rfl, hname⟩ := ih h
      exact ⟨name, rest, rfl, find?_cons_ne_none.2 (.inr hname)⟩

/-- In a directory in order, a search meets everything in order. -/
theorem Ordered.pairwise_met (h : directory.Ordered) (stem : Path) :
    (directory.met stem).Pairwise fun one two => Before one.1 two.1 := by
  induction directory using consInduction generalizing stem with
  | empty => exact .nil
  | cons name entry others ihentries ih =>
    obtain ⟨hleast, hentries, hothers⟩ := ordered_cons.1 h
    rw [met_cons, List.pairwise_append]
    refine ⟨?_, ih hothers stem, fun one hone two htwo => ?_⟩
    · cases entry with
      | file content => exact List.pairwise_singleton _ _
      | directory entries =>
        rw [metAt_directory]
        split
        · exact List.pairwise_singleton _ _
        · rw [List.pairwise_map]
          exact (ihentries entries rfl (hentries entries rfl) _).imp fun hbefore =>
            hbefore.cons name
    · obtain ⟨above, hfirst⟩ := exists_of_mem_metAt hone
      obtain ⟨other, below, hsecond, hother⟩ := exists_of_mem_met htwo
      rw [hfirst, hsecond]
      exact before_of_lt (hleast other hother) above below

end LogicTest.Directory
