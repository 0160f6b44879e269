import LogicTest.Text.Basic

/-!
# Conditions

A record may name conditions under which it is skipped and conditions of which it needs one. They
form two sets: neither order nor repetition matters. A set is listed in the order of code points,
so that sets with the same members are equal.
-/
namespace LogicTest

/-- A finite set of conditions, listed in code point order. -/
structure ConditionSet where
  toList : List Text
  sorted : toList.Pairwise (· < ·)
  deriving DecidableEq

namespace ConditionSet

/-- Puts `condition` in its place in an ordered list, unless it is there. -/
def place (condition : Text) : List Text → List Text
  | [] => [condition]
  | other :: rest =>
    if condition < other then condition :: other :: rest
    else if condition = other then other :: rest
    else other :: place condition rest

theorem mem_place {c d : Text} {list : List Text} : d ∈ place c list ↔ d = c ∨ d ∈ list := by
  induction list with
  | nil => simp [place]
  | cons other rest ih =>
    unfold place
    split
    · simp
    · split
      · simp_all
      · simp only [List.mem_cons, ih, or_left_comm]

theorem sorted_place {c : Text} {list : List Text} (h : list.Pairwise (· < ·)) :
    (place c list).Pairwise (· < ·) := by
  induction list with
  | nil => simp [place]
  | cons other rest ih =>
    obtain ⟨hother, hrest⟩ := List.pairwise_cons.1 h
    unfold place
    split <;> rename_i hlt
    · refine List.pairwise_cons.2 ⟨fun d hd => ?_, h⟩
      rcases List.mem_cons.1 hd with rfl | hd
      · exact hlt
      · exact List.lt_trans hlt (hother d hd)
    · split <;> rename_i hne
      · exact h
      · refine List.pairwise_cons.2 ⟨fun d hd => ?_, ih hrest⟩
        rcases mem_place.1 hd with rfl | hd
        · exact Decidable.byContradiction fun hgt =>
            hne (Std.Trichotomous.trichotomous d other hlt hgt)
        · exact hother d hd

def empty : ConditionSet := ⟨[], .nil⟩

def insert (set : ConditionSet) (condition : Text) : ConditionSet :=
  ⟨place condition set.toList, sorted_place set.sorted⟩

def isEmpty (set : ConditionSet) : Bool := set.toList.isEmpty

instance : Membership Text ConditionSet := ⟨fun set condition => condition ∈ set.toList⟩

instance (condition : Text) (set : ConditionSet) : Decidable (condition ∈ set) :=
  inferInstanceAs (Decidable (condition ∈ set.toList))

/-- The head of an ordered list is below the other members. -/
theorem lt_of_mem_tail {c d : Text} {rest : List Text} (h : (c :: rest).Pairwise (· < ·))
    (hd : d ∈ rest) : c < d := (List.pairwise_cons.1 h).1 d hd

theorem head_eq_of_mem_iff {c d : Text} {one two : List Text} (hone : (c :: one).Pairwise (· < ·))
    (htwo : (d :: two).Pairwise (· < ·)) (h : ∀ e, e ∈ c :: one ↔ e ∈ d :: two) : c = d := by
  rcases List.mem_cons.1 ((h c).1 List.mem_cons_self) with hc | hc
  · exact hc
  · rcases List.mem_cons.1 ((h d).2 List.mem_cons_self) with hd | hd
    · exact hd.symm
    · exact absurd (List.lt_trans (lt_of_mem_tail hone hd) (lt_of_mem_tail htwo hc))
        (List.lt_irrefl c)

theorem eq_of_mem_iff {one two : List Text} (hone : one.Pairwise (· < ·))
    (htwo : two.Pairwise (· < ·)) (h : ∀ c, c ∈ one ↔ c ∈ two) : one = two := by
  induction one generalizing two with
  | nil => exact (List.eq_nil_iff_forall_not_mem.2 fun c hc => List.not_mem_nil ((h c).2 hc)).symm
  | cons c one ih =>
    cases two with
    | nil => exact absurd ((h c).1 List.mem_cons_self) List.not_mem_nil
    | cons d two =>
      cases head_eq_of_mem_iff hone htwo h
      refine congrArg (c :: ·) (ih hone.of_cons htwo.of_cons fun e => ⟨fun he => ?_, fun he => ?_⟩)
      · refine (List.mem_cons.1 ((h e).1 (List.mem_cons_of_mem c he))).resolve_left ?_
        rintro rfl
        exact List.lt_irrefl _ (lt_of_mem_tail hone he)
      · refine (List.mem_cons.1 ((h e).2 (List.mem_cons_of_mem c he))).resolve_left ?_
        rintro rfl
        exact List.lt_irrefl _ (lt_of_mem_tail htwo he)

/-- Sets with the same members are equal. -/
@[ext] theorem ext {one two : ConditionSet} (h : ∀ c, c ∈ one ↔ c ∈ two) : one = two := by
  obtain ⟨_, hone⟩ := one
  obtain ⟨_, htwo⟩ := two
  cases eq_of_mem_iff hone htwo h
  rfl

@[simp] theorem mem_insert {c d : Text} {set : ConditionSet} :
    d ∈ set.insert c ↔ d = c ∨ d ∈ set := mem_place

@[simp] theorem not_mem_empty {c : Text} : c ∉ empty := List.not_mem_nil

end ConditionSet

/-- The conditions of one record: those under which it is skipped, and those of which it needs one
if there are any. -/
structure Conditions where
  skip : ConditionSet
  only : ConditionSet
  deriving DecidableEq

namespace Conditions

def none : Conditions := ⟨.empty, .empty⟩

def addSkip (conditions : Conditions) (condition : Text) : Conditions :=
  { conditions with skip := conditions.skip.insert condition }

def addOnly (conditions : Conditions) (condition : Text) : Conditions :=
  { conditions with only := conditions.only.insert condition }

end Conditions

end LogicTest
