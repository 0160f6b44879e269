import Mathlib.Data.List.Basic
import LogicTest.Text.Basic

/-!
# Cutting a text at a marker

A text is cut at the first place where the marker stands, and nowhere else: what comes before is
shorter than before any other occurrence.
-/
namespace LogicTest.Text

/-- `text` is `before`, the marker and `after`, and the marker stands nowhere further left. -/
structure CutsAt (marker text before after : Text) : Prop where
  eq_append : text = before ++ marker ++ after
  first : ∀ before' after', text = before' ++ marker ++ after' → before.length ≤ before'.length

theorem isPrefixOf?_eq_none_iff {one two : Text} : one.isPrefixOf? two = none ↔ ¬ one <+: two := by
  rw [Option.eq_none_iff_forall_not_mem, List.IsPrefix, not_exists]
  exact forall_congr' fun rest => not_congr List.isPrefixOf?_eq_some_iff_append_eq

theorem isPrefixOf?_append (one two : Text) : one.isPrefixOf? (one ++ two) = some two :=
  List.isPrefixOf?_eq_some_iff_append_eq.2 rfl

theorem cutAround?_eq_none_iff {marker text : Text} :
    cutAround? marker text = none ↔ ¬ marker <:+: text := by
  induction text with
  | nil =>
    unfold cutAround?
    cases h : marker.isPrefixOf? [] with
    | none =>
      rw [isPrefixOf?_eq_none_iff, List.prefix_nil] at h
      simpa using h
    | some after =>
      have := List.isPrefixOf?_eq_some_iff_append_eq.1 h
      simpa using (List.append_eq_nil_iff.1 this).1
  | cons c rest ih =>
    unfold cutAround?
    cases h : marker.isPrefixOf? (c :: rest) with
    | none => simp [List.infix_cons_iff, isPrefixOf?_eq_none_iff.1 h, ih]
    | some after =>
      have : marker <+: c :: rest := ⟨after, List.isPrefixOf?_eq_some_iff_append_eq.1 h⟩
      simp [List.infix_cons_iff, this]

theorem cutsAt_of_cutAround? {marker text before after : Text}
    (h : cutAround? marker text = some (before, after)) : CutsAt marker text before after := by
  induction text generalizing before with
  | nil =>
    unfold cutAround? at h
    cases hkeyword : marker.isPrefixOf? [] with
    | none =>
      rw [hkeyword] at h
      cases h
    | some rest =>
      rw [hkeyword] at h
      cases h
      exact ⟨(List.isPrefixOf?_eq_some_iff_append_eq.1 hkeyword).symm, fun _ _ _ => Nat.zero_le _⟩
  | cons c rest ih =>
    unfold cutAround? at h
    cases hkeyword : marker.isPrefixOf? (c :: rest) with
    | some rest =>
      rw [hkeyword] at h
      cases h
      exact ⟨(List.isPrefixOf?_eq_some_iff_append_eq.1 hkeyword).symm, fun _ _ _ => Nat.zero_le _⟩
    | none =>
      rw [hkeyword] at h
      dsimp only at h
      obtain ⟨⟨left, right⟩, hcut, heq⟩ := Option.map_eq_some_iff.1 h
      cases heq
      obtain ⟨hrest, hfirst⟩ := ih hcut
      refine ⟨by simp [hrest], fun before' after' htext => ?_⟩
      cases before' with
      | nil =>
        rw [List.nil_append] at htext
        exact absurd ⟨after', htext.symm⟩ (isPrefixOf?_eq_none_iff.1 hkeyword)
      | cons d before' =>
        have hcons : rest = before' ++ marker ++ after' := by
          simp only [List.cons_append, List.cons.injEq] at htext
          exact htext.2
        simpa using hfirst before' after' hcons

theorem cutAround?_eq_some_iff {marker text before after : Text} :
    cutAround? marker text = some (before, after) ↔ CutsAt marker text before after := by
  refine ⟨cutsAt_of_cutAround?, fun h => ?_⟩
  cases hcut : cutAround? marker text with
  | none =>
    exact absurd ⟨before, after, h.eq_append.symm⟩ (cutAround?_eq_none_iff.1 hcut)
  | some pair =>
    obtain ⟨left, right⟩ := pair
    obtain ⟨heq, hfirst⟩ := cutsAt_of_cutAround? hcut
    have hlength : left.length = before.length :=
      Nat.le_antisymm (hfirst _ _ h.eq_append) (h.first _ _ heq)
    have happend : left ++ (marker ++ right) = before ++ (marker ++ after) := by
      rw [← List.append_assoc, ← heq, h.eq_append, List.append_assoc]
    obtain ⟨rfl, hrest⟩ := List.append_inj happend hlength
    rw [List.append_cancel_left hrest]

/-- A text is cut where the marker is written if the first character of the marker is not met
before. -/
theorem cutsAt_of_not_mem {c : Char} {marker before : Text} (h : c ∉ before) (after : Text) :
    CutsAt (c :: marker) (before ++ c :: marker ++ after) before after := by
  refine ⟨rfl, fun before' after' heq => ?_⟩
  by_cases hle : before.length ≤ before'.length
  · exact hle
  exfalso
  have hkeyword : before' ++ [c] <+: before ++ c :: marker ++ after := by
    rw [heq]
    exact ⟨marker ++ after', by simp⟩
  have hbefore : before <+: before ++ c :: marker ++ after := by
    rw [List.append_assoc]
    exact List.prefix_append _ _
  have hlength : (before' ++ [c]).length ≤ before.length := by
    rw [List.length_append, List.length_singleton]
    omega
  exact h ((List.prefix_of_prefix_length_le hkeyword hbefore hlength).subset (by simp))

end LogicTest.Text
