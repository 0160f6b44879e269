import LogicTest.Proofs.Grammar.Course

/-!
# Between the items of a script

After the lines of some items, and of comments behind them, the next item begins. That is said by
the grammar alone (`Between`), and a parse that is not stopped before finds itself there at the
start of an item, and nowhere else (`between_iff_leads`).
-/
namespace LogicTest
namespace Grammar

/-- The lines are those of `items`, all of which end with lines of their own, and of comments. -/
def Between (lines : List Text) (items : List Item) : Prop :=
  ∃ body comments, lines = body ++ comments ∧ Items 0 body items ∧ logicalLines comments = []

theorem Between.nil : Between [] [] := ⟨[], [], rfl, .nil, rfl⟩

variable {lines : List Text} {items : List Item}

/-- What comes after them is divided by itself. -/
theorem Between.division_eq (h : Between lines items) (rest : Source) :
    (Source.division (lines.map .line ++ rest)).items =
        items ++ (divide lines.length .start rest).items ∧
      (Source.division (lines.map .line ++ rest)).break? =
        (divide lines.length .start rest).break? := by
  obtain ⟨body, comments, rfl, hbody, hcomments⟩ := h
  have hdivide := divide_items hbody (comments.map .line ++ rest)
  rw [divide_goes .nil rfl hcomments, Nat.zero_add, ← List.length_append, ← List.append_assoc,
    ← List.map_append] at hdivide
  exact hdivide

end Grammar

open Grammar

variable {policy : Policy} {lines : List Text} {items : List Item}

theorem Leads.between (h : Leads policy 0 .start lines items .start) : Between lines items := by
  obtain ⟨body, comments, hlines, hbody, hreached⟩ := h.exists_items
  cases hreached with
  | start hcomments => exact ⟨body, comments, hlines, hbody, hcomments⟩

/-- A phase that adds no item at the end of the input, and no fault, is that between items. -/
theorem Phase.eq_start_of_finish {phase : Phase} {place : Cursor}
    (hitems : (phase.finish place).items = []) (hbreak : (phase.finish place).break? = none) :
    phase = .start := by
  rcases phase.finish_cases place with ⟨hstart, -⟩ | hfinish | ⟨conditions, operation, -, hfinish⟩
  · exact hstart
  · rw [hfinish] at hbreak
    cases hbreak
  · rw [hfinish] at hitems
    cases hitems

/-- Items of which the policy keeps no `halt` lead a parse on. -/
theorem Grammar.Between.leads (h : Between lines items)
    (running : ∀ item ∈ items, item.stops policy = false) :
    Leads policy 0 .start lines items .start := by
  obtain ⟨hitems, hbreak⟩ := h.division_eq []
  have hend : (divide lines.length .start []).items = [] := rfl
  rw [hend, List.append_nil items] at hitems
  rcases leads_or_stops policy 0 .start lines with
    ⟨found, last, hleads⟩ | ⟨read, line, rest, found, last, rfl, hleads, hstops⟩
  · obtain ⟨hfound, hfound_break⟩ := hleads.division_eq []
    -- a read that fails leaves the items that are complete
    have hcomplete := (h.division_eq [.failure .notUtf8]).1.symm.trans
      (hleads.division_eq [.failure .notUtf8]).1
    obtain rfl : items = found := by simpa [divide, Division.items] using hcomplete
    have hfinish := hitems.symm.trans hfound
    rw [List.self_eq_append_right] at hfinish
    have hlast : last = .start :=
      Phase.eq_start_of_finish hfinish (hfound_break.symm.trans hbreak)
    rwa [hlast] at hleads
  · exfalso
    obtain ⟨hfound, hfound_break⟩ := hleads.division_eq ((line :: rest).map .line ++ [])
    rw [← List.append_assoc, ← List.map_append, List.map_cons, List.cons_append, divide_line]
      at hfound hfound_break
    rcases hstops with ⟨conditions, hhalt, hkept⟩ | ⟨conditions, fault, hstuck⟩
    · rw [hhalt] at hfound
      have hmem : .halt conditions ∈ items := by
        rw [← hitems, Source.division, hfound]
        exact List.mem_append_right _ List.mem_cons_self
      exact Bool.false_ne_true ((running _ hmem).symm.trans hkept)
    · rw [hstuck] at hfound_break
      cases hfound_break.symm.trans hbreak

/-- After these lines a parse is between items. -/
theorem between_iff_leads :
    Leads policy 0 .start lines items .start ↔
      Between lines items ∧ ∀ item ∈ items, item.stops policy = false :=
  ⟨fun h => ⟨h.between, h.running⟩, fun h => h.1.leads h.2⟩

end LogicTest
