import LogicTest.Proofs.Division.Renumbered
import LogicTest.Proofs.Grammar.Course

/-!
# The lines that queries are on

A query is said to be on the line of its delimiter, and on the last line of the script if it has
none. The line itself tells which is the case: where the text of a query runs to the end of the
input, the last line does not read like a delimiter.
-/
namespace LogicTest
namespace Grammar

/-- Line `lineNo`, counted from one, reads like the delimiter of a query. -/
def DelimiterAt (lines : List Text) : Nat → Prop
  | 0 => False
  | index + 1 => lines[index]?.map logical = some resultDelimiter

instance (lines : List Text) (lineNo : Nat) : Decidable (DelimiterAt lines lineNo) :=
  match lineNo with
  | 0 => inferInstanceAs (Decidable False)
  | index + 1 => inferInstanceAs (Decidable (lines[index]?.map logical = some resultDelimiter))

section
variable {lines : List Text} {lineNo : Nat} {line : Text}

theorem DelimiterAt.le_length (h : DelimiterAt lines lineNo) : lineNo ≤ lines.length := by
  cases lineNo with
  | zero => exact Nat.zero_le _
  | succ index =>
    obtain ⟨line, hline, -⟩ := Option.map_eq_some_iff.1 h
    exact (List.getElem?_eq_some_iff.1 hline).1

theorem DelimiterAt.append (h : DelimiterAt lines lineNo) (rest : List Text) :
    DelimiterAt (lines ++ rest) lineNo := by
  cases lineNo with
  | zero => exact h
  | succ index =>
    have hlt : index < lines.length := h.le_length
    rwa [DelimiterAt, List.getElem?_append_left hlt]

theorem delimiterAt_iff (hline : lines[lineNo]? = some line) :
    DelimiterAt lines (lineNo + 1) ↔ logical line = resultDelimiter := by
  rw [DelimiterAt, hline, Option.map_some, Option.some_inj]

end

end Grammar

open Grammar

/-! ## One line -/

def Operation.Placed (lines : List Text) : Operation → Prop
  | .statement .. => True
  | .query _ sourceLine _ _ => DelimiterAt lines sourceLine

/-- If the item is a query, it is on a line that reads like a delimiter. -/
def Item.Placed (lines : List Text) : Item → Prop
  | .operation _ found => found.Placed lines
  | _ => True

/-- After line `lineNo`, the query at hand is on the line of its delimiter if this has been read; as
long as its text goes on, the last line that was read is not one. -/
def BodyPhase.Placed (lines : List Text) (lineNo : Nat) : BodyPhase → Prop
  | .statement .. | .heading => True
  | .text .. => ¬ DelimiterAt lines lineNo
  | .result query | .values query _ => DelimiterAt lines query.sourceLine
  | .separator operation => operation.Placed lines

def Phase.Placed (lines : List Text) (lineNo : Nat) : Phase → Prop
  | .body _ phase => phase.Placed lines lineNo
  | _ => True

def BodyStep.Placed (lines : List Text) (lineNo : Nat) : BodyStep → Prop
  | .more phase => phase.Placed lines lineNo
  | .done operation => operation.Placed lines
  | .stuck _ => True

def Step.Placed (lines : List Text) (lineNo : Nat) : Step → Prop
  | .more phase => phase.Placed lines lineNo
  | .done item => item.Placed lines
  | .stuck _ _ => True

section
variable {lines : List Text} {lineNo : Nat} {line : Text}

theorem Operation.Placed.sourceLine {operation : Operation} (h : operation.Placed lines) :
    ∀ found ∈ operation.sourceLine?, DelimiterAt lines found := by
  rintro found hfound
  cases operation with
  | statement => cases hfound
  | query =>
    cases hfound
    exact h

theorem Item.Placed.sourceLine {item : Item} (h : item.Placed lines) :
    ∀ found ∈ item.sourceLine?, DelimiterAt lines found := by
  rintro found hfound
  cases item with
  | operation => exact Operation.Placed.sourceLine h found hfound
  | _ => cases hfound

theorem Phase.Placed.sourceLine {phase : Phase} (h : phase.Placed lines lineNo) :
    ∀ found ∈ phase.sourceLine?, DelimiterAt lines found := by
  rintro found hfound
  cases phase with
  | body conditions phase =>
    cases phase with
    | result | values =>
      cases hfound
      exact h
    | separator => exact Operation.Placed.sourceLine h found hfound
    | _ => cases hfound
  | _ => cases hfound

theorem BodyStep.Placed.within {step : BodyStep} (h : step.Placed lines lineNo)
    (conditions : Conditions) : (step.within conditions).Placed lines lineNo := by
  cases step <;> exact h

theorem placed_takeHeader (hline : DelimiterAt lines lineNo → line = resultDelimiter) :
    (BodyPhase.takeHeader line).Placed lines lineNo := by
  unfold BodyPhase.takeHeader
  split
  · trivial
  · split
    · trivial
    next description hkeyword =>
      split
      · trivial
      · intro hdelimiter
        rw [hline hdelimiter] at hkeyword
        cases hkeyword

theorem placed_takeResult {query : OpenQuery} (h : DelimiterAt lines query.sourceLine) :
    (BodyPhase.takeResult query line).Placed lines lineNo := by
  unfold BodyPhase.takeResult
  split
  · split
    · trivial
    · exact h
  · split <;> exact h

theorem placed_take_values {query : OpenQuery} {values : List Text} {next : Nat}
    (h : DelimiterAt lines query.sourceLine) :
    (BodyPhase.take next (.values query values) line).Placed lines lineNo := by
  simp only [BodyPhase.take]
  split <;> exact h

theorem BodyPhase.Placed.take {phase : BodyPhase} (h : phase.Placed lines lineNo)
    (hscript : ∀ query values, phase ≠ .values query values)
    (hline : DelimiterAt lines (lineNo + 1) ↔ line = resultDelimiter) :
    (phase.take (lineNo + 1) line).Placed lines (lineNo + 1) := by
  cases phase with
  | statement header gathered =>
    simp only [BodyPhase.take]
    split <;> trivial
  | heading => exact placed_takeHeader hline.1
  | text header gathered =>
    simp only [BodyPhase.take]
    split
    next hdelimiter => exact hline.2 hdelimiter
    next hdelimiter => exact fun hfound => hdelimiter (hline.1 hfound)
  | result query => exact placed_takeResult h
  | values => exact absurd rfl (hscript _ _)
  | separator operation =>
    simp only [BodyPhase.take]
    split
    · exact h
    · trivial

theorem placed_ofLine (directives : List Text)
    (hline : DelimiterAt lines lineNo → line = resultDelimiter) :
    (Step.ofLine directives line).Placed lines lineNo := by
  unfold Step.ofLine
  split
  · trivial
  · split
    · trivial
    · split
      · trivial
      · exact (placed_takeHeader hline).within _

/-- A line that is passed over, and that is no delimiter, leaves the query at hand where it is. -/
theorem BodyPhase.Placed.passOver {phase : BodyPhase} (h : phase.Placed lines lineNo)
    (hline : ¬ DelimiterAt lines (lineNo + 1)) : phase.Placed lines (lineNo + 1) := by
  cases phase with
  | text => exact hline
  | _ => exact h

/-- Between items, where a record begins and in its body alike. -/
theorem Phase.Placed.step {phase : Phase} (h : phase.Placed lines lineNo)
    (hline : lines[lineNo]? = some line) :
    (phase.step (lineNo + 1) line.trim).Placed lines (lineNo + 1) := by
  have hdelimiter := delimiterAt_iff hline
  cases hkind : phase.kind with
  | data =>
    rw [Phase.step_of_data hkind]
    obtain ⟨conditions, query, values, rfl⟩ := Phase.kind_eq_data_iff.1 hkind
    exact (placed_take_values h).within conditions
  | script =>
    rw [Phase.step_of_script hkind, withoutComment_trim]
    split
    next hcomment =>
      cases phase with
      | body conditions phase =>
        refine BodyPhase.Placed.passOver h fun hfound => ?_
        rw [hdelimiter, logical_of_comment hcomment] at hfound
        cases hfound
      | _ => trivial
    · cases phase with
      | start =>
        simp only [Phase.take]
        split
        · trivial
        · split
          · trivial
          · exact placed_ofLine [] hdelimiter.1
      | directives found => exact placed_ofLine found hdelimiter.1
      | body conditions phase =>
        refine (BodyPhase.Placed.take h (fun query values heq => ?_) hdelimiter).within conditions
        subst heq
        cases hkind

end

/-! ## All of them -/

section
variable {policy : Policy} {lines : List Text} {items : List Item} {last : Phase}

theorem prefix_drop_of_cons {all : List Text} {lineNo : Nat} {line : Text}
    (h : line :: lines <+: all.drop lineNo) :
    all[lineNo]? = some line ∧ lines <+: all.drop (lineNo + 1) := by
  obtain ⟨rest, hrest⟩ := h
  refine ⟨?_, rest, ?_⟩
  · rw [← List.head?_drop, ← hrest]
    rfl
  · rw [← List.tail_drop, ← hrest]
    rfl

/-- The queries that lines complete are on lines that read like a delimiter. -/
theorem Leads.placed {lineNo : Nat} {phase : Phase} {all : List Text}
    (h : Leads policy lineNo phase lines items last) (hlines : lines <+: all.drop lineNo)
    (hphase : phase.Placed all lineNo) :
    (∀ item ∈ items, item.Placed all) ∧ last.Placed all (lineNo + lines.length) := by
  induction h with
  | nil => exact ⟨fun item hitem => absurd hitem List.not_mem_nil, hphase⟩
  | more step _ ih =>
    obtain ⟨hline, hrest⟩ := prefix_drop_of_cons hlines
    have hstep := hphase.step hline
    rw [step] at hstep
    rw [add_length_cons]
    exact ih hrest hstep
  | done step _ _ ih =>
    obtain ⟨hline, hrest⟩ := prefix_drop_of_cons hlines
    have hstep := hphase.step hline
    rw [step] at hstep
    rw [add_length_cons]
    obtain ⟨hitems, hlast⟩ := ih hrest trivial
    exact ⟨List.forall_mem_cons.2 ⟨hstep, hitems⟩, hlast⟩

end
end LogicTest
