import LogicTest.Proofs.Division.Replay
import LogicTest.Proofs.Text.Trim

/-!
# A source and its trimmed lines

A source in which every line is trimmed is divided and parsed like the source itself: each line is
looked at through its trimmed text only, and trimming it once more changes nothing. So sources with
the same trimmed lines have the same outcome (`agrees_of_trimmed_eq`).
-/
namespace LogicTest

def Reading.trimmed : Reading → Reading
  | line text => .line text.trim
  | failure cause => .failure cause

def Source.trimmed (source : Source) : Source := source.map Reading.trimmed

/-- The same place in the source with trimmed lines. -/
def Cursor.trimmed (c : Cursor) : Cursor := { c with unread := c.unread.trimmed }

def Division.trimmed : Division → Division
  | ended place => .ended place.trimmed
  | failed conditions fault place => .failed conditions fault place.trimmed
  | item first place rest => .item first place.trimmed rest.trimmed

theorem Phase.finish_trimmed (phase : Phase) (lineNo : Nat) :
    (phase.finish ⟨[], lineNo, none, true⟩).trimmed = phase.finish ⟨[], lineNo, none, true⟩ := by
  cases phase with
  | body conditions phase =>
    simp only [Phase.finish]
    cases phase.finish lineNo <;> rfl
  | _ => rfl

theorem divide_trimmed (lineNo : Nat) (phase : Phase) (source : Source) :
    divide lineNo phase source.trimmed = (divide lineNo phase source).trimmed := by
  induction source generalizing lineNo phase with
  | nil => exact (phase.finish_trimmed lineNo).symm
  | cons reading rest ih =>
    cases reading with
    | failure cause => rfl
    | line line =>
      have hcons :
          Source.trimmed (.line line :: rest) = .line line.trim :: Source.trimmed rest := rfl
      rw [hcons, divide_line, divide_line, Text.trimmed_trim line]
      cases phase.step (lineNo + 1) line.trim with
      | more next => exact ih (lineNo + 1) next
      | done item => exact congrArg (Division.item item _) (ih (lineNo + 1) .start)
      | stuck conditions fault => rfl

theorem replay_trimmed (policy : Policy) (progress : Progress) (division : Division) :
    replay policy progress division.trimmed =
      { replay policy progress division with
        cursor := (replay policy progress division).cursor.trimmed } := by
  induction division generalizing progress with
  | ended place => rfl
  | failed conditions fault place => rfl
  | item item place rest ih =>
    rw [Division.trimmed, replay, replay]
    cases item.stops policy with
    | true => rfl
    | false => exact ih _

/-- A parse of the trimmed lines is the parse of the lines, and leaves the trimmed ones of those
that it leaves. -/
theorem parse_trimmed (policy : Policy) (name : Text) (source : Source) :
    parse policy name source.trimmed =
      { parse policy name source with unread := (parse policy name source).unread.trimmed } := by
  have hstop : readItems policy .start (.start source.trimmed) =
      { readItems policy .start (.start source) with
        cursor := (readItems policy .start (.start source)).cursor.trimmed } := by
    rw [readItems_start, readItems_start, divide_trimmed, replay_trimmed]
  simp only [parse, hstop]
  rfl

/-- Two parses agree in all that they give and report. -/
structure Parse.Agrees (one two : Parse) : Prop where
  result_eq : one.result = two.result
  decisions_eq : one.decisions = two.decisions
  messages_eq : one.messages = two.messages

/-- Sources that are divided alike have the same outcome under every policy. -/
theorem agrees_of_division_eq (policy : Policy) (name : Text) {one two : Source}
    (items : one.division.items = two.division.items)
    (ending : one.division.break? = two.division.break?) :
    (parse policy name one).Agrees (parse policy name two) where
  result_eq := by rw [parse_result, parse_result, items, ending]
  decisions_eq := by rw [parse_decisions, parse_decisions, items, ending]
  messages_eq := by rw [parse_messages, parse_messages, items]

theorem agrees_of_trimmed_eq (policy : Policy) (name : Text) {one two : Source}
    (h : one.trimmed = two.trimmed) : (parse policy name one).Agrees (parse policy name two) := by
  have hone := parse_trimmed policy name one
  rw [h, parse_trimmed policy name two] at hone
  obtain ⟨hresult, hdecisions, hmessages, -⟩ := Parse.mk.inj hone
  exact ⟨hresult.symm, hdecisions.symm, hmessages.symm⟩

end LogicTest
