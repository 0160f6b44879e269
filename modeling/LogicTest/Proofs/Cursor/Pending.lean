import LogicTest.Record.Weight

/-!
# The pending line

A line is put back only where a query may begin, and the next read takes it. So every reader that
finds nothing pending leaves nothing pending, and what it reads next is the next line of the source.
-/
namespace LogicTest

namespace Cursor

/-- Nothing is pending and the end is not found: the next line is that of the source. -/
structure Underway (c : Cursor) : Prop where
  pending : c.pending = none
  done : c.done = false

theorem Underway.eq_mk {c : Cursor} (h : c.Underway) : c = ⟨c.unread, c.lineNo, none, false⟩ := by
  obtain ⟨unread, lineNo, pending, done⟩ := c
  cases h.pending
  cases h.done
  rfl

theorem nextLine_line (need : Need) (line : Text) (rest : Source) (lineNo : Nat) :
    nextLine need ⟨.line line :: rest, lineNo, none, false⟩ =
      if isComment line.trim then nextLine need ⟨rest, lineNo + 1, none, false⟩
      else .ok (withoutComment line.trim) ⟨rest, lineNo + 1, none, false⟩ := by
  rw [nextLine_eq, nextLine_eq]
  cases h : isComment line.trim with
  | true =>
    have hskip : skipComments ⟨.line line :: rest, lineNo, none, false⟩ =
        skipComments ⟨rest, lineNo + 1, none, false⟩ := by
      simp [skipComments, skipUnread, Reading.isComment, h, Nat.add_assoc, Nat.add_comm 1]
    rw [hskip]
    rfl
  | false =>
    simp [skipComments, skipUnread, Reading.isComment, h, nextRaw]

theorem Underway.skipComments {c : Cursor} (h : c.Underway) : c.skipComments.Underway := by
  rw [h.eq_mk]
  exact ⟨rfl, rfl⟩

theorem nextRaw_required {c : Cursor} (h : c.Underway) :
    nextRaw .required c =
      match nextRaw .optional c with
      | .ok line d => if d.done then .error .prematureEnd d else .ok line d
      | .error fault d => .error fault d := by
  rw [h.eq_mk]
  rcases c.unread with _ | ⟨reading, rest⟩
  · rfl
  · cases reading <;> rfl

/-- A line that is needed is the line that is read, unless the end is found. -/
theorem next_required {c : Cursor} (h : c.Underway) (kind : LineKind) :
    next kind .required c =
      match next kind .optional c with
      | .ok line d => if d.done then .error .prematureEnd d else .ok line d
      | .error fault d => .error fault d := by
  cases kind with
  | data => exact nextRaw_required h
  | script =>
    simp only [next, nextLine_eq, nextRaw_required h.skipComments]
    cases nextRaw .optional c.skipComments with
    | ok line d => by_cases hdone : d.done <;> simp [hdone]
    | error fault d => rfl

theorem pending_nextRaw {c d : Cursor} {need : Need} {line : Text}
    (hline : nextRaw need c = .ok line d) : d.pending = none := by
  unfold nextRaw at hline
  split at hline
  · cases hline
    rfl
  next hpending =>
    split at hline
    · cases eq_of_endOfInput hline
      exact hpending
    · split at hline
      · cases eq_of_endOfInput hline
        exact hpending
      · cases hline
        exact hpending
      · cases hline

/-- Every read takes the pending line, if there is one. -/
theorem pending_next {c d : Cursor} {kind : LineKind} {need : Need} {line : Text}
    (hline : next kind need c = .ok line d) : d.pending = none := by
  cases kind with
  | data => exact pending_nextRaw hline
  | script =>
    simp only [next, nextLine_eq] at hline
    split at hline <;> cases hline
    exact pending_nextRaw ‹_›

theorem nextRaw_optional_done {c d : Cursor} {line : Text} (h : c.Underway)
    (hline : nextRaw .optional c = .ok line d) (hdone : d.done = true) : line = [] := by
  rw [h.eq_mk] at hline
  rcases hsource : c.unread with _ | ⟨reading, rest⟩ <;> rw [hsource] at hline
  · cases hline
    rfl
  · cases reading <;> cases hline
    cases hdone

/-- The line that is read at the end is empty, and it was not needed. -/
theorem next_done {c d : Cursor} {kind : LineKind} {need : Need} {line : Text} (h : c.Underway)
    (hline : next kind need c = .ok line d) (hdone : d.done = true) :
    line = [] ∧ need = .optional := by
  cases need with
  | required =>
    rw [next_required h] at hline
    split at hline
    · split at hline <;> cases hline
      contradiction
    · cases hline
  | optional =>
    refine ⟨?_, rfl⟩
    cases kind with
    | data => exact nextRaw_optional_done h hline hdone
    | script =>
      simp only [next, nextLine_eq] at hline
      split at hline <;> cases hline
      next line hraw =>
        have hempty := nextRaw_optional_done h.skipComments hraw hdone
        rw [hempty]
        rfl

end Cursor

namespace Read

variable {α β : Type}

/-- The action leaves nothing pending where it finds nothing pending. -/
def Settles (action : Read α) : Prop :=
  ∀ c a d, c.pending = none → action c = .ok a d → d.pending = none

theorem settles_pure (a : α) : Settles (pure a) := by
  intro c b d hpending h
  cases h
  exact hpending

theorem throw_eq (fault : Fault) (c : Cursor) : (throw fault : Read α) c = .error fault c := rfl

theorem settles_throw (fault : Fault) : Settles (throw fault : Read α) := by
  intro c b d _ h
  cases h

theorem Settles.bind {action : Read α} {f : α → Read β} (h : Settles action)
    (hf : ∀ a, Settles (f a)) : Settles (action >>= f) := by
  intro c b d hpending hb
  obtain ⟨a, e, ha, hd⟩ := ok_of_bind hb
  exact hf a _ _ _ (h _ _ _ hpending ha) hd

theorem settles_next (kind : LineKind) (need : Need) : Settles (Cursor.next kind need) :=
  fun _ _ _ _ h => Cursor.pending_next h

theorem settles_lineNo : Settles lineNo := by
  intro c b d hpending h
  cases h
  exact hpending

theorem settles_atEnd : Settles atEnd := by
  intro c b d hpending h
  cases h
  exact hpending

theorem settles_linesWhile (more : Text → Bool) (kind : LineKind) (need : Need) (line : Text) :
    Settles (linesWhile more kind need line) := by
  intro c r d hpending h
  fun_induction linesWhile more kind need line c generalizing r d with
  | case1 => cases h; exact hpending
  | case2 line c hgo following e hnext lines stop f hloop ih =>
    cases h
    exact ih _ _ (Cursor.pending_next hnext) hloop
  | case3 => cases h
  | case4 => cases h

theorem settles_statement (header : Text) : Settles (statement header) :=
  .bind (settles_next _ _) fun _ => .bind (settles_linesWhile _ _ _ _) fun _ => settles_pure _

theorem settles_separator : Settles separator := by
  refine .bind (settles_next _ _) fun line => .bind settles_atEnd fun ended => ?_
  split
  · exact settles_pure _
  · exact settles_throw _

theorem settles_expectation : Settles expectation := by
  refine .bind (settles_next _ _) fun line => .bind settles_atEnd fun ended => ?_
  split
  · exact settles_pure _
  · split
    · split
      · exact settles_throw _
      · exact .bind settles_separator fun _ => settles_pure _
    · exact .bind (settles_linesWhile _ _ _ _) fun _ => settles_pure _

theorem settles_queryAfter (header : QueryHeader) : Settles (queryAfter header) := by
  refine .bind (settles_next _ _) fun line => .bind (settles_linesWhile _ _ _ _) fun _ =>
    .bind settles_lineNo fun sourceLine => .bind settles_atEnd fun ended => ?_
  split
  · exact .bind (settles_pure _) fun _ => settles_pure _
  · exact .bind settles_expectation fun _ => settles_pure _

/-- A query takes the line that was put back for it. -/
theorem pending_query {c d : Cursor} {found : Option Operation} (h : query c = .ok found d) :
    d.pending = none := by
  obtain ⟨line, e, hline, h⟩ := ok_of_bind h
  have hpending := Cursor.pending_next hline
  revert hpending h
  suffices Settles _ from fun h hpending => this _ _ _ hpending h
  refine .bind settles_atEnd fun ended => ?_
  split
  · exact settles_pure _
  · refine .bind (settles_linesWhile _ _ _ _) fun (_, header) => ?_
    dsimp only
    split
    · exact settles_throw _
    · split
      · exact settles_throw _
      · exact .bind (settles_queryAfter _) fun _ => settles_pure _

theorem settles_body (line : Text) : Settles (body line) := by
  unfold body
  split
  · exact settles_pure _
  · split
    · exact .bind (settles_statement _) fun _ => settles_pure _
    · intro c b d _ h
      obtain ⟨_, e, _, h⟩ := ok_of_bind h
      obtain ⟨found, f, hquery, h⟩ := ok_of_bind h
      have : f = d := by
        split at h <;> cases h <;> rfl
      exact this ▸ pending_query hquery

theorem settles_head : Settles head := by
  refine .bind (settles_next _ _) fun line => .bind settles_atEnd fun ended => ?_
  split
  · exact settles_pure _
  · split
    · exact settles_pure _
    · split
      · exact settles_pure _
      · exact .bind (settles_linesWhile _ _ _ _) fun _ => settles_pure _

end Read
end LogicTest
