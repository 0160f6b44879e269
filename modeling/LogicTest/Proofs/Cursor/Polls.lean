import LogicTest.Proofs.Cursor.Stream

/-!
# Requests for lines

A read may ask the source for its next line, and it is told of the line, of a failure, or that there
is none. The schedule of these requests is that of the primitive reads that an action is composed of
(`Performs`); every reader has one (`Traced`). Each request takes from the cursor what it is told
of, and nothing else does (`Performs.conserves`): so no reading is asked for twice, and the end is
met once.
-/
namespace LogicTest

/-- A request for the next line of the source, by its answer: a reading, or nothing at the end. -/
abbrev Poll := Option Reading

namespace Cursor

/-- The requests of one read: none for a pending line, and none once the end is found. -/
def polls (c : Cursor) : List Poll := if c.pending.isSome ∨ c.done then [] else [c.unread.head?]

/-- The answers that are still to be had. -/
def ahead (c : Cursor) : List Poll := c.unread.map some ++ if c.done then [] else [none]

end Cursor

namespace Read

/-- The action makes these requests when it starts from a cursor, and comes to a result. -/
inductive Performs : {α : Type} → Read α → Cursor → List Poll →
    EStateM.Result Fault Cursor α → Prop where
  | pure {α : Type} (a : α) (c) : Performs (Pure.pure a) c [] (.ok a c)
  | throw {α : Type} (fault c) : Performs (MonadExcept.throw fault : Read α) c [] (.error fault c)
  | lineNo (c) : Performs lineNo c [] (.ok c.lineNo c)
  | atEnd (c) : Performs atEnd c [] (.ok c.done c)
  | pushBack (line c) : Performs (Cursor.pushBack line) c [] (Cursor.pushBack line c)
  | nextRaw (need c) : Performs (Cursor.nextRaw need) c c.polls (Cursor.nextRaw need c)
  | bind {α β : Type} {action : Read α} {f : α → Read β} {c a d first rest result}
      (one : Performs action c first (.ok a d)) (two : Performs (f a) d rest result) :
      Performs (action >>= f) c (first ++ rest) result
  | fails {α β : Type} {action : Read α} (f : α → Read β) {c fault d polls}
      (one : Performs action c polls (.error fault d)) :
      Performs (action >>= f) c polls (.error fault d)

variable {α β : Type}

/-- Where an action leaves the cursor, with or without a fault. -/
def place : EStateM.Result Fault Cursor α → Cursor
  | .ok _ c => c
  | .error _ c => c

/-! ## What requests take -/

theorem place_pushBack (line : Text) (c : Cursor) :
    (place (Cursor.pushBack line c)).ahead = c.ahead := by
  unfold Cursor.pushBack
  split <;> rfl

theorem polls_nextRaw (need : Need) (c : Cursor) :
    c.polls ++ (place (Cursor.nextRaw need c)).ahead = c.ahead := by
  obtain ⟨unread, lineNo, _ | line, done⟩ := c
  · cases done with
    | true => cases need <;> rfl
    | false =>
      rcases unread with _ | ⟨text | cause, rest⟩
      · cases need <;> rfl
      · rfl
      · rfl
  · rfl

/-- The requests of an action and what is ahead after it are what was ahead before. -/
theorem Performs.conserves {action : Read α} {c : Cursor} {polls : List Poll}
    {result : EStateM.Result Fault Cursor α} (h : Performs action c polls result) :
    polls ++ (place result).ahead = c.ahead := by
  induction h with
  | pure | throw | lineNo | atEnd => rfl
  | pushBack line c => exact place_pushBack line c
  | nextRaw need c => exact polls_nextRaw need c
  | bind _ _ ihone ihtwo => rw [List.append_assoc, ihtwo]; exact ihone
  | fails _ _ ih => exact ih

theorem filterMap_ahead (c : Cursor) : c.ahead.filterMap id = c.unread := by
  cases hdone : c.done <;> simp [Cursor.ahead, hdone, List.filterMap_map]

/-- The readings that are asked for are those that the action takes from the source. -/
theorem Performs.readings {action : Read α} {c : Cursor} {polls : List Poll}
    {result : EStateM.Result Fault Cursor α} (h : Performs action c polls result) :
    polls.filterMap id ++ (place result).unread = c.unread := by
  have hconserves := congrArg (List.filterMap id) h.conserves
  rwa [List.filterMap_append, filterMap_ahead, filterMap_ahead] at hconserves

theorem lines_nextRaw {need : Need} {c d : Cursor} {line : Text} {reading : Reading}
    (h : Cursor.nextRaw need c = .ok line d) (hmem : some reading ∈ c.polls) :
    ∃ text, reading = .line text := by
  obtain ⟨unread, lineNo, _ | pending, done⟩ := c
  · cases done with
    | true => cases hmem
    | false =>
      rcases unread with _ | ⟨text | cause, rest⟩
      · cases List.mem_singleton.1 hmem
      · cases List.mem_singleton.1 hmem
        exact ⟨text, rfl⟩
      · cases h
  · cases hmem

/-- An action without a fault has been told of lines only. -/
theorem Performs.lines {action : Read α} {c d : Cursor} {polls : List Poll} {a : α}
    {reading : Reading} (h : Performs action c polls (.ok a d)) (hmem : some reading ∈ polls) :
    ∃ text, reading = .line text := by
  generalize hresult : EStateM.Result.ok a d = result at h
  induction h generalizing d with
  | pure | throw | lineNo | atEnd | pushBack => cases hmem
  | nextRaw need c => exact lines_nextRaw hresult.symm hmem
  | bind _ _ ihone ihtwo =>
    rcases List.mem_append.1 hmem with hfirst | hrest
    · exact ihone hfirst rfl
    · exact ihtwo hrest hresult
  | fails => cases hresult

/-! ## Every reader has a schedule -/

/-- The action has a schedule of requests from this cursor on, which ends in its own result. -/
def TracedAt (action : Read α) (c : Cursor) : Prop := ∃ polls, Performs action c polls (action c)

def Traced (action : Read α) : Prop := ∀ c, TracedAt action c

theorem TracedAt.bind {action : Read α} {f : α → Read β} {c : Cursor} (h : TracedAt action c)
    (hf : ∀ a d, action c = .ok a d → TracedAt (f a) d) : TracedAt (action >>= f) c := by
  obtain ⟨first, hfirst⟩ := h
  cases haction : action c with
  | ok a d =>
    obtain ⟨rest, hrest⟩ := hf a d haction
    have hresult : (action >>= f) c = f a d := by simp only [Bind.bind, EStateM.bind, haction]
    rw [haction] at hfirst
    exact ⟨first ++ rest, hresult ▸ .bind hfirst hrest⟩
  | error fault d =>
    have hresult : (action >>= f) c = .error fault d := by
      simp only [Bind.bind, EStateM.bind, haction]
    rw [haction] at hfirst
    exact ⟨first, hresult ▸ .fails f hfirst⟩

theorem Traced.bind {action : Read α} {f : α → Read β} (h : Traced action)
    (hf : ∀ a, Traced (f a)) : Traced (action >>= f) :=
  fun c => (h c).bind fun a d _ => hf a d

theorem traced_pure (a : α) : Traced (Pure.pure a) := fun c => ⟨[], .pure a c⟩

theorem traced_throw (fault : Fault) : Traced (throw fault : Read α) :=
  fun c => ⟨[], .throw fault c⟩

theorem traced_lineNo : Traced lineNo := fun c => ⟨[], .lineNo c⟩

theorem traced_atEnd : Traced atEnd := fun c => ⟨[], .atEnd c⟩

theorem traced_pushBack (line : Text) : Traced (Cursor.pushBack line) :=
  fun c => ⟨[], .pushBack line c⟩

theorem traced_nextRaw (need : Need) : Traced (Cursor.nextRaw need) :=
  fun c => ⟨c.polls, .nextRaw need c⟩

/-- A script line is read in a loop, which passes over comments. -/
theorem nextLine_loop (need : Need) :
    Cursor.nextLine need = do
      let line ← Cursor.nextRaw need
      if isComment line then Cursor.nextLine need else return withoutComment line := by
  funext c
  rw [Cursor.nextLine_unfold]
  simp only [Bind.bind, EStateM.bind]
  cases Cursor.nextRaw need c with
  | error fault d => rfl
  | ok line d =>
    by_cases hcomment : isComment line
    · simp only [if_pos hcomment]
    · simp only [if_neg hcomment]
      rfl

/-- After the end there are no comments to pass over. -/
theorem live_of_comment {need : Need} {c d : Cursor} {line : Text}
    (h : Cursor.nextRaw need c = .ok line d) (hcomment : isComment line) : c.Live := by
  obtain ⟨unread, lineNo, _ | pending, done⟩ := c
  · cases done with
    | true =>
      cases need <;> cases h
      cases hcomment
    | false => exact .inr rfl
  · exact .inl rfl

theorem traced_nextLine (need : Need) : Traced (Cursor.nextLine need) := by
  intro c
  induction hweight : c.weight using Nat.strongRecOn generalizing c with
  | _ weight ih =>
    rw [nextLine_loop]
    refine (traced_nextRaw need c).bind fun line d hline => ?_
    by_cases hcomment : isComment line
    · rw [if_pos hcomment]
      have hlt := Cursor.weight_nextRaw_lt (live_of_comment hline hcomment) hline
      exact ih d.weight (hweight ▸ hlt) d rfl
    · rw [if_neg hcomment]
      exact traced_pure _ d

theorem traced_next (kind : LineKind) (need : Need) : Traced (Cursor.next kind need) := by
  cases kind with
  | script => exact traced_nextLine need
  | data => exact traced_nextRaw need

theorem linesWhile_loop (more : Text → Bool) (kind : LineKind) (need : Need) (line : Text) :
    linesWhile more kind need line = do
      if (← atEnd) || !more line then return ([], line)
      else
        let following ← Cursor.next kind need
        let (lines, stop) ← linesWhile more kind need following
        return (line :: lines, stop) := by
  funext c
  rw [linesWhile]
  simp only [Bind.bind, EStateM.bind, atEnd]
  by_cases hstops : c.done ∨ more line = false
  · have hends : (c.done || !more line) = true := by simpa using hstops
    rw [dif_pos hstops, if_pos hends]
    rfl
  · have hends : ¬ (c.done || !more line) = true := by simpa using hstops
    rw [dif_neg hstops, if_neg hends]
    simp only [EStateM.bind]
    cases Cursor.next kind need c with
    | error fault d => rfl
    | ok following d =>
      dsimp only
      cases linesWhile more kind need following d <;> rfl

theorem traced_linesWhile (more : Text → Bool) (kind : LineKind) (need : Need) (line : Text) :
    Traced (linesWhile more kind need line) := by
  intro c
  induction hweight : c.weight using Nat.strongRecOn generalizing c line with
  | _ weight ih =>
    rw [linesWhile_loop]
    refine (traced_atEnd c).bind fun ended d hended => ?_
    cases hended
    split
    · exact traced_pure _ c
    next hgoes =>
      refine (traced_next kind need c).bind fun following d hnext => ?_
      have hlive : c.Live := .inr (by simp_all)
      have hlt := Cursor.weight_next_lt hlive hnext
      exact (ih d.weight (hweight ▸ hlt) following d rfl).bind fun (lines, stop) e _ =>
        traced_pure _ e

theorem traced_statement (header : Text) : Traced (statement header) :=
  .bind (traced_next _ _) fun _ => .bind (traced_linesWhile _ _ _ _) fun _ => traced_pure _

theorem traced_separator : Traced separator := by
  refine .bind (traced_next _ _) fun line => .bind traced_atEnd fun ended => ?_
  split
  · exact traced_pure _
  · exact traced_throw _

theorem traced_expectation : Traced expectation := by
  refine .bind (traced_next _ _) fun line => .bind traced_atEnd fun ended => ?_
  split
  · exact traced_pure _
  · split
    · split
      · exact traced_throw _
      · exact .bind traced_separator fun _ => traced_pure _
    · exact .bind (traced_linesWhile _ _ _ _) fun _ => traced_pure _

theorem traced_queryAfter (header : QueryHeader) : Traced (queryAfter header) := by
  refine .bind (traced_next _ _) fun line => .bind (traced_linesWhile _ _ _ _) fun _ =>
    .bind traced_lineNo fun sourceLine => .bind traced_atEnd fun ended => ?_
  split
  · exact .bind (traced_pure _) fun _ => traced_pure _
  · exact .bind traced_expectation fun _ => traced_pure _

theorem traced_query : Traced query := by
  refine .bind (traced_next _ _) fun line => .bind traced_atEnd fun ended => ?_
  split
  · exact traced_pure _
  · refine .bind (traced_linesWhile _ _ _ _) fun (_, header) => ?_
    dsimp only
    split
    · exact traced_throw _
    · split
      · exact traced_throw _
      · exact .bind (traced_queryAfter _) fun _ => traced_pure _

theorem traced_body (line : Text) : Traced (body line) := by
  unfold body
  split
  · exact traced_pure _
  · split
    · exact .bind (traced_statement _) fun _ => traced_pure _
    · refine .bind (traced_pushBack line) fun _ => .bind traced_query fun found => ?_
      cases found with
      | some operation => exact traced_pure _
      | none => exact traced_pure _

theorem traced_head : Traced head := by
  refine .bind (traced_next _ _) fun line => .bind traced_atEnd fun ended => ?_
  split
  · exact traced_pure _
  · split
    · exact traced_pure _
    · split
      · exact traced_pure _
      · exact .bind (traced_linesWhile _ _ _ _) fun _ => traced_pure _

end Read
end LogicTest
