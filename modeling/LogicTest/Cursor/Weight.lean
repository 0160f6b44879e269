import LogicTest.Cursor.Basic

/-!
# The weight of a cursor

The weight bounds the reads that are left before the end is found. A read never raises it, and
lowers it as long as there is something to find; loops over lines end by it.
-/
namespace LogicTest.Cursor

def weight (c : Cursor) : Nat :=
  c.unread.length + (if c.pending.isSome then 1 else 0) + (if c.done then 0 else 1)

/-- Whether a read can still find something: a pending line, a line or the end. -/
def Live (c : Cursor) : Prop := c.pending.isSome ∨ c.done = false

theorem eq_of_endOfInput {need : Need} {c c' : Cursor} {line : Text}
    (h : endOfInput need c = .ok line c') : c' = c := by
  cases need <;> simp_all [endOfInput]

theorem weight_nextRaw_le {need : Need} {c c' : Cursor} {line : Text}
    (h : nextRaw need c = .ok line c') : c'.weight ≤ c.weight := by
  obtain ⟨unread, lineNo, pending, done⟩ := c
  unfold nextRaw at h
  split at h
  · cases h; simp_all [weight]
  · split at h
    · cases eq_of_endOfInput h; exact Nat.le_refl _
    · split at h
      · cases eq_of_endOfInput h; simp_all [weight]
      · cases h; simp_all [weight]
      · cases h

theorem weight_nextRaw_lt {need : Need} {c c' : Cursor} {line : Text} (live : c.Live)
    (h : nextRaw need c = .ok line c') : c'.weight < c.weight := by
  obtain ⟨unread, lineNo, pending, done⟩ := c
  unfold nextRaw at h
  split at h
  · cases h; simp_all [weight]
  · split at h
    · simp_all [Live]
    · split at h
      · cases eq_of_endOfInput h; simp_all [weight]
      · cases h; simp_all [weight]
      · cases h

theorem weight_skipUnread (c : Cursor) : c.skipUnread.weight ≤ c.weight := by
  have := (List.dropWhile_sublist (fun r : Reading => r.isComment) (l := c.unread)).length_le
  unfold skipUnread weight
  split <;> simp_all

theorem weight_skipComments (c : Cursor) : c.skipComments.weight ≤ c.weight := by
  unfold skipComments
  split
  · split
    · refine Nat.le_trans (weight_skipUnread _) ?_
      simp_all [weight]
    · exact Nat.le_refl _
  · exact weight_skipUnread c

theorem weight_skipComments_lt_or_live {c : Cursor} (live : c.Live) :
    c.skipComments.weight < c.weight ∨ c.skipComments.Live := by
  unfold skipComments
  split
  · split
    · refine .inl (Nat.lt_of_le_of_lt (weight_skipUnread _) ?_)
      simp_all [weight]
    · exact .inr live
  · refine .inr (.inr ?_)
    unfold skipUnread
    split <;> simp_all [Live]

theorem nextLine_eq (need : Need) (c : Cursor) :
    nextLine need c = match nextRaw need c.skipComments with
      | .ok line c' => .ok (withoutComment line) c'
      | .error fault c' => .error fault c' := by
  have h : nextLine need c = (EStateM.map withoutComment (nextRaw need)) c.skipComments := rfl
  rw [h, EStateM.map]
  cases nextRaw need c.skipComments <;> rfl

theorem weight_next_le {kind : LineKind} {need : Need} {c c' : Cursor} {line : Text}
    (h : next kind need c = .ok line c') : c'.weight ≤ c.weight := by
  cases kind with
  | data => exact weight_nextRaw_le h
  | script =>
    simp only [next, nextLine_eq] at h
    split at h <;> cases h
    exact Nat.le_trans (weight_nextRaw_le ‹_›) (weight_skipComments c)

theorem weight_next_lt {kind : LineKind} {need : Need} {c c' : Cursor} {line : Text}
    (live : c.Live) (h : next kind need c = .ok line c') : c'.weight < c.weight := by
  cases kind with
  | data => exact weight_nextRaw_lt live h
  | script =>
    simp only [next, nextLine_eq] at h
    split at h <;> cases h
    rename_i hraw
    rcases weight_skipComments_lt_or_live live with hlt | hlive
    · exact Nat.lt_of_le_of_lt (weight_nextRaw_le hraw) hlt
    · exact Nat.lt_of_lt_of_le (weight_nextRaw_lt hlive hraw) (weight_skipComments c)

theorem done_nextRaw {need : Need} {c c' : Cursor} {line : Text} (done : c.done)
    (h : nextRaw need c = .ok line c') : c'.done := by
  unfold nextRaw at h
  split at h
  · cases h; exact done
  · split at h
    · cases eq_of_endOfInput h; exact done
    · contradiction

theorem done_skipComments {c : Cursor} (done : c.done) : c.skipComments.done := by
  unfold skipComments skipUnread
  split <;> simp_all
  split <;> simp_all

/-- Once the end is found it stays found. -/
theorem done_next {kind : LineKind} {need : Need} {c c' : Cursor} {line : Text} (done : c.done)
    (h : next kind need c = .ok line c') : c'.done := by
  cases kind with
  | data => exact done_nextRaw done h
  | script =>
    simp only [next, nextLine_eq] at h
    split at h <;> cases h
    exact done_nextRaw (done_skipComments done) ‹_›

end LogicTest.Cursor
