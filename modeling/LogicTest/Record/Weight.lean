import LogicTest.Record.Basic

/-!
# What reading a record leaves to be read

Each part of a record leaves a cursor of no greater weight than it found. A head that is read lowers
the weight, unless the end was found; so the items of a script come to an end.
-/
namespace LogicTest.Read

variable {α β : Type}

/-- The action leaves a cursor of no greater weight. -/
def Advances (action : Read α) : Prop :=
  ∀ c a c', action c = .ok a c' → c'.weight ≤ c.weight

theorem ok_of_bind {action : Read α} {f : α → Read β} {b : β} {c c' : Cursor}
    (h : (action >>= f) c = .ok b c') : ∃ a d, action c = .ok a d ∧ f a d = .ok b c' := by
  simp only [bind, EStateM.bind] at h
  cases hx : action c with
  | ok a d => exact ⟨a, d, rfl, by simpa [hx] using h⟩
  | error fault d => simp [hx] at h

theorem advances_pure (a : α) : Advances (pure a) := by
  intro c b c' h
  cases h
  exact Nat.le_refl _

theorem advances_throw (fault : Fault) : Advances (throw fault : Read α) := by
  intro c b c' h
  cases h

theorem Advances.bind {action : Read α} {f : α → Read β} (h : Advances action)
    (hf : ∀ a, Advances (f a)) : Advances (action >>= f) := by
  intro c b c' hb
  obtain ⟨a, d, ha, hd⟩ := ok_of_bind hb
  exact Nat.le_trans (hf a _ _ _ hd) (h _ _ _ ha)

theorem advances_next (kind : LineKind) (need : Need) : Advances (Cursor.next kind need) :=
  fun _ _ _ => Cursor.weight_next_le

theorem advances_lineNo : Advances lineNo := by
  intro c b c' h
  cases h
  exact Nat.le_refl _

theorem advances_atEnd : Advances atEnd := by
  intro c b c' h
  cases h
  exact Nat.le_refl _

theorem advances_linesWhile (more : Text → Bool) (kind : LineKind) (need : Need) (line : Text) :
    Advances (linesWhile more kind need line) := by
  intro c r c' h
  fun_induction linesWhile more kind need line c generalizing r c' with
  | case1 => cases h; exact Nat.le_refl _
  | case2 _ _ _ following d hnext lines stop e _ ih =>
    cases h
    exact Nat.le_trans (ih _ _ ‹_›) (Cursor.weight_next_le hnext)
  | case3 => cases h
  | case4 => cases h

theorem advances_statement (header : Text) : Advances (statement header) :=
  .bind (advances_next _ _) fun _ => .bind (advances_linesWhile _ _ _ _) fun _ => advances_pure _

theorem advances_separator : Advances separator := by
  refine .bind (advances_next _ _) fun line => .bind advances_atEnd fun ended => ?_
  split
  · exact advances_pure _
  · exact advances_throw _

theorem advances_expectation : Advances expectation := by
  refine .bind (advances_next _ _) fun line => .bind advances_atEnd fun ended => ?_
  split
  · exact advances_pure _
  · split
    · split
      · exact advances_throw _
      · exact .bind advances_separator fun _ => advances_pure _
    · exact .bind (advances_linesWhile _ _ _ _) fun _ => advances_pure _

theorem advances_queryAfter (header : QueryHeader) : Advances (queryAfter header) := by
  refine .bind (advances_next _ _) fun line => .bind (advances_linesWhile _ _ _ _) fun _ =>
    .bind advances_lineNo fun sourceLine => .bind advances_atEnd fun ended => ?_
  split
  · exact .bind (advances_pure _) fun _ => advances_pure _
  · exact .bind advances_expectation fun _ => advances_pure _

/-- A query that is read takes the pending line with it. -/
theorem weight_query {c c' : Cursor} {found : Option Operation} (pending : c.pending.isSome)
    (h : query c = .ok found c') : c'.weight < c.weight := by
  obtain ⟨line, d, hline, h⟩ := ok_of_bind h
  refine Nat.lt_of_le_of_lt ?_ (Cursor.weight_next_lt (.inl pending) hline)
  revert h
  suffices Advances _ from this _ _ _
  refine .bind advances_atEnd fun ended => ?_
  split
  · exact advances_pure _
  · refine .bind (advances_linesWhile _ _ _ _) fun (_, header) => ?_
    dsimp only
    split
    · exact advances_throw _
    · split
      · exact advances_throw _
      · exact .bind (advances_queryAfter _) fun _ => advances_pure _

theorem advances_body (line : Text) : Advances (body line) := by
  unfold body
  split
  · exact advances_pure _
  · split
    · exact .bind (advances_statement _) fun _ => advances_pure _
    · intro c b c' h
      obtain ⟨_, d, hpush, h⟩ := ok_of_bind h
      obtain ⟨found, e, hquery, h⟩ := ok_of_bind h
      have hd : d = { c with pending := some line } ∧ c.pending = none := by
        unfold Cursor.pushBack at hpush
        split at hpush <;> cases hpush
        exact ⟨rfl, by simp_all⟩
      have he : e = c' := by
        split at h <;> cases h <;> rfl
      have := weight_query (by simp [hd.1]) hquery
      simp_all [Cursor.weight]
      omega

/-- Reading an item lowers the weight. -/
theorem weight_head {c c' : Cursor} {item : Head} (h : head c = .ok item c')
    (more : item ≠ .ended) : c'.weight < c.weight := by
  obtain ⟨line, d, hline, h⟩ := ok_of_bind h
  obtain ⟨ended, e, hended, h⟩ := ok_of_bind h
  cases hended
  by_cases done : d.done
  · simp only [done, if_true] at h
    cases h
    exact absurd rfl more
  · have live : c.Live := .inr (by simpa using fun h => done (Cursor.done_next h hline))
    refine Nat.lt_of_le_of_lt ?_ (Cursor.weight_next_lt live hline)
    revert h
    suffices Advances _ from this _ _ _
    split
    · exact absurd ‹_› done
    · split
      · exact advances_pure _
      · split
        · exact advances_pure _
        · exact .bind (advances_linesWhile _ _ _ _) fun _ => advances_pure _

end LogicTest.Read
