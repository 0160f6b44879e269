import LogicTest.Proofs.Grammar.Extent

/-!
# The stretches of a script that is accepted

Whatever the source, a parse that succeeds has read the lines of a script that the grammar accepts
(`exists_accepts`). Each item of such a script is formed by a stretch of its lines, and what is
closed by the end of the input is the last item of them all (`Accepts.exists_segment`).
-/
namespace LogicTest.Grammar

/-- The lines after a beginning that is cut into items are cut on their own. -/
theorem Items.append_cuts {start : Nat} {one two : List Text} {items others : List Item}
    (h : Items start one items) (h' : Cuts (start + one.length) two others none) :
    Cuts start (one ++ two) (items ++ others) none := by
  induction h with
  | nil => exact h'
  | cons first _ ih =>
    rw [List.append_assoc]
    rw [List.length_append, ← Nat.add_assoc] at h'
    exact .item first (ih h')

theorem Items.cuts {start : Nat} {lines : List Text} {items : List Item}
    (h : Items start lines items) : Cuts start lines items none := by
  have hcuts : Cuts start (lines ++ []) (items ++ []) none :=
    h.append_cuts (.tail (.comments rfl))
  rwa [List.append_nil, List.append_nil] at hcuts

theorem IsItem.close_eq_line {start : Nat} {segment : List Text} {close : Close}
    {conditions : Conditions} (h : IsItem start segment close (.halt conditions)) :
    close = .line := by
  cases h
  rfl

section
variable {policy : Policy} {lines : List Text} {items : List Item}

/-- The items of a script that is accepted are all those of the lines that are read of it, which are
all of its lines unless a `halt` is the last item. -/
theorem Accepts.exists_cuts (h : Accepts policy lines items) :
    ∃ read rest, lines = read ++ rest ∧ Cuts 0 read items none ∧
      (rest = [] ∧ (∀ item ∈ items, item.stops policy = false) ∨
        ∃ conditions, items.getLast? = some (.halt conditions)) := by
  cases h with
  | @complete body tail items last isBody isTail running =>
    have hcuts : Cuts 0 (body ++ tail) (items ++ last) none :=
      isBody.append_cuts (.tail (by rwa [Nat.zero_add]))
    exact ⟨_, [], (List.append_nil _).symm, hcuts, .inl ⟨rfl, by simpa using running⟩⟩
  | halted isBody => exact ⟨_, _, rfl, isBody.cuts, .inr ⟨_, List.getLast?_concat⟩⟩

/-- Each item that lines are cut into is formed by some of them. -/
theorem Cuts.exists_segment {start : Nat} {item : Item} (h : Cuts start lines items none)
    (hmem : item ∈ items) :
    ∃ before segment after close, lines = before ++ (segment ++ after) ∧
      IsItem (start + before.length) segment close item ∧
      (close ≠ .line → after = [] ∧ items.getLast? = some item) := by
  generalize hending : (none : Option Break) = ending at h
  induction h with
  | tail isTail =>
    cases isTail with
    | comments => cases hmem
    | item isItem unclosed =>
      cases List.mem_singleton.1 hmem
      exact ⟨[], _, [], _, (List.append_nil _).symm, isItem, fun _ => ⟨rfl, rfl⟩⟩
  | broken => cases hending
  | @item start segment lines first items ending isItem others ih =>
    rcases List.mem_cons.1 hmem with rfl | hmem
    · exact ⟨[], segment, lines, .line, rfl, isItem, fun hclose => absurd rfl hclose⟩
    · obtain ⟨before, found, after, close, rfl, hfound, hlast⟩ := ih hmem hending
      refine ⟨segment ++ before, found, after, close, by rw [List.append_assoc], ?_, ?_⟩
      · rwa [List.length_append, ← Nat.add_assoc]
      · intro hclose
        obtain ⟨hafter, hgetLast⟩ := hlast hclose
        exact ⟨hafter, by rw [List.getLast?_cons_of_ne_nil (List.ne_nil_of_mem hmem), hgetLast]⟩

/-- An item that does not end with a line of its own is the last one of a script that is read to its
end. -/
theorem Accepts.exists_segment {item : Item} (h : Accepts policy lines items)
    (hmem : item ∈ items) :
    ∃ before segment after close, lines = before ++ (segment ++ after) ∧
      IsItem before.length segment close item ∧
      (close ≠ .line → after = [] ∧ items.getLast? = some item ∧ Cuts 0 lines items none ∧
        ∀ other ∈ items, other.stops policy = false) := by
  obtain ⟨read, rest, rfl, hcuts, hrest⟩ := h.exists_cuts
  obtain ⟨before, segment, after, close, rfl, isItem, hlast⟩ := hcuts.exists_segment hmem
  rw [Nat.zero_add] at isItem
  refine ⟨before, segment, after ++ rest, close, by simp, isItem, fun hclose => ?_⟩
  obtain ⟨rfl, hgetLast⟩ := hlast hclose
  rcases hrest with ⟨rfl, hrunning⟩ | ⟨conditions, hhalt⟩
  · exact ⟨rfl, hgetLast, by rwa [List.append_nil], hrunning⟩
  · rw [hgetLast, Option.some_inj] at hhalt
    subst hhalt
    exact absurd isItem.close_eq_line hclose

/-- The operations of a script are those of some of its items. -/
theorem exists_item_of_mem_operations {name : Text} {operation : Operation}
    (h : operation ∈ (Script.ofItems policy name items).operations) :
    ∃ conditions, .operation conditions operation ∈ items ∧ policy conditions = true := by
  obtain ⟨item, hitem, hoperation⟩ := List.mem_filterMap.1 h
  cases item with
  | operation conditions found =>
    simp only [Item.operation?, Option.ite_none_right_eq_some, Option.some.injEq] at hoperation
    obtain ⟨hkept, rfl⟩ := hoperation
    exact ⟨conditions, hitem, hkept⟩
  | _ => cases hoperation

end

/-- A parse that succeeds has read the lines of a script that is accepted. -/
theorem exists_accepts {policy : Policy} {name : Text} {source : Source} {script : Script}
    (h : (parse policy name source).result = .ok script) :
    ∃ lines items rest, source = lines.map .line ++ rest ∧ Accepts policy lines items ∧
      script = .ofItems policy name items := by
  cases ending policy source with
  | @line read items last line rest leads stops =>
    have halone := (leads.readsExactly stops name rest).outcome_eq []
    rw [List.append_nil] at halone
    have hresult : (parse policy name ((read ++ [line]).map .line)).result = .ok script := by
      rw [halone]
      exact h
    obtain ⟨hbreak, hscript⟩ := parse_eq_ok_iff.1 hresult
    exact ⟨_, _, rest, rfl, accepts_division hbreak, hscript⟩
  | input leads =>
    obtain ⟨hbreak, hscript⟩ := parse_eq_ok_iff.1 h
    exact ⟨_, _, [], (List.append_nil _).symm, accepts_division hbreak, hscript⟩
  | failure cause rest leads =>
    rw [leads.parse_eq_failure] at h
    cases h

end LogicTest.Grammar
