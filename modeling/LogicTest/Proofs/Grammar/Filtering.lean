import LogicTest.Proofs.Grammar.Acceptance

/-!
# Policies only filter

The lines of a script can be cut in one way, whatever the policy. What a parse does under a policy
is then said of these items: which records it asks about, which operations it keeps, whether it
halts, and with which fault or threshold it ends if it does not.
-/
namespace LogicTest.Grammar

/-! ## One way to cut -/

theorem takeWhile_directives {named rest : List Text}
    (directives : ∀ line ∈ logicalLines named, IsDirective line)
    (first : ∃ line ∈ (logicalLines rest).head?, ¬ IsDirective line) :
    (logicalLines (named ++ rest)).takeWhile (fun line => (Directive.ofLine? line).isSome) =
      logicalLines named := by
  obtain ⟨line, hline, hdirective⟩ := first
  obtain ⟨others, hrest⟩ := List.head?_eq_some_iff.1 hline
  have hstop : (line :: others).takeWhile (fun line => (Directive.ofLine? line).isSome) = [] :=
    List.takeWhile_cons_of_neg fun h => hdirective (isSome_ofLine?_iff.1 h)
  rw [logicalLines_append, hrest,
    List.takeWhile_append_of_pos fun line h => isSome_ofLine?_iff.2 (directives line h), hstop,
    List.append_nil]

/-- The conditions of a broken record are those of the directive lines that its lines begin with,
unless it consists of directive lines. -/
theorem Broken.conditions_eq {lines : List Text} {conditions : Option Conditions}
    (h : Broken lines conditions) :
    conditions =
      if ∀ line ∈ logicalLines lines, (Directive.ofLine? line).isSome then none
      else some (.ofLines
        ((logicalLines lines).takeWhile fun line => (Directive.ofLine? line).isSome)) := by
  cases h with
  | directives directives =>
    rw [if_pos fun line hline => isSome_ofLine?_iff.2 (directives line hline)]
  | @body named rest conditions directives names first =>
    rw [if_neg, takeWhile_directives directives first, names_iff.1 names]
    intro hall
    obtain ⟨line, hline, hdirective⟩ := first
    have hmem : line ∈ logicalLines (named ++ rest) := by
      rw [logicalLines_append]
      exact List.mem_append_right _ (List.mem_of_mem_head? hline)
    exact hdirective (isSome_ofLine?_iff.1 (hall line hmem))

theorem Broken.logicalLines_ne_nil {lines : List Text} {conditions : Option Conditions}
    (h : Broken lines conditions) : logicalLines lines ≠ [] := by
  cases h with
  | directives _ some_line => exact some_line
  | body _ _ first =>
    obtain ⟨line, hline, -⟩ := first
    rw [logicalLines_append]
    exact List.append_ne_nil_of_right_ne_nil _ (List.ne_nil_of_mem (List.mem_of_mem_head? hline))

/-- The first item that lines are cut into is no item of formless lines. -/
theorem Cuts.not_formless {start : Nat} {lines : List Text} {item : Item} {items : List Item}
    {ending : Option Break} (h : Cuts start lines (item :: items) ending) :
    ¬ Formless start lines := by
  intro formless
  cases h with
  | tail isTail =>
    cases isTail with
    | item isItem =>
      exact formless lines [] _ item (List.append_nil lines).symm (fun _ => rfl) isItem
  | item first => exact formless _ _ .line item rfl nofun first

/-- A broken record is where the division fails. -/
theorem divide_broken {start : Nat} {lines : List Text} {conditions : Option Conditions}
    (h : Broken lines conditions) (formless : Formless start lines) :
    (divide start .start (lines.map .line)).items = [] ∧
      ((divide start .start (lines.map .line)).break?).map Break.conditions =
        some conditions := by
  have hcuts := cuts_divide_start start lines
  cases hdivide : divide start .start (lines.map .line) with
  | ended place =>
    have hcuts : Cuts start lines [] none := by rwa [hdivide] at hcuts
    cases hcuts with
    | tail isTail =>
      cases isTail with
      | comments hlines => exact absurd hlines h.logicalLines_ne_nil
  | failed found fault place =>
    rw [hdivide] at hcuts
    cases hcuts with
    | broken isBroken =>
      exact ⟨rfl, congrArg some (isBroken.conditions_eq.trans h.conditions_eq.symm)⟩
  | item item place rest =>
    rw [hdivide] at hcuts
    exact absurd formless hcuts.not_formless

/-- The lines of a script are cut in no other way than they are divided. -/
theorem divide_cuts {start : Nat} {lines : List Text} {items : List Item} {ending : Option Break}
    (h : Cuts start lines items ending) :
    (divide start .start (lines.map .line)).items = items ∧
      ((divide start .start (lines.map .line)).break?).map Break.conditions =
        ending.map Break.conditions := by
  induction h with
  | tail isTail =>
    obtain ⟨hitems, hbreak⟩ := divide_tail isTail
    exact ⟨hitems, by rw [hbreak]⟩
  | broken isBroken formless => exact divide_broken isBroken formless
  | @item start segment lines item items ending first others ih =>
    rw [List.map_append, divide_isItem first nofun]
    exact ⟨congrArg (item :: ·) ih.1, ih.2⟩

/-! ## What a policy decides -/

/-- A parse under a policy makes of the items and their ending what is left of them if the records
that the policy rejects are left out. -/
structure Filters (policy : Policy) (name : Text) (items : List Item) (ending : Option Break)
    (run : Parse) : Prop where
  decisions_eq : run.decisions = policy.decisions (asked policy items ending)
  operations_eq : ∀ script, run.result = .ok script →
    script.operations = (upToHalt policy items).filterMap (Item.operation? policy)
  halted_iff : ∀ script, run.result = .ok script →
    (script.halted = true ↔ ∃ conditions, .halt conditions ∈ items ∧ policy conditions = true)
  ok_of_halt : ∀ conditions, .halt conditions ∈ items → policy conditions = true →
    ∃ script, run.result = .ok script
  /-- unless a `halt` is kept, fault and threshold do not depend on the policy -/
  ending_eq : (∀ conditions, .halt conditions ∈ items → policy conditions = false) →
    run.result.map Script.hashThreshold =
      ending.elim (.ok (lastThreshold items)) fun ending => .error ⟨name, ending.line, ending.fault⟩

theorem any_stops_iff {policy : Policy} {items : List Item} :
    items.any (Item.stops policy) = true ↔
      ∃ conditions, .halt conditions ∈ items ∧ policy conditions = true := by
  rw [List.any_eq_true]
  constructor
  · rintro ⟨item, hitem, hstops⟩
    obtain ⟨conditions, rfl, hkept⟩ := exists_halt_of_stops hstops
    exact ⟨conditions, hitem, hkept⟩
  · rintro ⟨conditions, hitem, hkept⟩
    exact ⟨.halt conditions, hitem, hkept⟩

theorem filters_division (policy : Policy) (name : Text) (source : Source) :
    Filters policy name source.division.items source.division.break?
      (parse policy name source) := by
  have hresult := parse_result policy name source
  refine ⟨parse_decisions policy name source, ?_, ?_, ?_, ?_⟩
  · intro script h
    rw [(parse_eq_ok_iff.1 h).2, Script.ofItems]
  · intro script h
    rw [(parse_eq_ok_iff.1 h).2, Script.ofItems, any_stops_upToHalt, any_stops_iff]
  · intro conditions hitem hkept
    have hany := any_stops_iff.2 ⟨conditions, hitem, hkept⟩
    rw [breakAfter, if_pos hany] at hresult
    exact ⟨_, hresult⟩
  · intro hrejected
    have hrunning : ∀ item ∈ source.division.items, item.stops policy = false := by
      intro item hitem
      cases item with
      | halt conditions => exact hrejected conditions hitem
      | _ => rfl
    rw [breakAfter_of_running hrunning, upToHalt_eq_self hrunning] at hresult
    rw [hresult]
    cases source.division.break? <;> rfl

/-- The lines of a text are cut in one way, and under every policy a parse only leaves out of that
what the policy rejects. -/
theorem parse_filters (text : Text) :
    ∃ items ending, Cuts 0 text.lines items ending ∧
      (∀ others last, Cuts 0 text.lines others last →
        others = items ∧ last.map Break.conditions = ending.map Break.conditions) ∧
      ∀ policy name, Filters policy name items ending (parseText policy name text) := by
  refine ⟨_, _, cuts_division text.lines, fun others last h => ?_, fun policy name => ?_⟩
  · obtain ⟨hitems, hconditions⟩ := divide_cuts h
    exact ⟨hitems.symm, hconditions.symm⟩
  · exact filters_division policy name (.ofText text)

end LogicTest.Grammar
