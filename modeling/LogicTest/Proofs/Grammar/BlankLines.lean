import LogicTest.Proofs.Grammar.Comments
import LogicTest.Proofs.Grammar.Thresholds

/-!
# Blank lines between items

Where an item begins, any number of blank lines can be put in or left out: they are items of their
own, and only the numbers of the lines behind them change. Main statement, with what blanking
threshold lines does: `parse_between_items`.
-/
namespace LogicTest
open Grammar

/-- The number that line `lineNo` has when `count` lines are put in behind line `k`. -/
def lineAfterBlanks (k count lineNo : Nat) : Nat := if k < lineNo then lineNo + count else lineNo

def Script.renumber (f : Nat → Nat) (script : Script) : Script :=
  { script with operations := script.operations.map (.renumber f) }

def ScriptError.renumber (f : Nat → Nat) (error : ScriptError) : ScriptError :=
  { error with line := f error.line }

section
variable {policy : Policy} {one blanks : List Text} {items : List Item}

/-! ## Blank lines as items -/

theorem leads_blanks (h : ∀ line ∈ blanks, Text.trim line = []) (lineNo : Nat) :
    Leads policy lineNo .start blanks (List.replicate blanks.length .blank) .start := by
  induction blanks generalizing lineNo with
  | nil => exact .nil
  | cons line blanks ih =>
    obtain ⟨hline, hblanks⟩ := List.forall_mem_cons.1 h
    exact .done (step_blank hline _) rfl (ih hblanks (lineNo + 1))

theorem filterMap_blanks {α : Type} {f : Item → Option α} (hf : f .blank = none) (count : Nat) :
    (List.replicate count Item.blank).filterMap f = [] :=
  List.filterMap_eq_nil_iff.2 fun item hitem => by rw [List.eq_of_mem_replicate hitem, hf]

theorem any_stops_blanks (count : Nat) :
    (List.replicate count Item.blank).any (Item.stops policy) = false :=
  List.any_eq_false.2 fun item hitem => by
    rw [List.eq_of_mem_replicate hitem]
    exact Bool.false_ne_true

/-- Blank lines among the items make no difference to the script. -/
theorem ofItems_blanks (name : Text) (count : Nat) (others : List Item) :
    Script.ofItems policy name (items ++ List.replicate count .blank ++ others) =
      .ofItems policy name (items ++ others) := by
  simp only [Script.ofItems, lastThreshold, List.filterMap_append, List.any_append,
    filterMap_blanks (f := Item.operation? policy) rfl, filterMap_blanks (f := Item.threshold?) rfl,
    any_stops_blanks, List.append_nil, Bool.or_false]

theorem ofItems_renumber (f : Nat → Nat) (name : Text) (items : List Item) :
    Script.ofItems policy name (items.map (.renumber f)) =
      (Script.ofItems policy name items).renumber f := by
  simp only [Script.ofItems, Script.renumber, operation?_renumber, countP_isQuery_renumber,
    lastThreshold_renumber, any_stops_renumber]

/-! ## Where they are put in -/

/-- What is divided further down, behind the blank lines. -/
theorem divide_afterBlanks (k count : Nat) (two : List Text) :
    (divide (k + count) .start (two.map .line)).items =
        (divide k .start (two.map .line)).items.map (.renumber (lineAfterBlanks k count)) ∧
      (divide (k + count) .start (two.map .line)).break? =
        (divide k .start (two.map .line)).break?.map (.renumber (lineAfterBlanks k count)) := by
  cases two with
  | nil => exact ⟨rfl, rfl⟩
  | cons line two =>
    refine divide_renumber _ .start (fun i hi => ?_)
      fun hend => (hend line (two.map .line) rfl).elim
    rw [lineAfterBlanks, if_pos (Nat.lt_add_of_pos_right hi), Nat.add_right_comm]

/-- The queries before the blank lines stay where they are. -/
theorem Leads.renumber_afterBlanks {last : Phase} (h : Leads policy 0 .start one items last)
    (count : Nat) : items.map (.renumber (lineAfterBlanks one.length count)) = items := by
  obtain ⟨hplaced, -⟩ := h.placed List.prefix_rfl trivial
  refine Item.map_renumber_eq_self fun item hitem found hfound => ?_
  exact if_neg (Nat.not_lt.2 ((hplaced item hitem).sourceLine found hfound).le_length)

/-- With blank lines put in, a parse takes up the same items under other numbers, and the blank
lines. -/
theorem Leads.taken_afterBlanks (h : Leads policy 0 .start one items .start)
    (blank : ∀ line ∈ blanks, Text.trim line = []) (two : List Text) :
    let before := Source.division ((one ++ two).map .line)
    let after := Source.division ((one ++ blanks ++ two).map .line)
    let f := lineAfterBlanks one.length blanks.length
    (∃ others, upToHalt policy before.items = items ++ others ∧
      upToHalt policy after.items =
        items ++ List.replicate blanks.length .blank ++ others.map (.renumber f)) ∧
      breakAfter policy after.items after.break? =
        (breakAfter policy before.items before.break?).map (.renumber f) := by
  intro before after f
  obtain ⟨hbefore, hbefore_break⟩ := h.taken_eq (two.map .line)
  obtain ⟨hafter, hafter_break⟩ := (h.append (leads_blanks blank _)).taken_eq (two.map .line)
  obtain ⟨hitems, hbreak⟩ := divide_afterBlanks one.length blanks.length two
  rw [← List.map_append] at hbefore hbefore_break hafter hafter_break
  rw [List.length_append, hitems, upToHalt_renumber] at hafter
  rw [List.length_append, hitems, hbreak, breakAfter_renumber, ← hbefore_break] at hafter_break
  exact ⟨⟨_, hbefore, hafter⟩, hafter_break⟩

/-- The outcome is the same, under the numbers that `f` gives to lines. -/
structure Parse.Renumbered (f : Nat → Nat) (before after : Parse) : Prop where
  result_eq : after.result = (before.result.map (.renumber f)).mapError (.renumber f)
  decisions_eq : after.decisions = before.decisions
  messages_eq : ∃ operations : List Operation, before.messages = operations.map Progress.added ∧
    after.messages = (operations.map (.renumber f)).map Progress.added

/-- The outcome depends on the items that are taken up, and on the break behind them. -/
theorem renumbered_of_taken {f : Nat → Nat} {before after : Source} (name : Text)
    (hscript : Script.ofItems policy name (upToHalt policy after.division.items) =
      (Script.ofItems policy name (upToHalt policy before.division.items)).renumber f)
    (hconditions : (upToHalt policy after.division.items).filterMap Item.conditions? =
      (upToHalt policy before.division.items).filterMap Item.conditions?)
    (hoperations : (upToHalt policy after.division.items).filterMap (Item.operation? policy) =
      ((upToHalt policy before.division.items).filterMap (Item.operation? policy)).map
        (.renumber f))
    (hbreak : breakAfter policy after.division.items after.division.break? =
      (breakAfter policy before.division.items before.division.break?).map (.renumber f)) :
    (parse policy name before).Renumbered f (parse policy name after) where
  result_eq := by
    rw [parse_result, parse_result, hbreak, hscript]
    cases breakAfter policy before.division.items before.division.break? <;> rfl
  decisions_eq := by
    rw [parse_decisions, parse_decisions, asked, asked, hbreak, hconditions]
    cases breakAfter policy before.division.items before.division.break? <;> rfl
  messages_eq := by
    refine ⟨(upToHalt policy before.division.items).filterMap (Item.operation? policy), ?_, ?_⟩
    · rw [parse_messages]
    · rw [parse_messages, hoperations]

/-- Blank lines that are put in where an item begins change nothing but the numbers of lines. -/
theorem parse_blanks (h : BetweenItems policy one) (blank : ∀ line ∈ blanks, Text.trim line = [])
    (name : Text) (two : List Text) :
    (parse policy name ((one ++ two).map .line)).Renumbered
      (lineAfterBlanks one.length blanks.length)
      (parse policy name ((one ++ blanks ++ two).map .line)) := by
  obtain ⟨items, hbetween, hrunning⟩ := h
  have hleads := between_iff_leads.2 ⟨hbetween, hrunning⟩
  obtain ⟨⟨others, hbefore, hafter⟩, hbreak⟩ := hleads.taken_afterBlanks blank two
  have hsame : items ++ others.map (.renumber (lineAfterBlanks one.length blanks.length)) =
      (items ++ others).map (.renumber (lineAfterBlanks one.length blanks.length)) := by
    rw [List.map_append, hleads.renumber_afterBlanks]
  refine renumbered_of_taken name ?_ ?_ ?_ hbreak
  · rw [hbefore, hafter, ofItems_blanks, hsame, ofItems_renumber]
  · rw [hbefore, hafter, List.filterMap_append, List.filterMap_append, filterMap_blanks rfl,
      List.append_nil, ← List.filterMap_append, hsame, conditions?_renumber]
  · rw [hbefore, hafter, List.filterMap_append, List.filterMap_append, filterMap_blanks rfl,
      List.append_nil, ← List.filterMap_append, hsame, operation?_renumber]

end

/-! ## Lines between items -/

/-- Where an item begins, threshold lines count for the threshold only, and blank lines for the
numbers of lines only. Blanked threshold lines leave the outcome as it is up to the threshold, and
the other threshold lines remain such; the threshold of a script is that of the last of its
threshold lines; and with blank lines put in, the outcome is the same under the new numbers, and so
it is with blank lines left out. -/
theorem parse_between_items (policy : Policy) (name : Text) :
    (∀ text blanked : Text, Blanked policy text.lines blanked.lines →
      let before := parseText policy name text
      let after := parseText policy name blanked
      after.decisions = before.decisions ∧ after.messages = before.messages ∧
        (∃ threshold, after.result =
          before.result.map fun script => { script with hashThreshold := threshold }) ∧
        ∀ index description, ThresholdAt policy blanked.lines index description ↔
          ThresholdAt policy text.lines index description ∧
            blanked.lines[index]? = text.lines[index]?) ∧
    (∀ (text : Text) (script : Script), (parseText policy name text).result = .ok script →
      LastThreshold policy text.lines script.hashThreshold) ∧
    ∀ (text spaced : Text) (one blanks two : List Text), BetweenItems policy one →
      (∀ line ∈ blanks, Text.trim line = []) →
      text.lines = one ++ two → spaced.lines = one ++ blanks ++ two →
      let before := parseText policy name text
      let after := parseText policy name spaced
      let f := lineAfterBlanks one.length blanks.length
      after.result = (before.result.map (.renumber f)).mapError (.renumber f) ∧
        after.decisions = before.decisions ∧
        ∃ operations : List Operation, before.messages = operations.map Progress.added ∧
          after.messages = (operations.map (.renumber f)).map Progress.added := by
  refine ⟨?_, ?_, ?_⟩
  · intro text blanked h before after
    obtain ⟨hdecisions, hmessages, hresult⟩ := h.inStep.parse_eq name
    refine ⟨hdecisions, hmessages, hresult, fun index description => ?_⟩
    rw [thresholdAt_iff, thresholdAt_iff]
    exact h.inStep.thresholdFrom_iff
  · intro text script h
    exact lastThreshold_of_parse h
  · intro text spaced one blanks two h blank htext hspaced
    have hparse := parse_blanks h blank name two
    rw [← htext, ← hspaced] at hparse
    exact ⟨hparse.result_eq, hparse.decisions_eq, hparse.messages_eq⟩

/-- The first of two threshold lines blanked, and two blank lines put in before them. -/
theorem parse_between_items_thresholds :
    let text : Text := "hash-threshold 8\nhash-threshold 5\nhalt\n".toList
    let before := parseText .keepAll "t".toList text
    let blanked := parseText .keepAll "t".toList "\nhash-threshold 5\nhalt\n".toList
    let spaced := parseText .keepAll "t".toList (" \n\n".toList ++ text)
    blanked.decisions = before.decisions ∧
      (∃ script, before.result = .ok script ∧
        LastThreshold .keepAll text.lines script.hashThreshold) ∧
      spaced.result = (before.result.map (.renumber (lineAfterBlanks 0 2))).mapError
        (.renumber (lineAfterBlanks 0 2)) := by
  obtain ⟨hblanked, hlast, hspaced⟩ := parse_between_items .keepAll "t".toList
  have hbetween : BetweenItems .keepAll [] := ⟨[], .nil, nofun⟩
  have hlines : Text.lines "hash-threshold 8\nhash-threshold 5\nhalt\n".toList =
      ["hash-threshold 8".toList, "hash-threshold 5".toList, "halt".toList] := by decide +kernel
  have hresult : (parseText .keepAll "t".toList
      "hash-threshold 8\nhash-threshold 5\nhalt\n".toList).result =
        .ok ⟨"t".toList, [], 0, some 5, true⟩ := by decide +kernel
  refine ⟨(hblanked _ _ ⟨by decide +kernel, fun index => ?_⟩).1,
    ⟨⟨"t".toList, [], 0, some 5, true⟩, hresult, hlast _ _ hresult⟩,
    (hspaced _ _ [] [" ".toList, []] _ hbetween (by decide) rfl (by decide +kernel)).1⟩
  have hblanked_lines : Text.lines "\nhash-threshold 5\nhalt\n".toList =
      [[], "hash-threshold 5".toList, "halt".toList] := by decide +kernel
  rw [hlines, hblanked_lines]
  match index with
  | 0 => exact .inr ⟨⟨[], rfl, rfl⟩, " 8".toList, hbetween, by decide⟩
  | index + 1 => exact .inl rfl

end LogicTest
