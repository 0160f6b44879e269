import Mathlib.Data.List.Forall2
import LogicTest.Proofs.Grammar.Between

/-!
# Threshold lines

A line that begins with the keyword of a threshold is one only where an item begins. Blanking such
lines leaves the two runs in step (`InStep`): each line is met in the same phase, and the items
differ in the blanked lines alone. The last threshold line that is read gives the threshold.
-/
namespace LogicTest
open Grammar

namespace Grammar

/-- After these lines a parse begins an item: they are those of items and of comments, and the
policy keeps no `halt` among the items. -/
def BetweenItems (policy : Policy) (lines : List Text) : Prop :=
  ∃ items, Between lines items ∧ ∀ item ∈ items, item.stops policy = false

/-- Line `index`, counted from zero, begins an item and is a threshold line, with `description`
behind the keyword. -/
structure ThresholdAt (policy : Policy) (lines : List Text) (index : Nat) (description : Text) :
    Prop where
  between : BetweenItems policy (lines.take index)
  keyword : lines[index]?.map logical = some ("hash-threshold".toList ++ description)

/-- Some of the threshold lines have become blank lines, and nothing else has changed. -/
structure Blanked (policy : Policy) (lines blanked : List Text) : Prop where
  length_eq : blanked.length = lines.length
  line : ∀ index, blanked[index]? = lines[index]? ∨
    (∃ line ∈ blanked[index]?, Text.trim line = []) ∧
      ∃ description, ThresholdAt policy lines index description

/-- The value is that of the last threshold line, if there is one and it is a number. -/
def LastThreshold (policy : Policy) (lines : List Text) (value : Option Nat) : Prop :=
  (value = none ∧ ∀ index description, ¬ ThresholdAt policy lines index description) ∨
    ∃ index description, ThresholdAt policy lines index description ∧
      (∀ other text, ThresholdAt policy lines other text → other ≤ index) ∧
      ∀ n, value = some n ↔ Numeral.Denotes (Text.trim description) n

end Grammar

/-- The two runs are in step from line `lineNo` on: they meet the same lines in the same phases, but
for threshold lines of the one that are blank in the other, until a line stops both. -/
inductive InStep (policy : Policy) : Nat → Phase → List Text → List Text → Prop where
  | nil {lineNo phase} : InStep policy lineNo phase [] []
  | stopped {lineNo phase line lines blanked}
      (stops : (phase.step (lineNo + 1) (Text.trim line)).Stops policy) :
      InStep policy lineNo phase (line :: lines) (line :: blanked)
  | more {lineNo phase next line lines blanked}
      (step : phase.step (lineNo + 1) (Text.trim line) = .more next)
      (others : InStep policy (lineNo + 1) next lines blanked) :
      InStep policy lineNo phase (line :: lines) (line :: blanked)
  | done {lineNo phase line lines blanked item}
      (step : phase.step (lineNo + 1) (Text.trim line) = .done item)
      (running : item.stops policy = false)
      (others : InStep policy (lineNo + 1) .start lines blanked) :
      InStep policy lineNo phase (line :: lines) (line :: blanked)
  | threshold {lineNo line blank lines blanked description}
      (keyword : logical line = "hash-threshold".toList ++ description)
      (blank_eq : Text.trim blank = [])
      (others : InStep policy (lineNo + 1) .start lines blanked) :
      InStep policy lineNo .start (line :: lines) (blank :: blanked)

/-- Line `index` of those after line `lineNo` is a threshold line, if these are met in `phase`. -/
def ThresholdFrom (policy : Policy) (lineNo : Nat) (phase : Phase) (lines : List Text)
    (index : Nat) (description : Text) : Prop :=
  (∃ items, Leads policy lineNo phase (lines.take index) items .start) ∧
    lines[index]?.map logical = some ("hash-threshold".toList ++ description)

/-- The items are the same, but that a threshold line has become a blank line. -/
def Item.SameButThreshold (one two : Item) : Prop :=
  two = one ∨ (∃ value, one = .threshold value) ∧ two = .blank

/-! ## Steps at the start of an item -/

theorem step_threshold {line description : Text}
    (h : logical line = "hash-threshold".toList ++ description) (lineNo : Nat) :
    Phase.start.step lineNo line.trim = .done (.threshold (Numeral.ofText? description.trim)) := by
  have hcomment : isComment line.trim = false :=
    isComment_of_logical_ne_nil (h ▸ List.cons_ne_nil _ _)
  rw [Phase.step_of_script rfl, hcomment, if_neg Bool.false_ne_true, withoutComment_trim, h,
    take_threshold]

theorem step_blank {line : Text} (h : line.trim = []) (lineNo : Nat) :
    Phase.start.step lineNo line.trim = .done .blank := by
  rw [h]
  rfl

theorem logical_of_blank {line : Text} (h : line.trim = []) : logical line = [] := by
  rw [logical, h]
  rfl

/-- A step goes on within the item, completes it, or stops the parse. -/
theorem Step.cases (policy : Policy) (step : Step) :
    (∃ next, step = .more next) ∨ (∃ item, step = .done item ∧ item.stops policy = false) ∨
      step.Stops policy := by
  cases step with
  | more next => exact .inl ⟨next, rfl⟩
  | done item =>
    cases hitem : item.stops policy with
    | false => exact .inr (.inl ⟨item, rfl, hitem⟩)
    | true =>
      obtain ⟨conditions, rfl, hkept⟩ := exists_halt_of_stops hitem
      exact .inr (.inr (.inl ⟨conditions, rfl, hkept⟩))
  | stuck conditions fault => exact .inr (.inr (.inr ⟨conditions, fault, rfl⟩))

/-! ## Lines that lead past the first -/

section
variable {policy : Policy} {lineNo index : Nat} {phase next last : Phase} {line description : Text}
  {lines : List Text} {item : Item}

theorem exists_leads_more (step : phase.step (lineNo + 1) line.trim = .more next) :
    (∃ items, Leads policy lineNo phase (line :: lines) items last) ↔
      ∃ items, Leads policy (lineNo + 1) next lines items last := by
  constructor
  · rintro ⟨items, hleads⟩
    cases hleads with
    | more found others =>
      cases step.symm.trans found
      exact ⟨items, others⟩
    | done found => cases step.symm.trans found
  · rintro ⟨items, hleads⟩
    exact ⟨items, .more step hleads⟩

theorem exists_leads_done (step : phase.step (lineNo + 1) line.trim = .done item)
    (running : item.stops policy = false) :
    (∃ items, Leads policy lineNo phase (line :: lines) items last) ↔
      ∃ items, Leads policy (lineNo + 1) .start lines items last := by
  constructor
  · rintro ⟨items, hleads⟩
    cases hleads with
    | more found => cases step.symm.trans found
    | done found _ others => exact ⟨_, others⟩
  · rintro ⟨items, hleads⟩
    exact ⟨item :: items, .done step running hleads⟩

theorem not_leads_of_stops (stops : (phase.step (lineNo + 1) line.trim).Stops policy)
    {items : List Item} : ¬ Leads policy lineNo phase (line :: lines) items last := by
  intro hleads
  rcases stops with ⟨conditions, hhalt, hkept⟩ | ⟨conditions, fault, hstuck⟩
  · cases hleads with
    | more found => cases hhalt.symm.trans found
    | done found running =>
      cases hhalt.symm.trans found
      exact Bool.false_ne_true (running.symm.trans hkept)
  · cases hleads with
    | more found => cases hstuck.symm.trans found
    | done found => cases hstuck.symm.trans found

theorem thresholdFrom_zero :
    ThresholdFrom policy lineNo phase (line :: lines) 0 description ↔
      phase = .start ∧ logical line = "hash-threshold".toList ++ description := by
  constructor
  · rintro ⟨⟨items, hleads⟩, hkeyword⟩
    cases hleads
    exact ⟨rfl, Option.some.inj hkeyword⟩
  · rintro ⟨rfl, hkeyword⟩
    exact ⟨⟨[], .nil⟩, congrArg some hkeyword⟩

theorem thresholdFrom_more (step : phase.step (lineNo + 1) line.trim = .more next) :
    ThresholdFrom policy lineNo phase (line :: lines) (index + 1) description ↔
      ThresholdFrom policy (lineNo + 1) next lines index description :=
  and_congr_left' (exists_leads_more step)

theorem thresholdFrom_done (step : phase.step (lineNo + 1) line.trim = .done item)
    (running : item.stops policy = false) :
    ThresholdFrom policy lineNo phase (line :: lines) (index + 1) description ↔
      ThresholdFrom policy (lineNo + 1) .start lines index description :=
  and_congr_left' (exists_leads_done step running)

theorem not_thresholdFrom_of_stops (stops : (phase.step (lineNo + 1) line.trim).Stops policy) :
    ¬ ThresholdFrom policy lineNo phase (line :: lines) (index + 1) description :=
  fun ⟨⟨_, hleads⟩, _⟩ => not_leads_of_stops stops hleads

theorem thresholdAt_iff :
    ThresholdAt policy lines index description ↔
      ThresholdFrom policy 0 .start lines index description := by
  have hbetween : BetweenItems policy (lines.take index) ↔
      ∃ items, Leads policy 0 .start (lines.take index) items .start :=
    exists_congr fun items => between_iff_leads.symm
  exact ⟨fun h => ⟨hbetween.1 h.between, h.keyword⟩, fun h => ⟨hbetween.2 h.1, h.2⟩⟩

end

/-! ## Runs in step -/

section
variable {policy : Policy} {lineNo : Nat} {phase : Phase} {lines blanked : List Text}

theorem inStep_of_blanked (hlength : blanked.length = lines.length)
    (hline : ∀ index, blanked[index]? = lines[index]? ∨
      (∃ line ∈ blanked[index]?, Text.trim line = []) ∧
        ∃ description, ThresholdFrom policy lineNo phase lines index description) :
    InStep policy lineNo phase lines blanked := by
  induction lines generalizing blanked lineNo phase with
  | nil =>
    cases List.length_eq_zero_iff.1 hlength
    exact .nil
  | cons line lines ih =>
    obtain ⟨first, blanked, rfl⟩ := List.exists_cons_of_length_eq_add_one hlength
    have hrest : blanked.length = lines.length := Nat.succ.inj hlength
    rcases hline 0 with hsame | ⟨⟨blank, hblank, htrim⟩, description, hthreshold⟩
    · cases hsame
      rcases Step.cases policy (phase.step (lineNo + 1) line.trim) with
        ⟨next, hstep⟩ | ⟨item, hstep, hrunning⟩ | hstops
      · refine .more hstep (ih hrest fun index => ?_)
        simpa only [List.getElem?_cons_succ, thresholdFrom_more hstep] using hline (index + 1)
      · refine .done hstep hrunning (ih hrest fun index => ?_)
        simpa only [List.getElem?_cons_succ, thresholdFrom_done hstep hrunning] using
          hline (index + 1)
      · exact .stopped hstops
    · cases hblank
      obtain ⟨rfl, hkeyword⟩ := thresholdFrom_zero.1 hthreshold
      refine .threshold hkeyword htrim (ih hrest fun index => ?_)
      simpa only [List.getElem?_cons_succ, thresholdFrom_done (step_threshold hkeyword _) rfl]
        using hline (index + 1)

theorem Grammar.Blanked.inStep (h : Blanked policy lines blanked) :
    InStep policy 0 .start lines blanked := by
  refine inStep_of_blanked h.length_eq fun index => ?_
  simpa only [thresholdAt_iff] using h.line index

namespace InStep

/-- The threshold lines of the one run are those of the other that are still there. -/
theorem thresholdFrom_iff (h : InStep policy lineNo phase lines blanked) {index : Nat}
    {description : Text} :
    ThresholdFrom policy lineNo phase blanked index description ↔
      ThresholdFrom policy lineNo phase lines index description ∧
        blanked[index]? = lines[index]? := by
  induction h generalizing index with
  | nil => simp [ThresholdFrom]
  | stopped stops =>
    cases index with
    | zero => simp [thresholdFrom_zero]
    | succ index => simp [not_thresholdFrom_of_stops stops]
  | more step _ ih =>
    cases index with
    | zero => simp [thresholdFrom_zero]
    | succ index => simpa only [thresholdFrom_more step, List.getElem?_cons_succ] using ih
  | done step running _ ih =>
    cases index with
    | zero => simp [thresholdFrom_zero]
    | succ index => simpa only [thresholdFrom_done step running, List.getElem?_cons_succ] using ih
  | @threshold lineNo line blank lines blanked found keyword blank_eq _ ih =>
    cases index with
    | zero =>
      have hblank := logical_of_blank blank_eq
      constructor
      · intro hthreshold
        have hkeyword := (thresholdFrom_zero.1 hthreshold).2
        rw [hblank] at hkeyword
        cases hkeyword
      · rintro ⟨-, hsame⟩
        cases hsame
        rw [hblank] at keyword
        cases keyword
    | succ index =>
      simpa only [thresholdFrom_done (step_threshold keyword _) rfl,
        thresholdFrom_done (step_blank blank_eq _) rfl, List.getElem?_cons_succ] using ih

/-- The items that the runs take up differ in the blanked lines only, and both end alike. -/
theorem division (h : InStep policy lineNo phase lines blanked) :
    let one := divide lineNo phase (lines.map .line)
    let two := divide lineNo phase (blanked.map .line)
    List.Forall₂ Item.SameButThreshold (upToHalt policy one.items) (upToHalt policy two.items) ∧
      breakAfter policy two.items two.break? = breakAfter policy one.items one.break? := by
  induction h with
  | nil => exact ⟨List.forall₂_same.2 fun _ _ => .inl rfl, rfl⟩
  | stopped stops =>
    rw [List.map_cons, List.map_cons, divide_line, divide_line]
    rcases stops with ⟨conditions, hhalt, hkept⟩ | ⟨conditions, fault, hstuck⟩
    · have hstops : (Item.halt conditions).stops policy = true := hkept
      simp only [hhalt, proceed, Division.items, Division.break?, upToHalt, hstops, if_true,
        breakAfter_cons_of_stops]
      exact ⟨.cons (.inl rfl) .nil, trivial⟩
    · rw [hstuck]
      exact ⟨.nil, rfl⟩
  | more step _ ih =>
    rw [List.map_cons, List.map_cons, divide_line, divide_line, step]
    exact ih
  | done step running _ ih =>
    rw [List.map_cons, List.map_cons, divide_line, divide_line, step]
    simp only [proceed, Division.items, Division.break?, upToHalt, running, Bool.false_eq_true,
      if_false, breakAfter_cons]
    exact ⟨.cons (.inl rfl) ih.1, ih.2⟩
  | threshold keyword blank_eq _ ih =>
    rw [List.map_cons, List.map_cons, divide_line, divide_line, step_threshold keyword,
      step_blank blank_eq]
    exact ⟨.cons (.inr ⟨⟨_, rfl⟩, rfl⟩) ih.1, ih.2⟩

end InStep

theorem filterMap_sameButThreshold {α : Type} {one two : List Item} {f : Item → Option α}
    (hf : ∀ item other, Item.SameButThreshold item other → f other = f item)
    (h : List.Forall₂ Item.SameButThreshold one two) : two.filterMap f = one.filterMap f := by
  induction h with
  | nil => rfl
  | cons hitem _ ih => rw [List.filterMap_cons, List.filterMap_cons, hf _ _ hitem, ih]

theorem any_stops_sameButThreshold (policy : Policy) {one two : List Item}
    (h : List.Forall₂ Item.SameButThreshold one two) :
    two.any (Item.stops policy) = one.any (Item.stops policy) := by
  induction h with
  | nil => rfl
  | cons hitem _ ih =>
    rw [List.any_cons, List.any_cons, ih]
    rcases hitem with rfl | ⟨⟨value, rfl⟩, rfl⟩ <;> rfl

/-- Runs in step have the same outcome, up to the threshold. -/
theorem InStep.parse_eq (h : InStep policy 0 .start lines blanked) (name : Text) :
    let before := parse policy name (lines.map .line)
    let after := parse policy name (blanked.map .line)
    after.decisions = before.decisions ∧ after.messages = before.messages ∧
      ∃ threshold, after.result =
        before.result.map fun script => { script with hashThreshold := threshold } := by
  obtain ⟨hitems, hbreak⟩ := h.division
  have hconditions := filterMap_sameButThreshold (f := Item.conditions?)
    (by rintro _ _ (rfl | ⟨⟨_, rfl⟩, rfl⟩) <;> rfl) hitems
  have hoperations := filterMap_sameButThreshold (f := Item.operation? policy)
    (by rintro _ _ (rfl | ⟨⟨_, rfl⟩, rfl⟩) <;> rfl) hitems
  have hhalted := any_stops_sameButThreshold policy hitems
  rw [← Source.division, ← Source.division] at hbreak hconditions hoperations hhalted
  refine ⟨?_, ?_, lastThreshold (upToHalt policy (Source.division (blanked.map .line)).items), ?_⟩
  · rw [parse_decisions, parse_decisions, asked, asked, hconditions, hbreak]
  · rw [parse_messages, parse_messages, hoperations]
  · rw [parse_result, parse_result, hbreak]
    cases breakAfter policy (Source.division (lines.map .line)).items
      (Source.division (lines.map .line)).break? with
    | some ending => rfl
    | none =>
      simp only [Except.map, Script.ofItems, hoperations, hhalted]

/-! ## The last threshold line -/

theorem within_ne_threshold (conditions : Conditions) (step : BodyStep) (value : Option Nat) :
    step.within conditions ≠ .done (.threshold value) := by
  cases step <;> nofun

theorem ofLine_ne_threshold (directives : List Text) (line : Text) (value : Option Nat) :
    Step.ofLine directives line ≠ .done (.threshold value) := by
  unfold Step.ofLine
  split
  · nofun
  · split
    · nofun
    · split
      · nofun
      · exact within_ne_threshold _ _ value

/-- A threshold is read at the start of an item only. -/
theorem step_eq_threshold_iff {lineNo : Nat} {line : Text} {value : Option Nat} :
    phase.step lineNo line.trim = .done (.threshold value) ↔
      phase = .start ∧ ∃ description, logical line = "hash-threshold".toList ++ description ∧
        value = Numeral.ofText? (Text.trim description) := by
  constructor
  · intro h
    cases hkind : phase.kind with
    | data =>
      obtain ⟨conditions, query, values, rfl⟩ := Phase.kind_eq_data_iff.1 hkind
      rw [Phase.step_of_data hkind] at h
      exact absurd h (within_ne_threshold _ _ value)
    | script =>
      rw [Phase.step_of_script hkind, withoutComment_trim] at h
      split at h
      · cases h
      · cases phase with
        | start =>
          simp only [Phase.take] at h
          split at h
          · cases h
          · split at h
            next description hkeyword =>
              cases h
              exact ⟨rfl, description, (List.isPrefixOf?_eq_some_iff_append_eq.1 hkeyword).symm,
                rfl⟩
            · exact absurd h (ofLine_ne_threshold _ _ value)
        | directives lines => exact absurd h (ofLine_ne_threshold _ _ value)
        | body conditions phase => exact absurd h (within_ne_threshold _ _ value)
  · rintro ⟨rfl, description, hkeyword, rfl⟩
    exact step_threshold hkeyword lineNo

/-- No threshold is read at the end of the input. -/
theorem filterMap_threshold?_finish (place : Cursor) :
    (upToHalt policy (phase.finish place).items).filterMap Item.threshold? = [] := by
  rcases phase.finish_cases place with ⟨-, hfinish⟩ | hfinish | ⟨conditions, operation, -, hfinish⟩
  all_goals
    rw [hfinish]
    rfl

/-- What the parse makes of `found`, the values of the threshold lines that it takes up: the last of
them is that of the last threshold line. -/
def LastFrom (policy : Policy) (lineNo : Nat) (phase : Phase) (lines : List Text)
    (found : List (Option Nat)) : Prop :=
  (found = [] ∧ ∀ index description,
    ¬ ThresholdFrom policy lineNo phase lines index description) ∨
  ∃ index description, ThresholdFrom policy lineNo phase lines index description ∧
    (∀ other text, ThresholdFrom policy lineNo phase lines other text → other ≤ index) ∧
    found.getLast? = some (Numeral.ofText? (Text.trim description))

/-- Behind a line that is no threshold line, the last one is the last one of the others. -/
theorem LastFrom.cons {next : Phase} {line : Text} {found : List (Option Nat)}
    (h : LastFrom policy (lineNo + 1) next lines found)
    (hfirst : ∀ value, phase.step (lineNo + 1) line.trim ≠ .done (.threshold value))
    (hothers : ∀ index description,
      ThresholdFrom policy lineNo phase (line :: lines) (index + 1) description ↔
        ThresholdFrom policy (lineNo + 1) next lines index description) :
    LastFrom policy lineNo phase (line :: lines) found := by
  have hzero : ∀ description,
      ¬ ThresholdFrom policy lineNo phase (line :: lines) 0 description := by
    intro description hthreshold
    obtain ⟨rfl, hkeyword⟩ := thresholdFrom_zero.1 hthreshold
    exact hfirst _ (step_threshold hkeyword _)
  rcases h with ⟨hfound, hnone⟩ | ⟨index, description, hthreshold, hlast, hfound⟩
  · refine .inl ⟨hfound, fun index description hthreshold => ?_⟩
    cases index with
    | zero => exact hzero description hthreshold
    | succ index => exact hnone index description ((hothers _ _).1 hthreshold)
  · refine .inr ⟨index + 1, description, (hothers _ _).2 hthreshold, fun other text hother => ?_,
      hfound⟩
    cases other with
    | zero => exact Nat.zero_le _
    | succ other => exact Nat.succ_le_succ (hlast other text ((hothers _ _).1 hother))

/-- A threshold line is the last one if there are none among the others. -/
theorem LastFrom.cons_threshold {line : Text} {value : Option Nat} {found : List (Option Nat)}
    (h : LastFrom policy (lineNo + 1) .start lines found)
    (hstep : phase.step (lineNo + 1) line.trim = .done (.threshold value)) :
    LastFrom policy lineNo phase (line :: lines) (value :: found) := by
  have hothers : ∀ index description,
      ThresholdFrom policy lineNo phase (line :: lines) (index + 1) description ↔
        ThresholdFrom policy (lineNo + 1) .start lines index description :=
    fun _ _ => thresholdFrom_done hstep rfl
  obtain ⟨rfl, description, hkeyword, rfl⟩ := step_eq_threshold_iff.1 hstep
  rcases h with ⟨rfl, hnone⟩ | ⟨index, text, hthreshold, hlast, hfound⟩
  · refine .inr ⟨0, description, thresholdFrom_zero.2 ⟨rfl, hkeyword⟩, fun other text hother => ?_,
      rfl⟩
    cases other with
    | zero => exact Nat.le_refl _
    | succ other => exact absurd ((hothers _ _).1 hother) (hnone other text)
  · refine .inr ⟨index + 1, text, (hothers _ _).2 hthreshold, fun other text hother => ?_, ?_⟩
    · cases other with
      | zero => exact Nat.zero_le _
      | succ other => exact Nat.succ_le_succ (hlast other text ((hothers _ _).1 hother))
    · rw [List.getLast?_cons, hfound]
      rfl

theorem lastFrom (policy : Policy) (lineNo : Nat) (phase : Phase) (lines : List Text) :
    LastFrom policy lineNo phase lines
      ((upToHalt policy (divide lineNo phase (lines.map .line)).items).filterMap
        Item.threshold?) := by
  induction lines generalizing lineNo phase with
  | nil =>
    refine .inl ⟨filterMap_threshold?_finish _, fun index description hthreshold => ?_⟩
    cases hthreshold.2
  | cons line lines ih =>
    rw [List.map_cons, divide_line]
    rcases Step.cases policy (phase.step (lineNo + 1) line.trim) with
      ⟨next, hstep⟩ | ⟨item, hstep, hrunning⟩ | hstops
    · rw [hstep]
      exact (ih (lineNo + 1) next).cons (by simp [hstep]) fun _ _ => thresholdFrom_more hstep
    · rw [hstep, proceed, Division.items, upToHalt, hrunning, if_neg Bool.false_ne_true]
      cases item with
      | threshold value => exact (ih (lineNo + 1) .start).cons_threshold hstep
      | _ =>
        exact (ih (lineNo + 1) .start).cons (by simp [hstep])
          fun _ _ => thresholdFrom_done hstep hrunning
    · refine .inl ⟨?_, fun index description hthreshold => ?_⟩
      · rcases hstops with ⟨conditions, hhalt, hkept⟩ | ⟨conditions, fault, hstuck⟩
        · have hitem : (Item.halt conditions).stops policy = true := hkept
          rw [hhalt, proceed, Division.items, upToHalt, hitem, if_pos rfl]
          rfl
        · rw [hstuck]
          rfl
      · cases index with
        | zero =>
          obtain ⟨rfl, hkeyword⟩ := thresholdFrom_zero.1 hthreshold
          rw [step_threshold hkeyword] at hstops
          rcases hstops with ⟨_, hhalt, -⟩ | ⟨_, _, hstuck⟩
          · cases hhalt
          · cases hstuck
        | succ index => exact not_thresholdFrom_of_stops hstops hthreshold

/-- The threshold of a script is that of the last threshold line that a parse reads. -/
theorem lastThreshold_of_parse {name : Text} {script : Script}
    (h : (parse policy name (lines.map .line)).result = .ok script) :
    LastThreshold policy lines script.hashThreshold := by
  obtain ⟨-, rfl⟩ := parse_eq_ok_iff.1 h
  rcases lastFrom policy 0 .start lines with
    ⟨hfound, hnone⟩ | ⟨index, description, hthreshold, hlast, hfound⟩
  · refine .inl ⟨?_, fun index description => by rw [thresholdAt_iff]; exact hnone _ _⟩
    rw [Script.ofItems, lastThreshold, Source.division, hfound]
    rfl
  · refine .inr ⟨index, description, thresholdAt_iff.2 hthreshold,
      fun other text hother => hlast other text (thresholdAt_iff.1 hother), fun n => ?_⟩
    rw [Script.ofItems, lastThreshold, Source.division, hfound, ← Numeral.ofText?_eq_some_iff]
    rfl

end

end LogicTest
