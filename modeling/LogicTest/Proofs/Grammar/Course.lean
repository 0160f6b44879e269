import LogicTest.Proofs.Division.Replay
import LogicTest.Proofs.Grammar.Soundness

/-!
# The course of a parse

How far some lines take a parse, whatever follows them: the items that they complete and the phase
that they lead to, unless one of them stops it (`Leads`). The grammar describes the lines of these
items and those of the record at hand (`Leads.exists_items`), and every parse comes to its end in
one of three ways: at a line that stops it, at the end of the input, or at a read that fails
(`Ending`).
-/
namespace LogicTest

/-- The lines after line `lineNo` lead a parse from one phase to another: they complete `items`, and
none of them stops it. -/
inductive Leads (policy : Policy) : Nat → Phase → List Text → List Item → Phase → Prop where
  | nil {lineNo phase} : Leads policy lineNo phase [] [] phase
  | more {lineNo phase next last line lines items}
      (step : phase.step (lineNo + 1) (Text.trim line) = .more next)
      (others : Leads policy (lineNo + 1) next lines items last) :
      Leads policy lineNo phase (line :: lines) items last
  | done {lineNo phase last line lines item items}
      (step : phase.step (lineNo + 1) (Text.trim line) = .done item)
      (running : item.stops policy = false)
      (others : Leads policy (lineNo + 1) .start lines items last) :
      Leads policy lineNo phase (line :: lines) (item :: items) last

/-- The step ends a parse: it completes a `halt` that the policy keeps, or it is a fault. -/
def Step.Stops (policy : Policy) (step : Step) : Prop :=
  (∃ conditions, step = .done (.halt conditions) ∧ policy conditions = true) ∨
    ∃ conditions fault, step = .stuck conditions fault

/-- Lines lead a parse on to their end, or up to one that stops it. -/
theorem leads_or_stops (policy : Policy) (lineNo : Nat) (phase : Phase) (lines : List Text) :
    (∃ items last, Leads policy lineNo phase lines items last) ∨
      ∃ read line rest items last, lines = read ++ line :: rest ∧
        Leads policy lineNo phase read items last ∧
        (last.step (lineNo + read.length + 1) line.trim).Stops policy := by
  induction lines generalizing lineNo phase with
  | nil => exact .inl ⟨[], phase, .nil⟩
  | cons line lines ih =>
    cases hstep : phase.step (lineNo + 1) line.trim with
    | more next =>
      rcases ih (lineNo + 1) next with
        ⟨items, last, hleads⟩ | ⟨read, final, rest, items, last, rfl, hleads, hstops⟩
      · exact .inl ⟨items, last, .more hstep hleads⟩
      · exact .inr ⟨line :: read, final, rest, items, last, rfl, .more hstep hleads,
          by rwa [add_length_cons]⟩
    | done item =>
      cases hitem : item.stops policy with
      | true =>
        obtain ⟨conditions, rfl, hkept⟩ := exists_halt_of_stops hitem
        exact .inr ⟨[], line, lines, [], phase, rfl, .nil, .inl ⟨conditions, hstep, hkept⟩⟩
      | false =>
        rcases ih (lineNo + 1) .start with
          ⟨items, last, hleads⟩ | ⟨read, final, rest, items, last, rfl, hleads, hstops⟩
        · exact .inl ⟨item :: items, last, .done hstep hitem hleads⟩
        · exact .inr ⟨line :: read, final, rest, item :: items, last, rfl,
            .done hstep hitem hleads, by rwa [add_length_cons]⟩
    | stuck conditions fault =>
      exact .inr ⟨[], line, lines, [], phase, rfl, .nil, .inr ⟨conditions, fault, hstep⟩⟩

namespace Leads

variable {policy : Policy} {lineNo : Nat} {phase last : Phase} {lines : List Text}
  {items : List Item}

theorem running (h : Leads policy lineNo phase lines items last) :
    ∀ item ∈ items, item.stops policy = false := by
  induction h with
  | nil => exact fun item hitem => absurd hitem List.not_mem_nil
  | more _ _ ih => exact ih
  | done _ running _ ih => exact List.forall_mem_cons.2 ⟨running, ih⟩

/-- After lines that lead it on, a parse has taken up their items and goes on from their phase. -/
theorem replay_eq (h : Leads policy lineNo phase lines items last) (progress : Progress)
    (rest : Source) :
    replay policy progress (divide lineNo phase (lines.map .line ++ rest)) =
      replay policy (progress.after policy items) (divide (lineNo + lines.length) last rest) := by
  induction h generalizing progress with
  | nil => rw [Progress.after_nil]; rfl
  | more step _ ih =>
    rw [List.map_cons, List.cons_append, divide_line, step, add_length_cons]
    exact ih progress
  | done step running _ ih =>
    rw [List.map_cons, List.cons_append, divide_line, step, add_length_cons, proceed, replay,
      running, if_neg Bool.false_ne_true, ← Progress.takeUp_after]
    exact ih _

/-- After such lines, a division has their items and goes on from their phase as well. -/
theorem division_eq (h : Leads policy lineNo phase lines items last) (rest : Source) :
    (divide lineNo phase (lines.map .line ++ rest)).items =
        items ++ (divide (lineNo + lines.length) last rest).items ∧
      (divide lineNo phase (lines.map .line ++ rest)).break? =
        (divide (lineNo + lines.length) last rest).break? := by
  induction h with
  | nil => exact ⟨rfl, rfl⟩
  | more step _ ih =>
    rw [List.map_cons, List.cons_append, divide_line, step, add_length_cons]
    exact ih
  | done step _ _ ih =>
    rw [List.map_cons, List.cons_append, divide_line, step, add_length_cons]
    exact ⟨congrArg (_ :: ·) ih.1, ih.2⟩

/-- A line that the phase goes on with leads further. -/
theorem concat {line : Text} {next : Phase} (h : Leads policy lineNo phase lines items last)
    (step : last.step (lineNo + lines.length + 1) line.trim = .more next) :
    Leads policy lineNo phase (lines ++ [line]) items next := by
  induction h with
  | nil => exact .more step .nil
  | more first _ ih =>
    rw [add_length_cons] at step
    exact .more first (ih step)
  | done first running _ ih =>
    rw [add_length_cons] at step
    exact .done first running (ih step)

/-- What leads on from where other lines have led, leads on behind them. -/
theorem append {middle : Phase} {one two : List Text} {others : List Item}
    (h : Leads policy lineNo phase one items middle)
    (h' : Leads policy (lineNo + one.length) middle two others last) :
    Leads policy lineNo phase (one ++ two) (items ++ others) last := by
  induction h with
  | nil => exact h'
  | more step _ ih =>
    rw [add_length_cons] at h'
    exact .more step (ih h')
  | done step running _ ih =>
    rw [add_length_cons] at h'
    exact .done step running (ih h')

/-- Lines that lead from one phase to another by the grammar complete no item on the way. -/
theorem of_goes {lines segment : List Text} (h : Grammar.Goes phase lines last)
    (hlast : last.kind = .script) (hsegment : Grammar.logicalLines segment = lines)
    (policy : Policy) (lineNo : Nat) : Leads policy lineNo phase segment [] last := by
  induction segment generalizing phase lines lineNo with
  | nil =>
    cases hsegment
    cases h
    exact .nil
  | cons line segment ih =>
    have hscript : phase.kind = .script := by
      cases h with
      | nil => exact hlast
      | cons script => exact script
    rw [Grammar.logicalLines_cons] at hsegment
    cases hline : isComment line.trim with
    | true =>
      rw [Grammar.logicalLines_of_comment hline, List.nil_append] at hsegment
      refine .more ?_ (ih h hsegment (lineNo + 1))
      rw [Phase.step_of_script hscript, if_pos hline]
    | false =>
      rw [Grammar.logicalLines_of_not_comment hline, List.singleton_append] at hsegment
      cases hsegment
      cases h with
      | cons _ take others =>
        refine .more ?_ (ih others rfl (lineNo + 1))
        rw [Phase.step_of_script hscript, hline, if_neg Bool.false_ne_true,
          Grammar.withoutComment_trim, take]

/-- The lines that lead to a phase are items of the grammar and those that belong to the phase. -/
theorem exists_items_of_reached {start : Nat} {segment : List Text}
    (h : Leads policy lineNo phase lines items last)
    (hlineNo : lineNo = start + segment.length) (reached : Grammar.Reached start segment phase) :
    ∃ body record, segment ++ lines = body ++ record ∧ Grammar.Items start body items ∧
      Grammar.Reached (start + body.length) record last := by
  induction h generalizing start segment with
  | nil => exact ⟨[], segment, List.append_nil segment, .nil, reached⟩
  | @more lineNo phase next last line lines items step _ ih =>
    have hafter := Grammar.reached_step reached line
    rw [← hlineNo, step] at hafter
    obtain ⟨body, record, hlines, hitems, hlast⟩ := ih (by simp [hlineNo, Nat.add_assoc]) hafter
    exact ⟨body, record, by rw [List.append_cons, hlines], hitems, hlast⟩
  | @done lineNo phase last line lines item items step _ _ ih =>
    have hafter := Grammar.reached_step reached line
    rw [← hlineNo, step] at hafter
    have hstart : Grammar.Reached (start + (segment ++ [line]).length) [] .start := .start rfl
    obtain ⟨body, record, hlines, hitems, hlast⟩ := ih (by simp [hlineNo, Nat.add_assoc]) hstart
    refine ⟨segment ++ [line] ++ body, record, ?_, .cons hafter hitems, ?_⟩
    · rw [List.append_cons, List.append_assoc _ body, ← hlines, List.nil_append]
    · rwa [List.length_append, ← Nat.add_assoc]

/-- The same, for lines that a source begins with. -/
theorem exists_items (h : Leads policy 0 .start lines items last) :
    ∃ body record, lines = body ++ record ∧ Grammar.Items 0 body items ∧
      Grammar.Reached body.length record last := by
  have hstart : Grammar.Reached 0 [] .start := .start rfl
  obtain ⟨body, record, hlines, hitems, hlast⟩ := h.exists_items_of_reached rfl hstart
  exact ⟨body, record, hlines, hitems, by rwa [Nat.zero_add] at hlast⟩

end Leads

/-! ## The ends of a parse -/

/-- The outcome of a parse that stops in this way. -/
def Stop.outcome (name : Text) (stop : Stop) : Parse where
  result := match stop.fault with
    | some fault => .error ⟨name, stop.cursor.lineNo, fault⟩
    | none => .ok (stop.progress.toScript name)
  decisions := stop.progress.decisions.toList
  messages := stop.progress.messages.toList
  unread := stop.cursor.unread

/-- A parse comes to an end: at a line, at the end of the input, or at a read that fails. -/
inductive Ending (policy : Policy) : Source → Prop where
  | line {read items last line} (rest : Source) (leads : Leads policy 0 .start read items last)
      (stops : (last.step (read.length + 1) (Text.trim line)).Stops policy) :
      Ending policy ((read ++ [line]).map .line ++ rest)
  | input {lines items last} (leads : Leads policy 0 .start lines items last) :
      Ending policy (lines.map .line)
  | failure {lines items last} (cause : ReadFailure) (rest : Source)
      (leads : Leads policy 0 .start lines items last) :
      Ending policy (lines.map .line ++ .failure cause :: rest)

/-- A source consists of lines, up to its end or to a read that fails. -/
theorem Source.exists_lines (source : Source) :
    ∃ (lines : List Text) (tail : Source), source = lines.map .line ++ tail ∧
      (tail = [] ∨ ∃ cause rest, tail = .failure cause :: rest) := by
  induction source with
  | nil => exact ⟨[], [], rfl, .inl rfl⟩
  | cons reading source ih =>
    cases reading with
    | failure cause => exact ⟨[], _, rfl, .inr ⟨cause, source, rfl⟩⟩
    | line line =>
      obtain ⟨lines, tail, rfl, htail⟩ := ih
      exact ⟨line :: lines, tail, rfl, htail⟩

theorem ending (policy : Policy) (source : Source) : Ending policy source := by
  obtain ⟨lines, tail, rfl, htail⟩ := source.exists_lines
  rcases leads_or_stops policy 0 .start lines with
    ⟨items, last, hleads⟩ | ⟨read, line, rest, items, last, rfl, hleads, hstops⟩
  · rcases htail with rfl | ⟨cause, rest, rfl⟩
    · rw [List.append_nil]
      exact .input hleads
    · exact .failure cause rest hleads
  · rw [List.append_cons, List.map_append, List.append_assoc]
    rw [Nat.zero_add] at hstops
    exact .line (rest.map .line ++ tail) hleads hstops

/-- What the end of the input makes of a phase: nothing is open, or the item at hand is complete or
cannot be. -/
theorem Phase.finish_cases (phase : Phase) (place : Cursor) :
    (phase = .start ∧ phase.finish place = .ended place) ∨
      phase.finish place = .failed phase.conditions? .prematureEnd place ∨
      ∃ conditions operation, phase.conditions? = some conditions ∧
        phase.finish place = .item (.operation conditions operation) place (.ended place) := by
  cases phase with
  | start => exact .inl ⟨rfl, rfl⟩
  | directives lines => exact .inr (.inl rfl)
  | body conditions phase =>
    right
    simp only [Phase.finish]
    cases hfinish : phase.finish place.lineNo with
    | ok operation => exact .inr ⟨conditions, operation, rfl, rfl⟩
    | error fault =>
      left
      cases phase with
      | heading => cases hfinish; rfl
      | statement | text =>
        simp only [BodyPhase.finish] at hfinish
        split at hfinish <;> cases hfinish
        rfl
      | _ => cases hfinish

theorem Progress.messages_noteAll (policy : Policy) (progress : Progress)
    (conditions : Option Conditions) :
    (progress.noteAll policy conditions).messages = progress.messages := by
  cases conditions <;> rfl

/-- The end of the input adds to a parse what the operation at hand comes to, if it is complete. -/
theorem replay_finish (policy : Policy) (progress : Progress) (phase : Phase) (place : Cursor) :
    ∃ after fault, replay policy progress (phase.finish place) = ⟨after, fault, place⟩ ∧
      (fault = none ∧ after.halted = progress.halted ∨ fault = some .prematureEnd) ∧
      after.decisions = (progress.noteAll policy phase.conditions?).decisions ∧
      progress.messages.toList <+: after.messages.toList := by
  rcases phase.finish_cases place with
    ⟨rfl, hfinish⟩ | hfinish | ⟨conditions, operation, hconditions, hfinish⟩
  · exact ⟨progress, none, by rw [hfinish, replay], .inl ⟨rfl, rfl⟩, rfl, List.prefix_rfl⟩
  · exact ⟨_, some .prematureEnd, by rw [hfinish, replay], .inr rfl, rfl, [],
      by rw [List.append_nil, Progress.messages_noteAll]⟩
  · refine ⟨progress.takeUp policy (.operation conditions operation), none,
      (congrArg (replay policy progress) hfinish).trans rfl, .inl ⟨rfl, ?_⟩, ?_, ?_⟩
    all_goals cases hkept : policy conditions <;>
      simp [Progress.takeUp, Progress.noteAll, Progress.note, Progress.add, hconditions, hkept]

theorem parse_eq_outcome (policy : Policy) (name : Text) (source : Source) :
    parse policy name source = (readItems policy .start (.start source)).outcome name := rfl

namespace Leads

variable {policy : Policy} {lines : List Text} {items : List Item} {last : Phase}

theorem halted_eq (h : Leads policy 0 .start lines items last) :
    (Progress.start.after policy items).halted = false := by
  have hany : items.any (Item.stops policy) = false := by simpa using h.running
  rw [Progress.after, hany]
  rfl

/-- After lines that lead it on, a parse depends on their items and on their phase. -/
theorem readItems_eq (h : Leads policy 0 .start lines items last) (rest : Source) :
    readItems policy .start (.start (lines.map .line ++ rest)) =
      replay policy (Progress.start.after policy items) (divide lines.length last rest) := by
  rw [readItems_start, h.replay_eq, Nat.zero_add]

theorem parse_eq (h : Leads policy 0 .start lines items last) (name : Text) (rest : Source) :
    parse policy name (lines.map .line ++ rest) =
      (replay policy (Progress.start.after policy items)
        (divide lines.length last rest)).outcome name := by
  rw [parse_eq_outcome, h.readItems_eq]

/-- With nothing after them, the end of the input is met in their phase. -/
theorem readItems_eq_finish (h : Leads policy 0 .start lines items last) :
    readItems policy .start (.start (lines.map .line)) =
      replay policy (Progress.start.after policy items)
        (last.finish ⟨[], lines.length, none, true⟩) := by
  have hstop := h.readItems_eq []
  rwa [List.append_nil, divide] at hstop

/-- A read that fails after them is the fault of the parse. -/
theorem parse_eq_failure (h : Leads policy 0 .start lines items last) (name : Text)
    (cause : ReadFailure) (rest : Source) :
    parse policy name (lines.map .line ++ .failure cause :: rest) =
      Stop.outcome name ⟨(Progress.start.after policy items).noteAll policy last.conditions?,
        some (.readFailed cause), ⟨rest, lines.length, none, false⟩⟩ := by
  rw [h.parse_eq, divide, replay]

variable {line : Text} {conditions : Conditions}

/-- A line after them is taken up by their phase. -/
theorem parse_concat (h : Leads policy 0 .start lines items last) (name line : Text)
    (rest : Source) :
    parse policy name ((lines ++ [line]).map .line ++ rest) =
      (replay policy (Progress.start.after policy items)
        (proceed ⟨rest, lines.length + 1, none, false⟩
          (last.step (lines.length + 1) line.trim))).outcome name := by
  rw [List.map_append, List.append_assoc, List.map_singleton, List.singleton_append, h.parse_eq,
    divide_line]

/-- A `halt` that is kept stops the parse where its line ends. -/
theorem parse_eq_halt (h : Leads policy 0 .start lines items last)
    (hhalt : last.step (lines.length + 1) line.trim = .done (.halt conditions))
    (kept : policy conditions = true) (name : Text) (rest : Source) :
    parse policy name ((lines ++ [line]).map .line ++ rest) =
      Stop.outcome name ⟨(Progress.start.after policy items).takeUp policy (.halt conditions), none,
        ⟨rest, lines.length + 1, none, false⟩⟩ := by
  rw [h.parse_concat, hhalt, proceed, replay, Item.stops, if_pos kept]

/-- A line that is a fault stops the parse where it ends. -/
theorem parse_eq_stuck {conditions : Option Conditions} {fault : Fault}
    (h : Leads policy 0 .start lines items last)
    (hstuck : last.step (lines.length + 1) line.trim = .stuck conditions fault) (name : Text)
    (rest : Source) :
    parse policy name ((lines ++ [line]).map .line ++ rest) =
      Stop.outcome name ⟨(Progress.start.after policy items).noteAll policy conditions, some fault,
        ⟨rest, lines.length + 1, none, false⟩⟩ := by
  rw [h.parse_concat, hstuck, proceed, replay]

end Leads

end LogicTest
