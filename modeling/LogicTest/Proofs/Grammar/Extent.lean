import LogicTest.Proofs.Grammar.Acceptance
import LogicTest.Proofs.Grammar.Faults

/-!
# What of a source is read

A parse that a line stops has read its source up to that line, and its outcome is the same whatever
follows. Otherwise it has read on: to the end of its source, or to a read that fails, and then it
fails with that read. Main statements: `parse_extent` and `parse_unreadable`.
-/
namespace LogicTest

/-- A line has stopped the parse: a `halt` that was kept, or a line that is a fault. -/
def Parse.StoppedByLine (run : Parse) : Prop :=
  match run.result with
  | .ok script => script.halted = true
  | .error error => error.fault.kind ∈ FaultKind.ofLine

theorem Parse.stoppedByLine_of_ok {run : Parse} {script : Script} (h : run.result = .ok script) :
    run.StoppedByLine ↔ script.halted = true := by
  rw [StoppedByLine, h]

theorem Parse.stoppedByLine_of_error {run : Parse} {error : ScriptError}
    (h : run.result = .error error) :
    run.StoppedByLine ↔ error.fault.kind ∈ FaultKind.ofLine := by
  rw [StoppedByLine, h]

/-- Of its source a parse has read these lines and nothing else: whatever follows them is left
unread and makes no difference. -/
structure ReadsExactly (policy : Policy) (name : Text) (source : Source) (lines : List Text) :
    Prop where
  source_eq : source = lines.map .line ++ (parse policy name source).unread
  outcome_eq : ∀ rest, parse policy name (lines.map .line ++ rest) =
    { parse policy name source with unread := rest }

/-- A parse has found the end of its source, and no read of it has failed. -/
structure ReadsAll (policy : Policy) (name : Text) (source : Source) : Prop where
  readable : ∀ reading ∈ source, ∃ line, reading = .line line
  unread_eq : (parse policy name source).unread = []
  done : (readItems policy .start (.start source)).cursor.done = true

theorem readsExactly_of_outcome {policy : Policy} {name : Text} {lines : List Text} {lineNo : Nat}
    {progress : Progress} {fault : Option Fault}
    (h : ∀ rest, parse policy name (lines.map .line ++ rest) =
      Stop.outcome name ⟨progress, fault, ⟨rest, lineNo, none, false⟩⟩) (rest : Source) :
    ReadsExactly policy name (lines.map .line ++ rest) lines where
  source_eq := by rw [h]; rfl
  outcome_eq other := by rw [h, h]; rfl

/-! ## The ways to end -/

namespace Leads
open Grammar

variable {policy : Policy} {lines : List Text} {items : List Item} {last : Phase} {line : Text}

theorem readsExactly (h : Leads policy 0 .start lines items last)
    (stops : (last.step (lines.length + 1) line.trim).Stops policy) (name : Text) (rest : Source) :
    ReadsExactly policy name ((lines ++ [line]).map .line ++ rest) (lines ++ [line]) := by
  rcases stops with ⟨conditions, hhalt, hkept⟩ | ⟨conditions, fault, hstuck⟩
  · exact readsExactly_of_outcome (h.parse_eq_halt hhalt hkept name) rest
  · exact readsExactly_of_outcome (h.parse_eq_stuck hstuck name) rest

theorem items_halt {conditions : Conditions} (h : Leads policy 0 .start lines items last)
    (hhalt : last.step (lines.length + 1) line.trim = .done (.halt conditions)) :
    Items 0 (lines ++ [line]) (items ++ [.halt conditions]) := by
  obtain ⟨body, record, rfl, isBody, hreached⟩ := h.exists_items
  have hafter := reached_step hreached line
  rw [List.length_append] at hhalt
  rw [hhalt] at hafter
  rw [List.append_assoc]
  refine isBody.append (.singleton ?_)
  rwa [Nat.zero_add]

theorem kind_mem {conditions : Option Conditions} {fault : Fault}
    (h : Leads policy 0 .start lines items last)
    (hstuck : last.step (lines.length + 1) line.trim = .stuck conditions fault) :
    fault.kind ∈ FaultKind.ofLine := by
  obtain ⟨body, record, -, -, hreached⟩ := h.exists_items
  exact (refuses_of_stuck hreached hstuck).2.kind_mem

theorem stoppedByLine (h : Leads policy 0 .start lines items last)
    (stops : (last.step (lines.length + 1) line.trim).Stops policy) (name : Text) (rest : Source) :
    (parse policy name ((lines ++ [line]).map .line ++ rest)).StoppedByLine := by
  rcases stops with ⟨conditions, hhalt, hkept⟩ | ⟨conditions, fault, hstuck⟩
  · rw [h.parse_eq_halt hhalt hkept]
    simp only [Parse.StoppedByLine, Stop.outcome, Progress.takeUp, hkept, if_true]
    rfl
  · rw [h.parse_eq_stuck hstuck]
    exact h.kind_mem hstuck

/-- Where lines lead a parse on to the end, it reads them all and no line stops it. -/
theorem readsAll (h : Leads policy 0 .start lines items last) (name : Text) :
    ReadsAll policy name (lines.map .line) := by
  obtain ⟨after, fault, hstop, -⟩ := replay_finish policy (Progress.start.after policy items) last
    ⟨[], lines.length, none, true⟩
  rw [← h.readItems_eq_finish] at hstop
  refine ⟨fun reading hreading => ?_, by rw [parse_eq_outcome, hstop]; rfl, by rw [hstop]⟩
  obtain ⟨line, -, hline⟩ := List.mem_map.1 hreading
  exact ⟨line, hline.symm⟩

theorem not_stoppedByLine (h : Leads policy 0 .start lines items last) (name : Text) :
    ¬ (parse policy name (lines.map .line)).StoppedByLine := by
  obtain ⟨after, fault, hstop, hending, -⟩ := replay_finish policy
    (Progress.start.after policy items) last ⟨[], lines.length, none, true⟩
  rw [parse_eq_outcome, h.readItems_eq_finish, hstop]
  rcases hending with ⟨rfl, hhalted⟩ | rfl
  · rw [h.halted_eq] at hhalted
    simp [Parse.StoppedByLine, Stop.outcome, Progress.toScript, hhalted]
  · simp only [Parse.StoppedByLine, Stop.outcome]
    decide

end Leads

/-! ## What is read -/

namespace Grammar

/-- A parse has read what it needed to come to its end, and no more. After a `halt` that it keeps,
and after a line that is a fault, this is the lines up to that one; otherwise it is the whole
source, of which every line could be read. -/
theorem parse_extent (policy : Policy) (name : Text) (source : Source) :
    (∀ script, (parse policy name source).result = .ok script → script.halted = true →
      ∃ lines items conditions, Items 0 lines (items ++ [.halt conditions]) ∧
        (∀ item ∈ items, item.stops policy = false) ∧ policy conditions = true ∧
        ReadsExactly policy name source lines) ∧
    (∀ error, (parse policy name source).result = .error error →
      error.fault.kind ∈ FaultKind.ofLine →
      ∃ lines, lines.length = error.line ∧ ReadsExactly policy name source lines) ∧
    (∀ script, (parse policy name source).result = .ok script → script.halted = false →
      ReadsAll policy name source) ∧
    ∀ error, (parse policy name source).result = .error error →
      error.fault.kind = .prematureEnd → ReadsAll policy name source := by
  cases ending policy source with
  | @line read items last line rest leads stops =>
    have hread := leads.readsExactly stops name rest
    have hstopped := leads.stoppedByLine stops name rest
    refine ⟨?_, ?_, fun script hresult hhalted => ?_, fun error hresult hkind => ?_⟩
    · intro script hresult _
      rcases stops with ⟨conditions, hhalt, hkept⟩ | ⟨conditions, fault, hstuck⟩
      · exact ⟨read ++ [line], items, conditions, leads.items_halt hhalt, leads.running, hkept,
          hread⟩
      · rw [leads.parse_eq_stuck hstuck] at hresult
        cases hresult
    · intro error hresult _
      refine ⟨read ++ [line], ?_, hread⟩
      rcases stops with ⟨conditions, hhalt, hkept⟩ | ⟨conditions, fault, hstuck⟩
      · rw [leads.parse_eq_halt hhalt hkept] at hresult
        cases hresult
      · rw [leads.parse_eq_stuck hstuck] at hresult
        cases hresult
        exact List.length_append
    · rw [Parse.stoppedByLine_of_ok hresult, hhalted] at hstopped
      cases hstopped
    · rw [Parse.stoppedByLine_of_error hresult, hkind] at hstopped
      exact absurd hstopped (by decide)
  | input leads =>
    have hread := leads.readsAll name
    have hrunning := leads.not_stoppedByLine name
    refine ⟨fun script hresult hhalted => ?_, fun error hresult hkind => ?_, fun _ _ _ => hread,
      fun _ _ _ => hread⟩
    · exact absurd ((Parse.stoppedByLine_of_ok hresult).2 hhalted) hrunning
    · exact absurd ((Parse.stoppedByLine_of_error hresult).2 hkind) hrunning
  | @failure lines items last cause rest leads =>
    rw [leads.parse_eq_failure]
    refine ⟨nofun, ?_, nofun, ?_⟩
    · rintro _ ⟨⟩ hkind
      have hio : FaultKind.io ∉ FaultKind.ofLine := by decide
      exact absurd hkind hio
    · rintro _ ⟨⟩ hkind
      cases hkind

/-- A read that fails is never taken for the end of the input. Unless a line has stopped it before,
a parse fails with it, and has done nothing that it would not do if the input ended there. -/
theorem parse_unreadable (policy : Policy) (name : Text) (lines : List Text) (cause : ReadFailure)
    (rest : Source) :
    let alone := parse policy name (lines.map .line)
    let run := parse policy name (lines.map .line ++ .failure cause :: rest)
    (alone.StoppedByLine → run.result = alone.result ∧ run.decisions = alone.decisions ∧
      run.messages = alone.messages) ∧
    (¬ alone.StoppedByLine →
      (∃ error, run.result = .error error ∧
        error.diagnostic = ⟨name, lines.length, .io, cause.message⟩) ∧
      run.decisions <+: alone.decisions ∧ run.messages <+: alone.messages) := by
  intro alone run
  rcases leads_or_stops policy 0 .start lines with
    ⟨items, last, hleads⟩ | ⟨read, line, others, items, last, rfl, hleads, hstops⟩
  · refine ⟨fun hstopped => absurd hstopped (hleads.not_stoppedByLine name), fun _ => ?_⟩
    obtain ⟨after, fault, hstop, -, hdecisions, hmessages⟩ := replay_finish policy
      (Progress.start.after policy items) last ⟨[], lines.length, none, true⟩
    have halone : alone = Stop.outcome name ⟨after, fault, ⟨[], lines.length, none, true⟩⟩ := by
      rw [← hstop, ← hleads.readItems_eq_finish]
      rfl
    have hrun : run = _ := hleads.parse_eq_failure name cause rest
    rw [hrun, halone]
    refine ⟨⟨⟨name, lines.length, .readFailed cause⟩, rfl, rfl⟩, ?_, ?_⟩
    · simp only [Stop.outcome, hdecisions]
      exact List.prefix_rfl
    · simpa only [Stop.outcome, Progress.messages_noteAll] using hmessages
  · rw [Nat.zero_add] at hstops
    have halone : alone = parse policy name ((read ++ [line]).map .line ++ others.map .line) := by
      rw [← List.map_append, ← List.append_cons]
    have hrun : run = parse policy name
        ((read ++ [line]).map .line ++ (others.map .line ++ .failure cause :: rest)) := by
      rw [← List.append_assoc, ← List.map_append, ← List.append_cons]
    have hexact := hleads.readsExactly hstops name (others.map .line)
    refine ⟨fun _ => ?_, fun hrunning => absurd ?_ hrunning⟩
    · rw [hrun, hexact.outcome_eq, halone]
      exact ⟨rfl, rfl, rfl⟩
    · rw [halone]
      exact hleads.stoppedByLine hstops name _

end Grammar
end LogicTest
