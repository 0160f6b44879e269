import LogicTest.Proofs.Grammar.Extent

/-!
# What a parse takes of its source

The outcome of a parse tells how much of its source it has taken: the lines through the one that
stopped it, the lines before a read that failed and this read, or everything. What it leaves is the
rest of the source, so that another parse can go on there (`parse_consumes`).
-/
namespace LogicTest

/-- A parse has come to the end of its source: it succeeded without a `halt`, or a record lacked its
end. -/
def Parse.Exhausts (run : Parse) : Prop :=
  match run.result with
  | .ok script => script.halted = false
  | .error error => error.fault.kind = .prematureEnd

theorem Parse.exhausts_of_ok {run : Parse} {script : Script} (h : run.result = .ok script) :
    run.Exhausts ↔ script.halted = false := by
  rw [Exhausts, h]

theorem Parse.exhausts_of_error {run : Parse} {error : ScriptError}
    (h : run.result = .error error) : run.Exhausts ↔ error.fault.kind = .prematureEnd := by
  rw [Exhausts, h]

namespace Grammar

/-- What a parse with this outcome has taken of its source; one case for each way to end. -/
inductive Consumes (policy : Policy) (run : Parse) : Source → Prop where
  /-- the lines through the first `halt` that is kept -/
  | halted {script lines items conditions} (result : run.result = .ok script)
      (halted : script.halted = true) (isBody : Items 0 lines (items ++ [.halt conditions]))
      (running : ∀ item ∈ items, item.stops policy = false) (kept : policy conditions = true) :
      Consumes policy run (lines.map .line)
  /-- as many lines as the fault is said to be on -/
  | refused {error} {lines : List Text} (result : run.result = .error error)
      (kind : error.fault.kind ∈ FaultKind.ofLine) (count : lines.length = error.line) :
      Consumes policy run (lines.map .line)
  /-- as many lines as the fault is said to be on, and the read that failed -/
  | unreadable {error cause} {lines : List Text} (result : run.result = .error error)
      (kind : error.fault.kind = .io) (count : lines.length = error.line) :
      Consumes policy run (lines.map .line ++ [.failure cause])
  | everything {lines : List Text} (exhausts : run.Exhausts) (unread : run.unread = []) :
      Consumes policy run (lines.map .line)

end Grammar

namespace Leads
open Grammar

variable {policy : Policy} {lines : List Text} {items : List Item} {last : Phase} {line : Text}

theorem consumes_line (h : Leads policy 0 .start lines items last)
    (stops : (last.step (lines.length + 1) line.trim).Stops policy) (name : Text) (rest : Source) :
    Consumes policy (parse policy name ((lines ++ [line]).map .line ++ rest))
      ((lines ++ [line]).map .line) := by
  rcases stops with ⟨conditions, hhalt, hkept⟩ | ⟨conditions, fault, hstuck⟩
  · rw [h.parse_eq_halt hhalt hkept]
    refine .halted rfl ?_ (h.items_halt hhalt) h.running hkept
    simp only [Progress.takeUp, hkept, if_true]
    rfl
  · rw [h.parse_eq_stuck hstuck]
    exact .refused rfl (h.kind_mem hstuck) List.length_append

theorem exhausts (h : Leads policy 0 .start lines items last) (name : Text) :
    (parse policy name (lines.map .line)).Exhausts := by
  obtain ⟨after, fault, hstop, hending, -⟩ := replay_finish policy
    (Progress.start.after policy items) last ⟨[], lines.length, none, true⟩
  rw [parse_eq_outcome, h.readItems_eq_finish, hstop]
  rcases hending with ⟨rfl, hhalted⟩ | rfl
  · rwa [h.halted_eq] at hhalted
  · rfl

theorem consumes_failure (h : Leads policy 0 .start lines items last) (name : Text)
    (cause : ReadFailure) (rest : Source) :
    Consumes policy (parse policy name (lines.map .line ++ .failure cause :: rest))
      (lines.map .line ++ [.failure cause]) := by
  rw [h.parse_eq_failure]
  exact .unreadable rfl rfl rfl

end Leads

namespace Grammar

/-- A parse takes a beginning of its source, as long as its outcome tells, and leaves the rest. -/
theorem parse_consumes (policy : Policy) (name : Text) (source : Source) :
    ∃ taken, source = taken ++ (parse policy name source).unread ∧
      Consumes policy (parse policy name source) taken := by
  cases ending policy source with
  | line rest leads stops =>
    exact ⟨_, (leads.readsExactly stops name rest).source_eq, leads.consumes_line stops name rest⟩
  | @input lines items last leads =>
    have hunread := (leads.readsAll name).unread_eq
    refine ⟨lines.map .line, ?_, .everything (leads.exhausts name) hunread⟩
    rw [hunread, List.append_nil]
  | @failure lines items last cause rest leads =>
    refine ⟨_, ?_, leads.consumes_failure name cause rest⟩
    rw [leads.parse_eq_failure, List.append_assoc]
    rfl

/-- A parse that comes to the end of its source leaves nothing of it. -/
theorem unread_of_exhausts {policy : Policy} {name : Text} {source : Source}
    (h : (parse policy name source).Exhausts) : (parse policy name source).unread = [] := by
  obtain ⟨taken, -, hconsumes⟩ := parse_consumes policy name source
  cases hconsumes with
  | halted result halted =>
    rw [Parse.exhausts_of_ok result, halted] at h
    cases h
  | refused result kind =>
    rw [(Parse.exhausts_of_error result).1 h] at kind
    exact absurd kind (by decide)
  | unreadable result kind =>
    rw [(Parse.exhausts_of_error result).1 h] at kind
    cases kind
  | everything _ unread => exact unread

end Grammar
end LogicTest
