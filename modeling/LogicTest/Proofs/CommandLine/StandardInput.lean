import LogicTest.CommandLine.Run
import LogicTest.Proofs.Grammar.Consumption

/-!
# Mentions of the standard input

The mentions of the standard input among the paths of a run share it. Each goes on where the one
before it has stopped, whatever files are parsed in between, so that no line is lost or read twice
(`parseInputs_shared`). What the mentions leave of the standard input depends on how many they are
only (`unreadAfter`).
-/
namespace LogicTest.CommandLine
open Grammar

/-- What the first `count` mentions of the standard input leave of it. -/
def unreadAfter (stdin : Source) : Nat → Source
  | 0 => stdin
  | count + 1 => (parse .postgres "<stdin>".toList (unreadAfter stdin count)).unread

/-- What is left after the first mention is what the others begin with. -/
theorem unreadAfter_succ (stdin : Source) (count : Nat) :
    unreadAfter stdin (count + 1) =
      unreadAfter (parse .postgres "<stdin>".toList stdin).unread count := by
  induction count with
  | zero => rfl
  | succ count ih => rw [unreadAfter, ih, unreadAfter]

theorem parseInputs_stdin (view : FileView) (paths : List Text) (stdin : Source) :
    parseInputs view (stdinPath :: paths) stdin =
      parse .postgres "<stdin>".toList stdin ::
        parseInputs view paths (parse .postgres "<stdin>".toList stdin).unread := by
  rw [parseInputs, if_pos rfl]

/-- The paths of a run can be parsed in two parts, of which the second finds the standard input as
the mentions in the first have left it. -/
theorem parseInputs_append (view : FileView) (one two : List Text) (stdin : Source) :
    parseInputs view (one ++ two) stdin =
      parseInputs view one stdin ++
        parseInputs view two (unreadAfter stdin (one.count stdinPath)) := by
  induction one generalizing stdin with
  | nil => rfl
  | cons path paths ih =>
    rw [List.cons_append]
    by_cases hpath : path = stdinPath
    · subst hpath
      rw [parseInputs_stdin, parseInputs_stdin, ih, List.count_cons_self, unreadAfter_succ,
        List.cons_append]
    · rw [parseInputs, if_neg hpath, parseInputs, if_neg hpath, ih, List.count_cons_of_ne hpath,
        List.append_assoc]

/-- Where nothing is left, there is nothing to parse. -/
theorem parse_nil (policy : Policy) (name : Text) :
    (parse policy name []).result = .ok ⟨name, [], 0, none, false⟩ :=
  parse_eq_ok_iff.2 ⟨rfl, rfl⟩

theorem unreadAfter_eq_nil {stdin : Source} {one two : Nat} (h : unreadAfter stdin one = [])
    (hle : one ≤ two) : unreadAfter stdin two = [] := by
  induction two, hle using Nat.le_induction with
  | base => exact h
  | succ count _ ih =>
    rw [unreadAfter, ih]
    exact unread_of_exhausts ((Parse.exhausts_of_ok (parse_nil _ _)).2 rfl)

/-- The mentions of the standard input share it. Mention `i`, counted from zero, takes the lines
`taken i` of what the mentions before have left, `input i`; this is the source of a parse by itself,
whose outcome tells how many lines it takes. Once a mention has come to the end of the standard
input, the others find nothing. -/
theorem parseInputs_shared (stdin : Source) :
    ∃ input taken : Nat → Source, input 0 = stdin ∧
      (∀ count, stdin = (List.range count).flatMap taken ++ input count) ∧
      (∀ i, let run := parse .postgres "<stdin>".toList (input i)
        input i = taken i ++ input (i + 1) ∧ run.unread = input (i + 1) ∧
        Consumes .postgres run (taken i) ∧
        (run.Exhausts → ∀ later > i, (parse .postgres "<stdin>".toList (input later)).result =
          .ok ⟨"<stdin>".toList, [], 0, none, false⟩)) ∧
      ∀ view before after, parseInputs view (before ++ stdinPath :: after) stdin =
        parseInputs view before stdin ++
          parse .postgres "<stdin>".toList (input (before.count stdinPath)) ::
            parseInputs view after (input (before.count stdinPath + 1)) := by
  have hconsumes (i : Nat) := parse_consumes .postgres "<stdin>".toList (unreadAfter stdin i)
  choose taken htaken houtcome using hconsumes
  refine ⟨unreadAfter stdin, taken, rfl, fun count => ?_,
    fun i => ⟨htaken i, rfl, houtcome i, ?_⟩, ?_⟩
  · induction count with
    | zero => rfl
    | succ count ih =>
      rw [List.range_succ, List.flatMap_append, List.flatMap_singleton, List.append_assoc]
      exact ih.trans (congrArg _ (htaken count))
  · intro hexhausts later hlater
    have hnil : unreadAfter stdin (i + 1) = [] := unread_of_exhausts hexhausts
    rw [unreadAfter_eq_nil hnil hlater]
    exact parse_nil _ _
  · intro view before after
    rw [parseInputs_append, parseInputs_stdin]
    rfl

end LogicTest.CommandLine
