import LogicTest.Proofs.Cursor.Polls
import LogicTest.Proofs.Grammar.Course
import LogicTest.Proofs.Text.Slices

/-!
# Turns of a parse

A parse reads items in a loop, and one turn of the loop reads one item. Here the loop is taken apart
into its turns, each with its requests for lines (`Turns`). Every turn but the last takes a line, so
there are no more turns than lines, and one.
-/
namespace LogicTest

/-- What a turn comes to: the parse stops, or it goes on from a cursor. -/
inductive Turn where
  | stop (stop : Stop)
  | on (progress : Progress) (c : Cursor)
  deriving DecidableEq

/-- Where a turn leaves the cursor. -/
def Turn.place : Turn → Cursor
  | stop found => found.cursor
  | on _ c => c

/-- One turn of the loop: an item is read, and taken up if the policy keeps it. -/
def turn (policy : Policy) (progress : Progress) (c : Cursor) : Turn :=
  match Read.head c with
  | .error fault d => .stop ⟨progress, some fault, d⟩
  | .ok .ended d => .stop ⟨progress, none, d⟩
  | .ok .blank d => .on progress d
  | .ok (.threshold value) d => .on { progress with hashThreshold := value } d
  | .ok (.record conditions line) d =>
    let kept := policy conditions
    let progress := progress.note ⟨conditions, kept⟩
    match Read.body line d with
    | .error fault e => .stop ⟨progress, some fault, e⟩
    | .ok .halt e =>
      if kept then .stop ⟨{ progress with halted := true }, none, e⟩ else .on progress e
    | .ok (.operation operation) e => .on (if kept then progress.add operation else progress) e
    | .ok .absent e => .on progress e

/-- What is read in a turn: the head of an item, and the body of a record. -/
def Read.item : Read Unit := do
  match ← head with
  | .record _ line =>
    let _ ← body line
    return ()
  | _ => return ()

/-- The parse from `c` on consists of these turns, each given by its requests, and then stops. -/
inductive Turns (policy : Policy) : Progress → Cursor → List (List Poll) → Stop → Prop where
  | stop {progress c polls found} (turn_eq : turn policy progress c = .stop found)
      (performs : Read.Performs Read.item c polls (Read.item c)) :
      Turns policy progress c [polls] found
  | on {progress c polls next d turns found} (turn_eq : turn policy progress c = .on next d)
      (performs : Read.Performs Read.item c polls (Read.item c))
      (others : Turns policy next d turns found) :
      Turns policy progress c (polls :: turns) found

/-! ## One turn -/

theorem Read.traced_item : Traced item := by
  refine .bind traced_head fun head => ?_
  cases head with
  | record conditions line => exact .bind (traced_body line) fun _ => traced_pure _
  | _ => exact traced_pure _

section
variable {policy : Policy} {progress next : Progress} {c d : Cursor}

theorem place_turn (policy : Policy) (progress : Progress) (c : Cursor) :
    (turn policy progress c).place = Read.place (Read.item c) := by
  simp only [turn, Read.item, bind, EStateM.bind]
  cases Read.head c with
  | error fault d => rfl
  | ok head d =>
    cases head with
    | record conditions line =>
      dsimp only [EStateM.bind]
      cases Read.body line d with
      | error fault e => rfl
      | ok body e =>
        cases body with
        | halt =>
          dsimp only
          split <;> rfl
        | _ => rfl
    | _ => rfl

theorem unread_body_le {line : Text} {body : Body} (h : Read.body line c = .ok body d) :
    d.unread.length ≤ c.unread.length := by
  obtain ⟨polls, hperforms⟩ := Read.traced_body line c
  have hreadings := congrArg List.length hperforms.readings
  rw [h, List.length_append] at hreadings
  exact Nat.le.intro (Nat.add_comm _ _ ▸ hreadings)

theorem unread_head_lt {head : Head} (hpending : c.pending = none)
    (h : Read.head c = .ok head d) (more : head ≠ .ended) :
    d.unread.length < c.unread.length := by
  obtain ⟨hd, -⟩ := (head_cases h).resolve_left more
  have hlt := Read.weight_head h more
  have hend : (if c.done then 0 else 1) ≤ 1 := by split <;> decide
  simp only [Cursor.weight, hd.pending, hd.done, hpending, Option.isSome_none,
    Bool.false_eq_true, if_false] at hlt
  omega

/-- A turn has read an item to its end: what is no record has but a head. -/
inductive Passes (c d : Cursor) : Prop where
  | head {head} (read : Read.head c = .ok head d) (more : head ≠ .ended)
      (no_record : ∀ conditions line, head ≠ .record conditions line) : Passes c d
  | record {conditions line e body} (read : Read.head c = .ok (.record conditions line) e)
      (read_body : Read.body line e = .ok body d) : Passes c d

theorem passes_of_on (h : turn policy progress c = .on next d) : Passes c d := by
  unfold turn at h
  cases hhead : Read.head c with
  | error fault e =>
    rw [hhead] at h
    cases h
  | ok head e =>
    rw [hhead] at h
    cases head with
    | ended => cases h
    | blank | threshold =>
      cases h
      exact .head hhead nofun nofun
    | record conditions line =>
      cases hbody : Read.body line e with
      | error fault f =>
        simp only [hbody] at h
        cases h
      | ok body f =>
        simp only [hbody] at h
        cases body with
        | halt =>
          dsimp only at h
          split at h <;> cases h
          exact .record hhead hbody
        | operation | absent =>
          cases h
          exact .record hhead hbody

namespace Passes

theorem item (h : Passes c d) : Read.item c = .ok () d := by
  simp only [Read.item, bind, EStateM.bind]
  cases h with
  | @head head read more no_record =>
    cases head with
    | ended => exact absurd rfl more
    | record conditions line => exact absurd rfl (no_record conditions line)
    | blank | threshold => rw [read]; rfl
  | record read read_body =>
    simp only [read, EStateM.bind, read_body]
    rfl

/-- It has taken a line, and leaves nothing pending. -/
theorem unread_lt (h : Passes c d) (hpending : c.pending = none) :
    d.pending = none ∧ d.unread.length < c.unread.length := by
  cases h with
  | head read more =>
    exact ⟨Read.settles_head _ _ _ hpending read, unread_head_lt hpending read more⟩
  | record read read_body =>
    have he := Read.settles_head _ _ _ hpending read
    have hlt := unread_head_lt hpending read nofun
    exact ⟨Read.settles_body _ _ _ _ he read_body,
      Nat.lt_of_le_of_lt (unread_body_le read_body) hlt⟩

/-- The requests of the turn are answered with lines, and with one at least. -/
theorem exists_line {polls : List Poll} (h : Passes c d) (hpending : c.pending = none)
    (performs : Read.Performs Read.item c polls (Read.item c)) :
    ∃ text, some (.line text) ∈ polls := by
  rw [h.item] at performs
  have hreadings := performs.readings
  have hne : polls.filterMap id ≠ [] := by
    intro hnil
    rw [hnil, List.nil_append] at hreadings
    exact absurd (congrArg List.length hreadings) (Nat.ne_of_lt (h.unread_lt hpending).2)
  obtain ⟨reading, hreading⟩ := List.exists_mem_of_ne_nil _ hne
  obtain ⟨poll, hpoll, rfl⟩ := List.mem_filterMap.1 hreading
  obtain ⟨text, rfl⟩ := performs.lines hpoll
  exact ⟨text, hpoll⟩

end Passes

/-! ## All turns -/

theorem readItems_eq_turn (policy : Policy) (progress : Progress) (c : Cursor) :
    readItems policy progress c = match turn policy progress c with
      | .stop found => found
      | .on next d => readItems policy next d := by
  rw [readItems]
  unfold turn
  cases Read.head c with
  | error fault d => rfl
  | ok head d =>
    cases head with
    | record conditions line =>
      dsimp only
      cases Read.body line d with
      | error fault e => rfl
      | ok body e =>
        cases body with
        | halt =>
          dsimp only
          split <;> rfl
        | operation operation => simp
        | absent => rfl
    | _ => rfl

/-- A parse goes through turns and stops. -/
theorem exists_turns (policy : Policy) (progress : Progress) (c : Cursor)
    (hpending : c.pending = none) :
    ∃ turns, Turns policy progress c turns (readItems policy progress c) := by
  induction hlength : c.unread.length using Nat.strongRecOn generalizing progress c with
  | _ length ih =>
    obtain ⟨polls, hperforms⟩ := Read.traced_item c
    rw [readItems_eq_turn]
    cases hturn : turn policy progress c with
    | stop found => exact ⟨[polls], .stop hturn hperforms⟩
    | on next d =>
      obtain ⟨hd, hlt⟩ := (passes_of_on hturn).unread_lt hpending
      obtain ⟨turns, hturns⟩ := ih d.unread.length (hlength ▸ hlt) next d hd rfl
      exact ⟨polls :: turns, .on hturn hperforms hturns⟩

namespace Turns

variable {turns : List (List Poll)} {found : Stop}

theorem ne_nil (h : Turns policy progress c turns found) : turns ≠ [] := by
  cases h <;> exact List.cons_ne_nil _ _

/-- All requests together take what is ahead, up to what the parse leaves. -/
theorem conserves (h : Turns policy progress c turns found) :
    turns.flatten ++ found.cursor.ahead = c.ahead := by
  induction h with
  | stop turn_eq performs =>
    rw [List.flatten_singleton]
    have hturn := performs.conserves
    rwa [← place_turn policy, turn_eq] at hturn
  | on turn_eq performs _ ih =>
    rw [List.flatten_cons, List.append_assoc, ih]
    have hturn := performs.conserves
    rwa [← place_turn policy, turn_eq] at hturn

/-- Every turn but the last takes a line. -/
theorem takes_line (h : Turns policy progress c turns found) (hpending : c.pending = none) :
    ∀ polls ∈ turns.dropLast, ∃ text, some (.line text) ∈ polls := by
  induction h with
  | stop => exact fun polls hpolls => absurd hpolls List.not_mem_nil
  | on turn_eq performs others ih =>
    have hpasses := passes_of_on turn_eq
    rw [List.dropLast_cons_of_ne_nil others.ne_nil]
    exact List.forall_mem_cons.2
      ⟨hpasses.exists_line hpending performs, ih (hpasses.unread_lt hpending).1⟩

/-- There are no more turns than lines, and one. -/
theorem length_le (h : Turns policy progress c turns found) (hpending : c.pending = none) :
    turns.length ≤ c.unread.length + 1 := by
  induction h with
  | stop => exact Nat.le_add_left _ _
  | on turn_eq _ _ ih =>
    obtain ⟨hd, hlt⟩ := (passes_of_on turn_eq).unread_lt hpending
    exact Nat.succ_le_succ (Nat.le_trans (ih hd) hlt)

/-- The requests of a parse are for the lines of its source in their order, and at most once for
what follows the last of them. -/
theorem flatten_isPrefix {source : Source} (h : Turns policy progress (.start source) turns found) :
    turns.flatten <+: source.map some ++ [none] :=
  ⟨found.cursor.ahead, h.conserves⟩

theorem readings {source : Source} (h : Turns policy progress (.start source) turns found) :
    turns.flatten.filterMap id ++ found.cursor.unread = source := by
  have hconserves := congrArg (List.filterMap id) h.conserves
  rwa [List.filterMap_append, Read.filterMap_ahead, Read.filterMap_ahead] at hconserves

end Turns

end

/-- A parse comes to an end, whatever its source holds: it goes through turns and stops. It asks for
the lines of its source one after the other, each once, and at most once more. Every turn but the
last takes a line, so there are no more turns than lines, and one. Whatever cuts are made in a line
lie between two of its characters. -/
theorem parse_bounded (policy : Policy) (name : Text) (source : Source) :
    (∃ turns stop, Turns policy .start (.start source) turns stop ∧
      parse policy name source = stop.outcome name ∧
      turns.flatten <+: source.map some ++ [none] ∧
      turns.flatten.length ≤ source.length + 1 ∧
      turns.flatten.filterMap id ++ (parse policy name source).unread = source ∧
      (∀ polls ∈ turns.dropLast, ∃ text, some (.line text) ∈ polls) ∧
      turns.length ≤ source.length + 1) ∧
    ∀ bytes text, Utf8.decode? bytes = some text → Utf8.SafelyCut bytes text := by
  refine ⟨?_, fun bytes text => Utf8.safelyCut_of_decode?⟩
  obtain ⟨turns, hturns⟩ := exists_turns policy .start (.start source) rfl
  have hprefix := hturns.flatten_isPrefix
  have hlength := hprefix.length_le
  rw [List.length_append, List.length_map, List.length_singleton] at hlength
  exact ⟨turns, _, hturns, parse_eq_outcome policy name source, hprefix, hlength, hturns.readings,
    hturns.takes_line rfl, hturns.length_le rfl⟩

/-- The bounds for a line that is followed by a read that fails; and a line with characters of two
bytes before its comment and in it, which is safely cut. -/
theorem parse_bounded_at_failure :
    (∃ turns stop, Turns .keepAll .start
        (.start [.line "hash-threshold 8".toList, .failure .notUtf8]) turns stop ∧
      turns.flatten <+:
        [some (.line "hash-threshold 8".toList), some (.failure .notUtf8), none] ∧
      turns.flatten.length ≤ 3 ∧ turns.length ≤ 3) ∧
    Utf8.decode? [0xC3, 0xA9, 0x20, 0x23, 0xC3, 0xA9] = some "é #é".toList ∧
    Utf8.SafelyCut [0xC3, 0xA9, 0x20, 0x23, 0xC3, 0xA9] "é #é".toList := by
  obtain ⟨⟨turns, stop, hturns, -, hprefix, hlength, -, -, hcount⟩, hcuts⟩ :=
    parse_bounded .keepAll "t".toList
      [.line "hash-threshold 8".toList, .failure .notUtf8]
  have hdecode : Utf8.decode? [0xC3, 0xA9, 0x20, 0x23, 0xC3, 0xA9] = some "é #é".toList := by
    decide +kernel
  exact ⟨⟨turns, stop, hturns, hprefix, hlength, hcount⟩, hdecode, hcuts _ _ hdecode⟩

end LogicTest
