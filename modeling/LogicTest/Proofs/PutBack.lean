import LogicTest.Proofs.Grammar.Consumption
import LogicTest.Proofs.Turns

/-!
# Lines that are put back

A line that begins a record and neither a `halt` nor a statement is put back, for a query to begin
with it. Here the turns of a parse are taken apart where this happens: a parse goes from station to
station until it stops (`Runs`). What is true at each station (`Station.Lawful`) is kept by every
move, so it is true wherever a parse comes to: nothing is pending when a turn begins or a line is
put back, and the query that follows finds this line (`parse_puts_back`).
-/
namespace LogicTest

/-- A query is to begin with the line, which begins neither a `halt` nor a statement. -/
def beginsQuery (line : Text) : Bool :=
  !"halt".toList.isPrefixOf line && !"statement".toList.isPrefixOf line

/-- Where a parse can stand. -/
inductive Station where
  /-- a turn begins -/
  | item (progress : Progress)
  /-- `line` is to be put back; the record that it begins is `kept` or not -/
  | putBack (progress : Progress) (kept : Bool) (line : Text)
  /-- a query is to be read, which begins with `line` -/
  | query (progress : Progress) (kept : Bool) (line : Text)
  deriving DecidableEq

/-- What a parse does at a station: it stops, or it goes on to the next one. -/
inductive Move where
  | stop (found : Stop)
  | on (station : Station) (c : Cursor)
  deriving DecidableEq

def Move.ofTurn : Turn → Move
  | .stop found => .stop found
  | .on progress c => .on (.item progress) c

namespace Station

/-- The move of a parse from a station, where the cursor is `c`. A turn is left in its middle if it
comes to a line that is put back. -/
def advance (policy : Policy) (c : Cursor) : Station → Move
  | item progress =>
    match Read.head c with
    | .ok (.record conditions line) d =>
      if beginsQuery line then
        .on (.putBack (progress.note ⟨conditions, policy conditions⟩) (policy conditions) line) d
      else .ofTurn (turn policy progress c)
    | _ => .ofTurn (turn policy progress c)
  | putBack progress kept line =>
    match Cursor.pushBack line c with
    | .ok () d => .on (.query progress kept line) d
    | .error fault d => .stop ⟨progress, some fault, d⟩
  | query progress kept _ =>
    match Read.query c with
    | .ok (some operation) d => .on (.item (if kept then progress.add operation else progress)) d
    | .ok none d => .on (.item progress) d
    | .error fault d => .stop ⟨progress, some fault, d⟩

/-- What is true of the cursor at a station. A line that is put back has lost its comment, so that
it is no comment when it is read again. -/
def Lawful (c : Cursor) : Station → Prop
  | item _ => c.pending = none
  | putBack _ _ line => c.Underway ∧ '#' ∉ line
  | query _ _ line => ∃ d : Cursor, d.Underway ∧ '#' ∉ line ∧ c = { d with pending := some line }

end Station

/-- The parse goes from this station to others, until it stops. -/
inductive Runs (policy : Policy) : Station → Cursor → Stop → Prop where
  | stop {station c found} (move : station.advance policy c = .stop found) :
      Runs policy station c found
  | on {station c next d found} (move : station.advance policy c = .on next d)
      (others : Runs policy next d found) : Runs policy station c found

/-- A parse of `source` comes to this station, with this cursor. -/
inductive Reaches (policy : Policy) (source : Source) : Station → Cursor → Prop where
  | start : Reaches policy source (.item .start) (.start source)
  | move {station c next d} (before : Reaches policy source station c)
      (move : station.advance policy c = .on next d) : Reaches policy source next d

section
variable {policy : Policy} {progress : Progress} {conditions : Conditions} {line : Text}
  {c d : Cursor} {found : Stop}

/-! ## The stations of a turn -/

theorem pushBack_of_pending (h : c.pending = none) (line : Text) :
    Cursor.pushBack line c = .ok () { c with pending := some line } := by
  simp [Cursor.pushBack, h]

theorem body_of_beginsQuery (hline : beginsQuery line) (hpending : c.pending = none) :
    Read.body line c = match Read.query { c with pending := some line } with
      | .ok (some operation) d => .ok (.operation operation) d
      | .ok none d => .ok .absent d
      | .error fault d => .error fault d := by
  obtain ⟨hhalt, hstatement⟩ : "halt".toList.isPrefixOf line = false ∧
      "statement".toList.isPrefixOf line = false := by
    simpa [beginsQuery] using hline
  simp only [Read.body, hhalt, hstatement, Bool.false_eq_true, if_false, bind, EStateM.bind,
    pushBack_of_pending hpending]
  cases Read.query { c with pending := some line } with
  | ok found d => cases found <;> rfl
  | error fault d => rfl

/-- A turn that comes to a line which is put back ends as the query does that begins with it. -/
theorem advance_query (hhead : Read.head c = .ok (.record conditions line) d)
    (hline : beginsQuery line) (hpending : d.pending = none) :
    (Station.query (progress.note ⟨conditions, policy conditions⟩) (policy conditions) line).advance
        policy { d with pending := some line } =
      .ofTurn (turn policy progress c) := by
  simp only [Station.advance, turn, hhead, body_of_beginsQuery hline hpending]
  cases Read.query { d with pending := some line } with
  | ok found e => cases found <;> rfl
  | error fault e => rfl

/-- The stations of a turn come to what the turn comes to. -/
theorem runs_of_turn (hpending : c.pending = none)
    (h : match turn policy progress c with
      | .stop stop => found = stop
      | .on next d => Runs policy (.item next) d found) :
    Runs policy (.item progress) c found := by
  have hmove {station : Station} {d : Cursor}
      (hadvance : station.advance policy d = .ofTurn (turn policy progress c)) :
      Runs policy station d found := by
    cases hturn : turn policy progress c with
    | stop stop =>
      rw [hturn] at h hadvance
      cases h
      exact .stop hadvance
    | on next e =>
      rw [hturn] at h hadvance
      exact .on hadvance h
  cases hhead : Read.head c with
  | error fault d => exact hmove (by simp only [Station.advance, hhead])
  | ok head d =>
    cases head with
    | record conditions line =>
      cases hline : beginsQuery line with
      | false =>
        exact hmove (by simp only [Station.advance, hhead, hline, Bool.false_eq_true, if_false])
      | true =>
        have hd := Read.settles_head _ _ _ hpending hhead
        have hput : (Station.item progress).advance policy c =
            .on (.putBack (progress.note ⟨conditions, policy conditions⟩) (policy conditions) line)
              d := by
          simp only [Station.advance, hhead, hline, if_true]
        have hquery : (Station.putBack (progress.note ⟨conditions, policy conditions⟩)
            (policy conditions) line).advance policy d =
            .on (.query (progress.note ⟨conditions, policy conditions⟩) (policy conditions) line)
              { d with pending := some line } := by
          simp only [Station.advance, pushBack_of_pending hd]
        exact .on hput (.on hquery (hmove (advance_query hhead hline hd)))
    | _ => exact hmove (by simp only [Station.advance, hhead])

/-- A parse goes through stations and stops. -/
theorem runs_readItems (policy : Policy) (progress : Progress) (hpending : c.pending = none) :
    Runs policy (.item progress) c (readItems policy progress c) := by
  induction hlength : c.unread.length using Nat.strongRecOn generalizing progress c with
  | _ length ih =>
    apply runs_of_turn hpending
    rw [readItems_eq_turn]
    cases hturn : turn policy progress c with
    | stop stop => rfl
    | on next d =>
      obtain ⟨hd, hlt⟩ := (passes_of_on hturn).unread_lt hpending
      exact ih d.unread.length (hlength ▸ hlt) next hd rfl

/-! ## What each move keeps -/

namespace Station

theorem lawful_of_item {next : Station} (h : (item progress).Lawful c)
    (hmove : (item progress).advance policy c = .on next d) : next.Lawful d := by
  have hturn (hmove : Move.ofTurn (turn policy progress c) = .on next d) : next.Lawful d := by
    cases hturn : turn policy progress c with
    | stop stop =>
      rw [hturn] at hmove
      cases hmove
    | on other e =>
      rw [hturn] at hmove
      cases hmove
      exact ((passes_of_on hturn).unread_lt h).1
  simp only [advance] at hmove
  split at hmove
  next conditions line e hhead =>
    split at hmove
    · cases hmove
      obtain ⟨hd, hhash⟩ := (head_cases hhead).resolve_left nofun
      exact ⟨hd, hhash _ _ rfl⟩
    · exact hturn hmove
  · exact hturn hmove

theorem lawful_of_putBack {kept : Bool} {next : Station} (h : (putBack progress kept line).Lawful c)
    (hmove : (putBack progress kept line).advance policy c = .on next d) : next.Lawful d := by
  simp only [advance, pushBack_of_pending h.1.pending] at hmove
  cases hmove
  exact ⟨c, h.1, h.2, rfl⟩

theorem lawful_of_query {kept : Bool} {next : Station}
    (hmove : (query progress kept line).advance policy c = .on next d) : next.Lawful d := by
  simp only [advance] at hmove
  split at hmove
  next hquery =>
    cases hmove
    exact Read.pending_query hquery
  next hquery =>
    cases hmove
    exact Read.pending_query hquery
  · cases hmove

theorem Lawful.advance {station next : Station} (h : station.Lawful c)
    (hmove : station.advance policy c = .on next d) : next.Lawful d := by
  cases station with
  | item progress => exact lawful_of_item h hmove
  | putBack progress kept line => exact lawful_of_putBack h hmove
  | query progress kept line => exact lawful_of_query hmove

end Station

theorem Reaches.lawful {source : Source} {station : Station} (h : Reaches policy source station c) :
    station.Lawful c := by
  induction h with
  | start => rfl
  | move _ move ih => exact ih.advance move

end

/-- No parse puts a line back while another is pending. -/
theorem kind_ne_pushbackOveruse {policy : Policy} {name : Text} {source : Source}
    {error : ScriptError} (h : (parse policy name source).result = .error error) :
    error.fault.kind ≠ .pushbackOveruse := by
  obtain ⟨taken, -, hconsumes⟩ := Grammar.parse_consumes policy name source
  cases hconsumes with
  | halted result =>
    rw [h] at result
    cases result
  | refused result kind =>
    cases h.symm.trans result
    intro hkind
    rw [hkind] at kind
    exact absurd kind (by decide)
  | unreadable result kind =>
    cases h.symm.trans result
    rw [kind]
    decide
  | everything exhausts =>
    rw [(Parse.exhausts_of_error h).1 exhausts]
    decide

/-- A line is put back only where this is allowed, and it is there for the query that follows. In
every parse nothing is pending when a turn begins or a line is put back, nor has the end been found
when a line is put back; the first line that the query reads is this line, and the read takes the
cursor back to where it was, with the same number of lines; and the query does not find the input at
its end. So no parse fails because a line is put back while another is pending. -/
theorem parse_puts_back (policy : Policy) (name : Text) (source : Source) :
    (∃ stop, Runs policy (.item .start) (.start source) stop ∧
      parse policy name source = stop.outcome name) ∧
    (∀ progress c, Reaches policy source (.item progress) c → c.pending = none) ∧
    (∀ progress kept line c, Reaches policy source (.putBack progress kept line) c →
      c.pending = none ∧ c.done = false ∧
        Cursor.pushBack line c = .ok () { c with pending := some line }) ∧
    (∃ rest, Read.query = Cursor.next .script .optional >>= rest ∧
      ∀ progress kept line c, Reaches policy source (.query progress kept line) c →
        ∃ d, Cursor.pushBack line d = .ok () c ∧
          Cursor.next .script .optional c = .ok line d ∧ d.lineNo = c.lineNo ∧
          Read.query c = rest line d ∧ ∀ e, Read.query c ≠ .ok none e) ∧
    ∀ error, (parse policy name source).result = .error error →
      error.fault.kind ≠ .pushbackOveruse := by
  obtain ⟨rest, hrest⟩ : ∃ rest, Read.query = Cursor.next .script .optional >>= rest := ⟨_, rfl⟩
  refine ⟨⟨_, runs_readItems policy .start rfl, parse_eq_outcome policy name source⟩,
    fun progress c h => h.lawful, fun progress kept line c h => ?_, ⟨rest, hrest, ?_⟩,
    fun error => kind_ne_pushbackOveruse⟩
  · obtain ⟨hc, -⟩ := h.lawful
    exact ⟨hc.pending, hc.done, pushBack_of_pending hc.pending line⟩
  · intro progress kept line c h
    obtain ⟨d, hd, hhash, rfl⟩ := h.lawful
    have hnext := next_pushed hd hhash
    refine ⟨d, pushBack_of_pending hd.pending line, hnext, rfl, ?_, fun e => query_ne_none hd hhash⟩
    rw [hrest]
    simp only [bind, EStateM.bind, hnext]

/-- A line that is put back after a condition and a comment, before a read that fails. -/
theorem parse_puts_back_directed :
    let source : Source := [.line "skipif mysql # c".toList, .line "# d".toList,
      .line "query I nosort # e".toList, .failure .notUtf8]
    let progress := Progress.start.note ⟨.ofLines ["skipif mysql".toList], true⟩
    let line := "query I nosort".toList
    let place : Cursor := ⟨[.failure .notUtf8], 3, none, false⟩
    let error : ScriptError := ⟨[], 3, .readFailed .notUtf8⟩
    Reaches .keepAll source (.putBack progress true line) place ∧
      Reaches .keepAll source (.query progress true line) { place with pending := some line } ∧
      (parse .keepAll [] source).result = .error error ∧
      Cursor.pushBack line place = .ok () { place with pending := some line } ∧
      (∃ d, Cursor.next .script .optional { place with pending := some line } = .ok line d ∧
        d.lineNo = 3 ∧ ∀ e, Read.query { place with pending := some line } ≠ .ok none e) ∧
      error.fault.kind ≠ .pushbackOveruse := by
  intro source progress line place error
  have hput : Reaches .keepAll source (.putBack progress true line) place :=
    .move .start (by decide +kernel)
  have hquery : Reaches .keepAll source (.query progress true line)
      { place with pending := some line } := .move hput rfl
  have herror : (parse .keepAll [] source).result = .error error :=
    parse_eq_error_iff.2 ⟨⟨some (.ofLines ["skipif mysql".toList]), .readFailed .notUtf8, 3⟩,
      by decide +kernel, rfl⟩
  obtain ⟨-, -, hputs, ⟨rest, -, hreads⟩, hfails⟩ := parse_puts_back .keepAll [] source
  obtain ⟨d, -, hnext, hlineNo, -, hfound⟩ := hreads progress true line _ hquery
  exact ⟨hput, hquery, herror, (hputs progress true line _ hput).2.2, ⟨d, hnext, hlineNo, hfound⟩,
    hfails error herror⟩

end LogicTest
