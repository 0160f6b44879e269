import LogicTest.Proofs.Cursor.Pending

/-!
# The cursor as a stream with one slot

A cursor stands for a stream: the readings already taken from the source, those still left in it,
and one slot for a line that was put back. `perform_cursor` gives the step of this refinement, for
every call, and `cursor_refines_stream` the run, for every sequence of calls.
-/
namespace LogicTest

/-- One call on a cursor. -/
inductive Call where
  | next (kind : LineKind) (need : Need) | pushBack (line : Text)
  deriving DecidableEq, Repr

namespace Call

/-- A call gives the line that was read, nothing when a line is put back, or a fault. -/
abbrev Answer := Except Fault (Option Text)

/-- The answers to a sequence of calls, and the state after it. A fault is an answer like any other:
the next call goes on from the state it left. -/
def run {σ : Type} (perform : Call → σ → Answer × σ) : List Call → σ → List Answer × σ
  | [], s => ([], s)
  | call :: calls, s =>
    let step := perform call s
    let rest := run perform calls step.2
    (step.1 :: rest.1, rest.2)

variable {σ τ : Type} {performs : Call → σ → Answer × σ} {performt : Call → τ → Answer × τ}

/-- What every call keeps, every sequence of calls keeps. -/
theorem run_preserves {Invariant : σ → Prop}
    (hstep : ∀ call s, Invariant s → Invariant (performs call s).2) (calls : List Call) {s : σ}
    (hs : Invariant s) : Invariant (run performs calls s).2 := by
  induction calls generalizing s with
  | nil => exact hs
  | cons call calls ih => exact ih (hstep call s hs)

/-- States that answer each call alike, and go over into such states, answer every sequence
alike. -/
theorem run_map {f : σ → τ} {Invariant : σ → Prop}
    (hkeep : ∀ call s, Invariant s → Invariant (performs call s).2)
    (hstep : ∀ call s, Invariant s → performt call (f s) = Prod.map id f (performs call s))
    (calls : List Call) {s : σ} (hs : Invariant s) :
    run performt calls (f s) = Prod.map id f (run performs calls s) := by
  induction calls generalizing s with
  | nil => rfl
  | cons call calls ih =>
    simp only [run, hstep call s hs, Prod.map_fst, Prod.map_snd, id, ih (hkeep call s hs)]
    rfl

end Call

namespace Cursor

/-- What an action gives, and where it leaves the cursor. -/
def reply {α : Type} (action : Read α) (c : Cursor) : Except Fault α × Cursor :=
  match action c with
  | .ok a d => (.ok a, d)
  | .error fault d => (.error fault, d)

def perform : Call → Cursor → Call.Answer × Cursor
  | .next kind need, c => Prod.map (Except.map some) id (reply (next kind need) c)
  | .pushBack line, c => Prod.map (Except.map fun _ => none) id (reply (pushBack line) c)

theorem skipComments_comment {line : Text} (hcomment : isComment line) (unread : Source)
    (lineNo : Nat) (done : Bool) :
    skipComments ⟨unread, lineNo, some line, done⟩ = skipComments ⟨unread, lineNo, none, done⟩ := by
  simp [skipComments, hcomment]

/-- A script line is the next data line that is not a comment, without the comment at its end. -/
theorem nextLine_unfold (need : Need) (c : Cursor) :
    nextLine need c = match nextRaw need c with
      | .ok line d => if isComment line then nextLine need d else .ok (withoutComment line) d
      | .error fault d => .error fault d := by
  obtain ⟨unread, lineNo, _ | line, done⟩ := c
  · cases done with
    | true => cases need <;> rfl
    | false =>
      rcases unread with _ | ⟨text | cause, rest⟩
      · cases need <;> rfl
      · exact nextLine_line need text rest lineNo
      · rfl
  · rw [nextLine_eq]
    by_cases hcomment : isComment line
    · simp only [skipComments_comment hcomment, nextRaw, hcomment, if_true, nextLine_eq]
    · simp [skipComments, nextRaw, hcomment]

theorem reply_nextLine (need : Need) (c : Cursor) :
    reply (nextLine need) c = match reply (nextRaw need) c with
      | (.ok line, d) =>
        if isComment line then reply (nextLine need) d else (.ok (withoutComment line), d)
      | (.error fault, d) => (.error fault, d) := by
  unfold reply
  rw [nextLine_unfold]
  cases nextRaw need c with
  | ok line d => by_cases hcomment : isComment line <;> simp [hcomment]
  | error fault d => rfl

/-- Nothing is before the end for a read of this kind. -/
def AtEnd (c : Cursor) : LineKind → Prop
  | .data => c.pending = none ∧ c.unread = []
  | .script => (∀ line ∈ c.pending, isComment line) ∧ ∀ reading ∈ c.unread, reading.isComment

end Cursor

def Reading.isLine : Reading → Bool
  | line _ => true
  | failure _ => false

/-- A line is handed out trimmed; a failure is handed out as a fault. -/
def Reading.answer : Reading → Except Fault Text
  | line text => .ok text.trim
  | failure cause => .error (.readFailed cause)

/-- At the end an optional line is empty, and a required one is missing. -/
def Need.atEnd : Need → Except Fault Text
  | optional => .ok []
  | required => .error .prematureEnd

/-- A source, parted where reading has come to, and a slot for one line. `ended` says whether a read
has found the end. -/
structure Stream where
  taken : Source
  left : Source
  slot : Option Text
  ended : Bool
  deriving DecidableEq, Repr

namespace Stream

def ofSource (source : Source) : Stream := ⟨[], source, none, false⟩

/-- The line in the slot, which empties it; else the first reading that is left, which counts as
taken from then on; else the end. -/
def raw (need : Need) (s : Stream) : Except Fault Text × Stream :=
  match s.slot, s.left with
  | some line, _ => (.ok line, { s with slot := none })
  | none, reading :: rest =>
    (reading.answer, { s with taken := s.taken ++ [reading], left := rest })
  | none, [] => (need.atEnd, { s with ended := true })

/-- What can still be handed out before the end. -/
def size (s : Stream) : Nat := s.left.length + s.slot.toList.length

theorem size_raw_lt {need : Need} {s t : Stream} {line : Text} (h : s.raw need = (.ok line, t))
    (hcomment : isComment line) : t.size < s.size := by
  unfold raw at h
  split at h
  next line' hslot =>
    cases h
    simp [size, hslot]
  next reading rest hslot hleft =>
    obtain ⟨-, rfl⟩ := Prod.mk.inj h
    simp [size, hslot, hleft]
  next hslot hleft =>
    obtain ⟨hline, -⟩ := Prod.mk.inj h
    cases need <;> cases hline
    cases hcomment

/-- Takes lines until one is not a comment, and hands it out without the comment at its end. -/
def script (need : Need) (s : Stream) : Except Fault Text × Stream :=
  match _ : s.raw need with
  | (.ok line, t) => if isComment line then t.script need else (.ok (withoutComment line), t)
  | (.error fault, t) => (.error fault, t)
termination_by s.size
decreasing_by exact size_raw_lt ‹_› ‹_›

def perform : Call → Stream → Call.Answer × Stream
  | .next .data need, s => Prod.map (Except.map some) id (s.raw need)
  | .next .script need, s => Prod.map (Except.map some) id (s.script need)
  | .pushBack line, s =>
    if s.slot.isSome then (.error .pushbackOveruse, s) else (.ok none, { s with slot := some line })

/-- The streams of a source: nothing of it is lost, repeated or out of order, and the end is not
found before everything is taken. -/
structure Of (source : Source) (s : Stream) : Prop where
  readings : s.taken ++ s.left = source
  ended : s.ended = true → s.left = []

/-- The cursor that stands for a stream: its line number counts the lines that were taken. -/
def cursor (s : Stream) : Cursor := ⟨s.left, s.taken.countP (·.isLine), s.slot, s.ended⟩

variable {source : Source} {s : Stream}

theorem of_ofSource (source : Source) : (ofSource source).Of source := ⟨rfl, nofun⟩

/-! ## One call -/

theorem Of.raw (h : s.Of source) (need : Need) : (s.raw need).2.Of source := by
  unfold Stream.raw
  split
  · exact ⟨h.readings, h.ended⟩
  next reading rest _ hleft =>
    refine ⟨?_, fun hended => ?_⟩
    · rw [← h.readings, hleft, List.append_assoc]
      rfl
    · rw [h.ended hended] at hleft
      cases hleft
  next hleft => exact ⟨h.readings, fun _ => hleft⟩

theorem Of.script (h : s.Of source) (need : Need) : (s.script need).2.Of source := by
  fun_induction Stream.script need s with
  | case1 s line t hraw hcomment ih =>
    have := h.raw need
    rw [hraw] at this
    exact ih this
  | case2 s line t hraw _ | case3 s fault t hraw =>
    have := h.raw need
    rw [hraw] at this
    exact this

/-- No call loses or repeats a reading. -/
theorem Of.perform (h : s.Of source) (call : Call) : (s.perform call).2.Of source := by
  fun_cases Stream.perform call s with
  | case1 need s => exact h.raw need
  | case2 need s => exact h.script need
  | case3 line s hslot => exact h
  | case4 line s hslot => exact ⟨h.readings, h.ended⟩

/-! ## The cursor of a stream -/

theorem reply_nextRaw (h : s.Of source) (need : Need) :
    Cursor.reply (Cursor.nextRaw need) s.cursor = Prod.map id cursor (s.raw need) := by
  obtain ⟨taken, left, slot, ended⟩ := s
  cases slot with
  | some line => rfl
  | none =>
    cases ended with
    | true =>
      obtain rfl : left = [] := h.ended rfl
      cases need <;> rfl
    | false =>
      rcases left with _ | ⟨text | cause, rest⟩
      · cases need <;> rfl
      all_goals
        simp [Cursor.reply, Cursor.nextRaw, cursor, Stream.raw, Reading.answer, Reading.isLine]

/-- The cursor and the stream pass over the same comments. -/
theorem reply_nextLine (h : s.Of source) (need : Need) :
    Cursor.reply (Cursor.nextLine need) s.cursor = Prod.map id cursor (s.script need) := by
  fun_induction Stream.script need s with
  | case1 s line t hraw hcomment ih =>
    have ht : t.Of source := by simpa only [hraw] using h.raw need
    rw [Cursor.reply_nextLine, reply_nextRaw h, hraw]
    simpa [hcomment] using ih ht
  | case2 s line t hraw hcomment =>
    rw [Cursor.reply_nextLine, reply_nextRaw h, hraw]
    simp [hcomment]
  | case3 s fault t hraw =>
    rw [Cursor.reply_nextLine, reply_nextRaw h, hraw]
    rfl

/-- The cursor answers a call as the stream does, and goes over into the cursor of the stream after
the call. -/
theorem perform_cursor (h : s.Of source) (call : Call) :
    Cursor.perform call s.cursor = Prod.map id cursor (s.perform call) := by
  fun_cases Stream.perform call s with
  | case1 need s =>
    simp only [Cursor.perform, Cursor.next, reply_nextRaw h]
    rfl
  | case2 need s =>
    simp only [Cursor.perform, Cursor.next, reply_nextLine h]
    rfl
  | case3 line s hslot =>
    simp [Cursor.perform, Cursor.reply, Cursor.pushBack, cursor, hslot, Except.map]
  | case4 line s hslot =>
    simp [Cursor.perform, Cursor.reply, Cursor.pushBack, cursor, hslot, Except.map]

/-! ## The end -/

theorem ended_raw (s : Stream) (need : Need) :
    (s.raw need).2.ended = true ↔ s.ended = true ∨ s.cursor.AtEnd .data := by
  obtain ⟨taken, left, slot, ended⟩ := s
  unfold Stream.raw
  split <;> simp_all [Cursor.AtEnd, cursor]

/-- A comment that is taken was not before the end. -/
theorem atEnd_of_raw_comment {t : Stream} {need : Need} {line : Text}
    (hraw : s.raw need = (.ok line, t)) (hcomment : isComment line) :
    t.ended = s.ended ∧ (t.cursor.AtEnd .script ↔ s.cursor.AtEnd .script) := by
  unfold Stream.raw at hraw
  split at hraw
  next hslot =>
    cases hraw
    simp [Cursor.AtEnd, cursor, hslot, hcomment]
  next reading rest hslot hleft =>
    cases reading <;> cases hraw
    simp [Cursor.AtEnd, cursor, hslot, hleft, Reading.isComment, hcomment]
  · obtain ⟨hline, -⟩ := Prod.mk.inj hraw
    cases need <;> cases hline
    cases hcomment

/-- Where no comment is met, both kinds of read find the end alike. -/
theorem atEnd_of_raw {t : Stream} {need : Need} {answer : Except Fault Text}
    (hraw : s.raw need = (answer, t)) (hanswer : ∀ line, answer = .ok line → ¬ isComment line) :
    s.cursor.AtEnd .script ↔ s.cursor.AtEnd .data := by
  unfold Stream.raw at hraw
  split at hraw
  next hslot =>
    cases hraw
    simpa [Cursor.AtEnd, cursor, hslot] using fun h => absurd h (hanswer _ rfl)
  next reading rest hslot hleft =>
    obtain ⟨rfl, -⟩ := Prod.mk.inj hraw
    cases reading with
    | line text =>
      simpa [Cursor.AtEnd, cursor, hslot, hleft, Reading.isComment] using
        fun h => absurd h (hanswer _ rfl)
    | failure cause => simp [Cursor.AtEnd, cursor, hslot, hleft, Reading.isComment]
  next hslot hleft => simp [Cursor.AtEnd, cursor, hslot, hleft]

theorem ended_script (s : Stream) (need : Need) :
    (s.script need).2.ended = true ↔ s.ended = true ∨ s.cursor.AtEnd .script := by
  fun_induction Stream.script need s with
  | case1 s line t hraw hcomment ih =>
    obtain ⟨hended, hatEnd⟩ := atEnd_of_raw_comment hraw hcomment
    rw [ih, hended, hatEnd]
  | case2 s line t hraw hcomment =>
    have hanswer : ∀ text, Except.ok (ε := Fault) line = .ok text → ¬ isComment text := by
      rintro text ⟨⟩
      exact hcomment
    have hended := ended_raw s need
    rw [hraw] at hended
    rw [hended, atEnd_of_raw hraw hanswer]
  | case3 s fault t hraw =>
    have hended := ended_raw s need
    rw [hraw] at hended
    rw [hended, atEnd_of_raw hraw nofun]

/-- The end is found by the reads that have nothing else to find, and stays found. -/
theorem ended_perform (s : Stream) (call : Call) :
    (s.perform call).2.ended = true ↔
      s.ended = true ∨ ∃ kind need, call = .next kind need ∧ s.cursor.AtEnd kind := by
  fun_cases Stream.perform call s with
  | case1 need s => simpa using ended_raw s need
  | case2 need s => simpa using ended_script s need
  | case3 line s hslot | case4 line s hslot => simp

/-- Past the end only a line that is put back is left to be read. -/
theorem perform_ended (h : s.Of source) (hended : s.ended = true) (hslot : s.slot = none)
    (kind : LineKind) (need : Need) :
    s.perform (.next kind need) = (need.atEnd.map some, s) := by
  obtain ⟨taken, left, slot, ended⟩ := s
  cases hended
  cases hslot
  obtain rfl : left = [] := h.ended rfl
  have hraw : Stream.raw need ⟨taken, [], none, true⟩ = (need.atEnd, ⟨taken, [], none, true⟩) := rfl
  cases kind with
  | data => rfl
  | script =>
    rw [Stream.perform, Stream.script]
    cases need <;> rfl

/-- A read that fails passes over the failure and changes nothing else. -/
theorem perform_failure {cause : ReadFailure} {rest : Source} (hslot : s.slot = none)
    (hleft : s.left = .failure cause :: rest) (kind : LineKind) (need : Need) :
    Prod.map id cursor (s.perform (.next kind need)) =
      (.error (.readFailed cause), { s.cursor with unread := rest }) := by
  have hraw : s.raw need = (.error (.readFailed cause),
      { s with taken := s.taken ++ [.failure cause], left := rest }) := by
    simp [Stream.raw, hslot, hleft, Reading.answer]
  cases kind with
  | data => simp [Stream.perform, hraw, cursor, Reading.isLine, Except.map]
  | script =>
    have hscript : s.script need = s.raw need := by
      rw [Stream.script, hraw]
    simp [Stream.perform, hscript, hraw, cursor, Reading.isLine, Except.map]

end Stream

/-- A cursor refines a stream with one slot: after any calls it has answered as the stream of its
source has, and stands for it. No reading was lost, repeated or out of order, and the line number
counts the lines among the readings that were taken. The end is found exactly by the reads that have
nothing else to find, needed or not. Once it is found, a read with an empty slot answers by the need
alone and moves nothing. A read that fails moves past the failure and changes nothing else. -/
theorem cursor_refines_stream (source : Source) (calls : List Call) :
    let reached := Call.run Cursor.perform calls (.start source)
    let stream := Call.run Stream.perform calls (.ofSource source)
    reached.1 = stream.1 ∧ stream.2.taken ++ stream.2.left = source ∧
    reached.2 =
      ⟨stream.2.left, stream.2.taken.countP (·.isLine), stream.2.slot, stream.2.ended⟩ ∧
    (∀ call, (Cursor.perform call reached.2).2.done = true ↔
      reached.2.done = true ∨ ∃ kind need, call = .next kind need ∧ reached.2.AtEnd kind) ∧
    (reached.2.done = true → reached.2.pending = none → ∀ kind need,
      Cursor.perform (.next kind need) reached.2 = (need.atEnd.map some, reached.2)) ∧
    (∀ cause rest, reached.2.pending = none → reached.2.unread = .failure cause :: rest →
      ∀ kind need, Cursor.perform (.next kind need) reached.2 =
        (.error (.readFailed cause), { reached.2 with unread := rest })) := by
  intro reached stream
  have hof : stream.2.Of source :=
    Call.run_preserves (fun call _ h => h.perform call) calls (Stream.of_ofSource source)
  have hreached : reached = Prod.map id Stream.cursor stream :=
    Call.run_map (fun call _ h => h.perform call) (fun call _ h => Stream.perform_cursor h call)
      calls (Stream.of_ofSource source)
  rw [hreached]
  refine ⟨rfl, hof.readings, rfl, fun call => ?_, fun hdone hpending kind need => ?_,
    fun cause rest hpending hunread kind need => ?_⟩
  · rw [Prod.map_snd, Stream.perform_cursor hof]
    exact Stream.ended_perform stream.2 call
  · rw [Prod.map_snd, Stream.perform_cursor hof, Stream.perform_ended hof hdone hpending]
    rfl
  · rw [Prod.map_snd, Stream.perform_cursor hof, Stream.perform_failure hpending hunread]

/-- A line without a comment is not trimmed again, so a line that was put back keeps the blanks at
its end. -/
theorem nextLine_keeps_blanks :
    ¬ ∀ (source : Source) (calls : List Call) (need : Need) (line : Text) (d : Cursor),
      let reached := (Call.run Cursor.perform calls (.start source)).2
      Cursor.nextRaw need reached = .ok line d → line.head? ≠ some '#' →
        Cursor.nextLine need reached = .ok (Text.trimEnd (line.takeWhile (· ≠ '#'))) d := by
  intro h
  have hline := h [] [.pushBack ['a', ' ']] .required ['a', ' '] (.start []) rfl (by decide)
  cases hline

end LogicTest
