import LogicTest.Event
import LogicTest.Proofs.Grammar.Acceptance
import LogicTest.Proofs.Grammar.Between
import LogicTest.Proofs.Grammar.Faults

/-!
# What a parse announces

A parse announces each operation that it takes up, in order, and nothing else. So the announcements
of a parse that succeeds are those of the operations that it returns, and the log adds one summary
of them. A parse that fails has announced what it would have announced if its source had ended
before the record that it failed in (`Interrupted`), and the log adds nothing.
-/
namespace LogicTest

/-- The announcements of the items that the policy keeps. -/
def announcements (policy : Policy) (items : List Item) : List Message :=
  (items.filterMap (Item.operation? policy)).map Progress.added

namespace Grammar

/-- The lines are those of items, and comments after them. -/
def Settled (lines : List Text) : Prop := ∃ items, Between lines items

/-- After the lines `before`, which are settled, the lines `record` are those of a record that no
item comes of: it begins with its first directive or header line, and no item ends with one of its
lines. -/
structure Interrupted (before record : List Text) : Prop where
  settled : Settled before
  no_comment : ∀ line ∈ record.head?, isComment (Text.trim line) = false
  begins : ∀ line ∈ record.head?, logical line ≠ [] ∧ ¬ "hash-threshold".toList <+: logical line
  unfinished : ∀ segment rest item, record = segment ++ rest →
    ¬ IsItem before.length segment .line item

/-! ## The lines of a record -/

/-- Lines begin with comments, as many as there are. -/
theorem exists_comments (lines : List Text) :
    ∃ comments rest, lines = comments ++ rest ∧ logicalLines comments = [] ∧
      ∀ line ∈ rest.head?, isComment (Text.trim line) = false := by
  induction lines with
  | nil => exact ⟨[], [], rfl, rfl, nofun⟩
  | cons line lines ih =>
    cases hline : isComment line.trim with
    | false =>
      refine ⟨[], line :: lines, rfl, rfl, ?_⟩
      rintro _ ⟨⟩
      exact hline
    | true =>
      obtain ⟨comments, rest, rfl, hcomments, hrest⟩ := ih
      refine ⟨line :: comments, rest, rfl, ?_, hrest⟩
      rw [logicalLines_cons, logicalLines_of_comment hline, hcomments, List.nil_append]

section
variable {start : Nat} {record : List Text} {rest : Source}

/-- Of lines that are divided into no items, no beginning forms an item. -/
theorem not_isItem_of_items_eq_nil
    (h : (divide start .start (record.map .line ++ rest)).items = []) {segment more : List Text}
    {item : Item} (hrecord : record = segment ++ more) : ¬ IsItem start segment .line item := by
  intro isItem
  rw [hrecord, List.map_append, List.append_assoc, divide_isItem isItem nofun] at h
  cases h

theorem interrupted_of_items_eq_nil {before : List Text}
    (settled : Settled before)
    (no_comment : ∀ line ∈ record.head?, isComment (Text.trim line) = false)
    (h : (divide before.length .start (record.map .line ++ rest)).items = []) :
    Interrupted before record := by
  refine ⟨settled, no_comment, ?_, fun segment more item => not_isItem_of_items_eq_nil h⟩
  intro line hline
  obtain ⟨more, rfl⟩ := List.head?_eq_some_iff.1 hline
  have hlines := logicalLines_of_not_comment (no_comment line hline)
  have hspells : Spells [line] [logical line] := ⟨hlines, [], line, rfl, no_comment line hline⟩
  constructor
  · intro hblank
    rw [hblank] at hspells
    exact not_isItem_of_items_eq_nil h (by rfl) (.blank hspells)
  · rintro ⟨description, hthreshold⟩
    rw [← hthreshold] at hspells
    exact not_isItem_of_items_eq_nil h (by rfl)
      (.threshold hspells fun n => Numeral.ofText?_eq_some_iff)

/-- After items, lines that are divided into no more of them begin with comments, and what follows
these is the record at hand. -/
theorem exists_interrupted {body : List Text} {items : List Item} (isBody : Items 0 body items)
    (h : (divide body.length .start (record.map .line ++ rest)).items = []) :
    ∃ comments others, record = comments ++ others ∧ logicalLines comments = [] ∧
      Interrupted (body ++ comments) others := by
  obtain ⟨comments, others, rfl, hcomments, hothers⟩ := exists_comments record
  have hitems : (divide (body ++ comments).length .start
      (others.map .line ++ rest)).items = [] := by
    rwa [List.map_append, List.append_assoc, divide_goes .nil rfl hcomments,
      ← List.length_append] at h
  have settled : Settled (body ++ comments) := ⟨items, body, comments, rfl, isBody, hcomments⟩
  exact ⟨comments, others, rfl, hcomments, interrupted_of_items_eq_nil settled hothers hitems⟩

end

/-! ## Announcements of a parse -/

section
variable {policy : Policy} {items : List Item}

/-- Items that do not stop a parse, and comments after them, are a script of these items. -/
theorem parse_settled {body comments : List Text} (isBody : Items 0 body items)
    (hcomments : logicalLines comments = []) (running : ∀ item ∈ items, item.stops policy = false)
    (name : Text) :
    (parse policy name ((body ++ comments).map .line)).result = .ok (.ofItems policy name items) ∧
      (parse policy name ((body ++ comments).map .line)).messages = announcements policy items := by
  have haccepts : Accepts policy (body ++ comments) (items ++ []) :=
    .complete isBody (.comments hcomments) (by simpa using running)
  rw [List.append_nil] at haccepts
  obtain ⟨hitems, hbreak⟩ := haccepts.division
  refine ⟨parse_eq_ok_iff.2 ⟨hbreak, by rw [hitems]⟩, ?_⟩
  rw [parse_messages, hitems, announcements]

end

end Grammar

open Grammar

section
variable {policy : Policy} {lines more : List Text} {items : List Item} {last : Phase}
  {conditions : Option Conditions} {fault : Fault} {place : Cursor} {rest : Source}

/-- Lines that lead a parse to a fault have completed the items of its source. -/
theorem Leads.items_of_failed (h : Leads policy 0 .start lines items last)
    (hfailed : divide lines.length last (more.map .line ++ rest) = .failed conditions fault place) :
    (Source.division ((lines ++ more).map .line ++ rest)).items = items := by
  have hitems := (h.division_eq (more.map .line ++ rest)).1
  rw [Nat.zero_add, hfailed] at hitems
  rw [Source.division, List.map_append, List.append_assoc, hitems]
  exact List.append_nil items

/-- What such a parse announces is announced of the lines before the record at hand as well. -/
theorem Leads.announces (h : Leads policy 0 .start lines items last) (name : Text)
    (hfailed : divide lines.length last (more.map .line ++ rest) = .failed conditions fault place) :
    ∃ before record script, lines ++ more = before ++ record ∧ Interrupted before record ∧
      (record = [] → logicalLines more = [] ∧ ∃ start segment, Reached start segment last ∧
        logicalLines segment = []) ∧
      (parse policy name (before.map .line)).result = .ok script ∧
      (parse policy name ((lines ++ more).map .line ++ rest)).messages =
        (parse policy name (before.map .line)).messages := by
  have hmessages := parse_messages policy name ((lines ++ more).map .line ++ rest)
  have hitems := h.items_of_failed hfailed
  rw [hitems, upToHalt_eq_self h.running, ← announcements] at hmessages
  obtain ⟨body, segment, rfl, isBody, hreached⟩ := h.exists_items
  -- the items of the body are all there are, so none comes of the lines after it
  have hrecord := (divide_items isBody ((segment ++ more).map .line ++ rest)).1
  rw [← List.append_assoc, ← List.map_append, ← List.append_assoc, ← Source.division, hitems,
    Nat.zero_add, List.self_eq_append_right] at hrecord
  obtain ⟨comments, record, hlines, hcomments, hinterrupted⟩ := exists_interrupted isBody hrecord
  obtain ⟨hresult, hsettled⟩ := parse_settled isBody hcomments h.running name
  refine ⟨body ++ comments, record, _, ?_, hinterrupted, ?_, hresult, hmessages.trans hsettled.symm⟩
  · rw [List.append_assoc, hlines, List.append_assoc]
  · rintro rfl
    rw [List.append_nil] at hlines
    rw [← hlines, logicalLines_append, List.append_eq_nil_iff] at hcomments
    exact ⟨hcomments.2, _, _, hreached, hcomments.1⟩

end

/-- A parse that fails has been led to a fault: by a line that is no comment, by the end of the
input in a record, or by a read that fails. -/
theorem exists_failed_of_parse_error {policy : Policy} {name : Text} {source : Source}
    {error : ScriptError} (h : (parse policy name source).result = .error error) :
    ∃ lines more items last conditions place rest, source = (lines ++ more).map .line ++ rest ∧
      Leads policy 0 .start lines items last ∧
      divide lines.length last (more.map .line ++ rest) = .failed conditions error.fault place ∧
      (lines ++ more).length = error.line ∧
      (error.fault.kind = .io → ∃ cause others, rest = .failure cause :: others) ∧
      (error.fault.kind ≠ .io → logicalLines more = [] →
        ∀ start segment, Reached start segment last → logicalLines segment ≠ []) := by
  cases ending policy source with
  | @line read items last line rest leads stops =>
    rcases stops with ⟨conditions, hhalt, hkept⟩ | ⟨conditions, fault, hstuck⟩
    · rw [leads.parse_eq_halt hhalt hkept] at h
      cases h
    rw [leads.parse_eq_stuck hstuck] at h
    cases h
    obtain ⟨body, record, -, -, hreached⟩ := leads.exists_items
    obtain ⟨hcomment, hrefuses⟩ := refuses_of_stuck hreached hstuck
    refine ⟨read, [line], items, last, conditions, ⟨rest, read.length + 1, none, false⟩, rest, rfl,
      leads, ?_, List.length_append, fun hio => ?_, fun _ hline => ?_⟩
    · rw [List.map_singleton, List.singleton_append, divide_line, hstuck, proceed]
    · have hkind : FaultKind.io ∈ FaultKind.ofLine := hio ▸ hrefuses.kind_mem
      exact absurd hkind (by decide)
    · rw [logicalLines_of_not_comment hcomment] at hline
      cases hline
  | @input lines items last leads =>
    rw [parse_eq_outcome, leads.readItems_eq_finish] at h
    rcases last.finish_cases ⟨[], lines.length, none, true⟩ with
      ⟨-, hfinish⟩ | hfinish | ⟨conditions, operation, -, hfinish⟩
    · rw [hfinish] at h
      cases h
    · rw [hfinish] at h
      cases h
      refine ⟨lines, [], items, last, last.conditions?, ⟨[], lines.length, none, true⟩, [], by simp,
        leads, hfinish, by rw [List.append_nil]; rfl, fun hio => ?_,
        fun _ _ start segment hreached => ?_⟩
      · cases hio
      · exact (unfinished_of_finish hreached hfinish).ne_nil
    · rw [hfinish] at h
      cases h
  | @failure lines items last cause rest leads =>
    rw [leads.parse_eq_failure] at h
    cases h
    exact ⟨lines, [], items, last, last.conditions?, ⟨rest, lines.length, none, false⟩,
      .failure cause :: rest, by simp, leads, rfl, by simp, fun _ => ⟨cause, rest, rfl⟩,
      fun hkind => absurd rfl hkind⟩

/-! ## The log -/

/-- Everything that a parse announces is chatter. -/
theorem level_of_mem_messages {policy : Policy} {name : Text} {source : Source} {message : Message}
    (h : message ∈ (parse policy name source).messages) :
    (Event.ofMessage message).level = .trace := by
  rw [parse_messages] at h
  obtain ⟨operation, -, rfl⟩ := List.mem_map.1 h
  rfl

theorem ofParse_of_ok {run : Parse} {script : Script} (h : run.result = .ok script) :
    Event.ofParse run = run.messages.map Event.ofMessage ++ [Event.ofScript script] := by
  rw [Event.ofParse, h]

theorem ofParse_of_error {run : Parse} {error : ScriptError} (h : run.result = .error error) :
    Event.ofParse run = run.messages.map Event.ofMessage := by
  rw [Event.ofParse, h, List.append_nil]

/-- A parse that succeeds announces the operations that it returns, and the log ends with one
summary of them. A parse that fails has announced what the lines before the record that it failed in
would have it announce by themselves, and these are accepted; the log has no summary. -/
theorem parse_announces (policy : Policy) (name : Text) (source : Source) :
    let run := parse policy name source
    (∀ script, run.result = .ok script →
      run.messages = script.operations.map (fun operation =>
        ⟨"Operation added ".toList ++ operation.render, 2⟩) ∧
      Event.ofParse run = script.operations.map (fun operation =>
          ⟨.trace, "slt_parser::sink".toList, "Operation added ".toList ++ operation.render, []⟩) ++
        [⟨.debug, "slt_parser::parser".toList, "parsed sqllogictest file".toList,
          [("file".toList, script.name),
            ("operations".toList, Numeral.toText script.operations.length),
            ("tests".toList, Numeral.toText script.queryCount),
            ("halted".toList, if script.halted then "true".toList else "false".toList)]⟩]) ∧
    ∀ error, run.result = .error error →
      ∃ before record rest script, source = (before ++ record).map .line ++ rest ∧
        Interrupted before record ∧ (before ++ record).length = error.line ∧
        (error.fault.kind = .io → ∃ cause others, rest = .failure cause :: others) ∧
        (record = [] → error.fault.kind = .io) ∧
        (parse policy name (before.map .line)).result = .ok script ∧
        run.messages = (parse policy name (before.map .line)).messages ∧
        Event.ofParse run = run.messages.map Event.ofMessage ∧
        ∀ event ∈ Event.ofParse run, event.level = .trace := by
  intro run
  constructor
  · intro script hresult
    have hmessages : run.messages = script.operations.map Progress.added := by
      obtain ⟨-, rfl⟩ := parse_eq_ok_iff.1 hresult
      exact parse_messages policy name source
    have hevents := ofParse_of_ok hresult
    rw [hmessages, List.map_map] at hevents
    exact ⟨hmessages, hevents⟩
  · intro error hresult
    obtain ⟨lines, more, items, last, conditions, place, rest, rfl, leads, hfailed, hline, hio,
      hempty⟩ := exists_failed_of_parse_error hresult
    obtain ⟨before, record, script, hlines, hinterrupted, hrecord, hsettled, hmessages⟩ :=
      leads.announces name hfailed
    have hevents := ofParse_of_error hresult
    refine ⟨before, record, rest, script, by rw [hlines], hinterrupted, hlines ▸ hline, hio,
      fun hnil => ?_, hsettled, hmessages, hevents, ?_⟩
    · by_contra hkind
      obtain ⟨hmore, start, segment, hreached, hsegment⟩ := hrecord hnil
      exact hempty hkind hmore start segment hreached hsegment
    · rw [hevents]
      exact List.forall_mem_map.2 fun message hmessage => level_of_mem_messages hmessage

/-- A line after a digest stops this parse, in a record that a comment and a statement come before:
only the statement is announced. -/
theorem parse_announces_separator :
    let source : Source := .ofText
      "statement ok\na\n\n# b\nskipif x\nquery I nosort\nc\n----\n1 values hashing to d\ne\n".toList
    let run := parse .keepAll [] source
    run.result = .error ⟨[], 10, .missingSeparator "e".toList⟩ ∧
      run.messages = [⟨"Operation added statement ok: a".toList, 2⟩] ∧
      ∃ before record script, Interrupted before record ∧ (before ++ record).length = 10 ∧
        (parse .keepAll [] (before.map .line)).result = .ok script ∧
        run.messages = (parse .keepAll [] (before.map .line)).messages := by
  intro source run
  have hresult : run.result = .error ⟨[], 10, .missingSeparator "e".toList⟩ := by
    rw [parse_result]
    decide +kernel
  have hmessages : run.messages = [⟨"Operation added statement ok: a".toList, 2⟩] := by
    rw [parse_messages]
    decide +kernel
  obtain ⟨before, record, rest, script, -, hinterrupted, hline, -, -, hsettled, hsame, -⟩ :=
    (parse_announces .keepAll [] source).2 _ hresult
  exact ⟨hresult, hmessages, before, record, script, hinterrupted, hline, hsettled, hsame⟩

end LogicTest
