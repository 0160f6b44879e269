import LogicTest.Proofs.Grammar.Course

/-!
# Where a fault is

The fault of a script is at the line that cannot be: the grammar says of the lines before it which
record they begin, and of the line itself why this record cannot go on with it (`Refuses`). If it
is the input that ends too soon, the record at hand needs a line more (`Unfinished`). That every
fault is found at such a place is the main statement, `parse_error_located`.
-/
namespace LogicTest

/-- The kinds of fault that one line is, whatever follows it. -/
def FaultKind.ofLine : List FaultKind := [.malformedDirective, .unexpectedLine, .missingSeparator]

namespace Grammar

/-- What may stand before the header of a query: directive lines, and blank lines after these. -/
def IsPreamble (lines : List Text) : Prop :=
  ∃ named blanks, lines = named ++ blanks ∧ (∀ line ∈ named, IsDirective line) ∧
    (∀ line ∈ blanks, line = []) ∧ (blanks ≠ [] → named ≠ [])

/-- A query up to its delimiter, from its directive lines on. -/
def IsDelimited (lines : List Text) : Prop :=
  ∃ preamble description header sql,
    lines = preamble ++ ("query".toList ++ description) :: sql ++ [resultDelimiter] ∧
      IsPreamble preamble ∧ QueryHeader.Denotes description header ∧ resultDelimiter ∉ sql

/-- The logical lines `record` begin a record that cannot go on with `line`; the kind of fault that
this is, and what is said about it. -/
inductive Refuses (record : List Text) (line : Text) : FaultKind → Text → Prop where
  | unexpected (isPreamble : IsPreamble record) (nonempty : line ≠ [])
      (no_query : ¬ "query".toList <+: line) :
      Refuses record line .unexpectedLine ("unexpected line: ".toList ++ line.quoted)
  | header {description defect} (isPreamble : IsPreamble record)
      (keyword : line = "query".toList ++ description)
      (ill_formed : ∀ header, ¬ QueryHeader.Denotes description header)
      (defect_eq : QueryHeader.ofText description = .error defect) :
      Refuses record line .malformedDirective defect.message
  /-- the first line of a result has the form of a digest, but for its count -/
  | count {before digest} (isDelimited : IsDelimited record)
      (cut : Text.CutsAt digestMarker line before digest)
      (no_numeral : ∀ n, ¬ Numeral.Denotes before.trimEnd n) :
      Refuses record line .malformedDirective
        ("invalid value count ".toList ++ before.trimEnd.quoted)
  | separator {query digestLine count digest} (record_eq : record = query ++ [digestLine])
      (isDelimited : IsDelimited query) (isDigest : IsDigest digestLine count digest)
      (nonempty : line ≠ []) :
      Refuses record line .missingSeparator
        ("expected an empty line between tests: ".toList ++ line.quoted)

/-- The logical lines begin a record that cannot end with them. -/
inductive Unfinished : List Text → Prop where
  | preamble {lines} (isPreamble : IsPreamble lines) (some_line : lines ≠ []) : Unfinished lines
  | statement {named header} (directives : ∀ line ∈ named, IsDirective line)
      (keyword : "statement".toList <+: header) : Unfinished (named ++ [header])
  | query {preamble description header} (isPreamble : IsPreamble preamble)
      (isHeader : QueryHeader.Denotes description header) :
      Unfinished (preamble ++ ["query".toList ++ description])

/-- A fault of the given kind is to be reported of the lines: they consist of items of which none
stops the parse, and a record that cannot go on with the line of this number, or cannot end with
the last of them. -/
inductive Located (policy : Policy) (lines : List Text) : Nat → FaultKind → Text → Prop where
  | line {body record line rest items kind message}
      (lines_eq : lines = body ++ (record ++ line :: rest)) (isBody : Items 0 body items)
      (running : ∀ item ∈ items, item.stops policy = false)
      (no_comment : isComment (Text.trim line) = false)
      (refuses : Refuses (logicalLines record) (logical line) kind message) :
      Located policy lines (body.length + record.length + 1) kind message
  | input {body record items} (lines_eq : lines = body ++ record) (isBody : Items 0 body items)
      (running : ∀ item ∈ items, item.stops policy = false)
      (unfinished : Unfinished (logicalLines record)) :
      Located policy lines lines.length .prematureEnd "test file ends prematurely".toList

/-! ## Lines that cannot be -/

section
variable {record : List Text} {line : Text} {fault : Fault}

theorem isPreamble_directives {named : List Text} (h : ∀ line ∈ named, IsDirective line) :
    IsPreamble named :=
  ⟨named, [], (List.append_nil named).symm, h, by simp, fun h => absurd rfl h⟩

theorem refuses_takeHeader (isPreamble : IsPreamble record)
    (h : BodyPhase.takeHeader line = .stuck fault) :
    Refuses record line fault.kind fault.message := by
  unfold BodyPhase.takeHeader at h
  split at h
  · cases h
  next hempty =>
    have nonempty : line ≠ [] := by simpa using hempty
    split at h
    next hkeyword =>
      cases h
      exact .unexpected isPreamble nonempty (Text.isPrefixOf?_eq_none_iff.1 hkeyword)
    next description hkeyword =>
      split at h
      next defect hdefect =>
        cases h
        refine .header isPreamble (List.isPrefixOf?_eq_some_iff_append_eq.1 hkeyword).symm ?_
          hdefect
        intro header hheader
        rw [QueryHeader.ofText_eq_ok_iff.2 hheader] at hdefect
        cases hdefect
      · cases h

theorem refuses_ofLine {directives : List Text} {conditions : Option Conditions}
    (hdirectives : ∀ line ∈ directives, IsDirective line)
    (h : Step.ofLine directives line = .stuck conditions fault) :
    Refuses directives line fault.kind fault.message := by
  unfold Step.ofLine at h
  split at h
  · cases h
  · split at h
    · cases h
    · split at h
      · cases h
      · cases hstep : BodyPhase.takeHeader line with
        | stuck found =>
          rw [hstep] at h
          cases h
          exact refuses_takeHeader (isPreamble_directives hdirectives) hstep
        | _ =>
          rw [hstep] at h
          cases h

theorem refuses_takeResult {query : OpenQuery} (isDelimited : IsDelimited record)
    (h : BodyPhase.takeResult query line = .stuck fault) :
    Refuses record line fault.kind fault.message := by
  unfold BodyPhase.takeResult at h
  split at h
  next before digest hcut =>
    split at h
    next hcount =>
      cases h
      refine .count isDelimited (Text.cutAround?_eq_some_iff.1 hcut) fun n hn => ?_
      rw [Numeral.ofText?_eq_some_iff.2 hn] at hcount
      cases hcount
    · cases h
  · split at h <;> cases h

end

theorem Refuses.kind_mem {record : List Text} {line : Text} {kind : FaultKind} {message : Text}
    (h : Refuses record line kind message) : kind ∈ FaultKind.ofLine := by
  cases h <;> decide

/-! ## Records -/

section
variable {start : Nat} {named : List Text}
  (directives : ∀ line ∈ logicalLines named, IsDirective line)

include directives

theorem isPreamble_append {blanks : List Text} (blank : ∀ line ∈ blanks, line = [])
    (placed : blanks ≠ [] → logicalLines named ≠ []) : IsPreamble (logicalLines named ++ blanks) :=
  ⟨logicalLines named, blanks, rfl, directives, blank, placed⟩

theorem IsText.isDelimited {text : List Text} {query : OpenQuery}
    (h : IsText start (logicalLines named ≠ []) text query) :
    IsDelimited (logicalLines named ++ logicalLines text) := by
  obtain ⟨blanks, description, hlines, hblank, hplaced, hheader⟩ := h.exists_lines
  refine ⟨logicalLines named ++ blanks, description, query.header, query.lines, ?_,
    isPreamble_append directives hblank hplaced, hheader, h.undelimited⟩
  rw [hlines.logicalLines_eq]
  simp only [List.append_assoc, List.cons_append]

/-- A line that the body of a record is stuck at. -/
theorem refuses_bodyTake {segment : List Text} {phase : BodyPhase} {line : Text} {lineNo : Nat}
    {fault : Fault} (h : BodyReached start (logicalLines named ≠ []) segment phase)
    (hstuck : phase.take lineNo line = .stuck fault) :
    Refuses (logicalLines (named ++ segment)) line fault.kind fault.message := by
  rw [logicalLines_append]
  cases h with
  | statement | text | values =>
    simp only [BodyPhase.take] at hstuck
    split at hstuck <;> cases hstuck
  | heading blank some_line placed =>
    exact refuses_takeHeader (isPreamble_append directives blank fun _ => placed) hstuck
  | result isText lines =>
    rw [logicalLines_append, lines, List.append_nil]
    exact refuses_takeResult (isText.isDelimited directives) hstuck
  | separator isText lines isDigest =>
    simp only [BodyPhase.take] at hstuck
    split at hstuck
    · cases hstuck
    next hempty =>
      cases hstuck
      refine .separator ?_ (isText.isDelimited directives) isDigest (by simpa using hempty)
      rw [logicalLines_append, lines, List.append_assoc]

/-- The body of a record that cannot end. -/
theorem unfinished_of_bodyFinish {segment : List Text} {phase : BodyPhase} {lineNo : Nat}
    {fault : Fault} (h : BodyReached start (logicalLines named ≠ []) segment phase)
    (hfinish : phase.finish lineNo = .error fault) :
    Unfinished (logicalLines (named ++ segment)) := by
  rw [logicalLines_append]
  cases h with
  | @statement segment header sql lines keyword =>
    simp only [BodyPhase.finish] at hfinish
    split at hfinish
    next hempty =>
      obtain rfl : sql = [] := by simpa using hempty
      rw [lines]
      exact .statement directives keyword
    · cases hfinish
  | heading blank some_line placed =>
    exact .preamble (isPreamble_append directives blank fun _ => placed)
      (List.append_ne_nil_of_right_ne_nil _ some_line)
  | @text segment blanks sql description header lines blank placed isHeader =>
    simp only [BodyPhase.finish] at hfinish
    split at hfinish
    next hempty =>
      obtain rfl : sql = [] := by simpa using hempty
      rw [lines, ← List.append_assoc]
      exact .query (isPreamble_append directives blank placed) isHeader
    · cases hfinish
  | result | values | separator => cases hfinish

end

theorem BodyStep.eq_stuck_of_within {conditions : Conditions} {step : BodyStep}
    {found : Option Conditions} {fault : Fault} (h : step.within conditions = .stuck found fault) :
    step = .stuck fault := by
  cases step <;> cases h
  rfl

section
variable {start : Nat} {segment : List Text} {phase : Phase}

/-- A line that the reading of an item is stuck at is no comment, and the item refuses it. -/
theorem refuses_of_stuck {line : Text} {lineNo : Nat} {conditions : Option Conditions}
    {fault : Fault} (h : Reached start segment phase)
    (hstuck : phase.step lineNo line.trim = .stuck conditions fault) :
    isComment line.trim = false ∧
      Refuses (logicalLines segment) (logical line) fault.kind fault.message := by
  cases h with
  | start lines =>
    rw [Phase.step_of_script rfl, withoutComment_trim] at hstuck
    split at hstuck
    · cases hstuck
    next hline =>
      refine ⟨by simpa using hline, ?_⟩
      simp only [Phase.take] at hstuck
      split at hstuck
      · cases hstuck
      · split at hstuck
        · cases hstuck
        · rw [lines]
          exact refuses_ofLine (by simp) hstuck
  | directives directives =>
    rw [Phase.step_of_script rfl, withoutComment_trim] at hstuck
    split at hstuck
    · cases hstuck
    next hline => exact ⟨by simpa using hline, refuses_ofLine directives hstuck⟩
  | @body named segment phase directives reached =>
    unfold Phase.step at hstuck
    split at hstuck
    next hdata =>
      exfalso
      cases phase with
      | values query lines =>
        have hstep := BodyStep.eq_stuck_of_within hstuck
        simp only [BodyPhase.take] at hstep
        split at hstep <;> cases hstep
      | _ => cases hdata
    · split at hstuck
      · cases hstuck
      next hline =>
        rw [withoutComment_trim] at hstuck
        exact ⟨by simpa using hline,
          refuses_bodyTake directives reached (BodyStep.eq_stuck_of_within hstuck)⟩

/-- An item that cannot end with its input is unfinished. -/
theorem unfinished_of_finish {place found : Cursor} {conditions : Option Conditions} {fault : Fault}
    (h : Reached start segment phase)
    (hfinish : phase.finish place = .failed conditions fault found) :
    Unfinished (logicalLines segment) := by
  cases h with
  | start => cases hfinish
  | directives directives some_line =>
    exact .preamble (isPreamble_directives directives) some_line
  | @body named segment phase directives reached =>
    simp only [Phase.finish] at hfinish
    split at hfinish
    · cases hfinish
    next other hother => exact unfinished_of_bodyFinish directives reached hother

end

/-! ## Faults of a parse -/

section
variable {policy : Policy} {name text : Text} {error : ScriptError}

theorem located_of_stuck {read rest : List Text} {items : List Item} {last : Phase} {line : Text}
    {conditions : Option Conditions} {fault : Fault} (h : Leads policy 0 .start read items last)
    (hstuck : last.step (read.length + 1) line.trim = .stuck conditions fault) :
    Located policy (read ++ line :: rest) (read.length + 1) fault.kind fault.message := by
  obtain ⟨body, record, rfl, isBody, hreached⟩ := h.exists_items
  obtain ⟨hcomment, hrefuses⟩ := refuses_of_stuck hreached hstuck
  rw [List.length_append]
  exact .line (List.append_assoc ..) isBody h.running hcomment hrefuses

theorem located_of_failed {lines : List Text} {items : List Item} {last : Phase}
    {conditions : Option Conditions} {place : Cursor} (h : Leads policy 0 .start lines items last)
    (hfinish : last.finish place = .failed conditions .prematureEnd place) :
    Located policy lines lines.length .prematureEnd "test file ends prematurely".toList := by
  obtain ⟨body, record, rfl, isBody, hreached⟩ := h.exists_items
  exact .input rfl isBody h.running (unfinished_of_finish hreached hfinish)

theorem Unfinished.ne_nil {lines : List Text} (h : Unfinished lines) : lines ≠ [] := by
  cases h with
  | preamble _ some_line => exact some_line
  | statement | query => simp

/-- A fault is reported of one of the lines. -/
theorem Located.line_le {lines : List Text} {lineNo : Nat} {kind : FaultKind} {message : Text}
    (h : Located policy lines lineNo kind message) : 1 ≤ lineNo ∧ lineNo ≤ lines.length := by
  cases h with
  | line lines_eq =>
    subst lines_eq
    simp only [List.length_append, List.length_cons]
    omega
  | @input body record _ lines_eq _ _ unfinished =>
    have hrecord : record ≠ [] := by
      rintro rfl
      exact unfinished.ne_nil rfl
    have hlength := List.length_pos_iff.2 hrecord
    subst lines_eq
    rw [List.length_append]
    omega

theorem Located.line_eq_of_prematureEnd {lines : List Text} {lineNo : Nat} {message : Text}
    (h : Located policy lines lineNo .prematureEnd message) : lineNo = lines.length := by
  generalize hkind : FaultKind.prematureEnd = kind at h
  cases h with
  | line _ _ _ _ refuses =>
    subst hkind
    exact absurd refuses.kind_mem (by decide)
  | input => rfl

theorem Located.kind_ne_io {lines : List Text} {lineNo : Nat} {kind : FaultKind} {message : Text}
    (h : Located policy lines lineNo kind message) : kind ≠ .io := by
  cases h with
  | line _ _ _ _ refuses =>
    rintro rfl
    exact absurd refuses.kind_mem (by decide)
  | input => exact nofun

/-- The fault of a parse is reported of the lines it is located in. -/
theorem located_of_parse_error {lines : List Text}
    (h : (parse policy name (lines.map .line)).result = .error error) :
    error.file = name ∧ Located policy lines error.line error.fault.kind error.fault.message := by
  rcases leads_or_stops policy 0 .start lines with
    ⟨items, last, hleads⟩ | ⟨read, line, rest, items, last, rfl, hleads, hstops⟩
  · rw [parse_eq_outcome, hleads.readItems_eq_finish] at h
    rcases last.finish_cases ⟨[], lines.length, none, true⟩ with
      ⟨-, hfinish⟩ | hfinish | ⟨conditions, operation, -, hfinish⟩
    · rw [hfinish] at h
      cases h
    · rw [hfinish] at h
      cases h
      exact ⟨rfl, located_of_failed hleads hfinish⟩
    · rw [hfinish] at h
      cases h
  · rw [List.append_cons, List.map_append] at h
    rw [Nat.zero_add] at hstops
    rcases hstops with ⟨conditions, hhalt, hkept⟩ | ⟨conditions, fault, hstuck⟩
    · rw [hleads.parse_eq_halt hhalt hkept] at h
      cases h
    · rw [hleads.parse_eq_stuck hstuck] at h
      cases h
      exact ⟨rfl, located_of_stuck hleads hstuck⟩

/-- The diagnostic of a script that is not accepted names the script and is located in it. -/
theorem parse_error_located (h : (parseText policy name text).result = .error error) :
    error.file = name ∧ 1 ≤ error.line ∧ error.line ≤ text.lines.length ∧
      error.diagnostic.kind ≠ .io ∧
      Located policy text.lines error.line error.diagnostic.kind error.diagnostic.message := by
  obtain ⟨hname, hlocated⟩ := located_of_parse_error h
  obtain ⟨hpos, hle⟩ := hlocated.line_le
  exact ⟨hname, hpos, hle, hlocated.kind_ne_io, hlocated⟩

/-- The first line of a result gives no count: it comes after a comment, in a record that a `halt`
which is not kept and a blank line come before. -/
theorem parse_error_located_count :
    let text : Text :=
      "halt\nonlyif x\n\nquery I nosort\nselect 1\n----\n# digest\n x values hashing to y\n".toList
    let policy : Policy := fun conditions => !conditions.only.isEmpty
    (parseText policy [] text).result = .error ⟨[], 8, .badCount ['x']⟩ ∧
      Located policy text.lines 8 .malformedDirective "invalid value count 'x'".toList := by
  intro text policy
  have herror : (parseText policy [] text).result = .error ⟨[], 8, .badCount ['x']⟩ := by
    rw [parseText, parse_result]
    decide +kernel
  exact ⟨herror, (parse_error_located herror).2.2.2.2⟩

end

end Grammar
end LogicTest
