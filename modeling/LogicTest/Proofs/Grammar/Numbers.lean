import LogicTest.Proofs.Grammar.BlankLines

/-!
# Thresholds and counts

A script gives numbers in two places: behind the keyword of a threshold line, and before the marker
of a digest. Both are read by the same rule, and what is no number by it is refused: a threshold is
then none, and the parse goes on, while a count that is none is a fault. Main statement:
`numbers_read_or_refused`.
-/
namespace LogicTest
open Grammar

namespace Grammar

/-- After these lines a parse awaits the first line of a result: the items come before the record of
the query, and nothing but comments behind its delimiter. -/
structure AwaitsResult (policy : Policy) (before : List Text) (items : List Item)
    (conditions : Conditions) (query : OpenQuery) : Prop where
  exists_lines : ∃ body named text comments, before = body ++ named ++ text ++ comments ∧
    Between body items ∧ (∀ line ∈ logicalLines named, IsDirective line) ∧
    Names (logicalLines named) conditions ∧
    IsText (body.length + named.length) (logicalLines named ≠ []) text query ∧
    logicalLines comments = []
  running : ∀ item ∈ items, item.stops policy = false

end Grammar

section
variable {policy : Policy} {lines before : List Text} {items : List Item} {index : Nat}
  {description : Text}

/-! ## Threshold lines -/

theorem Grammar.ThresholdAt.line_eq (h : ThresholdAt policy lines index description) :
    ∃ line, lines[index]? = some line ∧ logical line = "hash-threshold".toList ++ description :=
  Option.map_eq_some_iff.1 h.keyword

/-- A threshold line is an item of its own, after which the next item begins. -/
theorem Grammar.ThresholdAt.exists_leads (h : ThresholdAt policy lines index description) :
    ∃ items, Leads policy 0 .start (lines.take (index + 1))
      (items ++ [.threshold (Numeral.ofText? description.trim)]) .start := by
  obtain ⟨items, hbetween, hrunning⟩ := h.between
  obtain ⟨line, hline, hkeyword⟩ := h.line_eq
  refine ⟨items, ?_⟩
  rw [List.take_add_one, hline]
  exact (hbetween.leads hrunning).append (.done (step_threshold hkeyword _) rfl .nil)

/-- At the end of the lines that lead it on to the next item, a parse succeeds. -/
theorem Leads.parse_eq_ok (h : Leads policy 0 .start lines items .start) (name : Text) :
    (parse policy name (lines.map .line)).result = .ok (.ofItems policy name items) := by
  obtain ⟨hitems, hbreak⟩ := h.taken_eq []
  rw [List.append_nil] at hitems hbreak
  refine parse_eq_ok_iff.2 ⟨hbreak, ?_⟩
  rw [hitems]
  exact congrArg _ (List.append_nil items).symm

/-- One line begins one item at most. -/
theorem Grammar.ThresholdAt.description_eq {text : Text}
    (h : ThresholdAt policy lines index description) (h' : ThresholdAt policy lines index text) :
    text = description :=
  List.append_cancel_left (Option.some.inj (h'.keyword.symm.trans h.keyword))

/-- If it is the last threshold line, its value is that of the script, number or not. -/
theorem Grammar.ThresholdAt.hashThreshold_eq {name : Text} {script : Script}
    (h : ThresholdAt policy lines index description)
    (hlast : ∀ other text, ThresholdAt policy lines other text → other ≤ index)
    (hparse : (parse policy name (lines.map .line)).result = .ok script) :
    script.hashThreshold = Numeral.ofText? description.trim := by
  rcases lastThreshold_of_parse hparse with ⟨-, hnone⟩ | ⟨found, text, hfound, hfound_last, hvalue⟩
  · exact absurd h (hnone _ _)
  · obtain rfl : found = index := Nat.le_antisymm (hlast _ _ hfound) (hfound_last _ _ h)
    obtain rfl := h.description_eq hfound
    exact Option.ext fun n => (hvalue n).trans Numeral.ofText?_eq_some_iff.symm

/-- The rest of the parse is as if the line were blank. -/
theorem Grammar.ThresholdAt.blanked (h : ThresholdAt policy lines index description) {blank : Text}
    (hblank : blank.trim = []) : Blanked policy lines (lines.set index blank) where
  length_eq := List.length_set
  line other := by
    by_cases hother : index = other
    · subst hother
      obtain ⟨line, hline, -⟩ := h.line_eq
      obtain ⟨hlength, -⟩ := List.getElem?_eq_some_iff.1 hline
      exact .inr ⟨⟨blank, List.getElem?_set_self hlength, hblank⟩, description, h⟩
    · exact .inl (List.getElem?_set_ne hother)

/-! ## Counts -/

variable {conditions : Conditions} {query : OpenQuery}

/-- The lines of a query up to its delimiter lead to its result. -/
theorem Grammar.IsText.leads {start : Nat} {directives text : List Text}
    (h : IsText start (directives ≠ []) text query) (policy : Policy) :
    Leads policy start (afterDirectives directives) text []
      (.body (.ofLines directives) (.result query)) := by
  obtain ⟨header, lines, sourceLine⟩ := query
  obtain ⟨⟨blanks, description, hspells, blank, placed, isHeader⟩, undelimited, hsource⟩ := h
  obtain ⟨init, delimiter, rfl, hdelimiter, hinit, hlogical⟩ := hspells.exists_concat
  obtain rfl : sourceLine = start + init.length + 1 := hsource.trans (by simp [Nat.add_assoc])
  refine (Leads.of_goes (goes_query_lines blank placed isHeader undelimited) rfl hinit policy
    start).concat ?_
  rw [Phase.step_of_script rfl, hdelimiter, if_neg Bool.false_ne_true, withoutComment_trim,
    hlogical]
  simp only [Phase.take, BodyPhase.take, if_true, BodyStep.within]

theorem Grammar.AwaitsResult.leads (h : AwaitsResult policy before items conditions query) :
    Leads policy 0 .start before items (.body conditions (.result query)) := by
  obtain ⟨body, named, text, comments, rfl, hbody, directives, names, isText, hcomments⟩ :=
    h.exists_lines
  rw [names_iff.1 names]
  have hnamed : Leads policy body.length .start named [] (afterDirectives (logicalLines named)) :=
    .of_goes (goes_directives directives) (kind_afterDirectives _) rfl policy _
  have hcomments : Leads policy (body.length + named.length + text.length)
      (.body (.ofLines (logicalLines named)) (.result query)) comments [] _ :=
    .of_goes .nil rfl hcomments policy _
  have hrecord := hnamed.append ((isText.leads policy).append hcomments)
  rw [← Nat.zero_add body.length] at hrecord
  simpa using (hbody.leads h.running).append hrecord

/-- The first line of a result is taken up whole, but for its comment. -/
theorem step_result {line : Text} (hcomment : isComment line.trim = false) (lineNo : Nat) :
    (Phase.body conditions (.result query)).step lineNo line.trim =
      (BodyPhase.takeResult query (logical line)).within conditions := by
  rw [Phase.step_of_script rfl, hcomment, if_neg Bool.false_ne_true, withoutComment_trim]
  rfl

section
variable {line left right : Text} (cut : Text.CutsAt digestMarker (logical line) left right)
include cut

/-- A comment has no digest in it. -/
theorem isComment_of_cutsAt : isComment line.trim = false := by
  refine isComment_of_logical_ne_nil fun hnil => ?_
  rw [cut.eq_append, List.append_eq_nil_iff, List.append_eq_nil_iff] at hnil
  exact absurd hnil.1.2 (by decide)

/-- Before the marker there can be blanks on the right only. -/
theorem trim_of_cutsAt : left.trim = left.trimEnd := by
  have hprefix : left <+: line.trim := by
    have hlogical : left <+: logical line := ⟨digestMarker ++ right, by simp [cut.eq_append]⟩
    exact hlogical.trans ((Text.prefix_trimEnd _).trans (List.takeWhile_prefix _))
  have hstart : left.trimStart = left := by
    obtain ⟨tail, htail⟩ := hprefix
    rw [Text.trimStart_eq_self_iff]
    intro c hc
    have htrimmed := Text.trimmed_iff.1 (Text.trimmed_trim line)
    exact htrimmed.1 c (by rw [← htail, List.head?_append, hc]; rfl)
  rw [Text.trim, hstart]

theorem isDigest_of_cutsAt {count : Nat} (hcount : Numeral.Denotes left.trim count) :
    IsDigest (logical line) count right.trim :=
  ⟨left, right, cut, trim_of_cutsAt cut ▸ hcount, rfl⟩

theorem takeResult_badCount (hcount : ∀ n, ¬ Numeral.Denotes left.trim n) :
    BodyPhase.takeResult query (logical line) = .stuck (.badCount left.trim) := by
  have hnumeral : Numeral.ofText? left.trimEnd = none :=
    Option.eq_none_iff_forall_ne_some.2 fun n hn =>
      hcount n (trim_of_cutsAt cut ▸ Numeral.ofText?_eq_some_iff.1 hn)
  rw [trim_of_cutsAt cut]
  simp only [BodyPhase.takeResult, Text.cutAround?_eq_some_iff.2 cut, hnumeral]

end

/-! ## After a count -/

/-- The fault of a division is not before the lines that are divided. -/
theorem le_line_of_break {lineNo : Nat} {phase : Phase} {source : Source} {ending : Break}
    (h : (divide lineNo phase source).break? = some ending) :
    lineNo ≤ ending.line ∧ ∀ line rest, source = .line line :: rest → lineNo < ending.line := by
  induction source generalizing lineNo phase with
  | nil =>
    rcases phase.finish_cases ⟨[], lineNo, none, true⟩ with
      ⟨-, hfinish⟩ | hfinish | ⟨_, _, -, hfinish⟩
    all_goals
      rw [divide, hfinish] at h
      cases h
    exact ⟨Nat.le_refl _, fun _ _ hsource => by cases hsource⟩
  | cons reading rest ih =>
    cases reading with
    | failure cause =>
      cases h
      exact ⟨Nat.le_refl _, fun _ _ hsource => by cases hsource⟩
    | line line =>
      suffices lineNo < ending.line from ⟨Nat.le_of_lt this, fun _ _ _ => this⟩
      rw [divide_line] at h
      cases hstep : phase.step (lineNo + 1) line.trim with
      | more next =>
        rw [hstep] at h
        exact (ih h).1
      | done item =>
        rw [hstep] at h
        exact (ih h).1
      | stuck conditions fault =>
        rw [hstep] at h
        cases h
        exact Nat.lt_succ_self lineNo

/-- With its digest read, a query is the next item, or else a line is missing after it. -/
theorem divide_separator_cases (lineNo : Nat) (conditions : Conditions) (operation : Operation)
    (lines : List Text) :
    let division := divide lineNo (.body conditions (.separator operation)) (lines.map .line)
    (∃ place rest, division = .item (.operation conditions operation) place rest) ∨
      ∃ fault place, division = .failed (some conditions) fault place := by
  induction lines generalizing lineNo with
  | nil => exact .inl ⟨_, _, rfl⟩
  | cons line lines ih =>
    rw [List.map_cons, divide_line, Phase.step_of_script rfl]
    split
    · exact ih (lineNo + 1)
    · simp only [Phase.take, BodyPhase.take]
      split
      · exact .inl ⟨_, _, rfl⟩
      · exact .inr ⟨_, _, rfl⟩

namespace Grammar

variable {line left right : Text}

/-- A digest line leads on to the line after it. -/
theorem AwaitsResult.leads_digest (h : AwaitsResult policy before items conditions query)
    (cut : Text.CutsAt digestMarker (logical line) left right) {count : Nat}
    (hcount : Numeral.Denotes left.trim count) :
    Leads policy 0 .start (before ++ [line]) items
      (.body conditions (.separator (query.expecting (.digest count right.trim)))) := by
  refine h.leads.concat ?_
  rw [step_result (isComment_of_cutsAt cut), take_digest query (isDigest_of_cutsAt cut hcount)]
  rfl

/-- A count that is taken is that of the query, whatever follows it. -/
theorem AwaitsResult.parse_digest (h : AwaitsResult policy before items conditions query)
    (cut : Text.CutsAt digestMarker (logical line) left right) {count : Nat}
    (hcount : Numeral.Denotes left.trim count) (name : Text) (rest : List Text) :
    let operation := query.expecting (.digest count right.trim)
    let result := (parse policy name ((before ++ line :: rest).map .line)).result
    (rest = [] → result =
      .ok (.ofItems policy name (items ++ [.operation conditions operation]))) ∧
    (∀ script, result = .ok script → policy conditions = true →
      script.operations[(items.filterMap (Item.operation? policy)).length]? = some operation) ∧
    ∀ error, result = .error error → before.length + 1 < error.line := by
  intro operation result
  obtain ⟨hitems, hbreak⟩ := (h.leads_digest cut hcount).taken_eq (rest.map .line)
  rw [← List.map_append, ← List.append_cons] at hitems hbreak
  rw [List.length_append, List.length_singleton] at hitems hbreak
  have hstops (others : List Item) :
      upToHalt policy (.operation conditions operation :: others) =
        .operation conditions operation :: upToHalt policy others := rfl
  refine ⟨?_, ?_, ?_⟩
  · rintro rfl
    exact parse_eq_ok_iff.2 ⟨hbreak, congrArg _ hitems.symm⟩
  · intro script hscript hkept
    obtain ⟨hnone, rfl⟩ := parse_eq_ok_iff.1 hscript
    rw [hbreak] at hnone
    rw [hitems]
    rcases divide_separator_cases (before.length + 1) conditions operation rest with
      ⟨place, others, hdivide⟩ | ⟨fault, place, hdivide⟩
    · rw [hdivide, Division.items, hstops, Script.ofItems, List.filterMap_append,
        List.getElem?_append_right (Nat.le_refl _), Nat.sub_self, List.filterMap_cons,
        Item.operation?, if_pos hkept]
      rfl
    · rw [hdivide] at hnone
      cases hnone
  · intro error herror
    obtain ⟨ending, hending, rfl⟩ := parse_eq_error_iff.1 herror
    rw [hbreak] at hending
    have hdivide := eq_of_breakAfter hending
    cases rest with
    | nil => cases hdivide
    | cons next rest => exact (le_line_of_break hdivide).2 next _ rfl

/-- A count that is no numeral is a fault on its line. -/
theorem AwaitsResult.parse_badCount (h : AwaitsResult policy before items conditions query)
    (cut : Text.CutsAt digestMarker (logical line) left right)
    (hcount : ∀ n, ¬ Numeral.Denotes left.trim n) (name : Text) (rest : List Text) :
    (parse policy name ((before ++ line :: rest).map .line)).result =
      .error ⟨name, before.length + 1, .badCount left.trim⟩ := by
  have hstuck : (Phase.body conditions (.result query)).step (before.length + 1) line.trim =
      .stuck (some conditions) (.badCount left.trim) := by
    rw [step_result (isComment_of_cutsAt cut), takeResult_badCount cut hcount]
    rfl
  rw [List.append_cons, List.map_append, h.leads.parse_eq_stuck hstuck]
  rfl

end Grammar

end

/-! ## Numbers of a text -/

/-- A number is taken if it is a numeral: at most one plus sign, one or more digits, and a value
below the bound. Otherwise it is refused. The threshold is then none, and the parse goes on as after
any threshold line, which counts for the threshold only; a count that is refused is a fault on its
line. A count that is taken is that of the query, with the text behind the first marker as its
digest, and no fault is met on its line. -/
theorem numbers_read_or_refused (policy : Policy) (name : Text) :
    (∀ (text : Text) (index : Nat) (description : Text),
      ThresholdAt policy text.lines index description →
      ∃ value : Option Nat,
        (∀ n, value = some n ↔ Numeral.Denotes (Text.trim description) n) ∧
        (∃ script : Script,
          (parse policy name ((text.lines.take (index + 1)).map .line)).result = .ok script ∧
            script.hashThreshold = value) ∧
        BetweenItems policy (text.lines.take (index + 1)) ∧
        (∀ blank, Text.trim blank = [] →
          let before := parseText policy name text
          let after := parse policy name ((text.lines.set index blank).map .line)
          after.decisions = before.decisions ∧ after.messages = before.messages ∧
            ∃ threshold, after.result =
              before.result.map fun script => { script with hashThreshold := threshold }) ∧
        ∀ script, (parseText policy name text).result = .ok script →
          (∀ other found, ThresholdAt policy text.lines other found → other ≤ index) →
          script.hashThreshold = value) ∧
    ∀ (text : Text) (before : List Text) (line : Text) (rest : List Text) (items : List Item)
      (conditions : Conditions) (query : OpenQuery) (left right : Text),
      text.lines = before ++ line :: rest →
      AwaitsResult policy before items conditions query →
      Text.CutsAt digestMarker (logical line) left right →
      (∀ count, Numeral.Denotes (Text.trim left) count →
        let operation := query.expecting (.digest count right.trim)
        (parse policy name ((before ++ [line]).map .line)).result =
          .ok (.ofItems policy name (items ++ [.operation conditions operation])) ∧
        (∀ script, (parseText policy name text).result = .ok script → policy conditions = true →
          script.operations[(items.filterMap (Item.operation? policy)).length]? =
            some operation) ∧
        ∀ error, (parseText policy name text).result = .error error →
          before.length + 1 < error.line) ∧
      ((∀ count, ¬ Numeral.Denotes (Text.trim left) count) →
        ∃ error, (parseText policy name text).result = .error error ∧
          error.diagnostic = ⟨name, before.length + 1, .malformedDirective,
            "invalid value count ".toList ++ Text.quoted (Text.trim left)⟩) := by
  constructor
  · intro text index description h
    obtain ⟨items, hleads⟩ := h.exists_leads
    refine ⟨Numeral.ofText? (Text.trim description), fun n => Numeral.ofText?_eq_some_iff, ?_, ?_,
      fun blank hblank => (h.blanked hblank).inStep.parse_eq name,
      fun script hscript hlast => h.hashThreshold_eq hlast hscript⟩
    · refine ⟨_, hleads.parse_eq_ok name, ?_⟩
      simp [Script.ofItems, lastThreshold, Item.threshold?]
    · exact ⟨_, between_iff_leads.1 hleads⟩
  · intro text before line rest items conditions query left right hlines h cut
    rw [parseText, Source.ofText, hlines]
    constructor
    · intro count hcount
      obtain ⟨-, hoperation, herror⟩ := h.parse_digest cut hcount name rest
      exact ⟨(h.parse_digest cut hcount name []).1 rfl, hoperation, herror⟩
    · intro hcount
      exact ⟨_, h.parse_badCount cut hcount name rest, rfl⟩

/-- The first number that is out of range as a threshold and as a count, and a count with a sign and
a leading zero before a digest that has the marker in it again. -/
theorem numbers_read_or_refused_bound :
    let before : List Text := ["query I nosort".toList, "select 1".toList, "----".toList]
    let output : Output :=
      ⟨[.integer], .asProduced, .digest 8 "a values hashing to b".toList⟩
    (∃ script, (parseText .keepAll [] "hash-threshold 18446744073709551616".toList).result =
        .ok script ∧ script.hashThreshold = none) ∧
      (parse .keepAll [] ((before ++ ["+08 values hashing to a values hashing to b".toList]).map
        .line)).result = .ok ⟨[], [.query "select 1".toList 3 output none], 1, none, false⟩ ∧
      ∃ error, (parseText .keepAll []
          ("query I nosort\nselect 1\n----\n".toList ++
            "18446744073709551616 values hashing to a".toList)).result = .error error ∧
        error.diagnostic =
          ⟨[], 4, .malformedDirective, "invalid value count '18446744073709551616'".toList⟩ := by
  intro before output
  obtain ⟨hthreshold, hcount⟩ := numbers_read_or_refused .keepAll []
  have hrefused : Numeral.ofText? "18446744073709551616".toList = none := by decide +kernel
  have hnumeral : ∀ n, ¬ Numeral.Denotes "18446744073709551616".toList n := fun n hn => by
    rw [← Numeral.ofText?_eq_some_iff, hrefused] at hn
    cases hn
  have hawaits : AwaitsResult .keepAll before [] .none
      ⟨⟨[.integer], .asProduced, none⟩, ["select 1".toList], 3⟩ :=
    ⟨⟨[], [], before, [], rfl, .nil, nofun, names_ofLines [],
      ⟨⟨[], " I nosort".toList, ⟨by decide +kernel, before.dropLast, _, rfl, by decide⟩, nofun,
        nofun, QueryHeader.ofText_eq_ok_iff.1 (by decide +kernel)⟩, by decide, rfl⟩, rfl⟩, nofun⟩
  refine ⟨?_, ?_, ?_⟩
  · obtain ⟨value, hvalue, ⟨script, hscript, rfl⟩, -⟩ :=
      hthreshold "hash-threshold 18446744073709551616".toList 0 " 18446744073709551616".toList
        ⟨⟨[], .nil, nofun⟩, by decide +kernel⟩
    refine ⟨script, hscript, Option.eq_none_iff_forall_ne_some.2 fun n hn => ?_⟩
    exact hnumeral n ((hvalue n).1 hn)
  · have htaken := (hcount
      "query I nosort\nselect 1\n----\n+08 values hashing to a values hashing to b".toList before
      "+08 values hashing to a values hashing to b".toList [] [] .none _ "+08 ".toList
      " a values hashing to b".toList (by decide +kernel) hawaits
      (Text.cutAround?_eq_some_iff.1 (by decide +kernel))).1 8
      (Numeral.ofText?_eq_some_iff.1 (by decide +kernel))
    exact htaken.1.trans (by decide +kernel)
  · exact (hcount _ before "18446744073709551616 values hashing to a".toList [] [] .none _
      "18446744073709551616 ".toList " a".toList (by decide +kernel) hawaits
      (Text.cutAround?_eq_some_iff.1 (by decide +kernel))).2 hnumeral

end LogicTest
