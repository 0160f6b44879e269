import LogicTest.Proofs.Grammar.Extent
import LogicTest.Proofs.Grammar.SourceLines

/-!
# Comments

A comment that is put into a script changes nothing but the numbers of the lines after it, and a
comment at the end of a line changes nothing at all, unless it comes among the values of a result,
where it is a value. Main statement: `parse_commented`.
-/
namespace LogicTest
open Grammar

/-! ## Line numbers with another line before line `k` -/

/-- The number that line `lineNo` has when another line is put before line `k`. -/
def lineAfterInsert (k lineNo : Nat) : Nat := if k ≤ lineNo then lineNo + 1 else lineNo

/-- The line that a query is said to be on then. Where the text of a query runs to the end of the
input, this is the last line still. -/
def queryLineAfterInsert (lines : List Text) (k lineNo : Nat) : Nat :=
  if lineNo = lines.length ∧ ¬ DelimiterAt lines lineNo then lines.length + 1
  else lineAfterInsert k lineNo

/-- The line that a fault is reported of then. The input ends with its last line still. -/
def faultLineAfterInsert (lines : List Text) (k : Nat) (fault : Fault) (lineNo : Nat) : Nat :=
  if fault.kind = .prematureEnd then lines.length + 1 else lineAfterInsert k lineNo

def Script.afterInsert (lines : List Text) (k : Nat) (script : Script) : Script :=
  { script with operations := script.operations.map (.renumber (queryLineAfterInsert lines k)) }

def ScriptError.afterInsert (lines : List Text) (k : Nat) (error : ScriptError) : ScriptError :=
  { error with line := faultLineAfterInsert lines k error.fault error.line }

def Break.afterInsert (lines : List Text) (k : Nat) (ending : Break) : Break :=
  { ending with line := faultLineAfterInsert lines k ending.fault ending.line }

/-- After these lines a parse takes the next line as data: as a value of a result, or as the blank
line that ends the values, whatever it looks like. -/
def AmidValues (policy : Policy) (lines : List Text) : Prop :=
  ∃ items last, Leads policy 0 .start lines items last ∧ last.kind = .data

section
variable {lines : List Text} {k lineNo : Nat}

theorem lineAfterInsert_of_lt (h : lineNo < k) : lineAfterInsert k lineNo = lineNo :=
  if_neg (Nat.not_le.2 h)

theorem lineAfterInsert_of_le (h : k ≤ lineNo) : lineAfterInsert k lineNo = lineNo + 1 := if_pos h

theorem queryLineAfterInsert_of_delimiter (hdelimiter : DelimiterAt lines lineNo)
    (h : lineNo < k) : queryLineAfterInsert lines k lineNo = lineNo := by
  rw [queryLineAfterInsert, if_neg fun hend => hend.2 hdelimiter, lineAfterInsert_of_lt h]

theorem queryLineAfterInsert_append (hdelimiter : DelimiterAt lines lineNo) (rest : List Text)
    (h : lines.length < k) : queryLineAfterInsert (lines ++ rest) k lineNo = lineNo :=
  queryLineAfterInsert_of_delimiter (hdelimiter.append rest)
    (Nat.lt_of_le_of_lt hdelimiter.le_length h)

/-- Before the end of the input, a query is renumbered like the line that it is on. -/
theorem queryLineAfterInsert_of_le (h : k ≤ lines.length) :
    queryLineAfterInsert lines k = lineAfterInsert k := by
  funext lineNo
  rw [queryLineAfterInsert]
  split
  next hend => rw [hend.1, lineAfterInsert_of_le h]
  · rfl

theorem faultLineAfterInsert_of_lt {fault : Fault} (hkind : fault.kind ∈ FaultKind.ofLine)
    (h : lineNo < k) : faultLineAfterInsert lines k fault lineNo = lineNo := by
  have hne : fault.kind ≠ .prematureEnd := by
    intro heq
    rw [heq] at hkind
    exact absurd hkind (by decide)
  rw [faultLineAfterInsert, if_neg hne, lineAfterInsert_of_lt h]

end

/-! ## What is taken up -/

theorem ofItems_afterInsert (policy : Policy) (name : Text) (lines : List Text) (k : Nat)
    (items : List Item) :
    Script.ofItems policy name (items.map (.renumber (queryLineAfterInsert lines k))) =
      (Script.ofItems policy name items).afterInsert lines k := by
  simp only [Script.ofItems, Script.afterInsert, operation?_renumber, countP_isQuery_renumber,
    lastThreshold_renumber, any_stops_renumber]

/-- A parse takes up of `after` what it takes up of `before`, under the numbers that lines have with
another one before line `k`. -/
structure TakenUpAfterInsert (policy : Policy) (lines : List Text) (k : Nat)
    (before after : Source) : Prop where
  items_eq : upToHalt policy after.division.items =
    (upToHalt policy before.division.items).map (.renumber (queryLineAfterInsert lines k))
  break_eq : breakAfter policy after.division.items after.division.break? =
    (breakAfter policy before.division.items before.division.break?).map (.afterInsert lines k)

namespace TakenUpAfterInsert

variable {policy : Policy} {lines : List Text} {k : Nat} {before after : Source}

theorem decisions_eq (h : TakenUpAfterInsert policy lines k before after) (name : Text) :
    (parse policy name after).decisions = (parse policy name before).decisions := by
  rw [parse_decisions, parse_decisions, asked, asked, h.items_eq, h.break_eq,
    conditions?_renumber]
  cases breakAfter policy before.division.items before.division.break? <;> rfl

theorem result_eq (h : TakenUpAfterInsert policy lines k before after) (name : Text) :
    (parse policy name after).result =
      match (parse policy name before).result with
      | .ok script => .ok (script.afterInsert lines k)
      | .error error => .error (error.afterInsert lines k) := by
  rw [parse_result, parse_result, h.items_eq, h.break_eq, ofItems_afterInsert]
  cases breakAfter policy before.division.items before.division.break? <;> rfl

end TakenUpAfterInsert

namespace Leads

variable {policy : Policy} {lines : List Text} {items : List Item} {last : Phase}

/-- After lines that lead it on, a parse takes up their items and then what is left to divide. -/
theorem taken_eq (h : Leads policy 0 .start lines items last) (rest : Source) :
    upToHalt policy (Source.division (lines.map .line ++ rest)).items =
        items ++ upToHalt policy (divide lines.length last rest).items ∧
      breakAfter policy (Source.division (lines.map .line ++ rest)).items
          (Source.division (lines.map .line ++ rest)).break? =
        breakAfter policy (divide lines.length last rest).items
          (divide lines.length last rest).break? := by
  obtain ⟨hitems, hbreak⟩ := h.division_eq rest
  rw [Nat.zero_add, ← Source.division] at hitems hbreak
  rw [hitems, hbreak, upToHalt_append h.running, breakAfter_append h.running]
  exact ⟨rfl, rfl⟩

/-- Nothing changes in the numbers of what comes before the line that is put in. -/
theorem renumber_items (h : Leads policy 0 .start lines items last) (rest : List Text) {k : Nat}
    (hk : lines.length < k) :
    items.map (.renumber (queryLineAfterInsert (lines ++ rest) k)) = items := by
  obtain ⟨hplaced, -⟩ := h.placed List.prefix_rfl trivial
  exact Item.map_renumber_eq_self fun item hitem found hfound =>
    queryLineAfterInsert_append ((hplaced item hitem).sourceLine found hfound) rest hk

theorem renumber_last (h : Leads policy 0 .start lines items last) (rest : List Text) {k : Nat}
    (hk : lines.length < k) :
    last.renumber (queryLineAfterInsert (lines ++ rest) k) = last := by
  obtain ⟨-, hplaced⟩ := h.placed List.prefix_rfl trivial
  exact Phase.renumber_eq_self fun found hfound =>
    queryLineAfterInsert_append (hplaced.sourceLine found hfound) rest hk

/-- Behind a line that stops it, a parse takes up nothing. -/
theorem taken_of_stops (h : Leads policy 0 .start lines items last) {line : Text}
    (stops : (last.step (lines.length + 1) line.trim).Stops policy) :
    ∃ final ending, (∀ f, final.map (.renumber f) = final) ∧
      (∀ found ∈ ending, found.fault.kind ∈ FaultKind.ofLine ∧ found.line = lines.length + 1) ∧
      ∀ rest : List Text,
        let division := Source.division ((lines ++ line :: rest).map .line)
        upToHalt policy division.items = items ++ final ∧
          breakAfter policy division.items division.break? = ending := by
  have htaken : ∀ rest : List Text,
      divide lines.length last ((line :: rest).map .line) =
        proceed ⟨rest.map .line, lines.length + 1, none, false⟩
          (last.step (lines.length + 1) line.trim) := fun rest => divide_line ..
  rcases stops with ⟨conditions, hhalt, hkept⟩ | ⟨conditions, fault, hstuck⟩
  · refine ⟨[.halt conditions], none, fun _ => rfl, nofun, fun rest => ?_⟩
    have hstops : (Item.halt conditions).stops policy = true := hkept
    obtain ⟨hitems, hbreak⟩ := h.taken_eq ((line :: rest).map .line)
    rw [htaken, hhalt, proceed, Division.items, ← List.map_append] at hitems hbreak
    rw [upToHalt, if_pos hstops] at hitems
    rw [breakAfter_cons_of_stops hstops] at hbreak
    exact ⟨hitems, hbreak⟩
  · refine ⟨[], some ⟨conditions, fault, lines.length + 1⟩, fun _ => rfl, ?_, fun rest => ?_⟩
    · rintro found ⟨⟩
      exact ⟨h.kind_mem hstuck, rfl⟩
    · obtain ⟨hitems, hbreak⟩ := h.taken_eq ((line :: rest).map .line)
      rw [htaken, hstuck, ← List.map_append] at hitems hbreak
      exact ⟨hitems, hbreak⟩

end Leads

/-! ## Where the line is put in -/

theorem break_line {lines : List Text} {ending : Break}
    (h : (Source.division (lines.map .line)).break? = some ending)
    (hkind : ending.fault.kind = .prematureEnd) : ending.line = lines.length := by
  have hrunning : ∀ item ∈ (Source.division (lines.map .line)).items,
      item.stops .keepNone = false := fun item _ => by cases item <;> rfl
  have herror : (parse .keepNone [] (lines.map .line)).result =
      .error ⟨[], ending.line, ending.fault⟩ := by
    rw [parse_result, breakAfter_of_running hrunning, h]
  have hlocated := (located_of_parse_error herror).2
  rw [hkind] at hlocated
  exact hlocated.line_eq_of_prematureEnd

/-- With one more line before it, the end of the input makes the same of a phase. -/
theorem Phase.Placed.finish_afterInsert {lines : List Text} {phase : Phase}
    (h : phase.Placed lines lines.length) :
    (phase.finish ⟨[], lines.length + 1, none, true⟩).items =
        (phase.finish ⟨[], lines.length, none, true⟩).items.map
          (.renumber (queryLineAfterInsert lines (lines.length + 1))) ∧
      (phase.finish ⟨[], lines.length + 1, none, true⟩).break? =
        (phase.finish ⟨[], lines.length, none, true⟩).break?.map
          (.afterInsert lines (lines.length + 1)) := by
  cases phase with
  | body conditions phase =>
    cases phase with
    | statement header gathered => cases gathered <;> exact ⟨rfl, rfl⟩
    | heading => exact ⟨rfl, rfl⟩
    | text header gathered =>
      have hline : queryLineAfterInsert lines (lines.length + 1) lines.length =
          lines.length + 1 := if_pos ⟨rfl, h⟩
      cases gathered with
      | nil => exact ⟨rfl, rfl⟩
      | cons first gathered =>
        let query (lineNo : Nat) : OpenQuery := ⟨header, first :: gathered, lineNo⟩
        exact ⟨congrArg (fun lineNo => [Item.operation conditions ((query lineNo).expecting _)])
          hline.symm, rfl⟩
    | result | values | separator =>
      refine ⟨congrArg (fun found => [Item.operation conditions found]) (Eq.symm ?_), rfl⟩
      refine Operation.renumber_eq_self fun found hfound => ?_
      have hdelimiter := Phase.Placed.sourceLine h found hfound
      exact queryLineAfterInsert_of_delimiter hdelimiter (Nat.lt_succ_of_le hdelimiter.le_length)
  | _ => exact ⟨rfl, rfl⟩

section
variable {policy : Policy} {one : List Text} {items : List Item} {last : Phase}

/-- What is divided one line further down, where the line has been put in. -/
theorem Leads.divide_afterInsert (h : Leads policy 0 .start one items last) (two : List Text) :
    (divide (one.length + 1) last (two.map .line)).items =
        (divide one.length last (two.map .line)).items.map
          (.renumber (queryLineAfterInsert (one ++ two) (one.length + 1))) ∧
      (divide (one.length + 1) last (two.map .line)).break? =
        (divide one.length last (two.map .line)).break?.map
          (.afterInsert (one ++ two) (one.length + 1)) := by
  cases two with
  | nil =>
    -- the new line is the last one, so it is the phase that tells which queries are on it
    obtain ⟨-, hplaced⟩ := h.placed List.prefix_rfl trivial
    rw [Nat.zero_add] at hplaced
    rw [List.append_nil]
    exact hplaced.finish_afterInsert
  | cons line two =>
    -- the last line is behind the new one, whether or not a query is on it that has no delimiter
    have hk : one.length + 1 ≤ (one ++ line :: two).length := by simp
    have hlast := h.renumber_last (line :: two) (Nat.lt_succ_self one.length)
    have hwhole := (h.division_eq ((line :: two).map .line)).2
    rw [queryLineAfterInsert_of_le hk] at hlast ⊢
    rw [← List.map_append, ← Source.division, Nat.zero_add] at hwhole
    have hnext : ∀ i, 0 < i →
        lineAfterInsert (one.length + 1) (one.length + i) = one.length + 1 + i := fun i hi => by
      rw [lineAfterInsert_of_le (Nat.add_le_add_left hi _), Nat.add_right_comm]
    obtain ⟨hitems, hbreak⟩ := divide_renumber _ last hnext fun hend =>
      (hend line (two.map .line) rfl).elim
    rw [hlast] at hitems hbreak
    refine ⟨hitems, hbreak.trans (Option.map_congr fun ending hending => ?_)⟩
    rw [Break.renumber, Break.afterInsert, faultLineAfterInsert]
    split
    next hkind => rw [break_line (hwhole.trans hending) hkind, lineAfterInsert_of_le hk]
    · rfl

/-- A comment that is put in where it is not data is passed over. -/
theorem Leads.concat_comment (h : Leads policy 0 .start one items last)
    (hscript : last.kind = .script) {comment : Text} (hcomment : isComment comment.trim = true) :
    Leads policy 0 .start (one ++ [comment]) items last :=
  h.concat (by rw [Phase.step_of_script hscript, if_pos hcomment])

theorem takenUpAfterInsert_of_leads (h : Leads policy 0 .start one items last)
    (hscript : last.kind = .script) {comment : Text} (hcomment : isComment comment.trim = true)
    (two : List Text) :
    TakenUpAfterInsert policy (one ++ two) (one.length + 1) ((one ++ two).map .line)
      ((one ++ comment :: two).map .line) := by
  obtain ⟨hitems, hbreak⟩ := h.divide_afterInsert two
  obtain ⟨hbefore, hbefore_break⟩ := h.taken_eq (two.map .line)
  obtain ⟨hafter, hafter_break⟩ := (h.concat_comment hscript hcomment).taken_eq (two.map .line)
  rw [← List.map_append] at hbefore hbefore_break
  rw [← List.map_append, ← List.append_cons, List.length_append, List.length_singleton, hitems]
    at hafter hafter_break
  constructor
  · rw [hafter, hbefore, upToHalt_renumber, List.map_append,
      h.renumber_items two (Nat.lt_succ_self _)]
  · rw [hafter_break, hbefore_break, hbreak, breakAfter_renumber]

theorem takenUpAfterInsert_of_stops {line : Text} (h : Leads policy 0 .start one items last)
    (stops : (last.step (one.length + 1) line.trim).Stops policy) {k : Nat}
    (hk : one.length + 1 < k) (rest two : List Text) :
    TakenUpAfterInsert policy (one ++ line :: rest) k ((one ++ line :: rest).map .line)
      ((one ++ line :: two).map .line) := by
  obtain ⟨final, ending, hfinal, hending, htaken⟩ := h.taken_of_stops stops
  obtain ⟨hbefore, hbefore_break⟩ := htaken rest
  obtain ⟨hafter, hafter_break⟩ := htaken two
  constructor
  · rw [hafter, hbefore, List.map_append, h.renumber_items (line :: rest) (by omega), hfinal]
  · rw [hafter_break, hbefore_break]
    cases ending with
    | none => rfl
    | some found =>
      obtain ⟨hkind, hline⟩ := hending found rfl
      rw [Option.map_some, Break.afterInsert, faultLineAfterInsert_of_lt hkind (by omega)]

end

/-! ## Comments -/

section
variable {policy : Policy} {one : List Text}

theorem Leads.kind_eq_script {items : List Item} {last : Phase}
    (h : Leads policy 0 .start one items last) (outside : ¬ AmidValues policy one) :
    last.kind = .script := by
  cases hkind : last.kind with
  | data => exact absurd ⟨items, last, h, hkind⟩ outside
  | script => rfl

/-- A comment line that is not among values. -/
theorem takenUpAfterInsert_comment (outside : ¬ AmidValues policy one) {comment : Text}
    (hcomment : isComment comment.trim = true) (two : List Text) :
    TakenUpAfterInsert policy (one ++ two) (one.length + 1) ((one ++ two).map .line)
      ((one ++ comment :: two).map .line) := by
  rcases leads_or_stops policy 0 .start one with
    ⟨items, last, hleads⟩ | ⟨read, line, rest, items, last, rfl, hleads, hstops⟩
  · exact takenUpAfterInsert_of_leads hleads (hleads.kind_eq_script outside) hcomment two
  · rw [Nat.zero_add] at hstops
    simp only [List.append_assoc, List.cons_append]
    exact takenUpAfterInsert_of_stops hleads hstops (by simp) _ _

/-- A comment at the end of a line that is not among values. -/
theorem parse_append_comment (outside : ¬ AmidValues policy one) (name : Text) {line : Text}
    (hline : line.trim ≠ []) (others : List Text) (comment : Text) :
    let before := parse policy name ((one ++ line :: others).map .line)
    let after := parse policy name ((one ++ (line ++ '#' :: comment) :: others).map .line)
    after.result = before.result ∧ after.decisions = before.decisions ∧
      after.messages = before.messages := by
  intro before after
  rcases leads_or_stops policy 0 .start one with
    ⟨items, last, hleads⟩ | ⟨read, final, rest, items, last, rfl, hleads, hstops⟩
  · have hscript := hleads.kind_eq_script outside
    have hstep : last.step (one.length + 1) (Text.trim (line ++ '#' :: comment)) =
        last.step (one.length + 1) line.trim := by
      rw [Phase.step_of_script hscript, Phase.step_of_script hscript, withoutComment_trim,
        withoutComment_trim, logical_append_comment hline, isComment_append_comment hline]
    have hsame : after = before := by
      have hparse := fun line => hleads.parse_concat name line (others.map .line)
      simp only [← List.map_append, ← List.append_cons] at hparse
      exact (hparse _).trans ((congrArg _ (by rw [hstep])).trans (hparse _).symm)
    rw [hsame]
    exact ⟨rfl, rfl, rfl⟩
  · rw [Nat.zero_add] at hstops
    have hparse : ∀ two : List Text, parse policy name ((read ++ final :: rest ++ two).map .line) =
        { parse policy name ((read ++ [final]).map .line ++ []) with
          unread := (rest ++ two).map .line } := fun two => by
      rw [List.append_assoc, List.cons_append, List.append_cons, List.map_append]
      exact (hleads.readsExactly hstops name []).outcome_eq _
    have hbefore : before = _ := hparse _
    have hafter : after = _ := hparse _
    rw [hbefore, hafter]
    exact ⟨rfl, rfl, rfl⟩

end

/-! ## Among values -/

/-- The values that an item expects. -/
def Item.values : Item → List Text
  | .operation _ (.query _ _ output _) =>
    match output.expected with
    | .values lines => lines
    | .digest .. => []
  | _ => []

theorem Item.values_renumber (f : Nat → Nat) (item : Item) :
    (item.renumber f).values = item.values := by
  cases item with
  | operation conditions found => cases found <;> rfl
  | _ => rfl

/-- A line after the values of a query is another value, even if it is a comment. -/
theorem exists_value {start : Nat} {segment : List Text} {item : Item} {line : Text}
    (h : IsItem start segment .input item) (hvalues : item.values ≠ []) (hline : line.trim ≠ []) :
    ∃ longer, IsItem start (segment ++ [line]) .input longer ∧
      longer.values = item.values ++ [line.trim] := by
  cases h with
  | operation directives names isOperation =>
    cases isOperation with
    | statementAtEnd => exact absurd rfl hvalues
    | query lines blank placed isHeader undelimited isResult =>
      cases isResult with
      | emptyAtEnd => exact absurd rfl hvalues
      | digestAtEnd => exact absurd rfl hvalues
      | @valuesAtEnd segment value more first nonempty no_digest others =>
        have hlonger : IsResult (segment ++ (more ++ [line])) .input
            (.values (value :: (more ++ [line]).map Text.trim)) :=
          .valuesAtEnd first nonempty no_digest
            (List.forall_mem_append.2 ⟨others, by simpa using hline⟩)
        rw [List.append_assoc, List.append_assoc, List.append_assoc]
        refine ⟨_, .operation directives names
          (.query lines blank placed isHeader undelimited hlonger), ?_⟩
        simp [Item.values]

theorem upToHalt_of_values {policy : Policy} {body tail : List Text} {items : List Item}
    {item : Item} (hbody : Items 0 body items) (running : ∀ item ∈ items, item.stops policy = false)
    (hitem : IsItem body.length tail .input item) (hvalues : item.values ≠ []) :
    upToHalt policy (Source.division ((body ++ tail).map .line)).items = items ++ [item] := by
  have hitems := (divide_items hbody (tail.map .line)).1
  have htail := (divide_tail (.item hitem nofun)).1
  have hlast : item.stops policy = false := by
    cases item with
    | halt => exact absurd rfl hvalues
    | _ => rfl
  have hrunning : ∀ found ∈ items ++ [item], found.stops policy = false :=
    List.forall_mem_append.2 ⟨running, List.forall_mem_singleton.2 hlast⟩
  rw [Nat.zero_add, htail, ← List.map_append] at hitems
  rw [Source.division, hitems, upToHalt_eq_self hrunning]

/-- After lines that belong to items and to a query with some of its values, and after no others,
a parse takes the next line as data. -/
theorem amidValues_iff {policy : Policy} {lines : List Text} :
    AmidValues policy lines ↔
      ∃ body tail items item, lines = body ++ tail ∧ Items 0 body items ∧
        (∀ item ∈ items, item.stops policy = false) ∧ IsItem body.length tail .input item ∧
        item.values ≠ [] := by
  constructor
  · rintro ⟨items, last, hleads, hkind⟩
    obtain ⟨conditions, query, values, rfl⟩ := Phase.kind_eq_data_iff.1 hkind
    obtain ⟨body, tail, rfl, hbody, hreached⟩ := hleads.exists_items
    cases hreached with
    | body directives reached =>
      cases reached with
      | values isText first nonempty no_digest others =>
        have hoperation := isText.isOperation (.valuesAtEnd first nonempty no_digest others)
        exact ⟨body, _, items, _, rfl, hbody, hleads.running,
          .operation directives (names_ofLines _) hoperation, List.cons_ne_nil _ _⟩
  · rintro ⟨body, tail, items, item, rfl, hbody, running, hitem, hvalues⟩
    -- otherwise a comment would be passed over here, and not be taken as a value
    by_contra outside
    have hsharp : isComment (Text.trim ['#']) = true := by decide
    have hline : Text.trim ['#'] ≠ [] := by decide
    obtain ⟨longer, hlonger, hlonger_values⟩ := exists_value hitem hvalues hline
    have htaken := (takenUpAfterInsert_comment outside hsharp []).items_eq
    rw [List.append_nil, List.append_assoc, upToHalt_of_values hbody running hitem hvalues,
      upToHalt_of_values hbody running hlonger (by simp [hlonger_values]), List.map_append]
      at htaken
    obtain ⟨-, hsame⟩ := List.append_inj' htaken rfl
    have hvalue := congrArg Item.values (List.singleton_injective hsame)
    rw [Item.values_renumber, hlonger_values] at hvalue
    simp at hvalue

theorem AmidValues.exists_last {policy : Policy} {lines : List Text} (h : AmidValues policy lines) :
    ∃ items item, upToHalt policy (Source.division (lines.map .line)).items = items ++ [item] ∧
      item.values ≠ [] := by
  obtain ⟨body, tail, items, item, rfl, hbody, running, hitem, hvalues⟩ := amidValues_iff.1 h
  exact ⟨items, item, upToHalt_of_values hbody running hitem hvalues, hvalues⟩

namespace Grammar

/-- Where the next line is not taken as data, a comment line before it changes nothing but line
numbers, and a comment at its end changes nothing. -/
theorem parse_commented {policy : Policy} {text : Text} {one two : List Text}
    (hlines : text.lines = one ++ two) (outside : ¬ AmidValues policy one) (name : Text) :
    let before := parseText policy name text
    (∀ comment, isComment (Text.trim comment) = true →
      let after := parse policy name ((one ++ comment :: two).map .line)
      after.decisions = before.decisions ∧
        after.result = match before.result with
          | .ok script => .ok (script.afterInsert text.lines (one.length + 1))
          | .error error => .error (error.afterInsert text.lines (one.length + 1))) ∧
    ∀ line others comment, two = line :: others → Text.trim line ≠ [] →
      let after := parse policy name ((one ++ (line ++ '#' :: comment) :: others).map .line)
      after.result = before.result ∧ after.decisions = before.decisions ∧
        after.messages = before.messages := by
  intro before
  have hbefore : before = parse policy name ((one ++ two).map .line) := by
    rw [← hlines]
    rfl
  rw [hbefore, hlines]
  refine ⟨fun comment hcomment => ?_, ?_⟩
  · have htaken := takenUpAfterInsert_comment outside hcomment two
    exact ⟨htaken.decisions_eq name, htaken.result_eq name⟩
  · rintro line others comment rfl hline
    exact parse_append_comment outside name hline others comment

/-- A comment between the delimiter of a query and its first value. The query after it has no
delimiter. -/
theorem parse_commented_result :
    let one : List Text := ["query I nosort".toList, "select 1".toList, "----".toList]
    let two : List Text := ["1".toList, [], "query I nosort".toList, "select 2".toList]
    let text : Text := "query I nosort\nselect 1\n----\n1\n\nquery I nosort\nselect 2".toList
    let output : Output := ⟨[.integer], .asProduced, .values ["1".toList]⟩
    text.lines = one ++ two ∧ ¬ AmidValues .keepAll one ∧
      (parse .keepAll [] ((one ++ " # one".toList :: two).map .line)).result =
        .ok ⟨[], [.query "select 1".toList 3 output none,
          .query "select 2".toList 8 ⟨[.integer], .asProduced, .values []⟩ none],
          2, none, false⟩ := by
  intro one two text output
  have hlines : text.lines = one ++ two := by decide +kernel
  have outside : ¬ AmidValues .keepAll one := by
    intro h
    obtain ⟨items, item, hitems, hvalues⟩ := h.exists_last
    have hlast : upToHalt .keepAll (Source.division (one.map .line)).items =
        [] ++ [.operation .none (.query "select 1".toList 3
          ⟨[.integer], .asProduced, .values []⟩ none)] := by decide +kernel
    obtain ⟨-, hitem⟩ := List.append_inj' (hitems.symm.trans hlast) rfl
    rw [List.singleton_injective hitem] at hvalues
    exact hvalues rfl
  have hresult : (parseText .keepAll [] text).result =
      .ok ⟨[], [.query "select 1".toList 3 output none,
        .query "select 2".toList 7 ⟨[.integer], .asProduced, .values []⟩ none], 2, none, false⟩ :=
    parse_eq_ok_iff.2 ⟨by decide +kernel, by decide +kernel⟩
  have hcommented := ((parse_commented hlines outside []).1 " # one".toList (by decide)).2
  rw [hresult] at hcommented
  refine ⟨hlines, outside, hcommented.trans ?_⟩
  decide +kernel

end Grammar
end LogicTest
