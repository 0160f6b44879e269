import LogicTest.Proofs.Grammar.Segments
import LogicTest.Proofs.Grammar.SourceLines

/-!
# Where the queries of a script are

The line that a parse gives for a query is found in the text itself: it is that of the first
delimiter after the header of the query, or the last line of the text if no delimiter comes after
the header. What stands between the two lines is the SQL. The lines of different queries are in the
order of the queries, with at least a header between them.
-/
namespace LogicTest.Grammar

/-- Line `lineNo`, counted from one, is the header of a query. -/
def HeaderAt (lines : List Text) (header : QueryHeader) : Nat → Prop
  | 0 => False
  | index + 1 => ∃ description, QueryHeader.Denotes description header ∧
      lines[index]?.map logical = some ("query".toList ++ description)

/-- The lines after one line and before another, both counted from one. -/
def linesBetween (lines : List Text) (first last : Nat) : List Text :=
  (lines.take (last - 1)).drop first

/-- The SQL runs from the header of a query to the first delimiter after it. -/
structure Delimited (lines : List Text) (headerLine sourceLine : Nat) (sql : Text) : Prop where
  delimiter : DelimiterAt lines sourceLine
  first : ∀ lineNo, headerLine < lineNo → lineNo < sourceLine → ¬ DelimiterAt lines lineNo
  sql_eq : sql = joined (logicalLines (linesBetween lines headerLine sourceLine))

/-- The SQL runs from the header of a query to the end of the text. -/
structure Undelimited (lines : List Text) (headerLine sourceLine : Nat) (sql : Text) : Prop where
  sourceLine_eq : sourceLine = lines.length
  undelimited : ∀ lineNo, headerLine < lineNo → ¬ DelimiterAt lines lineNo
  sql_eq : sql = joined (logicalLines (lines.drop headerLine))

/-! ## Logical lines and the lines they are of -/

theorem ne_nil_of_logicalLines_ne_nil {lines : List Text} (h : logicalLines lines ≠ []) :
    lines ≠ [] := by
  rintro rfl
  exact h rfl

/-- A comment does not read like a delimiter, so a line that does is a logical line. -/
theorem delimiter_mem_logicalLines {lines : List Text} {line : Text} (hline : line ∈ lines)
    (h : logical line = resultDelimiter) : resultDelimiter ∈ logicalLines lines := by
  have hcomment : isComment line.trim = false :=
    isComment_of_logical_ne_nil (h ▸ List.cons_ne_nil _ _)
  exact List.mem_map.2 ⟨line, List.mem_filter.2 ⟨hline, by simp [hcomment]⟩, h⟩

/-! ## A header and the lines after it -/

section
variable {one sql : List Text} {header : Text}

theorem getElem?_after_header (rest : List Text) (index : Nat) :
    (one ++ header :: rest)[one.length + 1 + index]? = rest[index]? := by
  rw [List.getElem?_append_right (by omega),
    show one.length + 1 + index - one.length = index + 1 by omega, List.getElem?_cons_succ]

theorem drop_header (rest : List Text) : (one ++ header :: rest).drop (one.length + 1) = rest := by
  have hlength : one.length + 1 = (one ++ [header]).length := by simp
  rw [List.append_cons, hlength, List.drop_left]

theorem headerAt_of_eq {description : Text} {rest : List Text} {parsed : QueryHeader}
    (hheader : logical header = "query".toList ++ description)
    (isHeader : QueryHeader.Denotes description parsed) :
    HeaderAt (one ++ header :: rest) parsed (one.length + 1) := by
  refine ⟨description, isHeader, ?_⟩
  simp [hheader]

variable (h : resultDelimiter ∉ logicalLines sql)

include h

/-- No line of the SQL reads like a delimiter. -/
theorem not_delimiterAt_of_between (rest : List Text) {lineNo : Nat}
    (hfirst : one.length + 1 < lineNo) (hlast : lineNo ≤ one.length + 1 + sql.length) :
    ¬ DelimiterAt (one ++ header :: (sql ++ rest)) lineNo := by
  obtain ⟨index, rfl⟩ : ∃ index, lineNo = one.length + 1 + index + 1 :=
    ⟨lineNo - (one.length + 2), by omega⟩
  have hlt : index < sql.length := by omega
  have hline : (one ++ header :: (sql ++ rest))[one.length + 1 + index]? = some sql[index] := by
    rw [getElem?_after_header, List.getElem?_append_left hlt, List.getElem?_eq_getElem hlt]
  rw [delimiterAt_iff hline]
  exact fun hdelimiter => h (delimiter_mem_logicalLines (List.getElem_mem hlt) hdelimiter)

theorem delimited_of_eq {delimiter : Text} (hdelimiter : logical delimiter = resultDelimiter)
    (rest : List Text) :
    Delimited (one ++ header :: (sql ++ delimiter :: rest)) (one.length + 1)
      (one.length + 1 + sql.length + 1) (joined (logicalLines sql)) where
  delimiter := by
    have hline : (one ++ header :: (sql ++ delimiter :: rest))[one.length + 1 + sql.length]? =
        some delimiter := by
      rw [getElem?_after_header, List.getElem?_append_right (Nat.le_refl _), Nat.sub_self]
      rfl
    rwa [delimiterAt_iff hline]
  first lineNo hfirst hlast := not_delimiterAt_of_between h _ hfirst (by omega)
  sql_eq := by
    rw [linesBetween, Nat.add_sub_cancel, List.drop_take, drop_header, Nat.add_sub_cancel_left,
      List.take_left]

theorem undelimited_of_eq :
    Undelimited (one ++ header :: sql) (one.length + 1) (one.length + 1 + sql.length)
      (joined (logicalLines sql)) where
  sourceLine_eq := by
    simp only [List.length_append, List.length_cons]
    omega
  undelimited lineNo hfirst hfound := by
    have hlast := hfound.le_length
    simp only [List.length_append, List.length_cons] at hlast
    rw [← List.append_nil sql] at hfound
    exact not_delimiterAt_of_between h [] hfirst (by omega) hfound
  sql_eq := by rw [drop_header]

end

/-! ## Queries -/

/-- The lines that form a query: its header and those of its SQL, and after them its delimiter and
its result, or nothing. -/
inductive FormsQuery (start : Nat) : List Text → Close → Operation → Prop where
  | delimited {before header sql delimiter rest description parsed close expected}
      (logical_header : logical header = "query".toList ++ description)
      (isHeader : QueryHeader.Denotes description parsed)
      (undelimited : resultDelimiter ∉ logicalLines sql)
      (logical_delimiter : logical delimiter = resultDelimiter) :
      FormsQuery start (before ++ header :: (sql ++ delimiter :: rest)) close
        (.query (joined (logicalLines sql)) (start + before.length + 1 + sql.length + 1)
          ⟨parsed.columns, parsed.order, expected⟩ parsed.label)
  | undelimited {before header sql description parsed}
      (logical_header : logical header = "query".toList ++ description)
      (isHeader : QueryHeader.Denotes description parsed)
      (undelimited : resultDelimiter ∉ logicalLines sql) (some_line : sql ≠ []) :
      FormsQuery start (before ++ header :: sql) .undelimited
        (.query (joined (logicalLines sql)) (start + before.length + 1 + sql.length)
          ⟨parsed.columns, parsed.order, .values []⟩ parsed.label)

section
variable {start : Nat} {segment : List Text} {close : Close} {sql : Text} {sourceLine : Nat}
  {output : Output} {label : Option Text}

theorem IsOperation.formsQuery {directed : Prop}
    (h : IsOperation start directed segment close (.query sql sourceLine output label)) :
    FormsQuery start segment close (.query sql sourceLine output label) := by
  cases h with
  | @query text result blanks sql description header _ expected lines blank placed isHeader
      undelimited =>
    obtain ⟨init, delimiter, rfl, -, hinit, hdelimiter⟩ := lines.exists_concat
    obtain ⟨before, headerLine, sqlLines, rfl, -, -, hheader, rfl⟩ :=
      exists_line_of_logicalLines_eq hinit
    have hforms : FormsQuery start (before ++ headerLine :: (sqlLines ++ delimiter :: result)) close
        (.query (joined (logicalLines sqlLines))
          (start + before.length + 1 + sqlLines.length + 1)
          ⟨header.columns, header.order, expected⟩ header.label) :=
      .delimited hheader isHeader undelimited hdelimiter
    have hsource : start + (before ++ headerLine :: sqlLines ++ [delimiter]).length =
        start + before.length + 1 + sqlLines.length + 1 := by
      simp only [List.length_append, List.length_cons, List.length_nil]
      omega
    rw [hsource]
    simpa using hforms
  | @queryAtEnd _ blanks sql description header lines blank placed isHeader undelimited some_line =>
    obtain ⟨before, headerLine, sqlLines, rfl, -, -, hheader, rfl⟩ :=
      exists_line_of_logicalLines_eq lines
    have hforms : FormsQuery start (before ++ headerLine :: sqlLines) .undelimited
        (.query (joined (logicalLines sqlLines)) (start + before.length + 1 + sqlLines.length)
          ⟨header.columns, header.order, .values []⟩ header.label) :=
      .undelimited hheader isHeader undelimited (ne_nil_of_logicalLines_ne_nil some_line)
    have hsource : start + (before ++ headerLine :: sqlLines).length =
        start + before.length + 1 + sqlLines.length := by
      simp only [List.length_append, List.length_cons]
      omega
    rwa [hsource]

/-- The directive lines of the record come before. -/
theorem FormsQuery.named_append {named : List Text} {operation : Operation}
    (h : FormsQuery (start + named.length) segment close operation) :
    FormsQuery start (named ++ segment) close operation := by
  cases h with
  | @delimited before header sql delimiter rest description parsed _ expected logical_header
      isHeader undelimited logical_delimiter =>
    have hforms : FormsQuery start ((named ++ before) ++ header :: (sql ++ delimiter :: rest)) close
        (.query (joined (logicalLines sql)) (start + (named ++ before).length + 1 + sql.length + 1)
          ⟨parsed.columns, parsed.order, expected⟩ parsed.label) :=
      .delimited logical_header isHeader undelimited logical_delimiter
    rwa [List.length_append, ← Nat.add_assoc, List.append_assoc] at hforms
  | @undelimited before header sql description parsed logical_header isHeader undelimited
      some_line =>
    have hforms : FormsQuery start ((named ++ before) ++ header :: sql) .undelimited
        (.query (joined (logicalLines sql)) (start + (named ++ before).length + 1 + sql.length)
          ⟨parsed.columns, parsed.order, .values []⟩ parsed.label) :=
      .undelimited logical_header isHeader undelimited some_line
    rwa [List.length_append, ← Nat.add_assoc, List.append_assoc] at hforms

theorem IsItem.formsQuery {conditions : Conditions}
    (h : IsItem start segment close (.operation conditions (.query sql sourceLine output label))) :
    FormsQuery start segment close (.query sql sourceLine output label) := by
  cases h with
  | operation _ _ isOperation => exact isOperation.formsQuery.named_append

theorem FormsQuery.sourceLine_bounds
    (h : FormsQuery start segment close (.query sql sourceLine output label)) :
    start + 2 ≤ sourceLine ∧ sourceLine ≤ start + segment.length := by
  cases h with
  | delimited =>
    simp only [List.length_append, List.length_cons]
    omega
  | undelimited _ _ _ some_line =>
    have hsome := List.length_pos_iff.2 some_line
    simp only [List.length_append, List.length_cons]
    omega

/-- A query is where its lines are among those of a text. -/
theorem FormsQuery.located {before after : List Text}
    (h : FormsQuery before.length segment close (.query sql sourceLine output label))
    (hafter : close ≠ .line → after = []) :
    ∃ headerLine,
      HeaderAt (before ++ (segment ++ after)) ⟨output.columns, output.order, label⟩ headerLine ∧
      headerLine < sourceLine ∧
      (Delimited (before ++ (segment ++ after)) headerLine sourceLine sql ∨
        Undelimited (before ++ (segment ++ after)) headerLine sourceLine sql ∧
          close = .undelimited ∧ output.expected = .values []) := by
  cases h with
  | @delimited init header sql delimiter rest description parsed _ expected logical_header isHeader
      undelimited logical_delimiter =>
    have hlines : before ++ (init ++ header :: (sql ++ delimiter :: rest) ++ after) =
        (before ++ init) ++ header :: (sql ++ delimiter :: (rest ++ after)) := by simp
    rw [hlines, ← List.length_append]
    exact ⟨_, headerAt_of_eq logical_header isHeader, by omega,
      .inl (delimited_of_eq undelimited logical_delimiter _)⟩
  | @undelimited init header sql description parsed logical_header isHeader undelimited some_line =>
    have hlines : before ++ (init ++ header :: sql ++ after) =
        (before ++ init) ++ header :: sql := by simp [hafter nofun]
    have hsome := List.length_pos_iff.2 some_line
    rw [hlines, ← List.length_append]
    exact ⟨_, headerAt_of_eq logical_header isHeader, by omega,
      .inr ⟨undelimited_of_eq undelimited, rfl, rfl⟩⟩

end

/-! ## All of them -/

theorem IsItem.sourceLine_bounds {start : Nat} {segment : List Text} {close : Close} {item : Item}
    (h : IsItem start segment close item) :
    ∀ sourceLine ∈ item.sourceLine?,
      start + 2 ≤ sourceLine ∧ sourceLine ≤ start + segment.length := by
  intro sourceLine hsource
  cases item with
  | operation conditions operation =>
    cases operation with
    | statement => cases hsource
    | query =>
      cases hsource
      exact h.formsQuery.sourceLine_bounds
  | _ => cases hsource

/-- The lines of the queries of a script, in the order of its items. -/
def sourceLines (items : List Item) : List Nat := items.filterMap Item.sourceLine?

theorem Cuts.sourceLines_sorted {start : Nat} {lines : List Text} {items : List Item}
    (h : Cuts start lines items none) :
    (sourceLines items).Pairwise (· < ·) ∧
      ∀ sourceLine ∈ sourceLines items,
        start + 2 ≤ sourceLine ∧ sourceLine ≤ start + lines.length := by
  generalize hending : (none : Option Break) = ending at h
  induction h with
  | tail isTail =>
    cases isTail with
    | comments => exact ⟨.nil, nofun⟩
    | @item _ item isItem =>
      have hbounds := isItem.sourceLine_bounds
      cases hsource : item.sourceLine? with
      | none => simp [sourceLines, hsource]
      | some sourceLine => simpa [sourceLines, hsource] using hbounds
  | broken => cases hending
  | @item start segment lines item items ending first others ih =>
    obtain ⟨hsorted, hbounds⟩ := ih hending
    have hothers : ∀ sourceLine ∈ sourceLines items,
        start + 2 ≤ sourceLine ∧ sourceLine ≤ start + (segment ++ lines).length := by
      intro sourceLine hsource
      have hbound := hbounds sourceLine hsource
      rw [List.length_append]
      omega
    cases hfirst : item.sourceLine? with
    | none =>
      rw [sourceLines, List.filterMap_cons_none hfirst]
      exact ⟨hsorted, hothers⟩
    | some sourceLine =>
      have hbound := first.sourceLine_bounds sourceLine hfirst
      rw [sourceLines, List.filterMap_cons_some hfirst]
      refine ⟨.cons (fun other hother => ?_) hsorted, List.forall_mem_cons.2 ⟨?_, hothers⟩⟩
      · have hother := hbounds other hother
        omega
      · rw [List.length_append]
        omega

theorem sourceLine_operation? (policy : Policy) (item : Item) :
    (item.operation? policy).bind Operation.sourceLine? = none ∨
      (item.operation? policy).bind Operation.sourceLine? = item.sourceLine? := by
  cases item with
  | operation conditions operation =>
    cases hkept : policy conditions with
    | false => exact .inl (by simp [Item.operation?, hkept])
    | true => exact .inr (by simp [Item.operation?, hkept, Item.sourceLine?])
  | _ => exact .inl rfl

/-- The queries of a script are among those of its items. -/
theorem sourceLines_sublist (policy : Policy) (name : Text) (items : List Item) :
    ((Script.ofItems policy name items).operations.filterMap Operation.sourceLine?).Sublist
      (sourceLines items) := by
  simp only [Script.ofItems, sourceLines, List.filterMap_filterMap]
  induction items with
  | nil => exact .slnil
  | cons item items ih =>
    rcases sourceLine_operation? policy item with hnone | hsome
    · simp only [List.filterMap_cons, hnone]
      split
      · exact ih
      · exact ih.cons _
    · simp only [List.filterMap_cons, hsome]
      split
      · exact ih
      · exact ih.cons_cons _

/-- Each query of a script that is parsed is where its source line says: this is the line of the
first delimiter after its header, or the last line if the text ends before a delimiter. -/
theorem parse_queries_located {policy : Policy} {name text : Text} {script : Script}
    (h : (parseText policy name text).result = .ok script) :
    (script.operations.filterMap Operation.sourceLine?).Pairwise (· < ·) ∧
    (∀ sourceLine ∈ script.operations.filterMap Operation.sourceLine?,
      2 ≤ sourceLine ∧ sourceLine ≤ text.lines.length) ∧
    ∀ sql sourceLine output label, .query sql sourceLine output label ∈ script.operations →
      ∃ headerLine, HeaderAt text.lines ⟨output.columns, output.order, label⟩ headerLine ∧
        headerLine < sourceLine ∧
        (Delimited text.lines headerLine sourceLine sql ∨
          Undelimited text.lines headerLine sourceLine sql ∧ output.expected = .values [] ∧
            script.halted = false ∧ ∃ items conditions, Cuts 0 text.lines
              (items ++ [.operation conditions (.query sql sourceLine output label)]) none) := by
  obtain ⟨items, haccepts, rfl⟩ : ∃ items, Accepts policy text.lines items ∧
      script = .ofItems policy name items := by
    obtain ⟨hbreak, hscript⟩ := parse_eq_ok_iff.1 h
    exact ⟨_, accepts_division hbreak, hscript⟩
  obtain ⟨read, rest, hread, hcuts, -⟩ := haccepts.exists_cuts
  obtain ⟨hsorted, hbounds⟩ := hcuts.sourceLines_sorted
  have hsublist := sourceLines_sublist policy name items
  refine ⟨hsorted.sublist hsublist, ?_, ?_⟩
  · intro sourceLine hsource
    have hbound := hbounds sourceLine (hsublist.subset hsource)
    rw [hread, List.length_append]
    omega
  · intro sql sourceLine output label hquery
    obtain ⟨conditions, hitem, -⟩ := exists_item_of_mem_operations hquery
    obtain ⟨before, segment, after, close, hlines, isItem, hlast⟩ := haccepts.exists_segment hitem
    obtain ⟨headerLine, hheader, hlt, hwhere⟩ :=
      isItem.formsQuery.located fun hclose => (hlast hclose).1
    rw [← hlines] at hheader hwhere
    refine ⟨headerLine, hheader, hlt, hwhere.imp_right ?_⟩
    rintro ⟨hundelimited, rfl, hexpected⟩
    obtain ⟨-, hgetLast, hall, hrunning⟩ := hlast nofun
    obtain ⟨init, hinit⟩ := List.getLast?_eq_some_iff.1 hgetLast
    refine ⟨hundelimited, hexpected, ?_, init, conditions, hinit ▸ hall⟩
    simpa [Script.ofItems] using hrunning

/-- The last query of this text has no delimiter, and a blank line before its header. -/
theorem parse_queries_located_undelimited :
    let text : Text :=
      "query I nosort\nselect 1\n# a\n----\n1\n\nskipif x\n\nquery T rowsort\nselect\n2".toList
    let second : Operation :=
      .query "select 2".toList 11 ⟨[.text], .byRow, .values []⟩ none
    ∃ first, (parseText .keepAll [] text).result = .ok ⟨[], [first, second], 2, none, false⟩ ∧
      ∃ headerLine, HeaderAt text.lines ⟨[.text], .byRow, none⟩ headerLine ∧ headerLine < 11 ∧
        Undelimited text.lines headerLine 11 "select 2".toList := by
  intro text second
  let first : Operation :=
    .query "select 1".toList 4 ⟨[.integer], .asProduced, .values ["1".toList]⟩ none
  have hresult : (parseText .keepAll [] text).result = .ok ⟨[], [first, second], 2, none, false⟩ :=
    parse_eq_ok_iff.2 ⟨by decide +kernel, by decide +kernel⟩
  obtain ⟨headerLine, hheader, hlt, hwhere⟩ :=
    (parse_queries_located hresult).2.2 _ _ _ _ (List.mem_cons_of_mem first List.mem_cons_self)
  have hdelimiter : ¬ DelimiterAt text.lines 11 := by decide +kernel
  refine ⟨first, hresult, headerLine, hheader, hlt, ?_⟩
  exact (hwhere.resolve_left fun hdelimited => hdelimiter hdelimited.delimiter).1

end LogicTest.Grammar
