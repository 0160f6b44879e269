import LogicTest.Proofs.Grammar.Segments
import LogicTest.Proofs.Printing.Lines
import LogicTest.Proofs.Source

/-!
# What is parsed can be printed

The converse of the round trip: every operation that a parse returns is one that can be printed and
read back. A logical line is trimmed and has lost its comment, and this is kept by each way in which
the texts of an operation are made of logical lines: they are joined with or without spaces, or a
piece of one line is cut out and trimmed. No join of lines makes a delimiter that is not among them.
-/
namespace LogicTest
open Text (isBlank)

/-! ## Texts made of lines -/

namespace Text

theorem plain_trim {text : Text} (h : '\n' ∉ text) : Plain text.trim :=
  ⟨trimmed_trim text, fun hmem => h (mem_of_mem_trim hmem)⟩

theorem uncommented_trim {text : Text} (hnewline : '\n' ∉ text) (hhash : '#' ∉ text) :
    Uncommented text.trim :=
  ⟨plain_trim hnewline, fun hmem => hhash (mem_of_mem_trim hmem)⟩

/-- Texts that are not empty and have no blank at their ends have none when they are written one
after the other. -/
theorem trimmed_flatten {lines : List Text} (h : ∀ line ∈ lines, Trimmed line ∧ line ≠ []) :
    Trimmed lines.flatten := by
  induction lines with
  | nil => rfl
  | cons line rest ih =>
    obtain ⟨⟨hline, hne⟩, hrest⟩ := List.forall_mem_cons.1 h
    cases rest with
    | nil => simpa using hline
    | cons next rest =>
      have hnext : (next :: rest).flatten ≠ [] := by simp [(hrest next List.mem_cons_self).2]
      exact trimmed_append (trimmed_iff.1 hline).1 hne (trimmed_iff.1 (ih hrest)).2 hnext

theorem uncommented_flatten {lines : List Text} (h : ∀ line ∈ lines, Uncommented line ∧ line ≠ []) :
    Uncommented lines.flatten := by
  refine ⟨⟨trimmed_flatten fun line hline => ?_, fun hmem => ?_⟩, fun hmem => ?_⟩
  · exact ⟨(h line hline).1.trimmed, (h line hline).2⟩
  · obtain ⟨line, hline, hmem⟩ := List.mem_flatten.1 hmem
    exact (h line hline).1.no_newline hmem
  · obtain ⟨line, hline, hmem⟩ := List.mem_flatten.1 hmem
    exact (h line hline).1.no_hash hmem

end Text

namespace Grammar

theorem uncommented_joined {lines : List Text} (h : ∀ line ∈ lines, Text.Uncommented line) :
    Text.Uncommented (joined lines) := by
  rw [← joinQuery_eq_joined]
  apply Text.uncommented_trim
  · intro hmem
    obtain ⟨line, hline, hmem⟩ := List.mem_flatMap.1 hmem
    exact (h line hline).no_newline (List.mem_of_ne_of_mem (by decide) hmem)
  · intro hmem
    obtain ⟨line, hline, hmem⟩ := List.mem_flatMap.1 hmem
    exact (h line hline).no_hash (List.mem_of_ne_of_mem (by decide) hmem)

/-- What follows a line of a join begins with a space. -/
theorem space_mem_trimEnd {lines : List Text}
    (h : Text.trimEnd (lines.flatMap fun line => ' ' :: line) ≠ []) :
    ' ' ∈ Text.trimEnd (lines.flatMap fun line => ' ' :: line) := by
  apply List.mem_of_mem_head?
  rw [Text.head?_trimEnd h]
  cases lines with
  | nil => exact absurd rfl h
  | cons line rest => rfl

/-- A line that is not empty begins a join. -/
theorem trim_flatMap_cons {line : Text} (hline : line.Trimmed) (hne : line ≠ [])
    (rest : List Text) :
    Text.trim ((line :: rest).flatMap fun line => ' ' :: line) =
      line ++ Text.trimEnd (rest.flatMap fun line => ' ' :: line) := by
  have hstart : line.trim ≠ [] := by rwa [hline]
  rw [List.flatMap_cons, List.cons_append, Text.trim_cons_blank (by decide), Text.trim,
    Text.trimStart_append hstart, hline.trimStart, Text.trimEnd_append hline.trimEnd]

/-- Lines that join to one word have it among them. -/
theorem mem_of_joined_eq {lines : List Text} {word : Text} (h : ∀ line ∈ lines, Text.Trimmed line)
    (hword : ∀ c ∈ word, isBlank c = false) (hne : word ≠ []) (hjoined : joined lines = word) :
    word ∈ lines := by
  rw [← joinQuery_eq_joined, joinQuery] at hjoined
  induction lines with
  | nil => exact absurd hjoined.symm hne
  | cons line rest ih =>
    obtain ⟨hline, hrest⟩ := List.forall_mem_cons.1 h
    by_cases hempty : line = []
    · subst hempty
      rw [List.flatMap_cons, List.singleton_append, Text.trim_cons_blank (by decide)] at hjoined
      exact List.mem_cons_of_mem _ (ih hrest hjoined)
    · rw [trim_flatMap_cons hline hempty] at hjoined
      -- what comes after the line would put a space into the word
      have hend : Text.trimEnd (rest.flatMap fun line => ' ' :: line) = [] := by
        by_contra hend
        have hspace : ' ' ∈ word := by
          rw [← hjoined]
          exact List.mem_append_right _ (space_mem_trimEnd hend)
        exact absurd (hword ' ' hspace) (by decide)
      rw [hend, List.append_nil] at hjoined
      rw [hjoined]
      exact List.mem_cons_self

theorem isBlank_of_mem_resultDelimiter {c : Char} (h : c ∈ resultDelimiter) :
    isBlank c = false := by
  have hall : resultDelimiter.all (!isBlank ·) = true := by decide
  simpa using List.all_eq_true.1 hall c h

/-! ## Lines -/

section
variable {line : Text}

theorem uncommented_logical (h : '\n' ∉ line) : Text.Uncommented (logical line) := by
  have hstart : Text.trimStart (line.trim.takeWhile (· ≠ '#')) =
      line.trim.takeWhile (· ≠ '#') := by
    rw [Text.trimStart_eq_self_iff]
    intro c hc
    rw [List.head?_takeWhile] at hc
    have hhead : c ∈ line.trim.head? := (Option.filter_eq_some_iff.1 hc).1
    exact (Text.trimmed_iff.1 (Text.trimmed_trim line)).1 c hhead
  have hlogical : logical line = Text.trim (line.trim.takeWhile (· ≠ '#')) := by
    rw [Text.trim, hstart, logical]
  rw [hlogical]
  apply Text.uncommented_trim
  · exact fun hmem => h (Text.mem_of_mem_trim ((List.takeWhile_prefix _).subset hmem))
  · intro hmem
    simpa using List.mem_takeWhile_imp hmem

variable {lines : List Text} (h : ∀ line ∈ lines, '\n' ∉ line)

include h

theorem uncommented_of_logicalLines_eq {spelled : List Text}
    (hspelled : logicalLines lines = spelled) : ∀ line ∈ spelled, Text.Uncommented line := by
  subst hspelled
  intro line hline
  obtain ⟨found, hfound, rfl⟩ := List.mem_map.1 hline
  exact uncommented_logical (h found (List.mem_of_mem_filter hfound))

theorem Spells.uncommented {spelled : List Text} (hspells : Spells lines spelled) :
    ∀ line ∈ spelled, Text.Uncommented line :=
  uncommented_of_logicalLines_eq h hspells.logicalLines_eq

end

/-! ## Parts of operations -/

theorem uncommented_label {description label : Text} {header : QueryHeader}
    (h : QueryHeader.Denotes description header) (hnewline : '\n' ∉ description)
    (hhash : '#' ∉ description) (hlabel : header.label = some label) :
    Text.Uncommented label ∧ label ≠ [] := by
  obtain ⟨gap, rest, htrim, -, -, -, hrest⟩ := h.eq_append
  have htrimmed := Text.trimmed_trim description
  rw [htrim] at htrimmed
  rw [hlabel] at hrest
  split at hrest
  · cases hrest
  next hne =>
    cases hrest
    have hsubset : ∀ c ∈ rest, c ∈ description := by
      intro c hc
      apply Text.mem_of_mem_trim
      rw [htrim]
      exact List.mem_append_right _ hc
    have huncommented : Text.Uncommented rest.trim :=
      Text.uncommented_trim (fun hmem => hnewline (hsubset _ hmem)) fun hmem =>
        hhash (hsubset _ hmem)
    exact ⟨huncommented, htrimmed.trim_ne_nil hne⟩

theorem IsDigest.printable {line digest : Text} {count : Nat} (h : IsDigest line count digest)
    (hline : Text.Uncommented line) : Expectation.Printable (.digest count digest) := by
  obtain ⟨before, after, hcut, hcount, rfl⟩ := h
  have hsubset : ∀ c ∈ after, c ∈ line := by
    intro c hc
    rw [hcut.eq_append]
    exact List.mem_append_right _ hc
  refine .digest hcount.lt_bound (Text.uncommented_trim ?_ ?_)
  · exact fun hmem => hline.no_newline (hsubset _ hmem)
  · exact fun hmem => hline.no_hash (hsubset _ hmem)

/-- Lines that are data are trimmed, but keep what would be a comment elsewhere. -/
theorem printable_values {segment more : List Text} {value : Text} (first : Spells segment [value])
    (nonempty : value ≠ []) (no_digest : ¬ digestMarker <:+: value)
    (others : ∀ line ∈ more, Text.trim line ≠ []) (hsegment : ∀ line ∈ segment, '\n' ∉ line)
    (hmore : ∀ line ∈ more, '\n' ∉ line) :
    Expectation.Printable (.values (value :: more.map Text.trim)) := by
  refine .values (first.uncommented hsegment value List.mem_cons_self) no_digest ?_ ?_
  · exact List.forall_mem_map.2 fun line hline => Text.plain_trim (hmore line hline)
  · exact List.forall_mem_cons.2 ⟨nonempty, List.forall_mem_map.2 others⟩

theorem IsResult.printable {segment : List Text} {close : Close} {expected : Expectation}
    (h : IsResult segment close expected) (hlines : ∀ line ∈ segment, '\n' ∉ line) :
    expected.Printable := by
  cases h with
  | empty | emptyAtEnd => exact .empty
  | digest lines isDigest =>
    exact isDigest.printable (lines.uncommented hlines _ List.mem_cons_self)
  | digestAtEnd lines isDigest =>
    exact isDigest.printable (uncommented_of_logicalLines_eq hlines lines _ List.mem_cons_self)
  | values first nonempty no_digest others =>
    simp only [List.forall_mem_append] at hlines
    exact printable_values first nonempty no_digest others hlines.1.1 hlines.1.2
  | valuesAtEnd first nonempty no_digest others =>
    simp only [List.forall_mem_append] at hlines
    exact printable_values first nonempty no_digest others hlines.1 hlines.2

theorem printable_statement {header : Text} {sql : List Text} {succeeds : Bool}
    (h : ∀ line ∈ header :: sql, Text.Uncommented line) (nonempty : ∀ line ∈ sql, line ≠ []) :
    Operation.Printable (.statement sql.flatten succeeds) :=
  .statement <| Text.uncommented_flatten fun line hline =>
    ⟨h line (List.mem_cons_of_mem _ hline), nonempty line hline⟩

/-- A query whose header and SQL are logical lines, none of which is the delimiter. -/
theorem printable_query {blanks sql : List Text} {description : Text} {header : QueryHeader}
    {sourceLine : Nat} {expected : Expectation}
    (h : ∀ line ∈ blanks ++ ("query".toList ++ description) :: sql, Text.Uncommented line)
    (isHeader : QueryHeader.Denotes description header) (undelimited : resultDelimiter ∉ sql)
    (hexpected : expected.Printable) :
    Operation.Printable (.query (joined sql) sourceLine ⟨header.columns, header.order, expected⟩
      header.label) := by
  obtain ⟨-, hheader, hsql⟩ : (∀ line ∈ blanks, Text.Uncommented line) ∧
      Text.Uncommented ("query".toList ++ description) ∧ ∀ line ∈ sql, Text.Uncommented line := by
    rwa [List.forall_mem_append, List.forall_mem_cons] at h
  refine .query (uncommented_joined hsql) (fun hjoined => undelimited ?_) isHeader.columns_ne_nil
    (fun label hlabel => ?_) hexpected
  · exact mem_of_joined_eq (fun line hline => (hsql line hline).trimmed)
      (fun c => isBlank_of_mem_resultDelimiter) (by decide) hjoined
  · refine uncommented_label isHeader (fun hmem => ?_) (fun hmem => ?_) hlabel
    · exact hheader.no_newline (List.mem_append_right _ hmem)
    · exact hheader.no_hash (List.mem_append_right _ hmem)

theorem IsOperation.printable {start : Nat} {directed : Prop} {segment : List Text} {close : Close}
    {operation : Operation} (h : IsOperation start directed segment close operation)
    (hlines : ∀ line ∈ segment, '\n' ∉ line) : operation.Printable := by
  cases h with
  | statement lines keyword nonempty =>
    have huncommented := (List.forall_mem_append.1 (lines.uncommented hlines)).1
    exact printable_statement huncommented nonempty
  | statementAtEnd lines keyword nonempty =>
    exact printable_statement (uncommented_of_logicalLines_eq hlines lines) nonempty
  | query lines blank placed isHeader undelimited isResult =>
    obtain ⟨htext, hresult⟩ := List.forall_mem_append.1 hlines
    have huncommented := (List.forall_mem_append.1 (lines.uncommented htext)).1
    exact printable_query huncommented isHeader undelimited (isResult.printable hresult)
  | queryAtEnd lines blank placed isHeader undelimited =>
    exact printable_query (uncommented_of_logicalLines_eq hlines lines) isHeader undelimited .empty

theorem IsItem.printable {start : Nat} {segment : List Text} {close : Close}
    {conditions : Conditions} {operation : Operation}
    (h : IsItem start segment close (.operation conditions operation))
    (hlines : ∀ line ∈ segment, '\n' ∉ line) : operation.Printable := by
  cases h with
  | operation _ _ isOperation =>
    exact isOperation.printable (List.forall_mem_append.1 hlines).2

/-- Each operation of a script that is accepted can be printed. -/
theorem Accepts.printable {policy : Policy} {name : Text} {lines : List Text} {items : List Item}
    (h : Accepts policy lines items) (hlines : ∀ line ∈ lines, '\n' ∉ line) :
    ∀ operation ∈ (Script.ofItems policy name items).operations, operation.Printable := by
  intro operation hoperation
  obtain ⟨conditions, hitem, -⟩ := exists_item_of_mem_operations hoperation
  obtain ⟨before, segment, after, close, rfl, isItem, -⟩ := h.exists_segment hitem
  simp only [List.forall_mem_append] at hlines
  exact isItem.printable hlines.2.1

end Grammar

open Grammar

/-- What a parse returns is well-formed: each operation is one that can be printed, and the queries
are counted. -/
theorem parse_printable {policy : Policy} {name : Text} {source : Source} {script : Script}
    (hsource : source.Given) (h : (parse policy name source).result = .ok script) :
    (∀ operation ∈ script.operations, operation.Printable) ∧
      script.queryCount = script.operations.countP Operation.isQuery ∧
      script.queryCount ≤ script.operations.length := by
  obtain ⟨lines, items, rest, rfl, haccepts, rfl⟩ := exists_accepts h
  have hlines : ∀ line ∈ lines, '\n' ∉ line := by
    intro line hline
    exact hsource.newline_not_mem (List.mem_append_left _ (List.mem_map_of_mem hline))
  exact ⟨haccepts.printable hlines, rfl, List.countP_le_length⟩

/-- Comments are left out of the label, of the SQL and of the first value, and only there. -/
theorem parse_printable_query :
    let source : Source := .ofBytes (Utf8.encode
      "query I nosort é b # c\nselect\n# d\n 1\n----\nx # y\nz # w\n".toList)
    let query : Operation := .query "select 1".toList 5
      ⟨[.integer], .asProduced, .values ["x".toList, "z # w".toList]⟩ (some "é b".toList)
    source.Given ∧ (parse .keepAll [] source).result = .ok ⟨[], [query], 1, none, false⟩ ∧
      query.Printable := by
  intro source query
  have hsource : source.Given := .stream _
  have hresult : (parse .keepAll [] source).result = .ok ⟨[], [query], 1, none, false⟩ :=
    parse_eq_ok_iff.2 ⟨by decide +kernel, by decide +kernel⟩
  exact ⟨hsource, hresult, (parse_printable hsource hresult).1 query List.mem_cons_self⟩

end LogicTest
