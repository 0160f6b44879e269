import LogicTest.Proofs.Grammar.BlankLines

/-!
# Blank lines after directive lines

Behind its directive lines, a record can only be a query once a blank line has come. So blank lines
before the header of a query change nothing but the numbers of lines, and any other line that is
not blank is a fault behind them: the header of a statement, a `halt` and another directive line.
Main statement: `parse_blanks_after_directives`.
-/
namespace LogicTest
open Grammar

namespace Grammar

/-- The lines `spaced` are `lines` with `count` blank lines put in. -/
inductive Spaced : List Text → List Text → Nat → Prop where
  | nil : Spaced [] [] 0
  | keep {line lines spaced count} (others : Spaced lines spaced count) :
      Spaced (line :: lines) (line :: spaced) count
  | blank {blank lines spaced count} (blank_eq : Text.trim blank = [])
      (others : Spaced lines spaced count) : Spaced lines (blank :: spaced) (count + 1)

/-- A record is reached: `named` are its first directive lines, at least one, and behind them `gap`
has comments and blank lines only. -/
structure Directed (policy : Policy) (before : List Text) (items : List Item)
    (named gap : List Text) : Prop where
  between : Between before items
  running : ∀ item ∈ items, item.stops policy = false
  directives : ∀ line ∈ logicalLines named, IsDirective line
  some_directive : logicalLines named ≠ []
  blank : ∀ line ∈ logicalLines gap, line = []

variable {lines spaced : List Text} {count : Nat}

theorem Spaced.length_eq (h : Spaced lines spaced count) :
    spaced.length = lines.length + count := by
  induction h with
  | nil => rfl
  | keep _ ih => simp [ih, Nat.add_right_comm]
  | blank _ _ ih => simp [ih, Nat.add_assoc]

theorem Spaced.logicalLines_perm (h : Spaced lines spaced count) :
    (logicalLines spaced).Perm (List.replicate count [] ++ logicalLines lines) := by
  induction h with
  | nil => exact .refl _
  | @keep line lines spaced count _ ih =>
    rw [logicalLines_cons line lines, logicalLines_cons line spaced]
    exact (ih.append_left _).trans (List.perm_append_comm_assoc _ _ _)
  | @blank blank lines spaced count blank_eq _ ih =>
    have hcomment : isComment blank.trim = false := by rw [blank_eq]; rfl
    rw [logicalLines_cons blank, logicalLines_of_not_comment hcomment, logical_of_blank blank_eq]
    exact ih.cons []

/-- Comments and blank lines stay such, and there are blank lines among them then. -/
theorem Spaced.blank_lines (h : Spaced lines spaced count)
    (hblank : ∀ line ∈ logicalLines lines, line = []) (some_blank : 1 ≤ count) :
    (∀ line ∈ logicalLines spaced, line = []) ∧ logicalLines spaced ≠ [] := by
  have hperm := h.logicalLines_perm
  constructor
  · intro line hline
    rcases List.mem_append.1 (hperm.mem_iff.1 hline) with hline | hline
    · exact List.eq_of_mem_replicate hline
    · exact hblank line hline
  · intro hnil
    rw [hnil] at hperm
    have hlength := hperm.length_eq
    simp at hlength
    omega

/-! ## Behind directive lines -/

/-- The phase behind directive lines and `blanks`, the blank lines that have come after them. -/
def afterGap (directives blanks : List Text) : Phase :=
  if blanks = [] then afterDirectives directives else .body (.ofLines directives) .heading

theorem goes_gap {directives blanks : List Text} (hdirectives : directives ≠ [])
    (blank : ∀ line ∈ blanks, line = []) :
    Goes (afterDirectives directives) blanks (afterGap directives blanks) := by
  cases blanks with
  | nil => exact .nil
  | cons first others =>
    obtain ⟨rfl, hothers⟩ := List.forall_mem_cons.1 blank
    exact .cons (kind_afterDirectives _) (fun lineNo => take_directives hdirectives lineNo [])
      (goes_blanks hothers _)

theorem kind_afterGap (directives blanks : List Text) :
    (afterGap directives blanks).kind = .script := by
  unfold afterGap
  split
  · exact kind_afterDirectives directives
  · rfl

theorem renumber_afterGap (f : Nat → Nat) (directives blanks : List Text) :
    (afterGap directives blanks).renumber f = afterGap directives blanks := by
  unfold afterGap afterDirectives
  split
  · split <;> rfl
  · rfl

/-- The header of a query is read as such whether or not blank lines have come before it. -/
theorem step_afterGap {header : Text} (keyword : "query".toList <+: logical header)
    (directives blanks : List Text) (lineNo : Nat) :
    (afterGap directives blanks).step lineNo header.trim =
      (BodyPhase.takeHeader (logical header)).within (.ofLines directives) := by
  obtain ⟨description, hheader⟩ := keyword
  have hcomment : isComment header.trim = false :=
    isComment_of_logical_ne_nil (by rw [← hheader]; exact List.cons_ne_nil _ _)
  rw [Phase.step_of_script (kind_afterGap _ _), hcomment, if_neg Bool.false_ne_true,
    withoutComment_trim, ← hheader]
  unfold afterGap
  split
  · exact take_query directives lineNo description
  · rfl

/-- Behind a blank line, what is no header of a query is a fault. -/
theorem step_afterGap_stuck {header : Text} {directives blanks : List Text}
    (hblanks : blanks ≠ []) (nonempty : logical header ≠ [])
    (keyword : ¬ "query".toList <+: logical header) (lineNo : Nat) :
    (afterGap directives blanks).step lineNo header.trim =
      .stuck (some (.ofLines directives)) (.unexpectedLine (logical header)) := by
  have hempty : (logical header).isEmpty = false := by simpa using nonempty
  rw [Phase.step_of_script (kind_afterGap _ _), isComment_of_logical_ne_nil nonempty,
    if_neg Bool.false_ne_true, withoutComment_trim, afterGap, if_neg hblanks, Phase.take,
    BodyPhase.take, BodyPhase.takeHeader, hempty, if_neg Bool.false_ne_true,
    Text.isPrefixOf?_eq_none_iff.2 keyword]
  rfl

end Grammar

variable {policy : Policy} {before named gap wider : List Text} {items : List Item}

namespace Grammar.Directed

theorem leads_named (h : Directed policy before items named gap) :
    Leads policy 0 .start (before ++ named) items (afterDirectives (logicalLines named)) := by
  have hnamed := Leads.of_goes (goes_directives h.directives) (kind_afterDirectives _) rfl policy
    before.length
  rw [← Nat.zero_add before.length] at hnamed
  simpa using (h.between.leads h.running).append hnamed

theorem leads (h : Directed policy before items named gap) :
    Leads policy 0 .start (before ++ named ++ gap) items
      (afterGap (logicalLines named) (logicalLines gap)) := by
  have hgap := Leads.of_goes (goes_gap h.some_directive h.blank) (kind_afterGap _ _) rfl policy
    (before ++ named).length
  rw [← Nat.zero_add (before ++ named).length] at hgap
  simpa using h.leads_named.append hgap

end Grammar.Directed

/-- Blank lines before the header of a query make no difference but for the numbers of lines. -/
theorem Grammar.Directed.renumbered_query (h : Directed policy before items named gap)
    (h' : Directed policy before items named wider) {count : Nat}
    (hlength : wider.length = gap.length + count) {header : Text}
    (keyword : "query".toList <+: logical header) (rest : List Text) (name : Text) :
    (parse policy name ((before ++ named ++ gap ++ header :: rest).map .line)).Renumbered
      (lineAfterBlanks (before ++ named).length count)
      (parse policy name ((before ++ named ++ wider ++ header :: rest).map .line)) := by
  let f := lineAfterBlanks (before ++ named).length count
  obtain ⟨hone, hone_break⟩ := h.leads.taken_eq ((header :: rest).map .line)
  obtain ⟨htwo, htwo_break⟩ := h'.leads.taken_eq ((header :: rest).map .line)
  have hwider : (before ++ named ++ wider).length = (before ++ named ++ gap).length + count := by
    simp [hlength, Nat.add_assoc]
  -- the blank lines that have come before it are forgotten with the header
  have hsame : divide (before ++ named ++ wider).length
        (afterGap (logicalLines named) (logicalLines wider)) ((header :: rest).map .line) =
      divide ((before ++ named ++ gap).length + count)
        ((afterGap (logicalLines named) (logicalLines gap)).renumber f)
        ((header :: rest).map .line) := by
    rw [hwider, renumber_afterGap, List.map_cons, divide_line, divide_line, step_afterGap keyword,
      step_afterGap keyword]
  have hlines : ∀ i, 0 < i → f ((before ++ named ++ gap).length + i) =
      (before ++ named ++ gap).length + count + i := fun i hi => by
    have hbehind : (before ++ named).length < (before ++ named ++ gap).length + i := by
      simp only [List.length_append]
      omega
    exact (if_pos hbehind).trans (Nat.add_right_comm _ _ _)
  have hend : (∀ line others, (header :: rest).map Reading.line ≠ .line line :: others) →
      f (before ++ named ++ gap).length = (before ++ named ++ gap).length + count :=
    fun hnone => (hnone header (rest.map .line) rfl).elim
  obtain ⟨hitems, hbreak⟩ :=
    divide_renumber f (afterGap (logicalLines named) (logicalLines gap)) hlines hend
  rw [← hsame] at hitems hbreak
  rw [← List.map_append] at hone hone_break htwo htwo_break
  have htaken : upToHalt policy
        (Source.division ((before ++ named ++ wider ++ header :: rest).map .line)).items =
      (upToHalt policy
        (Source.division ((before ++ named ++ gap ++ header :: rest).map .line)).items).map
          (.renumber f) := by
    rw [htwo, hone, hitems, upToHalt_renumber, List.map_append,
      h.leads_named.renumber_afterBlanks count]
  refine renumbered_of_taken name ?_ ?_ ?_ ?_
  · rw [htaken, ofItems_renumber]
  · rw [htaken, conditions?_renumber]
  · rw [htaken, operation?_renumber]
  · rw [htwo_break, hone_break, hitems, hbreak, breakAfter_renumber]

/-- Behind blank lines, a line that is neither blank nor the header of a query is a fault. -/
theorem Grammar.Directed.parse_unexpected (h : Directed policy before items named gap)
    (some_blank : logicalLines gap ≠ []) {header : Text} (nonempty : logical header ≠ [])
    (keyword : ¬ "query".toList <+: logical header) (rest : List Text) (name : Text) :
    (parse policy name ((before ++ named ++ gap ++ header :: rest).map .line)).result =
      .error ⟨name, (before ++ named ++ gap).length + 1, .unexpectedLine (logical header)⟩ := by
  rw [List.append_cons, List.map_append,
    h.leads.parse_eq_stuck (step_afterGap_stuck some_blank nonempty keyword _)]
  rfl

/-- A line that begins with the keyword of a statement, of a `halt` or of a directive is neither
blank nor the header of a query. -/
theorem Grammar.keyword_not_query {line : Text}
    (h : "statement".toList <+: line ∨ "halt".toList <+: line ∨ IsDirective line) :
    line ≠ [] ∧ ¬ "query".toList <+: line := by
  rcases h with ⟨rest, rfl⟩ | ⟨rest, rfl⟩ | ⟨rest, rfl⟩ | ⟨rest, rfl⟩ <;>
    exact ⟨List.cons_ne_nil _ _, fun h => absurd (List.cons_prefix_cons.1 h).1 (by decide)⟩

/-- What blank lines do behind the directive lines of a record depends on what they stand before.
With `count` more of them before the header of a query the outcome is the same, and the numbers of
the lines behind them grow by `count`. Before the header of a statement, a `halt` or another
directive line they are a fault of that line, whatever the policy says to the directives. -/
theorem parse_blanks_after_directives {policy : Policy} {text spaced : Text}
    {before named gap wider rest : List Text} {items : List Item} {header : Text} {count : Nat}
    (htext : text.lines = before ++ named ++ gap ++ header :: rest)
    (hspaced : spaced.lines = before ++ named ++ wider ++ header :: rest)
    (directed : Directed policy before items named gap) (hgap : Spaced gap wider count)
    (some_blank : 1 ≤ count) (name : Text) :
    ("query".toList <+: logical header →
      (parseText policy name text).Renumbered (lineAfterBlanks (before ++ named).length count)
        (parseText policy name spaced)) ∧
    ("statement".toList <+: logical header ∨ "halt".toList <+: logical header ∨
        IsDirective (logical header) →
      ∃ error, (parseText policy name spaced).result = .error error ∧
        error.diagnostic = ⟨name, (before ++ named ++ gap).length + 1 + count, .unexpectedLine,
          "unexpected line: ".toList ++ Text.quoted (logical header)⟩) := by
  obtain ⟨hblank, hsome⟩ := hgap.blank_lines directed.blank some_blank
  have hwider : Directed policy before items named wider := { directed with blank := hblank }
  rw [parseText, parseText, Source.ofText, Source.ofText, htext, hspaced]
  constructor
  · intro keyword
    exact directed.renumbered_query hwider hgap.length_eq keyword rest name
  · intro keyword
    obtain ⟨nonempty, hquery⟩ := keyword_not_query keyword
    refine ⟨_, hwider.parse_unexpected hsome nonempty hquery rest name, ?_⟩
    have hline : (before ++ named ++ wider).length + 1 =
        (before ++ named ++ gap).length + 1 + count := by
      simp only [List.length_append, hgap.length_eq]
      omega
    rw [← hline]
    rfl

/-- Blank lines around a comment before the header of a query, one before that of a statement, and
one between two directive lines. -/
theorem parse_blanks_after_directives_skipif :
    let query : Text := "skipif a\n# c\nquery I\nselect 1\n".toList
    let spaced : Text := "skipif a\n\n# c\n \nquery I\nselect 1\n".toList
    (parseText .keepAll [] query).Renumbered (lineAfterBlanks 1 2)
        (parseText .keepAll [] spaced) ∧
      (∃ error, (parseText .keepAll [] "onlyif a\n\nstatement ok\n".toList).result = .error error ∧
        error.diagnostic = ⟨[], 3, .unexpectedLine, "unexpected line: 'statement ok'".toList⟩) ∧
      ∃ error, (parseText .keepAll [] "skipif a\n\nonlyif b\nhalt\n".toList).result = .error error ∧
        error.diagnostic = ⟨[], 3, .unexpectedLine, "unexpected line: 'onlyif b'".toList⟩ := by
  intro query spaced
  have directed (named : Text) (gap : List Text)
      (directive : ∀ line ∈ logicalLines [named], IsDirective line)
      (some_directive : logicalLines [named] ≠ []) (blank : ∀ line ∈ logicalLines gap, line = []) :
      Directed .keepAll [] [] [named] gap := ⟨.nil, nofun, directive, some_directive, blank⟩
  have one_blank : Spaced [] [[]] 1 := .blank rfl .nil
  refine ⟨?_, ?_, ?_⟩
  · have htext : query.lines =
        [] ++ ["skipif a".toList] ++ ["# c".toList] ++ ["query I".toList, "select 1".toList] := by
      decide +kernel
    have hspaced : spaced.lines = [] ++ ["skipif a".toList] ++ [[], "# c".toList, " ".toList] ++
        ["query I".toList, "select 1".toList] := by
      decide +kernel
    have two_blanks : Spaced ["# c".toList] [[], "# c".toList, " ".toList] 2 :=
      .blank rfl (.keep (.blank (by decide) .nil))
    exact (parse_blanks_after_directives htext hspaced
      (directed "skipif a".toList ["# c".toList] (by decide) (by decide) (by decide)) two_blanks
      (by decide) []).1 (by decide)
  · have htext : Text.lines "onlyif a\nstatement ok\n".toList =
        [] ++ ["onlyif a".toList] ++ [] ++ ["statement ok".toList] := by decide +kernel
    have hspaced : Text.lines "onlyif a\n\nstatement ok\n".toList =
        [] ++ ["onlyif a".toList] ++ [[]] ++ ["statement ok".toList] := by decide +kernel
    exact (parse_blanks_after_directives htext hspaced
      (directed "onlyif a".toList [] (by decide) (by decide) (by decide)) one_blank
      (by decide) []).2 (.inl (by decide))
  · have htext : Text.lines "skipif a\nonlyif b\nhalt\n".toList =
        [] ++ ["skipif a".toList] ++ [] ++ ["onlyif b".toList, "halt".toList] := by decide +kernel
    have hspaced : Text.lines "skipif a\n\nonlyif b\nhalt\n".toList =
        [] ++ ["skipif a".toList] ++ [[]] ++ ["onlyif b".toList, "halt".toList] := by
      decide +kernel
    exact (parse_blanks_after_directives htext hspaced
      (directed "skipif a".toList [] (by decide) (by decide) (by decide)) one_blank
      (by decide) []).2 (.inr (.inr (by decide)))

end LogicTest
