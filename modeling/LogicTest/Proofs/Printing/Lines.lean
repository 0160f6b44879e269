import LogicTest.Proofs.Printing.Basic
import LogicTest.Proofs.QueryHeader
import LogicTest.Proofs.Text.Numeral

/-!
# Printed lines

Every line of a printed script is a line of its text, and holds no comment but among the values of
a result. A header that is printed is read back.
-/
namespace LogicTest
open Text (isBlank)

/-! ## Plain texts -/

theorem Text.Plain.isLine {text : Text} (h : text.Plain) : text.IsLine := by
  refine ⟨h.no_newline, fun hlast => ?_⟩
  have hblank := (Text.trimmed_iff.1 h.trimmed).2 '\r' hlast
  revert hblank
  decide

theorem Text.uncommented_nil : Text.Uncommented [] := ⟨⟨rfl, List.not_mem_nil⟩, List.not_mem_nil⟩

/-! ## Headers -/

namespace QueryHeader

theorem hash_not_mem_word (order : SortOrder) : '#' ∉ order.word := by
  cases order <;> decide

/-- What stands in a printed header is no blank, a space or a character of the label. -/
theorem mem_print {header : QueryHeader} {c : Char} (h : c ∈ header.print) :
    isBlank c = false ∧ c ≠ '#' ∨ c = ' ' ∨ ∃ text ∈ header.label, c ∈ text := by
  rcases List.mem_append.1 h with h | h
  · rcases List.mem_append.1 h with h | h
    · obtain ⟨column, -, rfl⟩ := List.mem_map.1 h
      left
      cases column <;> decide
    · rcases List.mem_cons.1 h with rfl | h
      · exact .inr (.inl rfl)
      · exact .inl ⟨isBlank_of_mem_word h, fun hc => hash_not_mem_word _ (hc ▸ h)⟩
  · cases hlabel : header.label with
    | none =>
      rw [hlabel] at h
      cases h
    | some text =>
      rw [hlabel] at h
      rcases List.mem_cons.1 h with rfl | h
      · exact .inr (.inl rfl)
      · exact .inr (.inr ⟨text, rfl, h⟩)

variable {header : QueryHeader} (columns : header.columns ≠ [])
  (labelled : ∀ text ∈ header.label, Text.Uncommented text ∧ text ≠ [])

include columns labelled

theorem print_trimmed : header.print.Trimmed :=
  trimmed_parts columns
    (fun text htext => ⟨(labelled text htext).1.trimmed, (labelled text htext).2⟩)
    [' ']

theorem print_uncommented : header.print.Uncommented := by
  refine ⟨⟨print_trimmed columns labelled, fun h => ?_⟩, fun h => ?_⟩
  · rcases mem_print h with ⟨hblank, -⟩ | hspace | ⟨text, htext, hmem⟩
    · revert hblank
      decide
    · revert hspace
      decide
    · exact (labelled text htext).1.no_newline hmem
  · rcases mem_print h with ⟨-, hhash⟩ | hspace | ⟨text, htext, hmem⟩
    · exact hhash rfl
    · revert hspace
      decide
    · exact (labelled text htext).1.no_hash hmem

/-- A header that is printed is read back. -/
theorem denotes_print : Denotes (' ' :: header.print) header := by
  have hparts : Denotes header.print header :=
    denotes_parts columns
      (fun text htext => ⟨(labelled text htext).1.trimmed, (labelled text htext).2⟩)
      (List.cons_ne_nil ' ' []) (List.forall_mem_singleton.2 (by decide))
  exact ⟨hparts.columns_ne_nil, by
    rw [Text.trim_cons_blank (by decide)]
    exact hparts.eq_append⟩

end QueryHeader

/-! ## Lines of operations -/

namespace Operation

theorem statementHeader_uncommented (succeeds : Bool) : (statementHeader succeeds).Uncommented := by
  cases succeeds
  · exact ⟨⟨rfl, by decide⟩, by decide⟩
  · exact ⟨⟨rfl, by decide⟩, by decide⟩

theorem keyword_statementHeader (succeeds : Bool) :
    "statement".toList <+: statementHeader succeeds := by
  cases succeeds <;> decide

theorem ok_statementHeader (succeeds : Bool) :
    decide ("statement ok".toList <+: statementHeader succeeds) = succeeds := by
  cases succeeds <;> decide

theorem queryHeader_uncommented {header : QueryHeader} (columns : header.columns ≠ [])
    (labelled : ∀ text ∈ header.label, Text.Uncommented text ∧ text ≠ []) :
    (queryHeader header).Uncommented := by
  have hprint := QueryHeader.print_uncommented columns labelled
  have hne : header.print ≠ [] := by simp [QueryHeader.print]
  refine ⟨⟨Text.trimmed_append ?_ (by decide) (Text.trimmed_iff.1 hprint.trimmed).2 hne, ?_⟩, ?_⟩
  · rintro c ⟨⟩
    decide
  · exact fun hmem => (List.mem_append.1 hmem).elim (by decide) hprint.no_newline
  · exact fun hmem => (List.mem_append.1 hmem).elim (by decide) hprint.no_hash

end Operation

/-- The line of a digest, trimmed: if the digest is empty, the space before it is lost. -/
theorem trim_digest (count : Nat) (text : Text) :
    Text.trim (Numeral.toText count ++ " values hashing to ".toList ++ text) =
      Numeral.toText count ++ [' '] ++ digestMarker ++ Text.trimEnd (' ' :: text) := by
  have hline : Numeral.toText count ++ " values hashing to ".toList ++ text =
      Numeral.toText count ++ [' '] ++ digestMarker ++ ' ' :: text := by
    have hwords : " values hashing to ".toList = [' '] ++ digestMarker ++ [' '] := by decide
    rw [hwords]
    simp only [List.append_assoc, List.singleton_append]
  have hstart : Text.trimStart (Numeral.toText count ++ [' '] ++ digestMarker ++ ' ' :: text) =
      Numeral.toText count ++ [' '] ++ digestMarker ++ ' ' :: text := by
    rw [Text.trimStart_eq_self_iff, List.append_assoc, List.append_assoc,
      List.head?_append_of_ne_nil _ (Numeral.toText_ne_nil count)]
    intro c hc
    exact Numeral.isBlank_of_isDigit (Numeral.isDigit_of_mem_toText (List.mem_of_mem_head? hc))
  have hend : Text.trimEnd (Numeral.toText count ++ [' '] ++ digestMarker) =
      Numeral.toText count ++ [' '] ++ digestMarker := by
    have hmarker : digestMarker.trimEnd = digestMarker := by decide
    rw [Text.trimEnd_eq_self_iff, List.getLast?_append_of_ne_nil _ (by decide)]
    exact Text.trimEnd_eq_self_iff.1 hmarker
  rw [hline, Text.trim, hstart, Text.trimEnd_append hend]

theorem threshold_uncommented (n : Nat) :
    Text.Uncommented ("hash-threshold ".toList ++ Numeral.toText n) := by
  refine ⟨⟨Text.trimmed_append ?_ (by decide) ?_ (Numeral.toText_ne_nil n), ?_⟩, ?_⟩
  · rintro c ⟨⟩
    decide
  · exact (Text.trimmed_iff.1 (Numeral.trimmed_toText n)).2
  · simpa using Numeral.not_mem_toText (by decide) n
  · simpa using Numeral.not_mem_toText (by decide) n

theorem isLine_expectation {expected : Expectation} (h : expected.Printable) :
    ∀ line ∈ expected.lines, Text.IsLine line := by
  cases h with
  | empty => nofun
  | values first _ others _ =>
    exact List.forall_mem_cons.2 ⟨first.isLine, fun line hline => (others line hline).isLine⟩
  | @digest count text inRange uncommented =>
    refine List.forall_mem_singleton.2 ⟨?_, fun hlast => ?_⟩
    · simpa [uncommented.no_newline] using Numeral.not_mem_toText (by decide) count
    · by_cases hempty : text = []
      · rw [hempty, List.append_nil, List.getLast?_append_of_ne_nil _ (by decide)] at hlast
        revert hlast
        decide
      · rw [List.getLast?_append_of_ne_nil _ hempty] at hlast
        exact uncommented.isLine.no_return hlast

theorem isLine_operation {operation : Operation} (h : operation.Printable) :
    ∀ line ∈ operation.lines, Text.IsLine line := by
  have hnil : Text.IsLine [] := Text.uncommented_nil.isLine
  cases h with
  | @statement sql succeeds uncommented =>
    have hheader := (Operation.statementHeader_uncommented succeeds).isLine
    simp [Operation.lines, hheader, uncommented.isLine, hnil]
  | @query sql sourceLine output label uncommented undelimited columns labelled expected =>
    have hheader : Text.IsLine (Operation.queryHeader ⟨output.columns, output.order, label⟩) :=
      (Operation.queryHeader_uncommented columns labelled).isLine
    have hdelimiter : Text.IsLine resultDelimiter := ⟨by decide, by decide⟩
    have hlines := isLine_expectation expected
    simp only [Operation.lines, List.forall_mem_append, List.forall_mem_cons]
    exact ⟨⟨⟨hheader, uncommented.isLine, hdelimiter, nofun⟩, hlines⟩, hnil, nofun⟩

theorem isLine_printed {threshold : Option Nat} {operations : List Operation} {halted : Bool}
    (h : ∀ operation ∈ operations, operation.Printable) :
    ∀ line ∈ printedLines threshold operations halted, Text.IsLine line := by
  refine List.forall_mem_append.2 ⟨List.forall_mem_append.2 ⟨?_, ?_⟩, ?_⟩
  · cases threshold with
    | none => nofun
    | some n => exact List.forall_mem_singleton.2 (threshold_uncommented n).isLine
  · intro line hline
    obtain ⟨operation, hoperation, hline⟩ := List.mem_flatMap.1 hline
    exact isLine_operation (h operation hoperation) line hline
  · cases halted with
    | false => nofun
    | true => exact List.forall_mem_singleton.2 ⟨by decide, by decide⟩

end LogicTest
