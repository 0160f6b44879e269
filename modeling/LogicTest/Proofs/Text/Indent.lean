import Mathlib.Data.List.Basic
import LogicTest.Text.Basic

/-!
# Indentation line by line

A text is indented in one go, after each line feed and at its beginning. What this comes to is said
of its pieces between line feeds, of which each gets the same spaces (`indent_linewise`). The pieces
are met by an induction that takes the text up to its first line feed at a time.
-/
namespace LogicTest.Text

/-- Induction on the pieces of a text, from the first to the last. -/
theorem inductionOnPieces {motive : Text → Prop} (last : ∀ piece, '\n' ∉ piece → motive piece)
    (more : ∀ piece rest, '\n' ∉ piece → motive rest → motive (piece ++ '\n' :: rest))
    (text : Text) : motive text := by
  induction hlength : text.length using Nat.strongRecOn generalizing text with
  | _ length ih =>
    by_cases hnewline : '\n' ∈ text
    · obtain ⟨piece, rest, rfl, hpiece⟩ := List.eq_append_cons_of_mem hnewline
      refine more piece rest hpiece (ih rest.length ?_ rest rfl)
      rw [← hlength, List.length_append, List.length_cons]
      omega
    · exact last text hnewline

theorem indent_of_not_mem {piece : Text} (h : '\n' ∉ piece) (width : Nat) :
    indent width piece = List.replicate width ' ' ++ piece := by
  have hsame : piece.flatMap (fun c => if c = '\n' then '\n' :: List.replicate width ' ' else [c]) =
      piece.flatMap ([·]) :=
    List.flatMap_congr fun c hc => if_neg fun heq : c = '\n' => h (heq ▸ hc)
  rw [indent, hsame, List.flatMap_singleton']

/-- What follows a line feed is indented like a text of its own. -/
theorem indent_append_newline (width : Nat) (one two : Text) :
    indent width (one ++ '\n' :: two) = indent width one ++ '\n' :: indent width two := by
  simp [indent, List.append_assoc]

/-- Each piece of an indented text is one of the text with spaces before it. -/
theorem splitOn_indent (width : Nat) (text : Text) :
    (indent width text).splitOn '\n' =
      (text.splitOn '\n').map (List.replicate width ' ' ++ ·) := by
  have hspaced {piece : Text} (h : '\n' ∉ piece) : '\n' ∉ List.replicate width ' ' ++ piece := by
    simp [h]
  induction text using inductionOnPieces with
  | last piece hpiece =>
    rw [indent_of_not_mem hpiece, List.splitOn_eq_singleton (hspaced hpiece),
      List.splitOn_eq_singleton hpiece, List.map_singleton]
  | more piece rest hpiece ih =>
    rw [indent_append_newline, indent_of_not_mem hpiece,
      List.splitOn_append_cons_self_of_not_mem (hspaced hpiece),
      List.splitOn_append_cons_self_of_not_mem hpiece, ih, List.map_cons]

theorem count_newline_indent (width : Nat) (text : Text) :
    (indent width text).count '\n' = text.count '\n' := by
  have hspaces : (List.replicate width ' ').count '\n' = 0 := by simp [List.count_replicate]
  induction text using inductionOnPieces with
  | last piece hpiece => rw [indent_of_not_mem hpiece, List.count_append, hspaces, Nat.zero_add]
  | more piece rest hpiece ih =>
    rw [indent_append_newline, indent_of_not_mem hpiece]
    simp only [List.count_append, List.count_cons_self, hspaces, ih, Nat.zero_add]

/-- A text is known by its pieces. -/
theorem eq_of_splitOn_eq {one two : Text} (h : one.splitOn '\n' = two.splitOn '\n') :
    one = two := by
  have hjoined := congrArg (List.intercalate ['\n']) h
  rwa [List.intercalate_splitOn, List.intercalate_splitOn] at hjoined

theorem indent_indent (inner outer : Nat) (text : Text) :
    indent outer (indent inner text) = indent (inner + outer) text := by
  apply eq_of_splitOn_eq
  rw [splitOn_indent, splitOn_indent, splitOn_indent, List.map_map]
  refine List.map_congr_left fun piece _ => ?_
  rw [Function.comp_apply, ← List.append_assoc, List.replicate_append_replicate, Nat.add_comm]

/-- Indenting puts the same spaces before each piece between line feeds, be it empty or behind the
last line feed, and does nothing else. So it adds no line feed, the pieces without their first
characters are those of the text, and widths add up. -/
theorem indent_linewise (text : Text) (width outer : Nat) :
    let pieces := text.splitOn '\n'
    let indented := text.indent width
    indented = List.intercalate ['\n'] (pieces.map (List.replicate width ' ' ++ ·)) ∧
      indented.splitOn '\n' = pieces.map (List.replicate width ' ' ++ ·) ∧
      indented.count '\n' = text.count '\n' ∧
      List.intercalate ['\n'] ((indented.splitOn '\n').map (·.drop width)) = text ∧
      indented.indent outer = text.indent (width + outer) := by
  intro pieces indented
  have hpieces : indented.splitOn '\n' = pieces.map (List.replicate width ' ' ++ ·) :=
    splitOn_indent width text
  refine ⟨?_, hpieces, count_newline_indent width text, ?_, indent_indent width outer text⟩
  · rw [← hpieces, List.intercalate_splitOn]
  · have hdrop (piece : Text) : (List.replicate width ' ' ++ piece).drop width = piece :=
      List.drop_left' List.length_replicate
    rw [hpieces, List.map_map]
    simp only [Function.comp_def, hdrop, List.map_id']
    exact List.intercalate_splitOn '\n'

example : Text.indent 2 "a\n\nb\n".toList = "  a\n  \n  b\n  ".toList := by decide

end LogicTest.Text
