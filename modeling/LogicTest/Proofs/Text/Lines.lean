import LogicTest.Text.Basic

/-!
# Lines that are written are read back

A text made of lines, each ended by a line feed, has these lines, unless one of them holds a line
feed or ends with a carriage return.
-/
namespace LogicTest.Text

/-- The text with the given lines. -/
def ofLines (lines : List Text) : Text := lines.flatMap (· ++ ['\n'])

/-- A line of a text: no line feed, and no carriage return that the line end would take with it. -/
structure IsLine (line : Text) : Prop where
  no_newline : '\n' ∉ line
  no_return : line.getLast? ≠ some '\r'

theorem IsLine.tail {c : Char} {line : Text} (h : IsLine (c :: line)) : IsLine line := by
  refine ⟨fun hmem => h.no_newline (List.mem_cons_of_mem c hmem), fun hlast => h.no_return ?_⟩
  rw [List.getLast?_cons, hlast]
  rfl

theorem isLine_of_not_mem {text : Text} (hnewline : '\n' ∉ text) (hreturn : '\r' ∉ text) :
    IsLine text :=
  ⟨hnewline, fun hlast => hreturn (List.mem_of_getLast? hlast)⟩

/-- The end of a line decides whether a carriage return would be lost. -/
theorem IsLine.append_left {one two : Text} (hone : '\n' ∉ one) (htwo : IsLine two)
    (hne : two ≠ []) : IsLine (one ++ two) := by
  refine ⟨fun hmem => ?_, ?_⟩
  · exact (List.mem_append.1 hmem).elim hone htwo.no_newline
  · have hlast := List.getLast?_eq_some_getLast hne
    rw [List.getLast?_append, hlast, Option.some_or, ← hlast]
    exact htwo.no_return

theorem IsLine.spaced {text : Text} (h : IsLine text) (hne : text ≠ []) (width : Nat) :
    IsLine (List.replicate width ' ' ++ text) :=
  IsLine.append_left (by simp) h hne

theorem lines_append_newline {line : Text} (h : IsLine line) (rest : Text) :
    lines (line ++ '\n' :: rest) = line :: lines rest := by
  induction line with
  | nil => rfl
  | cons c line ih =>
    have hc : c ≠ '\n' := fun hc => h.no_newline (hc ▸ List.mem_cons_self)
    -- a carriage return is no line end here: what follows it in the line is no line feed
    have hreturn : ∀ more, line ++ '\n' :: rest = '\n' :: more → c ≠ '\r' := by
      rintro more hmore rfl
      cases line with
      | nil => exact h.no_return rfl
      | cons d line =>
        cases hmore
        exact h.no_newline (by simp)
    rw [List.cons_append, lines, ih h.tail]
    · exact fun more hr hmore => hreturn more hmore hr
    · exact hc

theorem lines_ofLines {all : List Text} (h : ∀ line ∈ all, IsLine line) :
    lines (ofLines all) = all := by
  induction all with
  | nil => rfl
  | cons line all ih =>
    obtain ⟨hline, hall⟩ := List.forall_mem_cons.1 h
    rw [ofLines, List.flatMap_cons, List.append_assoc, List.singleton_append,
      lines_append_newline hline, ← ofLines, ih hall]

theorem ofLines_append (one two : List Text) : ofLines (one ++ two) = ofLines one ++ ofLines two :=
  List.flatMap_append

/-- Each line ends with the one line feed that belongs to it. -/
theorem count_newline_ofLines {all : List Text} (h : ∀ line ∈ all, IsLine line) :
    (ofLines all).count '\n' = all.length := by
  induction all with
  | nil => rfl
  | cons line all ih =>
    obtain ⟨hline, hall⟩ := List.forall_mem_cons.1 h
    have hnone : line.count '\n' = 0 := List.count_eq_zero.2 hline.no_newline
    rw [ofLines, List.flatMap_cons, ← ofLines, List.count_append, ih hall, List.count_append, hnone,
      List.length_cons]
    simp [Nat.add_comm]

end LogicTest.Text
