import LogicTest.Proofs.Text.Trim
import LogicTest.QueryHeader

/-!
# The grammar of query headers

What follows the keyword of a query is read as a header exactly if it has the form of one: letters
of columns, a sort word, and a label or none, with blanks between them.
-/
namespace LogicTest.QueryHeader
open Text (isBlank EndsToken Trimmed)

/-- `text` has the form of `header`, written with any blanks around and between its parts. -/
structure Denotes (text : Text) (header : QueryHeader) : Prop where
  columns_ne_nil : header.columns ≠ []
  eq_append : ∃ gap rest : Text, text.trim =
      header.columns.map Column.letter ++ gap ++ header.order.word ++ rest ∧
    gap ≠ [] ∧ (∀ c ∈ gap, isBlank c = true) ∧ EndsToken rest ∧
    header.label = if rest = [] then none else some rest.trim

theorem ofLetter?_eq_some_iff {c : Char} {column : Column} :
    Column.ofLetter? c = some column ↔ c = column.letter := by
  constructor
  · unfold Column.ofLetter?
    split <;> intro h <;> cases h <;> rfl
  · rintro rfl
    cases column <;> rfl

theorem mapM_ofLetter?_eq_some_iff {letters : Text} {columns : List Column} :
    letters.mapM Column.ofLetter? = some columns ↔ letters = columns.map Column.letter := by
  induction letters generalizing columns with
  | nil => cases columns <;> simp
  | cons c rest ih =>
    cases columns with
    | nil => simp [List.mapM_cons, Option.bind_eq_some_iff]
    | cons column columns =>
      simp only [List.mapM_cons, Option.bind_eq_bind, Option.bind_eq_some_iff, ih,
        ofLetter?_eq_some_iff, List.map_cons, List.cons.injEq]
      constructor
      · rintro ⟨found, rfl, others, rfl, h⟩
        cases h
        exact ⟨rfl, rfl⟩
      · rintro ⟨rfl, rfl⟩
        exact ⟨column, rfl, columns, rfl, rfl⟩

theorem ofWord?_eq_some_iff {word : Text} {order : SortOrder} :
    SortOrder.ofWord? word = some order ↔ word = order.word := by
  constructor
  · intro h
    have := List.find?_some h
    exact (eq_of_beq this).symm
  · rintro rfl
    cases order <;> rfl

theorem isBlank_letter (column : Column) : isBlank column.letter = false := by
  cases column <;> rfl

theorem isBlank_of_mem_word {order : SortOrder} {c : Char} (h : c ∈ order.word) :
    isBlank c = false := by
  have hword : order.word.all (!isBlank ·) = true := by
    cases order <;> decide
  simpa using List.all_eq_true.1 hword c h

theorem word_ne_nil (order : SortOrder) : order.word ≠ [] := by
  cases order <;> decide

theorem labelOf?_eq {init rest : Text} (h : Trimmed (init ++ rest)) :
    labelOf? rest = if rest = [] then none else some rest.trim := by
  unfold labelOf?
  by_cases hrest : rest = []
  · simp [hrest, Text.trim, Text.trimStart, Text.trimEnd]
  · simp [hrest, h.trim_ne_nil hrest]

theorem splitToken_fst_ne_nil {text : Text} (h : text.trimStart = text) (hne : text ≠ []) :
    text.splitToken.1 ≠ [] := by
  obtain ⟨c, rest, rfl⟩ := List.exists_cons_of_ne_nil hne
  have : isBlank c = false := Text.trimStart_eq_self_iff.1 h c rfl
  simp [Text.splitToken, this]

/-- What follows a token and is not all blank has blanks in front. -/
theorem exists_gap {rest : Text} (hend : EndsToken rest) (hrest : rest.trimStart ≠ []) :
    ∃ gap, rest = gap ++ rest.trimStart ∧ gap ≠ [] ∧ ∀ c ∈ gap, isBlank c = true := by
  refine ⟨rest.takeWhile isBlank, List.takeWhile_append_dropWhile.symm, ?_,
    fun c hc => List.mem_takeWhile_imp hc⟩
  cases rest with
  | nil => exact absurd rfl hrest
  | cons c more =>
    have : isBlank c = true := hend c rfl
    simp [this]

theorem denotes_of_tokens {text trimmed : Text} {columns : List Column} {order : SortOrder}
    (htext : text.trim = trimmed) (hempty : trimmed ≠ [])
    (hletters : trimmed.splitToken.1 = columns.map Column.letter)
    (hrest : trimmed.splitToken.2.trimStart ≠ [])
    (hword : trimmed.splitToken.2.trimStart.splitToken.1 = order.word) :
    Denotes text ⟨columns, order, labelOf? trimmed.splitToken.2.trimStart.splitToken.2⟩ := by
  have htrimmed : trimmed.Trimmed := htext ▸ Text.trimmed_trim text
  obtain ⟨gap, hgap, hne, hblank⟩ := exists_gap (Text.endsToken_splitToken trimmed) hrest
  have happend : trimmed = columns.map Column.letter ++ gap ++ order.word ++
      trimmed.splitToken.2.trimStart.splitToken.2 := by
    calc trimmed = trimmed.splitToken.1 ++ trimmed.splitToken.2 :=
          (Text.splitToken_fst_append_snd _).symm
      _ = columns.map Column.letter ++ (gap ++ trimmed.splitToken.2.trimStart) := by
          rw [hletters, ← hgap]
      _ = columns.map Column.letter ++ (gap ++ (order.word ++
            trimmed.splitToken.2.trimStart.splitToken.2)) := by
          rw [← hword, Text.splitToken_fst_append_snd]
      _ = _ := by simp
  refine ⟨?_, gap, _, htext.trans happend, hne, hblank, Text.endsToken_splitToken _, ?_⟩
  · rintro rfl
    exact splitToken_fst_ne_nil htrimmed.trimStart hempty hletters
  · exact labelOf?_eq (happend ▸ htrimmed)

theorem denotes_of_ofText {text : Text} {header : QueryHeader} (h : ofText text = .ok header) :
    Denotes text header := by
  unfold ofText at h
  generalize htext : text.trim = trimmed at h
  dsimp only at h
  split at h
  · cases h
  next hempty =>
    split at h
    · cases h
    next columns hletters =>
      split at h
      · cases h
      next hrest =>
        split at h
        · cases h
        next order hword =>
          cases h
          exact denotes_of_tokens htext (by simpa using hempty)
            (mapM_ofLetter?_eq_some_iff.1 hletters) (by simpa using hrest)
            (ofWord?_eq_some_iff.1 hword)

/-- A header is read exactly from the texts that have its form. -/
theorem ofText_eq_ok_iff {text : Text} {header : QueryHeader} :
    ofText text = .ok header ↔ Denotes text header := by
  refine ⟨denotes_of_ofText, fun ⟨hcolumns, gap, rest, htext, hgap, hblank, hend, hlabel⟩ => ?_⟩
  obtain ⟨columns, order, label⟩ := header
  have htrimmed := Text.trimmed_trim text
  rw [htext] at htrimmed
  have hletters : ∀ c ∈ columns.map Column.letter, isBlank c = false := by
    simpa using fun column _ => isBlank_letter column
  have hgapEnds : EndsToken (gap ++ (order.word ++ rest)) := by
    intro c hc
    obtain ⟨blank, more, rfl⟩ := List.exists_cons_of_ne_nil hgap
    cases hc
    exact hblank c List.mem_cons_self
  have hwordStart : Text.trimStart (order.word ++ rest) = order.word ++ rest := by
    apply Text.trimStart_eq_self_iff.2
    intro c hc
    obtain ⟨a, more, hword⟩ := List.exists_cons_of_ne_nil (word_ne_nil order)
    rw [hword] at hc
    cases hc
    exact isBlank_of_mem_word (hword ▸ List.mem_cons_self)
  have hne : columns.map Column.letter ++ (gap ++ (order.word ++ rest)) ≠ [] := by
    simp [show columns ≠ [] from hcolumns]
  have hne' : order.word ++ rest ≠ [] := by simp [word_ne_nil order]
  unfold ofText
  rw [htext, List.append_assoc, List.append_assoc]
  dsimp only
  rw [if_neg (by simpa using hne), Text.splitToken_append hletters hgapEnds]
  dsimp only
  rw [mapM_ofLetter?_eq_some_iff.2 rfl, Text.trimStart_append_of_blank hblank, hwordStart]
  dsimp only
  rw [if_neg (by simpa using hne'),
    Text.splitToken_append (fun c hc => isBlank_of_mem_word hc) hend]
  dsimp only
  rw [ofWord?_eq_some_iff.2 rfl, labelOf?_eq htrimmed, ← hlabel]

/-! ## Headers from their parts -/

section
variable {header : QueryHeader} {gap : Text} (columns : header.columns ≠ [])
  (labelled : ∀ label ∈ header.label, Trimmed label ∧ label ≠ [])
include columns labelled

theorem trimmed_parts (gap : Text) :
    Trimmed (header.columns.map Column.letter ++ (' ' :: header.order.word) ++
      header.label.elim [] (gap ++ ·)) := by
  rw [List.append_assoc]
  refine Text.trimmed_append ?_ (List.map_eq_nil_iff.not.2 columns) ?_ (List.cons_ne_nil _ _)
  · intro c hc
    obtain ⟨column, -, rfl⟩ := List.mem_map.1 (List.mem_of_mem_head? hc)
    exact isBlank_letter column
  · cases hlabel : header.label with
    | none =>
      intro c hc
      rw [Option.elim_none, List.append_nil, List.getLast?_cons_of_ne_nil (word_ne_nil _)] at hc
      exact isBlank_of_mem_word (List.mem_of_getLast? hc)
    | some label =>
      obtain ⟨htrimmed, hne⟩ := labelled label hlabel
      rw [Option.elim_some,
        List.getLast?_append_of_ne_nil _ (List.append_ne_nil_of_right_ne_nil _ hne),
        List.getLast?_append_of_ne_nil _ hne]
      exact (Text.trimmed_iff.1 htrimmed).2

/-- A header is read back from its parts, with any blanks before its label. -/
theorem denotes_parts (gap_ne_nil : gap ≠ []) (blank : ∀ c ∈ gap, isBlank c = true) :
    Denotes (header.columns.map Column.letter ++ (' ' :: header.order.word) ++
      header.label.elim [] (gap ++ ·)) header := by
  refine ⟨columns, [' '], header.label.elim [] (gap ++ ·), ?_, List.cons_ne_nil _ _, ?_, ?_, ?_⟩
  · rw [trimmed_parts columns labelled]
    simp
  · exact List.forall_mem_singleton.2 (by decide)
  · cases header.label with
    | none => nofun
    | some label =>
      intro c hc
      rw [Option.elim_some, List.head?_append_of_ne_nil _ gap_ne_nil] at hc
      exact blank c (List.mem_of_mem_head? hc)
  · cases hlabel : header.label with
    | none => rfl
    | some label =>
      obtain ⟨htrimmed, -⟩ := labelled label hlabel
      rw [Option.elim_some, if_neg (List.append_ne_nil_of_left_ne_nil gap_ne_nil _), Text.trim,
        Text.trimStart_append_of_blank blank, ← Text.trim, htrimmed]

end

end LogicTest.QueryHeader
