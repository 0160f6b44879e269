import LogicTest.Proofs.Printing.Lines

/-!
# Defects of query headers

A text that is no header is refused for its leftmost defect. `Refused` says by itself, for every
text, which message that gives; together with `Denotes` it covers every text exactly once. Headers
are read back from what is written of them, in operations too.
-/
namespace LogicTest
open Text (isBlank EndsToken)

/-- A text that is not empty and has no blank in it. -/
structure Text.IsToken (token : Text) : Prop where
  ne_nil : token ≠ []
  no_blank : ∀ c ∈ token, isBlank c = false

namespace QueryHeader

def letters : Text := "ITRBO".toList

def words : List Text := ["nosort".toList, "rowsort".toList, "valuesort".toList]

/-- What follows the keyword is no header, and this is the message about it. -/
inductive Refused (text : Text) : Text → Prop where
  | noColumns (blank : text.trim = []) :
      Refused text "malformed query description: missing column types".toList
  | badColumns {token rest : Text} (eq_append : text.trim = token ++ rest)
      (isToken : token.IsToken) (ends : EndsToken rest) (unknown : ∃ c ∈ token, c ∉ letters) :
      Refused text ("could not parse output column types: ".toList ++ token.quoted)
  | noSortOrder (ne_nil : text.trim ≠ []) (known : ∀ c ∈ text.trim, c ∈ letters) :
      Refused text "malformed query description: missing sort order".toList
  | badSortOrder {columns gap token rest : Text}
      (eq_append : text.trim = columns ++ gap ++ token ++ rest) (ne_nil : columns ≠ [])
      (known : ∀ c ∈ columns, c ∈ letters) (gap_ne_nil : gap ≠ [])
      (blank : ∀ c ∈ gap, isBlank c = true) (isToken : token.IsToken) (ends : EndsToken rest)
      (unknown : token ∉ words) :
      Refused text ("did not understand sort order: ".toList ++ token.quoted)

/-! ## The tables of letters and words -/

theorem letter_mem (column : Column) : column.letter ∈ letters := by
  cases column <;> decide

theorem word_mem (order : SortOrder) : order.word ∈ words := by
  cases order <;> decide

theorem exists_letter_eq {c : Char} (h : c ∈ letters) : ∃ column : Column, column.letter = c := by
  have hall : letters.all fun c => (Column.ofLetter? c).isSome := by decide
  obtain ⟨column, hcolumn⟩ := Option.isSome_iff_exists.1 (List.all_eq_true.1 hall c h)
  exact ⟨column, (ofLetter?_eq_some_iff.1 hcolumn).symm⟩

theorem exists_word_eq {word : Text} (h : word ∈ words) :
    ∃ order : SortOrder, order.word = word := by
  have hall : words.all fun word => (SortOrder.ofWord? word).isSome := by decide
  obtain ⟨order, horder⟩ := Option.isSome_iff_exists.1 (List.all_eq_true.1 hall word h)
  exact ⟨order, (ofWord?_eq_some_iff.1 horder).symm⟩

/-- The texts that stand for columns are those made of the letters. -/
theorem exists_columns_iff {token : Text} :
    (∃ columns : List Column, token = columns.map Column.letter) ↔ ∀ c ∈ token, c ∈ letters := by
  constructor
  · rintro ⟨columns, rfl⟩
    exact List.forall_mem_map.2 fun column _ => letter_mem column
  · intro h
    induction token with
    | nil => exact ⟨[], rfl⟩
    | cons c rest ih =>
      obtain ⟨hc, hrest⟩ := List.forall_mem_cons.1 h
      obtain ⟨column, rfl⟩ := exists_letter_eq hc
      obtain ⟨columns, rfl⟩ := ih hrest
      exact ⟨column :: columns, rfl⟩

theorem mapM_ofLetter?_eq_none_iff {token : Text} :
    token.mapM Column.ofLetter? = none ↔ ∃ c ∈ token, c ∉ letters := by
  have hsome : (∃ columns, token.mapM Column.ofLetter? = some columns) ↔
      ∀ c ∈ token, c ∈ letters := by
    simp only [mapM_ofLetter?_eq_some_iff, exists_columns_iff]
  rw [← not_iff_not, ← Ne, Option.ne_none_iff_exists', hsome]
  push Not
  rfl

theorem ofWord?_eq_none_iff {word : Text} : SortOrder.ofWord? word = none ↔ word ∉ words := by
  rw [← not_iff_not, not_not, ← Ne, Option.ne_none_iff_exists']
  constructor
  · rintro ⟨order, horder⟩
    rw [ofWord?_eq_some_iff.1 horder]
    exact word_mem order
  · intro h
    obtain ⟨order, rfl⟩ := exists_word_eq h
    exact ⟨order, ofWord?_eq_some_iff.2 rfl⟩

/-! ## Where a defect is found -/

/-- Blanks behind a token end it. -/
theorem endsToken_gap {gap : Text} (ne_nil : gap ≠ []) (blank : ∀ c ∈ gap, isBlank c = true)
    (rest : Text) : EndsToken (gap ++ rest) := by
  intro c hc
  rw [List.head?_append_of_ne_nil _ ne_nil] at hc
  exact blank c (List.mem_of_mem_head? hc)

theorem isToken_splitToken {text : Text} (h : text.trimStart = text) (ne_nil : text ≠ []) :
    text.splitToken.1.IsToken where
  ne_nil := splitToken_fst_ne_nil h ne_nil
  no_blank c hc := by simpa using List.mem_takeWhile_imp hc

theorem isBlank_of_mem_letters {c : Char} (h : c ∈ letters) : isBlank c = false := by
  obtain ⟨column, rfl⟩ := exists_letter_eq h
  exact isBlank_letter column

/-- What is not refused by its first token goes on behind it. -/
theorem ofText_of_token {text token rest : Text} (eq_append : text.trim = token ++ rest)
    (isToken : token.IsToken) (ends : EndsToken rest) :
    ofText text = match token.mapM Column.ofLetter? with
      | none => .error (.badColumns token)
      | some columns =>
        if rest.trimStart.isEmpty then .error .noSortOrder
        else match SortOrder.ofWord? rest.trimStart.splitToken.1 with
          | none => .error (.badSortOrder rest.trimStart.splitToken.1)
          | some order => .ok ⟨columns, order, labelOf? rest.trimStart.splitToken.2⟩ := by
  have hempty : (token ++ rest).isEmpty = false := by simp [isToken.ne_nil]
  have hparts := Text.splitToken_append isToken.no_blank ends
  unfold ofText
  rw [eq_append]
  dsimp only
  rw [hempty, if_neg Bool.false_ne_true]
  generalize Text.splitToken (token ++ rest) = parts at hparts ⊢
  cases hparts
  rfl

theorem trimStart_token {token rest : Text} (isToken : token.IsToken) :
    Text.trimStart (token ++ rest) = token ++ rest := by
  rw [Text.trimStart_eq_self_iff, List.head?_append_of_ne_nil _ isToken.ne_nil]
  exact fun c hc => isToken.no_blank c (List.mem_of_mem_head? hc)

/-- A text with a defect is refused, with the message about it. -/
theorem Refused.exists_defect {text message : Text} (h : Refused text message) :
    ∃ defect, ofText text = .error defect ∧ defect.message = message := by
  cases h with
  | noColumns blank =>
    refine ⟨.noColumns, ?_, rfl⟩
    simp only [ofText, blank, List.isEmpty_nil, if_true]
  | @badColumns token rest eq_append isToken ends unknown =>
    refine ⟨.badColumns token, ?_, rfl⟩
    rw [ofText_of_token eq_append isToken ends, mapM_ofLetter?_eq_none_iff.2 unknown]
  | noSortOrder ne_nil known =>
    obtain ⟨columns, hcolumns⟩ := exists_columns_iff.2 known
    refine ⟨.noSortOrder, ?_, rfl⟩
    rw [ofText_of_token (List.append_nil _).symm
      ⟨ne_nil, fun c hc => isBlank_of_mem_letters (known c hc)⟩ nofun,
      mapM_ofLetter?_eq_some_iff.2 hcolumns]
    rfl
  | @badSortOrder token gap word rest eq_append ne_nil known gap_ne_nil blank isToken ends
      unknown =>
    obtain ⟨columns, hcolumns⟩ := exists_columns_iff.2 known
    refine ⟨.badSortOrder word, ?_, rfl⟩
    have happend : text.trim = token ++ (gap ++ (word ++ rest)) := by
      rw [eq_append, List.append_assoc, List.append_assoc]
    have hstart : Text.trimStart (gap ++ (word ++ rest)) = word ++ rest := by
      rw [Text.trimStart_append_of_blank blank, trimStart_token isToken]
    have hempty : (word ++ rest).isEmpty = false := by simp [isToken.ne_nil]
    rw [ofText_of_token happend ⟨ne_nil, fun c hc => isBlank_of_mem_letters (known c hc)⟩
      (endsToken_gap gap_ne_nil blank _), mapM_ofLetter?_eq_some_iff.2 hcolumns]
    simp only [hstart, hempty, Bool.false_eq_true, if_false,
      Text.splitToken_append isToken.no_blank ends, ofWord?_eq_none_iff.2 unknown]

/-- A text that is refused has the defect that it is refused for. -/
theorem refused_of_ofText {text : Text} {defect : HeaderDefect} (h : ofText text = .error defect) :
    Refused text defect.message := by
  by_cases hblank : text.trim = []
  · obtain ⟨found, hfound, -⟩ := (Refused.noColumns hblank).exists_defect
    have hdefect : ofText text = .error .noColumns := by
      simp only [ofText, hblank, List.isEmpty_nil, if_true]
    cases hdefect.symm.trans h
    exact .noColumns hblank
  have htrimmed := Text.trimmed_trim text
  have hsplit := Text.splitToken_fst_append_snd text.trim
  have hends := Text.endsToken_splitToken text.trim
  have htoken := isToken_splitToken htrimmed.trimStart hblank
  generalize text.trim.splitToken.1 = token at hsplit htoken
  generalize text.trim.splitToken.2 = rest at hsplit hends
  rw [ofText_of_token hsplit.symm htoken hends] at h
  split at h
  next hletters =>
    cases h
    exact .badColumns hsplit.symm htoken hends (mapM_ofLetter?_eq_none_iff.1 hletters)
  next columns hletters =>
    have hknown := exists_columns_iff.1 ⟨columns, mapM_ofLetter?_eq_some_iff.1 hletters⟩
    split at h
    next hrest =>
      cases h
      have hnil : rest = [] := by
        by_contra hne
        refine Text.Trimmed.trim_ne_nil (hsplit ▸ htrimmed) hne ?_
        rw [Text.trim, List.isEmpty_iff.1 hrest]
        rfl
      rw [hnil, List.append_nil] at hsplit
      exact .noSortOrder hblank (hsplit ▸ hknown)
    next hrest =>
      obtain ⟨gap, hgap, hgap_ne, hgap_blank⟩ := exists_gap hends (by simpa using hrest)
      split at h
      next hword =>
        cases h
        have hstart : rest.trimStart.trimStart = rest.trimStart :=
          Text.trimStart_eq_self_iff.2 (Text.head?_trimStart rest)
        have hword_split := Text.splitToken_fst_append_snd rest.trimStart
        refine .badSortOrder ?_ htoken.ne_nil hknown hgap_ne hgap_blank
          (isToken_splitToken hstart (by simpa using hrest))
          (Text.endsToken_splitToken rest.trimStart) (ofWord?_eq_none_iff.1 hword)
        rw [List.append_assoc, hword_split, List.append_assoc, ← hgap, hsplit]
      next => cases h

theorem mapError_ofText_eq_error_iff {text message : Text} :
    (ofText text).mapError HeaderDefect.message = .error message ↔ Refused text message := by
  constructor
  · intro h
    cases hread : ofText text with
    | ok header =>
      rw [hread] at h
      cases h
    | error defect =>
      rw [hread] at h
      cases h
      exact refused_of_ofText hread
  · intro h
    obtain ⟨defect, hread, rfl⟩ := h.exists_defect
    rw [hread]
    rfl

/-- What an operation shows of a header is read back, with a label behind any blanks. -/
theorem ofText_rendered {header : QueryHeader} {gap : Text} (columns : header.columns ≠ [])
    (labelled : ∀ label ∈ header.label, label.Trimmed ∧ label ≠ []) (gap_ne_nil : gap ≠ [])
    (blank : ∀ c ∈ gap, isBlank c = true) (expected : Expectation) :
    ∃ written, Output.render ⟨header.columns, header.order, expected⟩ =
        written ++ " (".toList ++ expected.render ++ ")".toList ∧
      ofText (written ++ header.label.elim [] (gap ++ ·)) = .ok header := by
  refine ⟨header.columns.map Column.letter ++ " ".toList ++ header.order.word, rfl, ?_⟩
  have hparts := denotes_parts columns labelled gap_ne_nil blank
  rw [List.append_cons] at hparts
  exact ofText_eq_ok_iff.2 hparts

/-- A header is read exactly from the texts that have its form, and every other text is refused with
the message about its leftmost defect; and a header is read back from what is shown of it. -/
theorem header_read_or_refused :
    (∀ text header, ofText text = .ok header ↔ Denotes text header) ∧
    (∀ text message,
      (ofText text).mapError HeaderDefect.message = .error message ↔ Refused text message) ∧
    ∀ (header : QueryHeader) (expected : Expectation) (gap : Text), header.columns ≠ [] →
      (∀ label ∈ header.label, label.Trimmed ∧ label ≠ []) →
      gap ≠ [] → (∀ c ∈ gap, isBlank c = true) →
      ∃ written, Output.render ⟨header.columns, header.order, expected⟩ =
          written ++ " (".toList ++ expected.render ++ ")".toList ∧
        ofText (written ++ header.label.elim [] (gap ++ ·)) = .ok header :=
  ⟨fun _ _ => ofText_eq_ok_iff, fun _ _ => mapError_ofText_eq_error_iff,
    fun _ expected _ columns labelled gap_ne_nil blank =>
      ofText_rendered columns labelled gap_ne_nil blank expected⟩

/-- A label with an inner blank, behind an em space. -/
theorem header_of_two_columns_read_back :
    let header : QueryHeader := ⟨[.integer, .text], .byValue, some "join 1".toList⟩
    let expected : Expectation := .digest 3 "9b1c".toList
    ∃ written, Output.render ⟨header.columns, header.order, expected⟩ =
        written ++ " (".toList ++ expected.render ++ ")".toList ∧
      ofText (written ++ "\u2003join 1".toList) = .ok header :=
  header_read_or_refused.2.2 ⟨[.integer, .text], .byValue, some "join 1".toList⟩
    (.digest 3 "9b1c".toList) "\u2003".toList (by decide +kernel)
    (by rintro label ⟨⟩; exact ⟨by rfl, by decide +kernel⟩) (by decide +kernel)
    (List.all_eq_true.1 (by decide +kernel))

example : Refused " IX\tnosort".toList "could not parse output column types: 'IX'".toList :=
  mapError_ofText_eq_error_iff.1 (by decide +kernel)

end QueryHeader
end LogicTest
