import LogicTest.Proofs.Grammar.Basic

/-!
# Lines of the grammar

The logical form of a line is what the cursor hands out of it; directive lines name the conditions
that are gathered from them; and the text of a query is its lines joined with single spaces.
-/
namespace LogicTest.Grammar

theorem withoutComment_trim (line : Text) : withoutComment line.trim = logical line := by
  unfold withoutComment logical
  split
  · rfl
  next h =>
    have htake : line.trim.takeWhile (· ≠ '#') = line.trim :=
      List.takeWhile_eq_self_iff.2 fun c hc => by
        simpa using fun hsharp : c = '#' => h (hsharp ▸ hc)
    rw [htake, (Text.trimmed_trim line).trimEnd]

theorem logical_of_comment {line : Text} (h : isComment line.trim = true) : logical line = [] := by
  rw [isComment, beq_iff_eq] at h
  obtain ⟨rest, hrest⟩ := List.head?_eq_some_iff.1 h
  rw [logical, hrest]
  rfl

theorem isComment_of_logical_ne_nil {line : Text} (h : logical line ≠ []) :
    isComment line.trim = false := by
  rw [← Bool.not_eq_true]
  exact fun hcomment => h (logical_of_comment hcomment)

theorem logical_eq_trimStart (line : Text) :
    logical line = Text.trimEnd (line.trimStart.takeWhile (· ≠ '#')) :=
  Text.trimEnd_takeWhile_trimEnd _ _

/-- A comment behind a line that is not blank makes no difference to its logical form. -/
theorem logical_append_comment {line : Text} (h : line.trim ≠ []) (comment : Text) :
    logical (line ++ '#' :: comment) = logical line := by
  rw [logical_eq_trimStart, logical_eq_trimStart, Text.trimStart_append h, List.takeWhile_append]
  split
  next hlength =>
    rw [(List.takeWhile_prefix _).eq_of_length hlength, List.takeWhile_cons_of_neg (by simp),
      List.append_nil]
  · rfl

/-- Nor does it turn the line into a comment. -/
theorem isComment_append_comment {line : Text} (h : line.trim ≠ []) (comment : Text) :
    isComment (Text.trim (line ++ '#' :: comment)) = isComment line.trim := by
  have hblank : Text.trim (line ++ '#' :: comment) ≠ [] := fun hnil =>
    absurd (Text.trim_eq_nil_iff.1 hnil '#' (by simp)) (by decide)
  rw [isComment, isComment, Text.trim, Text.head?_trimEnd hblank, Text.trim, Text.head?_trimEnd h,
    Text.trimStart_append h, List.head?_append_of_ne_nil _ (Text.trimStart_ne_nil h)]

theorem isPrefixOf_eq_decide (one two : Text) : one.isPrefixOf two = decide (one <+: two) := by
  rw [Bool.eq_iff_iff, List.isPrefixOf_iff_prefix, decide_eq_true_iff]

theorem logical_of_no_hash {line : Text} (h : '#' ∉ line) : logical line = line.trim := by
  rw [← withoutComment_trim, withoutComment, if_neg fun hmem => h (Text.mem_of_mem_trim hmem)]

theorem isComment_of_no_hash {line : Text} (h : '#' ∉ line) : isComment line.trim = false := by
  rw [isComment, beq_eq_false_iff_ne]
  exact fun hhead => h (Text.mem_of_mem_trim (List.mem_of_mem_head? hhead))

/-! ## Logical lines -/

theorem logicalLines_append (one two : List Text) :
    logicalLines (one ++ two) = logicalLines one ++ logicalLines two := by
  simp [logicalLines]

theorem logicalLines_of_comment {line : Text} (h : isComment line.trim = true) :
    logicalLines [line] = [] := by
  simp [logicalLines, h]

theorem logicalLines_of_not_comment {line : Text} (h : isComment line.trim = false) :
    logicalLines [line] = [logical line] := by
  simp [logicalLines, h]

theorem logicalLines_cons (line : Text) (lines : List Text) :
    logicalLines (line :: lines) = logicalLines [line] ++ logicalLines lines :=
  logicalLines_append [line] lines

theorem spells_concat {segment lines : List Text} {line : Text}
    (h : logicalLines segment = lines) (hline : isComment line.trim = false) :
    Spells (segment ++ [line]) (lines ++ [logical line]) :=
  ⟨by rw [logicalLines_append, h, logicalLines_of_not_comment hline], segment, line, rfl, hline⟩

/-- Lines without comments spell their trimmed texts. -/
theorem spells_of_no_hash (init : List Text) {last : Text}
    (h : ∀ line ∈ init ++ [last], '#' ∉ line) :
    Spells (init ++ [last]) ((init ++ [last]).map Text.trim) := by
  have hfilter : (init ++ [last]).filter (fun line => !isComment line.trim) = init ++ [last] :=
    List.filter_eq_self.2 fun line hline => by rw [isComment_of_no_hash (h line hline)]; rfl
  refine ⟨?_, init, last, rfl, isComment_of_no_hash (h last (by simp))⟩
  rw [logicalLines, hfilter]
  exact List.map_congr_left fun line hline => logical_of_no_hash (h line hline)

theorem Spells.exists_concat {segment lines : List Text} {line : Text}
    (h : Spells segment (lines ++ [line])) :
    ∃ init last, segment = init ++ [last] ∧ isComment last.trim = false ∧
      logicalLines init = lines ∧ logical last = line := by
  obtain ⟨hlines, init, last, rfl, hlast⟩ := h
  rw [logicalLines_append, logicalLines_of_not_comment hlast] at hlines
  obtain ⟨hinit, hline⟩ := List.append_inj' hlines rfl
  exact ⟨init, last, rfl, hlast, hinit, by simpa using hline⟩

/-- A logical line is that of a line which is no comment, and those before and after it are those of
the lines before and after. -/
theorem exists_line_of_logicalLines_eq {segment before after : List Text} {line : Text}
    (h : logicalLines segment = before ++ line :: after) :
    ∃ one found two, segment = one ++ found :: two ∧ isComment found.trim = false ∧
      logicalLines one = before ∧ logical found = line ∧ logicalLines two = after := by
  induction segment generalizing before with
  | nil => cases before <;> cases h
  | cons first segment ih =>
    rw [logicalLines_cons] at h
    cases hfirst : isComment first.trim with
    | true =>
      rw [logicalLines_of_comment hfirst, List.nil_append] at h
      obtain ⟨one, found, two, rfl, hcomment, hone, hfound, htwo⟩ := ih h
      refine ⟨first :: one, found, two, rfl, hcomment, ?_, hfound, htwo⟩
      rw [logicalLines_cons, logicalLines_of_comment hfirst, hone, List.nil_append]
    | false =>
      rw [logicalLines_of_not_comment hfirst, List.singleton_append] at h
      cases before with
      | nil =>
        obtain ⟨hline, hafter⟩ := List.cons.inj h
        exact ⟨[], first, segment, rfl, hfirst, rfl, hline, hafter⟩
      | cons other before =>
        obtain ⟨hother, hrest⟩ := List.cons.inj h
        obtain ⟨one, found, two, rfl, hcomment, hone, hfound, htwo⟩ := ih hrest
        refine ⟨first :: one, found, two, rfl, hcomment, ?_, hfound, htwo⟩
        rw [logicalLines_cons, logicalLines_of_not_comment hfirst, hone, hother,
          List.singleton_append]

/-! ## Directive lines -/

theorem ofLine?_eq_skip_iff {line condition : Text} :
    Directive.ofLine? line = some (.skip condition) ↔
      ∃ rest, line = "skipif".toList ++ rest ∧ condition = Text.trim rest := by
  constructor
  · intro h
    unfold Directive.ofLine? at h
    split at h
    next rest hkeyword =>
      cases h
      exact ⟨rest, (List.isPrefixOf?_eq_some_iff_append_eq.1 hkeyword).symm, rfl⟩
    · obtain ⟨rest, -, h⟩ := Option.map_eq_some_iff.1 h
      cases h
  · rintro ⟨rest, rfl, rfl⟩
    rfl

theorem ofLine?_eq_only_iff {line condition : Text} :
    Directive.ofLine? line = some (.only condition) ↔
      ∃ rest, line = "onlyif".toList ++ rest ∧ condition = Text.trim rest := by
  constructor
  · intro h
    unfold Directive.ofLine? at h
    split at h
    · cases h
    · obtain ⟨rest, hkeyword, h⟩ := Option.map_eq_some_iff.1 h
      cases h
      exact ⟨rest, (List.isPrefixOf?_eq_some_iff_append_eq.1 hkeyword).symm, rfl⟩
  · rintro ⟨rest, rfl, rfl⟩
    rfl

theorem isSome_ofLine?_iff {line : Text} :
    (Directive.ofLine? line).isSome = true ↔ IsDirective line := by
  constructor
  · intro h
    obtain ⟨directive, hdirective⟩ := Option.isSome_iff_exists.1 h
    cases directive with
    | skip condition =>
      obtain ⟨rest, rfl, -⟩ := ofLine?_eq_skip_iff.1 hdirective
      exact .inl ⟨rest, rfl⟩
    | only condition =>
      obtain ⟨rest, rfl, -⟩ := ofLine?_eq_only_iff.1 hdirective
      exact .inr ⟨rest, rfl⟩
  · rintro (⟨rest, rfl⟩ | ⟨rest, rfl⟩) <;> rfl

theorem mem_skip_foldl {condition : Text} {directives : List Directive} {conditions : Conditions} :
    condition ∈ (directives.foldl Directive.addTo conditions).skip ↔
      condition ∈ conditions.skip ∨ .skip condition ∈ directives := by
  induction directives generalizing conditions with
  | nil => simp
  | cons directive rest ih =>
    rw [List.foldl_cons, ih]
    cases directive <;> simp [Directive.addTo, Conditions.addSkip, Conditions.addOnly]
    tauto

theorem mem_only_foldl {condition : Text} {directives : List Directive} {conditions : Conditions} :
    condition ∈ (directives.foldl Directive.addTo conditions).only ↔
      condition ∈ conditions.only ∨ .only condition ∈ directives := by
  induction directives generalizing conditions with
  | nil => simp
  | cons directive rest ih =>
    rw [List.foldl_cons, ih]
    cases directive <;> simp [Directive.addTo, Conditions.addSkip, Conditions.addOnly]
    tauto

theorem names_ofLines (lines : List Text) : Names lines (.ofLines lines) where
  mem_skip condition := by
    simp only [Conditions.ofLines, mem_skip_foldl, List.mem_filterMap, ofLine?_eq_skip_iff,
      Conditions.none, ConditionSet.not_mem_empty, false_or]
    constructor
    · rintro ⟨line, hline, rest, rfl, rfl⟩
      exact ⟨rest, hline, rfl⟩
    · rintro ⟨rest, hline, rfl⟩
      exact ⟨_, hline, rest, rfl, rfl⟩
  mem_only condition := by
    simp only [Conditions.ofLines, mem_only_foldl, List.mem_filterMap, ofLine?_eq_only_iff,
      Conditions.none, ConditionSet.not_mem_empty, false_or]
    constructor
    · rintro ⟨line, hline, rest, rfl, rfl⟩
      exact ⟨rest, hline, rfl⟩
    · rintro ⟨rest, hline, rfl⟩
      exact ⟨_, hline, rest, rfl, rfl⟩

/-- Directive lines name one pair of sets. -/
theorem names_iff {lines : List Text} {conditions : Conditions} :
    Names lines conditions ↔ conditions = .ofLines lines := by
  refine ⟨fun h => ?_, fun h => h ▸ names_ofLines lines⟩
  have hlines := names_ofLines lines
  obtain ⟨skip, only⟩ := conditions
  have hskip : skip = (Conditions.ofLines lines).skip :=
    ConditionSet.ext fun c => (h.mem_skip c).trans (hlines.mem_skip c).symm
  have honly : only = (Conditions.ofLines lines).only :=
    ConditionSet.ext fun c => (h.mem_only c).trans (hlines.mem_only c).symm
  rw [hskip, honly]

/-! ## The text of a query -/

theorem flatMap_space_eq (line : Text) (lines : List Text) :
    (line :: lines).flatMap (' ' :: ·) = ' ' :: [' '].intercalate (line :: lines) := by
  induction lines generalizing line with
  | nil => simp [List.intercalate]
  | cons next rest ih =>
    rw [List.flatMap_cons, ih, List.intercalate_cons_cons]
    simp

theorem joinQuery_eq_joined (lines : List Text) : joinQuery lines = joined lines := by
  cases lines with
  | nil => rfl
  | cons line rest =>
    rw [joinQuery, flatMap_space_eq, Text.trim_cons_blank (by decide), joined]

end LogicTest.Grammar
