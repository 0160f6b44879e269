import LogicTest.Proofs.Grammar.Completeness

/-!
# What is read is in the grammar

The invariant of a phase says which lines have led to it. One line preserves it (`reached_step`),
and where a line or the end of the input completes an item, the lines since the last one form that
item. So a division cuts the lines of a source into stretches that the grammar describes
(`cuts_divide`), up to the record in which a fault is met.
-/
namespace LogicTest.Grammar

/-- The lines of a query up to its delimiter. -/
structure IsText (start : Nat) (directed : Prop) (text : List Text) (query : OpenQuery) : Prop where
  exists_lines : ∃ blanks description,
    Spells text (blanks ++ ("query".toList ++ description) :: query.lines ++ [resultDelimiter]) ∧
    (∀ line ∈ blanks, line = []) ∧ (blanks ≠ [] → directed) ∧
    QueryHeader.Denotes description query.header
  undelimited : resultDelimiter ∉ query.lines
  sourceLine_eq : query.sourceLine = start + text.length

theorem IsText.isOperation {start : Nat} {directed : Prop} {text result : List Text}
    {query : OpenQuery} {close : Close} {expected : Expectation}
    (h : IsText start directed text query) (isResult : IsResult result close expected) :
    IsOperation start directed (text ++ result) close (query.expecting expected) := by
  obtain ⟨header, lines, sourceLine⟩ := query
  obtain ⟨⟨blanks, description, hlines, hblank, hplaced, hheader⟩, hdelimiter, hsource⟩ := h
  cases hsource
  rw [OpenQuery.expecting, joinQuery_eq_joined]
  exact .query hlines hblank hplaced hheader hdelimiter isResult

/-- Which lines lead to a phase in the body of a record, the directive lines apart. -/
inductive BodyReached (start : Nat) (directed : Prop) : List Text → BodyPhase → Prop where
  | statement {segment header sql} (lines : logicalLines segment = header :: sql)
      (keyword : "statement".toList <+: header) (nonempty : ∀ line ∈ sql, line ≠ []) :
      BodyReached start directed segment (.statement header sql)
  | heading {segment} (blank : ∀ line ∈ logicalLines segment, line = [])
      (some_line : logicalLines segment ≠ []) (placed : directed) :
      BodyReached start directed segment .heading
  | text {segment blanks sql description header}
      (lines : logicalLines segment = blanks ++ ("query".toList ++ description) :: sql)
      (blank : ∀ line ∈ blanks, line = []) (placed : blanks ≠ [] → directed)
      (isHeader : QueryHeader.Denotes description header) (undelimited : resultDelimiter ∉ sql) :
      BodyReached start directed segment (.text header sql)
  | result {text segment query} (isText : IsText start directed text query)
      (lines : logicalLines segment = []) :
      BodyReached start directed (text ++ segment) (.result query)
  | values {text segment query value more} (isText : IsText start directed text query)
      (first : Spells segment [value]) (nonempty : value ≠ [])
      (no_digest : ¬ digestMarker <:+: value)
      (others : ∀ line ∈ more, Text.trim line ≠ []) :
      BodyReached start directed (text ++ (segment ++ more))
        (.values query (value :: more.map Text.trim))
  | separator {text segment query line count digest} (isText : IsText start directed text query)
      (lines : logicalLines segment = [line]) (isDigest : IsDigest line count digest) :
      BodyReached start directed (text ++ segment)
        (.separator (query.expecting (.digest count digest)))

/-- Which lines lead to a phase, from the beginning of an item on. -/
inductive Reached (start : Nat) : List Text → Phase → Prop where
  | start {segment} (lines : logicalLines segment = []) : Reached start segment .start
  | directives {segment} (directives : ∀ line ∈ logicalLines segment, IsDirective line)
      (some_line : logicalLines segment ≠ []) :
      Reached start segment (.directives (logicalLines segment))
  | body {named segment phase} (directives : ∀ line ∈ logicalLines named, IsDirective line)
      (reached : BodyReached (start + named.length) (logicalLines named ≠ []) segment phase) :
      Reached start (named ++ segment) (.body (.ofLines (logicalLines named)) phase)

/-- What a step in the body of a record makes of the lines that led to it. -/
def BodyReached.After (start : Nat) (directed : Prop) (segment : List Text) : BodyStep → Prop
  | .more phase => BodyReached start directed segment phase
  | .done operation => IsOperation start directed segment .line operation
  | .stuck _ => True

/-- What a step makes of the lines that led to it. -/
def Reached.After (start : Nat) (segment : List Text) : Step → Prop
  | .more phase => Reached start segment phase
  | .done item => IsItem start segment .line item
  | .stuck _ _ => True

section
variable {start : Nat} {directed : Prop} {segment : List Text} {line : Text}

theorem isDigest_of_cutAround? {before after : Text} {count : Nat}
    (hcut : Text.cutAround? digestMarker line = some (before, after))
    (hcount : Numeral.ofText? before.trimEnd = some count) :
    IsDigest line count after.trim :=
  ⟨before, after, Text.cutAround?_eq_some_iff.1 hcut, Numeral.ofText?_eq_some_iff.1 hcount, rfl⟩

theorem bodyReached_takeHeader (blank : ∀ line ∈ logicalLines segment, line = [])
    (placed : logicalLines segment ≠ [] → directed) (hline : isComment line.trim = false)
    (hblank : logical line = [] → directed) :
    BodyReached.After start directed (segment ++ [line])
      (BodyPhase.takeHeader (logical line)) := by
  have hlines : logicalLines (segment ++ [line]) = logicalLines segment ++ [logical line] := by
    rw [logicalLines_append, logicalLines_of_not_comment hline]
  unfold BodyPhase.takeHeader
  split
  next hempty =>
    have hempty : logical line = [] := by simpa using hempty
    refine .heading ?_ (by simp [hlines]) (hblank hempty)
    rw [hlines, hempty]
    exact List.forall_mem_append.2 ⟨blank, by simp⟩
  · split
    · trivial
    next description hkeyword =>
      split
      · trivial
      next header hheader =>
        have hquery : "query".toList ++ description = logical line :=
          List.isPrefixOf?_eq_some_iff_append_eq.1 hkeyword
        exact .text (hquery ▸ hlines) blank placed (QueryHeader.ofText_eq_ok_iff.1 hheader)
          (by simp)

theorem bodyReached_takeResult {text : List Text} {query : OpenQuery}
    (isText : IsText start directed text query) (lines : logicalLines segment = [])
    (hline : isComment line.trim = false) :
    BodyReached.After start directed (text ++ (segment ++ [line]))
      (BodyPhase.takeResult query (logical line)) := by
  have hspells : Spells (segment ++ [line]) [logical line] := by
    simpa using spells_concat lines hline
  unfold BodyPhase.takeResult
  split
  next before after hcut =>
    split
    · trivial
    next count hcount =>
      exact .separator isText hspells.logicalLines_eq (isDigest_of_cutAround? hcut hcount)
  next hcut =>
    split
    next hempty =>
      have hempty : logical line = [] := by simpa using hempty
      exact isText.isOperation (.empty (hempty ▸ hspells))
    next hempty =>
      have hreached : BodyReached start directed (text ++ (segment ++ [line] ++ []))
          (.values query (logical line :: [].map Text.trim)) :=
        .values isText hspells (by simpa using hempty) (Text.cutAround?_eq_none_iff.1 hcut)
          (by simp)
      simpa only [BodyReached.After, List.append_nil, List.map_nil] using hreached

/-- A line that is not a comment preserves the invariant of the body of a record. -/
theorem bodyReached_take {phase : BodyPhase} (h : BodyReached start directed segment phase)
    (hscript : ∀ query lines, phase ≠ .values query lines) (hline : isComment line.trim = false) :
    BodyReached.After start directed (segment ++ [line])
      (phase.take (start + segment.length + 1) (logical line)) := by
  cases h with
  | @statement segment header sql lines keyword nonempty =>
    have hspells := spells_concat lines hline
    simp only [BodyPhase.take]
    split
    next hempty =>
      have hempty : logical line = [] := by simpa using hempty
      rw [hempty] at hspells
      rw [isPrefixOf_eq_decide]
      exact .statement hspells keyword nonempty
    next hempty =>
      refine BodyReached.statement ?_ keyword ?_
      · rw [hspells.logicalLines_eq, List.cons_append]
      · exact List.forall_mem_append.2 ⟨nonempty, by simpa using hempty⟩
  | heading blank some_line placed =>
    exact bodyReached_takeHeader blank (fun _ => placed) hline fun _ => placed
  | @text segment blanks sql description header lines blank placed isHeader undelimited =>
    have hspells := spells_concat lines hline
    simp only [BodyPhase.take]
    split
    next hdelimiter =>
      rw [hdelimiter] at hspells
      have isText : IsText start directed (segment ++ [line])
          ⟨header, sql, start + segment.length + 1⟩ :=
        ⟨⟨blanks, description, hspells, blank, placed, isHeader⟩, undelimited, by simp; omega⟩
      have hreached : BodyReached start directed (segment ++ [line] ++ [])
          (.result ⟨header, sql, start + segment.length + 1⟩) := .result isText rfl
      simpa only [BodyReached.After, List.append_nil] using hreached
    next hdelimiter =>
      have hlines : logicalLines (segment ++ [line]) =
          blanks ++ ("query".toList ++ description) :: (sql ++ [logical line]) := by
        rw [hspells.logicalLines_eq, List.append_assoc, List.cons_append]
      apply BodyReached.text hlines blank placed isHeader
      simpa [undelimited] using Ne.symm hdelimiter
  | result isText lines =>
    rw [List.append_assoc]
    exact bodyReached_takeResult isText lines hline
  | values => exact absurd rfl (hscript _ _)
  | @separator text segment query digestLine count digest isText lines isDigest =>
    have hspells := spells_concat lines hline
    simp only [BodyPhase.take]
    split
    next hempty =>
      have hempty : logical line = [] := by simpa using hempty
      rw [hempty] at hspells
      rw [List.append_assoc]
      exact isText.isOperation (.digest hspells isDigest)
    · trivial

/-- Any line preserves the invariant among the values of a result. -/
theorem bodyReached_take_values {query : OpenQuery} {lines : List Text} (lineNo : Nat)
    (h : BodyReached start directed segment (.values query lines)) :
    BodyReached.After start directed (segment ++ [line])
      (BodyPhase.take lineNo (.values query lines) line.trim) := by
  cases h with
  | @values text segment _ value more isText first nonempty no_digest others =>
    simp only [BodyPhase.take, List.append_assoc]
    split
    next hempty =>
      have hempty : line.trim = [] := by simpa using hempty
      rw [← List.append_assoc segment]
      exact isText.isOperation (.values first nonempty no_digest others hempty)
    next hempty =>
      have hreached : BodyReached start directed (text ++ (segment ++ (more ++ [line])))
          (.values query (value :: (more ++ [line]).map Text.trim)) :=
        .values isText first nonempty no_digest
          (List.forall_mem_append.2 ⟨others, by simpa using hempty⟩)
      simpa only [BodyReached.After, List.map_append, List.map_cons, List.map_nil,
        List.cons_append] using hreached

/-- A comment preserves the invariant everywhere but among values. -/
theorem bodyReached_comment {phase : BodyPhase} (h : BodyReached start directed segment phase)
    (hscript : ∀ query lines, phase ≠ .values query lines) (hline : isComment line.trim = true) :
    BodyReached start directed (segment ++ [line]) phase := by
  have hlines : ∀ lines, logicalLines (lines ++ [line]) = logicalLines lines := by
    intro lines
    rw [logicalLines_append, logicalLines_of_comment hline, List.append_nil]
  cases h with
  | statement lines keyword nonempty => exact .statement ((hlines _).trans lines) keyword nonempty
  | heading blank some_line placed => exact .heading (by rwa [hlines]) (by rwa [hlines]) placed
  | text lines blank placed isHeader undelimited =>
    exact .text ((hlines _).trans lines) blank placed isHeader undelimited
  | result isText lines =>
    rw [List.append_assoc]
    exact .result isText ((hlines _).trans lines)
  | values => exact absurd rfl (hscript _ _)
  | separator isText lines isDigest =>
    rw [List.append_assoc]
    exact .separator isText ((hlines _).trans lines) isDigest

theorem after_within {named : List Text} {step : BodyStep}
    (directives : ∀ line ∈ logicalLines named, IsDirective line)
    (h : BodyReached.After (start + named.length) (logicalLines named ≠ []) segment step) :
    Reached.After start (named ++ segment) (step.within (.ofLines (logicalLines named))) := by
  cases step with
  | more phase => exact .body directives h
  | done operation => exact .operation directives (names_ofLines _) h
  | stuck fault => trivial

/-- A line after directive lines, if there are any. -/
theorem reached_ofLine {named : List Text}
    (directives : ∀ line ∈ logicalLines named, IsDirective line)
    (hline : isComment line.trim = false) (hblank : logical line = [] → logicalLines named ≠ []) :
    Reached.After start (named ++ [line]) (.ofLine (logicalLines named) (logical line)) := by
  have hlines : logicalLines [line] = [logical line] := logicalLines_of_not_comment hline
  have hspells : Spells [line] [logical line] := ⟨hlines, [], line, rfl, hline⟩
  unfold Step.ofLine
  split
  next hdirective =>
    rw [← hlines, ← logicalLines_append]
    refine Reached.directives (fun directive hmem => ?_) (by simp [logicalLines_append, hlines])
    rw [logicalLines_append, hlines, List.mem_append, List.mem_singleton] at hmem
    rcases hmem with hmem | rfl
    · exact directives _ hmem
    · exact isSome_ofLine?_iff.1 hdirective
  · split
    next hhalt =>
      exact .halt directives (names_ofLines _) hspells (List.isPrefixOf_iff_prefix.1 hhalt)
    · split
      next hstatement =>
        exact Reached.body directives
          (.statement hlines (List.isPrefixOf_iff_prefix.1 hstatement) (by simp))
      · apply after_within directives
        have hreached : BodyReached.After (start + named.length) (logicalLines named ≠ [])
            ([] ++ [line]) (BodyPhase.takeHeader (logical line)) :=
          bodyReached_takeHeader (by simp [logicalLines]) (by simp [logicalLines]) hline hblank
        simpa using hreached

end

/-- A line that is not a comment, at the beginning of an item. -/
theorem reached_take_start {start lineNo : Nat} {segment : List Text} {line : Text}
    (lines : logicalLines segment = []) (hline : isComment line.trim = false) :
    Reached.After start (segment ++ [line]) (Phase.start.take lineNo (logical line)) := by
  have hspells : Spells (segment ++ [line]) [logical line] := by
    simpa using spells_concat lines hline
  simp only [Phase.take]
  split
  next hempty =>
    have hempty : logical line = [] := by simpa using hempty
    exact .blank (hempty ▸ hspells)
  next hempty =>
    split
    next description hkeyword =>
      rw [← List.isPrefixOf?_eq_some_iff_append_eq.1 hkeyword] at hspells
      exact .threshold hspells fun n => Numeral.ofText?_eq_some_iff
    · have hafter : Reached.After start (segment ++ [line])
          (.ofLine (logicalLines segment) (logical line)) :=
        reached_ofLine (by simp [lines]) hline fun h => absurd (by rw [h]; rfl) hempty
      rwa [lines] at hafter

/-- One line preserves the invariant of a phase. -/
theorem reached_step {start : Nat} {segment : List Text} {phase : Phase}
    (h : Reached start segment phase) (line : Text) :
    Reached.After start (segment ++ [line])
      (phase.step (start + segment.length + 1) line.trim) := by
  have hlines : isComment line.trim = true →
      logicalLines (segment ++ [line]) = logicalLines segment := fun hline => by
    rw [logicalLines_append, logicalLines_of_comment hline, List.append_nil]
  cases h with
  | start lines =>
    rw [Phase.step_of_script rfl, withoutComment_trim]
    split
    next hline => exact Reached.start ((hlines hline).trans lines)
    next hline => exact reached_take_start lines (by simpa using hline)
  | directives directives some_line =>
    rw [Phase.step_of_script rfl, withoutComment_trim]
    split
    next hline =>
      rw [← hlines hline]
      exact Reached.directives (by rwa [hlines hline]) (by rwa [hlines hline])
    next hline =>
      exact reached_ofLine directives (by simpa using hline) fun _ => some_line
  | @body named segment phase directives reached =>
    rw [List.append_assoc, List.length_append, ← Nat.add_assoc]
    cases hkind : (Phase.body (.ofLines (logicalLines named)) phase).kind with
    | data =>
      rw [Phase.step_of_data hkind]
      obtain ⟨_, query, lines, hvalues⟩ := Phase.kind_eq_data_iff.1 hkind
      cases hvalues
      exact after_within directives (bodyReached_take_values _ reached)
    | script =>
      have hscript : ∀ query lines, phase ≠ .values query lines := by
        rintro query lines rfl
        cases hkind
      rw [Phase.step_of_script hkind, withoutComment_trim]
      split
      next hline => exact Reached.body directives (bodyReached_comment reached hscript hline)
      next hline =>
        exact after_within directives (bodyReached_take reached hscript (by simpa using hline))

/-! ## Records in which a fault is met -/

/-- The keywords of the bodies of records are no directives, nor that of a threshold. -/
theorem undirected_of_keyword {keyword : Text} (rest : Text)
    (h : keyword = "statement".toList ∨ keyword = "query".toList ∨ keyword = "halt".toList) :
    ¬ IsDirective (keyword ++ rest) ∧ keyword ++ rest ≠ [] ∧
      ¬ "hash-threshold".toList <+: keyword ++ rest := by
  rcases h with rfl | rfl | rfl <;>
    exact ⟨fun hdirective => Bool.false_ne_true (isSome_ofLine?_iff.2 hdirective),
      List.cons_ne_nil _ _, Text.isPrefixOf?_eq_none_iff.1 rfl⟩

theorem not_isDirective_of_statement {line : Text} (h : "statement".toList <+: line) :
    ¬ IsDirective line := by
  obtain ⟨rest, rfl⟩ := h
  exact (undirected_of_keyword rest (.inl rfl)).1

theorem not_isDirective_query (description : Text) :
    ¬ IsDirective ("query".toList ++ description) :=
  (undirected_of_keyword description (.inr (.inl rfl))).1

theorem not_isDirective_nil : ¬ IsDirective [] := by
  rw [← isSome_ofLine?_iff]
  exact Bool.false_ne_true

/-- Blank lines and a query header: the first of them is no directive. -/
theorem head?_query {blanks sql : List Text} {description : Text}
    (blank : ∀ line ∈ blanks, line = []) :
    ∃ line ∈ (blanks ++ ("query".toList ++ description) :: sql).head?, ¬ IsDirective line := by
  cases blanks with
  | nil => exact ⟨_, rfl, not_isDirective_query description⟩
  | cons line rest => exact ⟨_, rfl, blank line List.mem_cons_self ▸ not_isDirective_nil⟩

theorem IsText.head? {start : Nat} {directed : Prop} {text : List Text} {query : OpenQuery}
    (h : IsText start directed text query) (more : List Text) :
    ∃ line ∈ (logicalLines (text ++ more)).head?, ¬ IsDirective line := by
  obtain ⟨blanks, description, hlines, hblank, -⟩ := h.exists_lines
  rw [logicalLines_append, hlines.logicalLines_eq, List.append_assoc, List.append_assoc]
  exact head?_query hblank

/-- The body of a record begins with a line that is no directive. -/
theorem BodyReached.head? {start : Nat} {directed : Prop} {segment : List Text} {phase : BodyPhase}
    (h : BodyReached start directed segment phase) :
    ∃ line ∈ (logicalLines segment).head?, ¬ IsDirective line := by
  cases h with
  | statement lines keyword =>
    rw [lines]
    exact ⟨_, rfl, not_isDirective_of_statement keyword⟩
  | heading blank some_line =>
    obtain ⟨line, rest, hline⟩ := List.exists_cons_of_ne_nil some_line
    rw [hline] at blank ⊢
    exact ⟨line, rfl, blank line List.mem_cons_self ▸ not_isDirective_nil⟩
  | text lines blank =>
    rw [lines]
    exact head?_query blank
  | result isText => exact isText.head? _
  | values isText => exact isText.head? _
  | separator isText => exact isText.head? _

theorem stuck_ofLine {directives : List Text} {line : Text} {conditions : Option Conditions}
    {fault : Fault} (h : Step.ofLine directives line = .stuck conditions fault) :
    conditions = some (.ofLines directives) ∧ ¬ IsDirective line := by
  unfold Step.ofLine at h
  split at h
  · cases h
  next hdirective =>
    refine ⟨?_, fun hline => hdirective (isSome_ofLine?_iff.2 hline)⟩
    split at h
    · cases h
    · split at h
      · cases h
      · cases hstep : BodyPhase.takeHeader line <;> rw [hstep] at h <;> cases h
        rfl

theorem BodyStep.within_eq_stuck {conditions : Conditions} {step : BodyStep}
    {found : Option Conditions} {fault : Fault} (h : step.within conditions = .stuck found fault) :
    found = some conditions := by
  cases step <;> cases h
  rfl

theorem head?_append {p : Text → Prop} {one two : List Text}
    (h : ∃ line ∈ (logicalLines one).head?, p line) :
    ∃ line ∈ (logicalLines (one ++ two)).head?, p line := by
  obtain ⟨line, hline, hp⟩ := h
  exact ⟨line, by rw [logicalLines_append, List.head?_append, hline]; rfl, hp⟩

theorem broken_ofLine {named rest : List Text} {line : Text} {conditions : Option Conditions}
    {fault : Fault} (directives : ∀ line ∈ logicalLines named, IsDirective line)
    (hline : isComment line.trim = false)
    (h : Step.ofLine (logicalLines named) (logical line) = .stuck conditions fault) :
    Broken (named ++ line :: rest) conditions := by
  obtain ⟨rfl, hdirective⟩ := stuck_ofLine h
  refine .body directives (names_ofLines _) ⟨logical line, ?_, hdirective⟩
  rw [logicalLines_cons, logicalLines_of_not_comment hline]
  rfl

/-- Where a line is a fault, its record is broken. -/
theorem broken_of_stuck {start lineNo : Nat} {segment rest : List Text} {phase : Phase}
    {line : Text}
    {conditions : Option Conditions} {fault : Fault} (h : Reached start segment phase)
    (hstuck : phase.step lineNo line.trim = .stuck conditions fault) :
    Broken (segment ++ line :: rest) conditions := by
  cases h with
  | start lines =>
    rw [Phase.step_of_script rfl, withoutComment_trim] at hstuck
    split at hstuck
    · cases hstuck
    next hline =>
      simp only [Phase.take] at hstuck
      split at hstuck
      · cases hstuck
      · split at hstuck
        · cases hstuck
        · rw [← lines] at hstuck
          exact broken_ofLine (by simp [lines]) (by simpa using hline) hstuck
  | directives directives =>
    rw [Phase.step_of_script rfl, withoutComment_trim] at hstuck
    split at hstuck
    · cases hstuck
    next hline => exact broken_ofLine directives (by simpa using hline) hstuck
  | @body named segment phase directives reached =>
    have hconditions : conditions = some (.ofLines (logicalLines named)) := by
      unfold Phase.step at hstuck
      split at hstuck
      · exact BodyStep.within_eq_stuck hstuck
      · split at hstuck
        · cases hstuck
        · exact BodyStep.within_eq_stuck hstuck
    subst hconditions
    rw [List.append_assoc]
    exact .body directives (names_ofLines _) (head?_append reached.head?)

/-! ## The end of the input -/

theorem bodyReached_finish {start : Nat} {directed : Prop} {segment : List Text} {phase : BodyPhase}
    {operation : Operation} (h : BodyReached start directed segment phase)
    (hfinish : phase.finish (start + segment.length) = .ok operation) :
    ∃ close, close ≠ .line ∧ IsOperation start directed segment close operation := by
  cases h with
  | statement lines keyword nonempty =>
    simp only [BodyPhase.finish] at hfinish
    split at hfinish
    · cases hfinish
    next hsql =>
      cases hfinish
      rw [isPrefixOf_eq_decide]
      exact ⟨.input, by decide, .statementAtEnd lines keyword nonempty (by simpa using hsql)⟩
  | heading => cases hfinish
  | text lines blank placed isHeader undelimited =>
    simp only [BodyPhase.finish] at hfinish
    split at hfinish
    · cases hfinish
    next hsql =>
      cases hfinish
      rw [OpenQuery.expecting, joinQuery_eq_joined]
      exact ⟨.undelimited, by decide,
        .queryAtEnd lines blank placed isHeader undelimited (by simpa using hsql)⟩
  | result isText lines =>
    cases hfinish
    exact ⟨.input, by decide, isText.isOperation (.emptyAtEnd lines)⟩
  | values isText first nonempty no_digest others =>
    cases hfinish
    exact ⟨.input, by decide, isText.isOperation (.valuesAtEnd first nonempty no_digest others)⟩
  | separator isText lines isDigest =>
    cases hfinish
    exact ⟨.input, by decide, isText.isOperation (.digestAtEnd lines isDigest)⟩

theorem cuts_finish {start : Nat} {segment : List Text} {phase : Phase} {place : Cursor}
    (h : Reached start segment phase) (hplace : place.lineNo = start + segment.length)
    (hdivide : divide start .start (segment.map .line) = phase.finish place) :
    Cuts start segment (phase.finish place).items (phase.finish place).break? := by
  cases h with
  | start lines => exact .tail (.comments lines)
  | directives directives some_line =>
    exact .broken (.directives directives some_line) (formless_of_failed hdivide)
  | @body named segment phase directives reached =>
    rw [List.length_append, ← Nat.add_assoc] at hplace
    cases hfinish : phase.finish (start + named.length + segment.length) with
    | ok operation =>
      obtain ⟨close, hclose, isOperation⟩ := bodyReached_finish reached hfinish
      simp only [Phase.finish, hplace, hfinish]
      exact .tail (.item (.operation directives (names_ofLines _) isOperation) hclose)
    | error fault =>
      simp only [Phase.finish, hplace, hfinish] at hdivide ⊢
      exact .broken (.body directives (names_ofLines _) reached.head?) (formless_of_failed hdivide)

/-- A division cuts its lines into items of the grammar. The lines `segment` are those that have
led from the beginning of an item to the phase. -/
theorem cuts_divide {start : Nat} {segment lines : List Text} {phase : Phase}
    (h : Reached start segment phase)
    (hdivide : divide start .start ((segment ++ lines).map .line) =
      divide (start + segment.length) phase (lines.map .line)) :
    Cuts start (segment ++ lines) (divide (start + segment.length) phase (lines.map .line)).items
      (divide (start + segment.length) phase (lines.map .line)).break? := by
  induction lines generalizing start segment phase with
  | nil =>
    rw [List.append_nil] at hdivide ⊢
    exact cuts_finish h rfl hdivide
  | cons line rest ih =>
    have hafter := reached_step h line
    have hlength : start + (segment ++ [line]).length = start + segment.length + 1 := by
      rw [List.length_append, List.length_singleton, Nat.add_assoc]
    rw [List.map_cons, divide_line, List.append_cons] at hdivide ⊢
    cases hstep : phase.step (start + segment.length + 1) line.trim with
    | more next =>
      rw [hstep] at hafter hdivide
      rw [← hlength] at hdivide ⊢
      exact ih hafter hdivide
    | done item =>
      rw [hstep] at hafter
      have hreached : Reached (start + segment.length + 1) [] .start := .start rfl
      apply Cuts.item hafter
      rw [hlength]
      exact ih hreached rfl
    | stuck conditions fault =>
      rw [hstep] at hdivide
      rw [← List.append_cons] at hdivide ⊢
      exact .broken (broken_of_stuck h hstep) (formless_of_failed hdivide)

theorem cuts_divide_start (start : Nat) (lines : List Text) :
    Cuts start lines (divide start .start (lines.map .line)).items
      (divide start .start (lines.map .line)).break? := by
  have hreached : Reached start [] .start := .start rfl
  exact cuts_divide hreached rfl

end LogicTest.Grammar
