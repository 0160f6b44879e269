import LogicTest.Proofs.Grammar.Lines
import LogicTest.Proofs.Division.Reading

/-!
# What is in the grammar is read

Through stretches of logical lines a phase goes the way that its lines take it, comments or not
(`Goes`, `divide_goes`). So each production of the grammar leads from one phase to another, and a
stretch that forms an item is divided into that item and what follows it (`divide_isItem`).
-/
namespace LogicTest.Grammar

/-- The logical lines `lines` lead from one phase to another, none of them completing the item. -/
inductive Goes : Phase → List Text → Phase → Prop where
  | nil {phase} : Goes phase [] phase
  | cons {phase next last line lines} (script : phase.kind = .script)
      (take : ∀ lineNo, phase.take lineNo line = .more next) (others : Goes next lines last) :
      Goes phase (line :: lines) last

theorem Goes.append {phase middle last : Phase} {one two : List Text} (h : Goes phase one middle)
    (h' : Goes middle two last) : Goes phase (one ++ two) last := by
  induction h with
  | nil => exact h'
  | cons script take _ ih => exact .cons script take (ih h')

theorem divide_goes {phase last : Phase} {lines segment : List Text} (h : Goes phase lines last)
    (hlast : last.kind = .script) (hsegment : logicalLines segment = lines) (lineNo : Nat)
    (rest : Source) :
    divide lineNo phase (segment.map .line ++ rest) =
      divide (lineNo + segment.length) last rest := by
  induction segment generalizing phase lines lineNo with
  | nil =>
    cases hsegment
    cases h
    rfl
  | cons line segment ih =>
    rw [logicalLines_cons] at hsegment
    rw [List.map_cons, List.cons_append, divide_line, add_length_cons]
    have hscript : phase.kind = .script := by
      cases h with
      | nil => exact hlast
      | cons script => exact script
    rw [Phase.step_of_script hscript, withoutComment_trim]
    cases hline : isComment line.trim with
    | true =>
      rw [logicalLines_of_comment hline, List.nil_append] at hsegment
      exact ih h hsegment _
    | false =>
      rw [logicalLines_of_not_comment hline, List.singleton_append] at hsegment
      cases hsegment
      cases h with
      | cons _ take others =>
        simp only [Bool.false_eq_true, if_false, take]
        exact ih others rfl _

/-- The last line of a stretch is taken up by the phase that the others lead to. -/
theorem divide_spells {phase last : Phase} {lines segment : List Text} {line : Text}
    (h : Goes phase lines last) (hlast : last.kind = .script)
    (hsegment : Spells segment (lines ++ [line])) (lineNo : Nat) (rest : Source) :
    divide lineNo phase (segment.map .line ++ rest) =
      proceed ⟨rest, lineNo + segment.length, none, false⟩
        (last.take (lineNo + segment.length) line) := by
  obtain ⟨init, final, rfl, hfinal, hinit, rfl⟩ := hsegment.exists_concat
  rw [List.map_append, List.append_assoc, divide_goes h hlast hinit, List.map_singleton,
    List.singleton_append, divide_line, Phase.step_of_script hlast, withoutComment_trim, hfinal,
    List.length_append, List.length_singleton, ← Nat.add_assoc]
  rfl

theorem divide_spells_singleton {phase : Phase} {segment : List Text} {line : Text}
    (hscript : phase.kind = .script) (hsegment : Spells segment [line]) (lineNo : Nat)
    (rest : Source) :
    divide lineNo phase (segment.map .line ++ rest) =
      proceed ⟨rest, lineNo + segment.length, none, false⟩
        (phase.take (lineNo + segment.length) line) :=
  divide_spells (.nil : Goes phase [] phase) hscript hsegment lineNo rest

/-! ## Ends of items -/

/-- Where an item stops that is closed in this way, if `rest` follows it. -/
def Close.place (close : Close) (lineNo : Nat) (rest : Source) : Cursor :=
  match close with
  | line => ⟨rest, lineNo, none, false⟩
  | input | undelimited => ⟨[], lineNo, none, true⟩

/-- An item and what is left to divide after it. -/
def Division.closing (item : Item) (place : Cursor) : Division :=
  .item item place (.onward place)

/-- The operation that is complete at the end of the input closes its record there. -/
theorem divide_nil {conditions : Conditions} {phase : BodyPhase} {operation : Operation}
    {lineNo : Nat} {close : Close} (hclose : close ≠ .line)
    (h : phase.finish lineNo = .ok operation) :
    divide lineNo (.body conditions phase) [] =
      Division.closing (.operation conditions operation) (close.place lineNo []) := by
  simp only [divide, Phase.finish, h]
  cases close with
  | line => exact absurd rfl hclose
  | input => rfl
  | undelimited => rfl

/-! ## Results -/

section
variable (conditions : Conditions) (query : OpenQuery) (lineNo : Nat)

theorem divide_values {more : List Text} (others : ∀ line ∈ more, Text.trim line ≠ [])
    (lines : List Text) (rest : Source) :
    divide lineNo (.body conditions (.values query lines)) (more.map .line ++ rest) =
      divide (lineNo + more.length) (.body conditions (.values query (lines ++ more.map Text.trim)))
        rest := by
  induction more generalizing lines lineNo with
  | nil => simp
  | cons line more ih =>
    obtain ⟨hline, hmore⟩ := List.forall_mem_cons.1 others
    have hstep : Phase.step (lineNo + 1) (.body conditions (.values query lines)) line.trim =
        .more (.body conditions (.values query (lines ++ [line.trim]))) := by
      have : line.trim.isEmpty = false := by simpa using hline
      rw [Phase.step_of_data rfl]
      simp [Phase.take, BodyPhase.take, this, BodyStep.within]
    rw [List.map_cons, List.cons_append, divide_line, hstep, proceed, ih _ hmore, add_length_cons,
      List.append_assoc, List.singleton_append, List.map_cons]

theorem take_digest {line digest : Text} {count : Nat} (h : IsDigest line count digest) :
    BodyPhase.takeResult query line =
      .more (.separator (query.expecting (.digest count digest))) := by
  obtain ⟨before, after, hcut, hcount, rfl⟩ := h
  simp only [BodyPhase.takeResult, Text.cutAround?_eq_some_iff.2 hcut,
    Numeral.ofText?_eq_some_iff.2 hcount]

theorem take_value {value : Text} (nonempty : value ≠ []) (no_digest : ¬ digestMarker <:+: value) :
    BodyPhase.takeResult query value = .more (.values query [value]) := by
  simp only [BodyPhase.takeResult, Text.cutAround?_eq_none_iff.2 no_digest]
  simp [nonempty]

theorem divide_isResult {segment : List Text} {close : Close} {expected : Expectation}
    (h : IsResult segment close expected) {rest : Source} (hrest : close ≠ .line → rest = []) :
    divide lineNo (.body conditions (.result query)) (segment.map .line ++ rest) =
      Division.closing (.operation conditions (query.expecting expected))
        (close.place (lineNo + segment.length) rest) := by
  cases h with
  | empty lines =>
    rw [divide_spells_singleton rfl lines]
    rfl
  | emptyAtEnd lines =>
    cases hrest (by decide)
    rw [divide_goes .nil rfl lines]
    exact divide_nil (by decide) rfl
  | @digest segment line count digest lines isDigest =>
    have hgoes : Goes (.body conditions (.result query)) [line]
        (.body conditions (.separator (query.expecting (.digest count digest)))) :=
      .cons rfl (fun _ => congrArg (BodyStep.within conditions) (take_digest query isDigest)) .nil
    rw [divide_spells hgoes rfl lines]
    rfl
  | @digestAtEnd segment line count digest lines isDigest =>
    have hgoes : Goes (.body conditions (.result query)) [line]
        (.body conditions (.separator (query.expecting (.digest count digest)))) :=
      .cons rfl (fun _ => congrArg (BodyStep.within conditions) (take_digest query isDigest)) .nil
    cases hrest (by decide)
    rw [divide_goes hgoes rfl lines]
    exact divide_nil (by decide) rfl
  | @values segment value more blank first nonempty no_digest others last =>
    rw [List.append_assoc, List.map_append, List.append_assoc,
      divide_spells_singleton rfl first]
    simp only [Phase.take, BodyPhase.take, take_value query nonempty no_digest, BodyStep.within,
      proceed]
    rw [List.map_append, List.append_assoc, divide_values _ _ _ others, List.map_singleton,
      List.singleton_append, List.singleton_append, divide_line, Phase.step_of_data rfl, last]
    simp only [List.length_append, List.length_singleton, ← Nat.add_assoc]
    rfl
  | @valuesAtEnd segment value more first nonempty no_digest others =>
    cases hrest (by decide)
    rw [List.map_append, List.append_assoc, divide_spells_singleton rfl first]
    simp only [Phase.take, BodyPhase.take, take_value query nonempty no_digest, BodyStep.within,
      proceed]
    rw [divide_values _ _ _ others, List.length_append, ← Nat.add_assoc]
    exact divide_nil (by decide) rfl

end

/-! ## Records -/

/-- The phase after the directive lines `lines`. -/
def afterDirectives (lines : List Text) : Phase :=
  if lines = [] then .start else .directives lines

theorem afterDirectives_concat (lines : List Text) (line : Text) :
    afterDirectives (lines ++ [line]) = .directives (lines ++ [line]) := by
  simp [afterDirectives]

theorem kind_afterDirectives (lines : List Text) : (afterDirectives lines).kind = .script := by
  unfold afterDirectives
  split <;> rfl

theorem take_directives {lines : List Text} (h : lines ≠ []) (lineNo : Nat) (line : Text) :
    (afterDirectives lines).take lineNo line = .ofLine lines line := by
  simp only [afterDirectives, h, if_false, Phase.take]

theorem take_threshold (description : Text) (lineNo : Nat) :
    Phase.start.take lineNo ("hash-threshold".toList ++ description) =
      .done (.threshold (Numeral.ofText? description.trim)) := by
  have hkeyword := Text.isPrefixOf?_append "hash-threshold".toList description
  simp only [Phase.take, hkeyword]
  rfl

/-- The lines that begin a record are neither blank nor threshold lines. -/
theorem take_afterDirectives {line : Text} (hline : line ≠ [])
    (hthreshold : "hash-threshold".toList.isPrefixOf? line = none) (lines : List Text)
    (lineNo : Nat) : (afterDirectives lines).take lineNo line = .ofLine lines line := by
  by_cases hlines : lines = []
  · have : line.isEmpty = false := by simpa using hline
    simp only [hlines, afterDirectives, if_true, Phase.take, this, Bool.false_eq_true, if_false,
      hthreshold]
  · exact take_directives hlines lineNo line

section
variable (lines : List Text) (lineNo : Nat) (rest : Text)

theorem take_statement_header :
    (afterDirectives lines).take lineNo ("statement".toList ++ rest) =
      .more (.body (.ofLines lines) (.statement ("statement".toList ++ rest) [])) :=
  take_afterDirectives (List.cons_ne_nil _ _) rfl lines lineNo

theorem take_halt :
    (afterDirectives lines).take lineNo ("halt".toList ++ rest) = .done (.halt (.ofLines lines)) :=
  take_afterDirectives (List.cons_ne_nil _ _) rfl lines lineNo

theorem take_query :
    (afterDirectives lines).take lineNo ("query".toList ++ rest) =
      (BodyPhase.takeHeader ("query".toList ++ rest)).within (.ofLines lines) :=
  take_afterDirectives (List.cons_ne_nil _ _) rfl lines lineNo

end

theorem take_directive {line : Text} (h : IsDirective line) (lines : List Text) (lineNo : Nat) :
    (afterDirectives lines).take lineNo line = .more (.directives (lines ++ [line])) := by
  have hstep : Step.ofLine lines line = .more (.directives (lines ++ [line])) := by
    rw [Step.ofLine, isSome_ofLine?_iff.2 h, if_pos rfl]
  obtain ⟨rest, rfl⟩ | ⟨rest, rfl⟩ := h
  · exact (take_afterDirectives (List.cons_ne_nil _ _) rfl lines lineNo).trans hstep
  · exact (take_afterDirectives (List.cons_ne_nil _ _) rfl lines lineNo).trans hstep

/-- Phases that gather certain lines go on in this way through any number of them. -/
theorem goes_gather (phase : List Text → Phase) (Gathered : Text → Prop)
    (script : ∀ lines, (phase lines).kind = .script)
    (take : ∀ lines line lineNo, Gathered line →
      (phase lines).take lineNo line = .more (phase (lines ++ [line])))
    {more : List Text} (h : ∀ line ∈ more, Gathered line) (lines : List Text) :
    Goes (phase lines) more (phase (lines ++ more)) := by
  induction more generalizing lines with
  | nil => simpa using Goes.nil
  | cons line more ih =>
    obtain ⟨hline, hmore⟩ := List.forall_mem_cons.1 h
    apply Goes.cons (script lines) fun lineNo => take lines line lineNo hline
    rw [List.append_cons lines line more]
    exact ih hmore (lines ++ [line])

theorem goes_directives {lines : List Text} (h : ∀ line ∈ lines, IsDirective line) :
    Goes .start lines (afterDirectives lines) := by
  refine goes_gather afterDirectives IsDirective kind_afterDirectives ?_ h []
  intro lines line lineNo hline
  rw [take_directive hline, afterDirectives_concat]

theorem goes_statement (conditions : Conditions) (header : Text) {sql : List Text}
    (h : ∀ line ∈ sql, line ≠ []) :
    Goes (.body conditions (.statement header [])) sql
      (.body conditions (.statement header sql)) := by
  refine goes_gather (fun lines => .body conditions (.statement header lines)) (· ≠ [])
    (fun _ => rfl) ?_ h []
  intro lines line lineNo hline
  have : line.isEmpty = false := by simpa using hline
  simp [Phase.take, BodyPhase.take, this, BodyStep.within]

theorem goes_text (conditions : Conditions) (header : QueryHeader) {sql : List Text}
    (h : resultDelimiter ∉ sql) :
    Goes (.body conditions (.text header [])) sql (.body conditions (.text header sql)) := by
  refine goes_gather (fun lines => .body conditions (.text header lines)) (· ≠ resultDelimiter)
    (fun _ => rfl) ?_ (fun line hline => ?_) []
  · intro lines line lineNo hline
    simp [Phase.take, BodyPhase.take, hline, BodyStep.within]
  · exact fun heq => h (heq ▸ hline)

section
variable {directives : List Text}

/-- The lines of a statement, without what ends them. -/
theorem goes_statement_lines {header : Text} {sql : List Text}
    (keyword : "statement".toList <+: header) (nonempty : ∀ line ∈ sql, line ≠ []) :
    Goes (afterDirectives directives) (header :: sql)
      (.body (.ofLines directives) (.statement header sql)) := by
  obtain ⟨rest, rfl⟩ := keyword
  exact .cons (kind_afterDirectives _) (fun lineNo => take_statement_header _ lineNo rest)
    (goes_statement _ _ nonempty)

theorem goes_blanks {blanks : List Text} (blank : ∀ line ∈ blanks, line = [])
    (conditions : Conditions) :
    Goes (.body conditions .heading) blanks (.body conditions .heading) := by
  refine goes_gather (fun _ => .body conditions .heading) (· = []) (fun _ => rfl) ?_ blank []
  rintro _ _ _ rfl
  rfl

theorem take_query_header {description : Text} {header : QueryHeader}
    (h : QueryHeader.Denotes description header) :
    BodyPhase.takeHeader ("query".toList ++ description) = .more (.text header []) := by
  have hkeyword := Text.isPrefixOf?_append "query".toList description
  simp only [BodyPhase.takeHeader, hkeyword, QueryHeader.ofText_eq_ok_iff.2 h]
  rfl

/-- Blank lines lead to a query header after directive lines only. -/
theorem goes_query_header {blanks : List Text} {description : Text} {header : QueryHeader}
    (blank : ∀ line ∈ blanks, line = []) (placed : blanks ≠ [] → directives ≠ [])
    (isHeader : QueryHeader.Denotes description header) :
    Goes (afterDirectives directives) (blanks ++ ["query".toList ++ description])
      (.body (.ofLines directives) (.text header [])) := by
  have htake := congrArg (BodyStep.within (.ofLines directives)) (take_query_header isHeader)
  cases blanks with
  | nil =>
    refine .cons (kind_afterDirectives _) (fun lineNo => ?_) .nil
    exact (take_query directives lineNo description).trans htake
  | cons first others =>
    obtain ⟨rfl, hothers⟩ := List.forall_mem_cons.1 blank
    refine .cons (kind_afterDirectives _) (fun lineNo => ?_)
      ((goes_blanks hothers _).append (.cons rfl (fun _ => htake) .nil))
    exact take_directives (placed (List.cons_ne_nil _ _)) lineNo []

/-- The lines of a query up to its delimiter. -/
theorem goes_query_lines {blanks sql : List Text} {description : Text} {header : QueryHeader}
    (blank : ∀ line ∈ blanks, line = []) (placed : blanks ≠ [] → directives ≠ [])
    (isHeader : QueryHeader.Denotes description header) (undelimited : resultDelimiter ∉ sql) :
    Goes (afterDirectives directives) (blanks ++ ("query".toList ++ description) :: sql)
      (.body (.ofLines directives) (.text header sql)) := by
  rw [List.append_cons]
  exact (goes_query_header blank placed isHeader).append (goes_text _ _ undelimited)

end

/-- What forms the operation of a record is divided into it and what follows. -/
theorem divide_isOperation {start : Nat} {directives segment : List Text} {close : Close}
    {operation : Operation} (h : IsOperation start (directives ≠ []) segment close operation)
    {rest : Source} (hrest : close ≠ .line → rest = []) :
    divide start (afterDirectives directives) (segment.map .line ++ rest) =
      Division.closing (.operation (.ofLines directives) operation)
        (close.place (start + segment.length) rest) := by
  cases h with
  | statement lines keyword nonempty =>
    rw [divide_spells (goes_statement_lines keyword nonempty) rfl lines, ← isPrefixOf_eq_decide]
    rfl
  | statementAtEnd lines keyword nonempty some_line =>
    cases hrest (by decide)
    rw [divide_goes (goes_statement_lines keyword nonempty) rfl lines, ← isPrefixOf_eq_decide]
    exact divide_nil (by decide) (by simp [BodyPhase.finish, some_line])
  | @query text result blanks sql description header _ expected lines blank placed isHeader
      undelimited isResult =>
    rw [List.map_append, List.append_assoc,
      divide_spells (goes_query_lines blank placed isHeader undelimited) rfl lines]
    simp only [Phase.take, BodyPhase.take, if_true, BodyStep.within, proceed]
    rw [divide_isResult _ _ _ isResult hrest, List.length_append, ← Nat.add_assoc,
      OpenQuery.expecting, joinQuery_eq_joined]
  | queryAtEnd lines blank placed isHeader undelimited some_line =>
    cases hrest (by decide)
    rw [divide_goes (goes_query_lines blank placed isHeader undelimited) rfl lines,
      ← joinQuery_eq_joined]
    exact divide_nil (by decide) (by simp [BodyPhase.finish, OpenQuery.expecting, some_line])

/-- What forms an item is divided into it and what follows. -/
theorem divide_isItem {start : Nat} {segment : List Text} {close : Close} {item : Item}
    (h : IsItem start segment close item) {rest : Source} (hrest : close ≠ .line → rest = []) :
    divide start .start (segment.map .line ++ rest) =
      Division.closing item (close.place (start + segment.length) rest) := by
  cases h with
  | blank lines =>
    rw [divide_spells_singleton rfl lines]
    rfl
  | @threshold _ description value lines denotes =>
    have hvalue : value = Numeral.ofText? (Text.trim description) :=
      Option.ext fun n => (denotes n).trans Numeral.ofText?_eq_some_iff.symm
    rw [divide_spells_singleton rfl lines, hvalue, take_threshold]
    rfl
  | @halt named segment conditions line directives names lines keyword =>
    obtain ⟨rest, rfl⟩ := keyword
    have hscript := kind_afterDirectives (logicalLines named)
    rw [names_iff.1 names, List.map_append, List.append_assoc,
      divide_goes (goes_directives directives) hscript rfl,
      divide_spells_singleton hscript lines, take_halt, List.length_append, ← Nat.add_assoc]
    rfl
  | @operation named segment conditions _ operation directives names isOperation =>
    rw [names_iff.1 names, List.map_append, List.append_assoc,
      divide_goes (goes_directives directives) (kind_afterDirectives _) rfl,
      divide_isOperation isOperation hrest, List.length_append, ← Nat.add_assoc]

/-- Where a fault is met before an item is complete, there is no item. -/
theorem formless_of_failed {start : Nat} {lines : List Text} {conditions : Option Conditions}
    {fault : Fault} {place : Cursor}
    (h : divide start .start (lines.map .line) = .failed conditions fault place) :
    Formless start lines := by
  rintro segment rest close item rfl hrest isItem
  rw [List.map_append, divide_isItem isItem fun hclose => by rw [hrest hclose]; rfl] at h
  cases h

/-- Items that end with lines of their own are the first ones of the division. -/
theorem divide_items {start : Nat} {body : List Text} {items : List Item}
    (h : Items start body items) (rest : Source) :
    (divide start .start (body.map .line ++ rest)).items =
        items ++ (divide (start + body.length) .start rest).items ∧
      (divide start .start (body.map .line ++ rest)).break? =
        (divide (start + body.length) .start rest).break? := by
  induction h with
  | nil => exact ⟨rfl, rfl⟩
  | @cons start segment lines item items first others ih =>
    rw [List.map_append, List.append_assoc, divide_isItem first nofun, List.length_append,
      ← Nat.add_assoc]
    exact ⟨congrArg (item :: ·) ih.1, ih.2⟩

/-- What stands at the end of a script is no fault. -/
theorem divide_tail {start : Nat} {lines : List Text} {items : List Item}
    (h : Tail start lines items) :
    (divide start .start (lines.map .line)).items = items ∧
      (divide start .start (lines.map .line)).break? = none := by
  cases h with
  | comments hlines =>
    rw [← List.append_nil (lines.map _), divide_goes .nil rfl hlines]
    exact ⟨rfl, rfl⟩
  | @item close item isItem unclosed =>
    rw [← List.append_nil (lines.map _), divide_isItem isItem fun _ => rfl]
    cases close with
    | line => exact absurd rfl unclosed
    | input => exact ⟨rfl, rfl⟩
    | undelimited => exact ⟨rfl, rfl⟩

end LogicTest.Grammar
