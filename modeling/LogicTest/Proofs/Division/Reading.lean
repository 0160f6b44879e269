import LogicTest.Proofs.Cursor.Pending
import LogicTest.Proofs.Division.Basic

/-!
# Reading follows the division

The readers of `LogicTest.Record.Basic` take lines through a cursor, several at a time. Here each is
shown to do what the phases do line by line: a loop over lines is a phase that gathers them
(`arrive_linesWhile`), the head and the body of a record follow from their parts, and a parse
replays the division of its source (`readItems_eq_replay`).
-/
namespace LogicTest

/-- What a step makes of the lines after it. -/
def proceed (c : Cursor) : Step → Division
  | .more next => divide c.lineNo next c.unread
  | .done item => .item item c (divide c.lineNo .start c.unread)
  | .stuck conditions fault => .failed conditions fault c

theorem divide_line (lineNo : Nat) (phase : Phase) (line : Text) (rest : Source) :
    divide lineNo phase (.line line :: rest) =
      proceed ⟨rest, lineNo + 1, none, false⟩ (phase.step (lineNo + 1) line.trim) := by
  rw [divide]
  cases phase.step (lineNo + 1) line.trim <;> rfl

theorem add_length_cons (lineNo : Nat) (line : Text) (lines : List Text) :
    lineNo + (line :: lines).length = lineNo + 1 + lines.length :=
  Nat.add_right_comm lineNo lines.length 1

/-- What a line makes of a phase; `c` is where reading it has led. -/
def arrive (phase : Phase) (line : Text) (c : Cursor) : Division :=
  if c.done then phase.finish c else proceed c (phase.take c.lineNo line)

/-- What the result of reading a line makes of a phase. -/
def Phase.resume (phase : Phase) : EStateM.Result Fault Cursor Text → Division
  | .ok line c => arrive phase line c
  | .error fault c => .failed phase.conditions? fault c

theorem Phase.kind_eq_data_iff {phase : Phase} :
    phase.kind = .data ↔
      ∃ conditions query lines, phase = .body conditions (.values query lines) := by
  constructor
  · intro h
    unfold kind at h
    split at h
    next conditions query lines => exact ⟨conditions, query, lines, rfl⟩
    · cases h
  · rintro ⟨conditions, query, lines, rfl⟩
    rfl

theorem Phase.step_of_data {phase : Phase} (h : phase.kind = .data) (lineNo : Nat) (line : Text) :
    phase.step lineNo line = phase.take lineNo line := by
  simp only [step, h]

theorem Phase.step_of_script {phase : Phase} (h : phase.kind = .script) (lineNo : Nat)
    (line : Text) :
    phase.step lineNo line =
      if isComment line then .more phase else phase.take lineNo (withoutComment line) := by
  simp only [step, h]

theorem divide_eq_resume (phase : Phase) (source : Source) (lineNo : Nat) :
    divide lineNo phase source =
      phase.resume (Cursor.next phase.kind .optional ⟨source, lineNo, none, false⟩) := by
  induction source generalizing lineNo with
  | nil => cases h : phase.kind <;> rfl
  | cons reading rest ih =>
    cases reading with
    | failure cause => cases h : phase.kind <;> rfl
    | line line =>
      rw [divide]
      cases h : phase.kind with
      | data =>
        rw [Phase.step_of_data h]
        rfl
      | script =>
        rw [Phase.step_of_script h, Cursor.next, Cursor.nextLine_line]
        cases hcomment : isComment line.trim with
        | true =>
          simp only [if_true]
          rw [ih, h]
          rfl
        | false => rfl

/-- Where a line is needed, the end of the input is a fault in this phase. -/
def Phase.Needs (phase : Phase) (need : Need) : Prop :=
  need = .required → ∀ c, phase.finish c = .failed phase.conditions? .prematureEnd c

theorem divide_eq_next {c : Cursor} {phase : Phase} (need : Need) (h : c.Underway)
    (hneed : phase.Needs need) :
    divide c.lineNo phase c.unread = phase.resume (Cursor.next phase.kind need c) := by
  rw [divide_eq_resume, ← h.eq_mk]
  cases need with
  | optional => rfl
  | required =>
    rw [Cursor.next_required h]
    cases Cursor.next phase.kind .optional c with
    | error fault d => rfl
    | ok line d =>
      by_cases hdone : d.done
      · simp [Phase.resume, arrive, hdone, hneed rfl]
      · simp [hdone]

/-! ## Loops over lines -/

/-- The phases `phase lines` do what a loop over lines does: they gather the lines that satisfy
`more`, and `close` says what becomes of them after that. -/
structure Gathers (more : Text → Bool) (kind : LineKind) (need : Need)
    (phase : List Text → Phase) (conditions : Option Conditions)
    (close : List Text → Text → Cursor → Division) : Prop where
  kind_eq : ∀ lines, (phase lines).kind = kind
  conditions_eq : ∀ lines, (phase lines).conditions? = conditions
  needs : ∀ lines, (phase lines).Needs need
  take_more : ∀ lines line lineNo, more line = true →
    (phase lines).take lineNo line = .more (phase (lines ++ [line]))
  take_stop : ∀ lines line (c : Cursor), c.done = false → more line = false →
    proceed c ((phase lines).take c.lineNo line) = close lines line c
  finish_eq : ∀ lines (c : Cursor), need = .optional → lines ≠ [] → c.done = true →
    (phase lines).finish c = close lines [] c

section
variable {more : Text → Bool} {kind : LineKind} {need : Need} {phase : List Text → Phase}
  {conditions : Option Conditions} {close : List Text → Text → Cursor → Division}

theorem Gathers.arrive_more (h : Gathers more kind need phase conditions close)
    (lines : List Text) (line : Text) {c : Cursor} (hc : c.Underway) (hmore : more line = true) :
    arrive (phase lines) line c = (phase (lines ++ [line])).resume (Cursor.next kind need c) := by
  rw [arrive, if_neg (by simp [hc.done]), h.take_more _ _ _ hmore, proceed,
    divide_eq_next _ hc (h.needs _), h.kind_eq]

/-- A loop over lines is a phase that gathers them. -/
theorem arrive_linesWhile (h : Gathers more kind need phase conditions close)
    (lines : List Text) (line : Text) (c : Cursor) (hpending : c.pending = none)
    (hdone : c.done = true → line = [] ∧ need = .optional ∧ lines ≠ []) :
    arrive (phase lines) line c =
      match Read.linesWhile more kind need line c with
      | .ok (following, stop) d => close (lines ++ following) stop d
      | .error fault d => .failed conditions fault d := by
  fun_induction Read.linesWhile more kind need line c generalizing lines with
  | case1 line c hstop =>
    by_cases hd : c.done
    · obtain ⟨rfl, hneed, hlines⟩ := hdone hd
      simp [arrive, hd, h.finish_eq _ _ hneed hlines hd]
    · have hmore : more line = false := hstop.resolve_left hd
      simp [arrive, hd, h.take_stop _ _ _ (by simpa using hd) hmore]
  | case2 line c hgo following d hnext values stop e hloop ih =>
    obtain ⟨hd, hmore⟩ := not_or.1 hgo
    have hc : c.Underway := ⟨hpending, by simpa using hd⟩
    have hend := Cursor.next_done hc hnext
    rw [h.arrive_more _ _ hc (by simpa using hmore), hnext, Phase.resume,
      ih _ (Cursor.pending_next hnext) fun hdone => ⟨(hend hdone).1, (hend hdone).2, by simp⟩,
      hloop]
    simp
  | case3 line c hgo following d hnext fault e hloop ih =>
    obtain ⟨hd, hmore⟩ := not_or.1 hgo
    have hc : c.Underway := ⟨hpending, by simpa using hd⟩
    have hend := Cursor.next_done hc hnext
    rw [h.arrive_more _ _ hc (by simpa using hmore), hnext, Phase.resume,
      ih _ (Cursor.pending_next hnext) fun hdone => ⟨(hend hdone).1, (hend hdone).2, by simp⟩,
      hloop]
  | case4 line c hgo fault d hnext =>
    obtain ⟨hd, hmore⟩ := not_or.1 hgo
    have hc : c.Underway := ⟨hpending, by simpa using hd⟩
    rw [h.arrive_more _ _ hc (by simpa using hmore), hnext, Phase.resume, h.conditions_eq]

/-- The same, for a loop that begins by reading its first line. -/
theorem divide_linesWhile (h : Gathers more kind need phase conditions close) {c : Cursor}
    (hc : c.Underway) (hneed : (phase []).Needs .required) :
    divide c.lineNo (phase []) c.unread =
      match Cursor.next kind .required c with
      | .ok line d =>
        match Read.linesWhile more kind need line d with
        | .ok (lines, stop) e => close lines stop e
        | .error fault e => .failed conditions fault e
      | .error fault d => .failed conditions fault d := by
  rw [divide_eq_next _ hc hneed, h.kind_eq]
  cases hnext : Cursor.next kind .required c with
  | error fault d => rw [Phase.resume, h.conditions_eq]
  | ok line d =>
    simp only [Phase.resume]
    rw [arrive_linesWhile h [] line d (Cursor.pending_next hnext)
      fun hdone => by cases (Cursor.next_done hc hnext hdone).2]
    rfl

end

/-- A loop that needs its lines stops before the end, at a line that does not satisfy `more`. -/
theorem underway_linesWhile {more : Text → Bool} {kind : LineKind} {line stop : Text}
    {lines : List Text} {c d : Cursor} (hc : c.Underway)
    (h : Read.linesWhile more kind .required line c = .ok (lines, stop) d) :
    d.Underway ∧ more stop = false := by
  fun_induction Read.linesWhile more kind .required line c generalizing lines stop d with
  | case1 line c hstop =>
    cases h
    exact ⟨hc, hstop.resolve_left (by simp [hc.done])⟩
  | case2 line c hgo following e hnext values last f hloop ih =>
    cases h
    have hdone : e.done = false := by
      cases hdone : e.done with
      | false => rfl
      | true => cases (Cursor.next_done hc hnext hdone).2
    exact ih ⟨Cursor.pending_next hnext, hdone⟩ hloop
  | case3 => cases h
  | case4 => cases h

theorem hash_not_mem_withoutComment (line : Text) : '#' ∉ withoutComment line := by
  unfold withoutComment
  split
  · intro h
    have hmem : '#' ∈ line.takeWhile (· ≠ '#') := by
      have := (List.dropWhile_sublist Text.isBlank).subset (List.mem_reverse.1 h)
      exact List.mem_reverse.1 this
    simpa using List.all_eq_true.1 List.all_takeWhile _ hmem
  · assumption

theorem hash_not_mem_next {need : Need} {line : Text} {c d : Cursor}
    (h : Cursor.next .script need c = .ok line d) : '#' ∉ line := by
  simp only [Cursor.next, Cursor.nextLine_eq] at h
  split at h <;> cases h
  exact hash_not_mem_withoutComment _

theorem hash_not_mem_linesWhile {more : Text → Bool} {need : Need} {line stop : Text}
    {lines : List Text} {c d : Cursor} (hline : '#' ∉ line)
    (h : Read.linesWhile more .script need line c = .ok (lines, stop) d) : '#' ∉ stop := by
  fun_induction Read.linesWhile more .script need line c generalizing lines stop d with
  | case1 =>
    cases h
    exact hline
  | case2 line c hgo following e hnext values last f hloop ih =>
    cases h
    exact ih (hash_not_mem_next hnext) hloop
  | case3 => cases h
  | case4 => cases h

/-! ## Bodies -/

/-- What is left to divide at `c`, between two items. -/
def Division.onward (c : Cursor) : Division :=
  if c.done then .ended c else divide c.lineNo .start c.unread

/-- What reading the operation of a record makes of a division. -/
def Division.ofOperation (conditions : Conditions) :
    EStateM.Result Fault Cursor Operation → Division
  | .ok operation c => .item (.operation conditions operation) c (.onward c)
  | .error fault c => .failed (some conditions) fault c

theorem Division.onward_of_done {c : Cursor} (h : c.done = true) :
    Division.onward c = .ended c := by
  simp [Division.onward, h]

theorem Division.onward_of_not_done {c : Cursor} (h : c.done = false) :
    Division.onward c = divide c.lineNo .start c.unread := by
  simp [Division.onward, h]

theorem statement_eq (header : Text) (c : Cursor) :
    Read.statement header c =
      match Cursor.next .script .required c with
      | .ok line d =>
        match Read.linesWhile (!·.isEmpty) .script .optional line d with
        | .ok (lines, _) e =>
          .ok (.statement lines.flatten ("statement ok".toList.isPrefixOf header)) e
        | .error fault e => .error fault e
      | .error fault d => .error fault d := by
  simp only [Read.statement, bind, EStateM.bind]
  cases Cursor.next .script .required c with
  | error fault d => rfl
  | ok line d =>
    dsimp only
    cases Read.linesWhile (!·.isEmpty) .script .optional line d <;> rfl

theorem gathers_statement (conditions : Conditions) (header : Text) :
    Gathers (!·.isEmpty) .script .optional (fun lines => .body conditions (.statement header lines))
      (some conditions) fun lines _ c => .ofOperation conditions
        (.ok (.statement lines.flatten ("statement ok".toList.isPrefixOf header)) c) where
  kind_eq _ := rfl
  conditions_eq _ := rfl
  needs _ := nofun
  take_more lines line lineNo hmore := by
    have : line.isEmpty = false := by simpa using hmore
    simp [Phase.take, BodyPhase.take, this, BodyStep.within]
  take_stop lines line c hdone hmore := by
    have : line.isEmpty = true := by simpa using hmore
    simp [Phase.take, BodyPhase.take, this, BodyStep.within, proceed, Division.ofOperation,
      Division.onward_of_not_done hdone]
  finish_eq lines c _ hlines hdone := by
    simp [Phase.finish, BodyPhase.finish, hlines, Division.ofOperation,
      Division.onward_of_done hdone]

theorem divide_statement (conditions : Conditions) (header : Text) {c : Cursor} (hc : c.Underway) :
    divide c.lineNo (.body conditions (.statement header [])) c.unread =
      .ofOperation conditions (Read.statement header c) := by
  rw [divide_linesWhile (gathers_statement conditions header) hc fun _ _ => rfl, statement_eq]
  cases Cursor.next .script .required c with
  | error fault d => rfl
  | ok line d =>
    dsimp only
    cases Read.linesWhile (!·.isEmpty) .script .optional line d <;> rfl

theorem divide_separator (conditions : Conditions) (operation : Operation) {c : Cursor}
    (hc : c.Underway) :
    divide c.lineNo (.body conditions (.separator operation)) c.unread =
      .ofOperation conditions ((Read.separator >>= fun _ => pure operation) c) := by
  rw [divide_eq_next .optional hc nofun]
  simp only [Read.separator, bind, EStateM.bind, Phase.kind]
  cases Cursor.next .script .optional c with
  | error fault d => rfl
  | ok line d =>
    by_cases hdone : d.done
    · simp [Phase.resume, arrive, hdone, Phase.finish, BodyPhase.finish, Read.atEnd, pure,
        EStateM.pure, Division.ofOperation, Division.onward]
    · cases hline : line.isEmpty <;>
        simp [Phase.resume, arrive, hdone, Phase.take, BodyPhase.take, hline, BodyStep.within,
          proceed, Read.atEnd, pure, EStateM.pure, Read.throw_eq, Division.ofOperation,
          Division.onward]

theorem gathers_values (conditions : Conditions) (query : OpenQuery) :
    Gathers (!·.isEmpty) .data .optional (fun lines => .body conditions (.values query lines))
      (some conditions) fun lines _ c =>
        .ofOperation conditions (.ok (query.expecting (.values lines)) c) where
  kind_eq _ := rfl
  conditions_eq _ := rfl
  needs _ := nofun
  take_more lines line lineNo hmore := by
    have : line.isEmpty = false := by simpa using hmore
    simp [Phase.take, BodyPhase.take, this, BodyStep.within]
  take_stop lines line c hdone hmore := by
    have : line.isEmpty = true := by simpa using hmore
    simp [Phase.take, BodyPhase.take, this, BodyStep.within, proceed, Division.ofOperation,
      Division.onward_of_not_done hdone]
  finish_eq lines c _ hlines hdone := by
    simp [Phase.finish, BodyPhase.finish, Division.ofOperation, Division.onward_of_done hdone]

/-- The first line of a result that is not a digest is the first of its values. -/
theorem takeResult_of_values {query : OpenQuery} {line : Text}
    (h : Text.cutAround? digestMarker line = none) :
    BodyPhase.takeResult query line = BodyPhase.take 0 (.values query []) line := by
  simp [BodyPhase.takeResult, BodyPhase.take, h]

theorem divide_result (conditions : Conditions) (query : OpenQuery) {c : Cursor}
    (hc : c.Underway) :
    divide c.lineNo (.body conditions (.result query)) c.unread =
      .ofOperation conditions ((query.expecting <$> Read.expectation) c) := by
  rw [divide_eq_next .optional hc nofun]
  simp only [Read.expectation, Functor.map, EStateM.map, bind, EStateM.bind, Phase.kind]
  cases hnext : Cursor.next .script .optional c with
  | error fault d => rfl
  | ok line d =>
    have hpending := Cursor.pending_next hnext
    by_cases hdone : d.done
    · simp [Phase.resume, arrive, hdone, Phase.finish, BodyPhase.finish, Read.atEnd, pure,
        EStateM.pure, Division.ofOperation, Division.onward]
    have hd : d.Underway := ⟨hpending, by simpa using hdone⟩
    simp only [Phase.resume, Read.atEnd, hd.done, Bool.false_eq_true, if_false]
    cases hcut : Text.cutAround? digestMarker line with
    | none =>
      have hloop := arrive_linesWhile (gathers_values conditions query) [] line d hpending
        fun h => absurd h hdone
      simp only [arrive, hd.done, Bool.false_eq_true, if_false, Phase.take, BodyPhase.take,
        takeResult_of_values hcut] at hloop ⊢
      rw [hloop]
      simp only [EStateM.bind]
      cases Read.linesWhile (!·.isEmpty) .data .optional line d <;> rfl
    | some pair =>
      obtain ⟨count, digest⟩ := pair
      simp only [arrive, hd.done, Bool.false_eq_true, if_false, Phase.take, BodyPhase.take,
        BodyPhase.takeResult, hcut]
      cases hcount : Numeral.ofText? count.trimEnd with
      | none => rfl
      | some n =>
        dsimp only [BodyStep.within, proceed]
        rw [divide_separator conditions _ hd]
        simp only [bind, EStateM.bind]
        cases Read.separator d <;> rfl

theorem gathers_text (conditions : Conditions) (header : QueryHeader) :
    Gathers (· ≠ resultDelimiter) .script .optional
      (fun lines => .body conditions (.text header lines)) (some conditions) fun lines _ c =>
        if c.done then
          .ofOperation conditions
            (.ok (OpenQuery.expecting ⟨header, lines, c.lineNo⟩ (.values [])) c)
        else divide c.lineNo (.body conditions (.result ⟨header, lines, c.lineNo⟩)) c.unread where
  kind_eq _ := rfl
  conditions_eq _ := rfl
  needs _ := nofun
  take_more lines line lineNo hmore := by
    have : line ≠ resultDelimiter := by simpa using hmore
    simp [Phase.take, BodyPhase.take, this, BodyStep.within]
  take_stop lines line c hdone hmore := by
    have : line = resultDelimiter := by simpa using hmore
    simp [Phase.take, BodyPhase.take, this, BodyStep.within, proceed, hdone]
  finish_eq lines c _ hlines hdone := by
    simp [Phase.finish, BodyPhase.finish, hlines, hdone, Division.ofOperation,
      Division.onward_of_done hdone]

theorem divide_text (conditions : Conditions) (header : QueryHeader) {c : Cursor}
    (hc : c.Underway) :
    divide c.lineNo (.body conditions (.text header [])) c.unread =
      .ofOperation conditions (Read.queryAfter header c) := by
  rw [divide_linesWhile (gathers_text conditions header) hc fun _ _ => rfl]
  simp only [Read.queryAfter, bind, EStateM.bind]
  cases hnext : Cursor.next .script .required c with
  | error fault d => rfl
  | ok line d =>
    dsimp only
    cases hloop : Read.linesWhile (· ≠ resultDelimiter) .script .optional line d with
    | error fault e => rfl
    | ok pair e =>
      obtain ⟨lines, stop⟩ := pair
      simp only [Read.lineNo, Read.atEnd]
      by_cases hdone : e.done
      · simp [hdone, pure, EStateM.pure, EStateM.bind, OpenQuery.expecting]
      have he : e.Underway :=
        ⟨Read.settles_linesWhile _ _ _ _ _ _ _ (Cursor.pending_next hnext) hloop,
        by simpa using hdone⟩
      simp only [hdone, Bool.false_eq_true, if_false, EStateM.bind]
      rw [divide_result conditions _ he]
      simp only [Functor.map, EStateM.map]
      cases Read.expectation e <;> rfl

theorem gathers_heading (conditions : Conditions) :
    Gathers (·.isEmpty) .script .required (fun _ => .body conditions .heading) (some conditions)
      fun _ line c => proceed c ((BodyPhase.takeHeader line).within conditions) where
  kind_eq _ := rfl
  conditions_eq _ := rfl
  needs _ := fun _ _ => rfl
  take_more _ line _ hmore := by
    simp [Phase.take, BodyPhase.take, BodyPhase.takeHeader, hmore, BodyStep.within]
  take_stop _ _ _ _ _ := rfl
  finish_eq _ _ h := nomatch h

/-- What reading the body of a record makes of a division. -/
def Division.ofBody (conditions : Conditions) : EStateM.Result Fault Cursor Body → Division
  | .ok .halt c => .item (.halt conditions) c (.onward c)
  | .ok (.operation operation) c => .item (.operation conditions operation) c (.onward c)
  | .ok .absent c => .onward c
  | .error fault c => .failed (some conditions) fault c

/-- A line that was put back is read again as it is, as it has lost its comment before, and the
cursor is then where it was. -/
theorem next_pushed {c : Cursor} (hc : c.Underway) {line : Text} (hline : '#' ∉ line) :
    Cursor.next .script .optional { c with pending := some line } = .ok line c := by
  have hcomment : isComment line = false := by
    cases line with
    | nil => rfl
    | cons a rest => simpa [isComment] using fun h : a = '#' => hline (h ▸ List.mem_cons_self)
  rw [hc.eq_mk]
  simp [Cursor.next, Cursor.nextLine_eq, Cursor.skipComments, hcomment, Cursor.nextRaw,
    withoutComment, hline]

/-- A query begins with the line that was put back. -/
theorem query_pushed {c : Cursor} (hc : c.Underway) {line : Text} (hline : '#' ∉ line) :
    Read.query { c with pending := some line } =
      (do
        let (_, header) ← Read.linesWhile (·.isEmpty) .script .required line
        match "query".toList.isPrefixOf? header with
        | none => throw (.unexpectedLine header)
        | some description =>
          match QueryHeader.ofText description with
          | .error defect => throw (.badHeader defect)
          | .ok header => return some (← Read.queryAfter header) : Read (Option Operation)) c := by
  simp only [Read.query, bind, EStateM.bind]
  rw [next_pushed hc hline]
  simp only [Read.atEnd, hc.done]
  rfl

theorem proceed_header (conditions : Conditions) (line : Text) {c : Cursor} (hc : c.Underway)
    (hline : '#' ∉ line) :
    proceed c ((BodyPhase.takeHeader line).within conditions) =
      .ofBody conditions ((do
        Cursor.pushBack line
        match ← Read.query with
        | some operation => return .operation operation
        | none => return .absent : Read Body) c) := by
  have hloop := arrive_linesWhile (gathers_heading conditions) [] line c hc.pending
    fun h => absurd (hc.done ▸ h) (by simp)
  have hpush : Cursor.pushBack line c = .ok () { c with pending := some line } := by
    simp [Cursor.pushBack, hc.pending]
  simp only [arrive, hc.done, Bool.false_eq_true, if_false, Phase.take, BodyPhase.take] at hloop
  rw [hloop]
  simp only [bind, EStateM.bind, hpush, query_pushed hc hline]
  cases hread : Read.linesWhile (·.isEmpty) .script .required line c with
  | error fault d => rfl
  | ok pair d =>
    obtain ⟨lines, header⟩ := pair
    obtain ⟨hd, hempty⟩ := underway_linesWhile hc hread
    dsimp only
    simp only [BodyPhase.takeHeader, hempty]
    cases hquery : "query".toList.isPrefixOf? header with
    | none => rfl
    | some description =>
      dsimp only
      cases hheader : QueryHeader.ofText description with
      | error defect => rfl
      | ok header =>
        dsimp only [BodyStep.within, proceed]
        simp only [Bool.false_eq_true, if_false, divide_text conditions _ hd, EStateM.bind]
        cases Read.queryAfter header d <;> rfl

/-- A line that is no directive begins the body of a record. -/
theorem proceed_ofLine (lines : List Text) (line : Text) {c : Cursor} (hc : c.Underway)
    (hline : '#' ∉ line) (hdirective : (Directive.ofLine? line).isSome = false) :
    proceed c (.ofLine lines line) = .ofBody (.ofLines lines) (Read.body line c) := by
  simp only [Step.ofLine, hdirective, Bool.false_eq_true, if_false, Read.body]
  split
  · simp only [proceed, pure, EStateM.pure, Division.ofBody, Division.onward_of_not_done hc.done]
  · split
    · simp only [proceed, divide_statement _ _ hc, bind, EStateM.bind]
      cases Read.statement line c <;> rfl
    · exact proceed_header _ line hc hline

theorem gathers_directives :
    Gathers (Directive.ofLine? · |>.isSome) .script .required .directives none
      fun lines line c => proceed c (.ofLine lines line) where
  kind_eq _ := rfl
  conditions_eq _ := rfl
  needs _ := fun _ _ => rfl
  take_more lines line _ hmore := by
    simp [Phase.take, Step.ofLine, hmore]
  take_stop _ _ _ _ _ := rfl
  finish_eq _ _ h := nomatch h

/-! ## Heads -/

/-- What reading the head of an item makes of a division. -/
def Division.ofHead : EStateM.Result Fault Cursor Head → Division
  | .ok .ended c => .ended c
  | .ok .blank c => .item .blank c (.onward c)
  | .ok (.threshold value) c => .item (.threshold value) c (.onward c)
  | .ok (.record conditions line) c => .ofBody conditions (Read.body line c)
  | .error fault c => .failed none fault c

theorem divide_start {c : Cursor} (hc : c.Underway) :
    divide c.lineNo .start c.unread = .ofHead (Read.head c) := by
  rw [divide_eq_next .optional hc nofun]
  simp only [Read.head, bind, EStateM.bind, Phase.kind]
  cases hnext : Cursor.next .script .optional c with
  | error fault d => rfl
  | ok line d =>
    by_cases hdone : d.done
    · simp [Phase.resume, arrive, hdone, Phase.finish, Read.atEnd, pure, EStateM.pure,
        Division.ofHead]
    have hd : d.Underway := ⟨Cursor.pending_next hnext, by simpa using hdone⟩
    simp only [Phase.resume, Read.atEnd, arrive, hd.done, Bool.false_eq_true, if_false, Phase.take]
    cases hempty : line.isEmpty with
    | true =>
      simp [proceed, pure, EStateM.pure, Division.ofHead, Division.onward_of_not_done hd.done]
    | false =>
      simp only [Bool.false_eq_true, if_false]
      cases hthreshold : "hash-threshold".toList.isPrefixOf? line with
      | some value =>
        simp [proceed, pure, EStateM.pure, Division.ofHead, Division.onward_of_not_done hd.done]
      | none =>
        have hloop := arrive_linesWhile gathers_directives [] line d hd.pending
          fun h => absurd h hdone
        simp only [arrive, hd.done, Bool.false_eq_true, if_false, Phase.take] at hloop
        dsimp only
        rw [hloop]
        simp only [EStateM.bind]
        cases hread : Read.linesWhile (Directive.ofLine? · |>.isSome) .script .required line d with
        | error fault e => rfl
        | ok pair e =>
          obtain ⟨lines, stop⟩ := pair
          obtain ⟨he, hstop⟩ := underway_linesWhile hd hread
          have hhash := hash_not_mem_linesWhile (hash_not_mem_next hnext) hread
          exact proceed_ofLine lines stop he hhash hstop

theorem ofHead_onward {c : Cursor} (hpending : c.pending = none) :
    Division.onward c = .ofHead (Read.head c) := by
  by_cases hdone : c.done
  · obtain ⟨unread, lineNo, pending, done⟩ := c
    cases hpending
    cases hdone
    rfl
  · rw [Division.onward_of_not_done (by simpa using hdone),
      divide_start ⟨hpending, by simpa using hdone⟩]

/-- Unless the input has ended, the head of an item ends before the end of the input, and that of a
record with a line that has lost its comment. -/
theorem head_cases {head : Head} {c d : Cursor} (h : Read.head c = .ok head d) :
    head = .ended ∨
      d.Underway ∧ ∀ conditions line, head = .record conditions line → '#' ∉ line := by
  obtain ⟨first, e, hnext, h⟩ := Read.ok_of_bind h
  obtain ⟨ended, f, hended, h⟩ := Read.ok_of_bind h
  cases hended
  cases hdone : e.done with
  | true =>
    simp only [hdone, if_true] at h
    cases h
    exact .inl rfl
  | false =>
    have he : e.Underway := ⟨Cursor.pending_next hnext, hdone⟩
    simp only [hdone, Bool.false_eq_true, if_false] at h
    split at h
    · cases h
      exact .inr ⟨he, nofun⟩
    · cases hthreshold : "hash-threshold".toList.isPrefixOf? first with
      | some value =>
        rw [hthreshold] at h
        cases h
        exact .inr ⟨he, nofun⟩
      | none =>
        rw [hthreshold] at h
        obtain ⟨⟨lines, stop⟩, g, hread, h⟩ := Read.ok_of_bind h
        cases h
        refine .inr ⟨(underway_linesWhile he hread).1, ?_⟩
        rintro conditions line ⟨⟩
        exact hash_not_mem_linesWhile (hash_not_mem_next hnext) hread

/-- Where a line was put back, a query is found or a fault is met. -/
theorem query_ne_none {line : Text} {c d : Cursor} (hc : c.Underway) (hline : '#' ∉ line) :
    Read.query { c with pending := some line } ≠ .ok none d := by
  rw [query_pushed hc hline]
  intro h
  obtain ⟨⟨lines, header⟩, e, -, h⟩ := Read.ok_of_bind h
  dsimp only at h
  cases hquery : "query".toList.isPrefixOf? header with
  | none =>
    rw [hquery] at h
    cases h
  | some description =>
    rw [hquery] at h
    dsimp only at h
    cases hheader : QueryHeader.ofText description with
    | error defect =>
      rw [hheader] at h
      cases h
    | ok header =>
      rw [hheader] at h
      obtain ⟨operation, f, -, h⟩ := Read.ok_of_bind h
      cases h

theorem body_ne_absent {line : Text} {c d : Cursor} (hc : c.Underway) (hline : '#' ∉ line) :
    Read.body line c ≠ .ok .absent d := by
  intro h
  unfold Read.body at h
  split at h
  · cases h
  · split at h
    · obtain ⟨operation, e, -, h⟩ := Read.ok_of_bind h
      cases h
    · obtain ⟨_, e, hpush, h⟩ := Read.ok_of_bind h
      obtain ⟨found, f, hquery, h⟩ := Read.ok_of_bind h
      have he : e = { c with pending := some line } := by
        simp only [Cursor.pushBack, hc.pending] at hpush
        cases hpush
        rfl
      cases found with
      | some operation => cases h
      | none => exact query_ne_none hc hline (he ▸ hquery)

/-! ## Parses -/

/-- Reading the items of a source gives what replaying its division gives. -/
theorem readItems_eq_replay (policy : Policy) (progress : Progress) (c : Cursor)
    (hpending : c.pending = none) :
    readItems policy progress c = replay policy progress (.onward c) := by
  fun_induction readItems policy progress c with
  | case1 progress c fault d hhead =>
    rw [ofHead_onward hpending, hhead]
    rfl
  | case2 progress c d hhead =>
    rw [ofHead_onward hpending, hhead]
    rfl
  | case3 progress c d hhead ih =>
    rw [ih (Read.settles_head _ _ _ hpending hhead), ofHead_onward hpending, hhead]
    rfl
  | case4 progress c value d hhead ih =>
    rw [ih (Read.settles_head _ _ _ hpending hhead), ofHead_onward hpending, hhead]
    rfl
  | case5 progress c conditions line d hhead kept progress' fault e hbody =>
    rw [ofHead_onward hpending, hhead]
    simp only [Division.ofHead, hbody]
    rfl
  | case6 progress c conditions line d hhead kept progress' e hbody hkept =>
    have hkept : policy conditions = true := hkept
    rw [ofHead_onward hpending, hhead]
    simp only [Division.ofHead, hbody, Division.ofBody, replay, Item.stops, hkept, if_true,
      Progress.takeUp, progress', kept]
  | case7 progress c conditions line d hhead kept progress' e hbody hkept ih =>
    have hkept : policy conditions = false := by simpa using hkept
    have hd := Read.settles_head _ _ _ hpending hhead
    rw [ih (Read.settles_body _ _ _ _ hd hbody), ofHead_onward hpending, hhead]
    simp [Division.ofHead, hbody, Division.ofBody, replay, Item.stops, hkept,
      Progress.takeUp, progress', kept]
  | case8 progress c conditions line d hhead kept progress' operation e hbody ih =>
    have hd := Read.settles_head _ _ _ hpending hhead
    simp only [dite_eq_ite] at ih
    rw [ih (Read.settles_body _ _ _ _ hd hbody), ofHead_onward hpending, hhead]
    simp only [Division.ofHead, hbody, Division.ofBody, replay, Item.stops, Bool.false_eq_true,
      if_false]
    cases hkept : policy conditions <;> simp [Progress.takeUp, progress', kept, hkept]
  | case9 progress c conditions line d hhead kept progress' e hbody ih =>
    obtain ⟨hd, hhash⟩ := (head_cases hhead).resolve_left nofun
    have hline := hhash _ _ rfl
    exact absurd hbody (body_ne_absent hd hline)

/-- A parse replays the division of its source. -/
theorem readItems_start (policy : Policy) (source : Source) :
    readItems policy .start (.start source) = replay policy .start (divide 0 .start source) :=
  readItems_eq_replay policy .start (.start source) rfl

end LogicTest
