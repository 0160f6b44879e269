import LogicTest.Proofs.Grammar.Acceptance
import LogicTest.Proofs.Printing.Lines

/-!
# What is printed is read back

The lines of each operation form an item of the grammar, and those of a script a script, so that it
is accepted. An empty statement leaves a blank line over, which is an item of its own.
-/
namespace LogicTest
open Grammar

/-! ## Statements -/

/-- Plain lines spell themselves. -/
theorem spells_of_uncommented (init : List Text) {last : Text}
    (h : ∀ line ∈ init ++ [last], Text.Uncommented line) :
    Spells (init ++ [last]) (init ++ [last]) := by
  have hspells := spells_of_no_hash init fun line hline => (h line hline).no_hash
  rwa [Text.map_trim_eq_self fun line hline => (h line hline).trimmed] at hspells

/-- An operation without directive lines is an item by itself. -/
theorem isItem_of_isOperation (start : Nat) {segment : List Text} {close : Close}
    {operation : Operation}
    (h : IsOperation start (logicalLines [] ≠ []) segment close operation) :
    IsItem start segment close (.operation .none operation) := by
  have hitem : IsItem start ([] ++ segment) close (.operation .none operation) :=
    .operation (fun line hline => absurd hline List.not_mem_nil) (names_ofLines _) h
  exact hitem

/-- Items that are records without conditions, and blank lines. -/
structure Carries (items : List Item) (operations : List Operation) : Prop where
  operations_eq : ∀ policy : Policy, policy .none = true →
    items.filterMap (Item.operation? policy) = operations
  no_threshold : items.filterMap Item.threshold? = []
  running : ∀ policy, ∀ item ∈ items, item.stops policy = false

theorem carries_nil : Carries [] [] := ⟨fun _ _ => rfl, rfl, fun _ => nofun⟩

theorem carries_operation (operation : Operation) :
    Carries [.operation .none operation] [operation] where
  operations_eq policy hpolicy := by simp [Item.operation?, hpolicy]
  no_threshold := rfl
  running _ := by simp [Item.stops]

theorem carries_blank : Carries [.blank] [] := ⟨fun _ _ => rfl, rfl, fun _ => by simp [Item.stops]⟩

theorem Carries.append {one two : List Item} {operations others : List Operation}
    (h : Carries one operations) (h' : Carries two others) :
    Carries (one ++ two) (operations ++ others) where
  operations_eq policy hpolicy := by
    rw [List.filterMap_append, h.operations_eq policy hpolicy, h'.operations_eq policy hpolicy]
  no_threshold := by rw [List.filterMap_append, h.no_threshold, h'.no_threshold, List.append_nil]
  running policy := List.forall_mem_append.2 ⟨h.running policy, h'.running policy⟩

/-- The lines of a statement form it, and a blank line is left over if it is empty. -/
theorem exists_items_statement (start : Nat) {sql : Text} (succeeds : Bool)
    (h : Text.Uncommented sql) :
    ∃ items, Items start (Operation.statement sql succeeds).lines items ∧
      Carries items [.statement sql succeeds] := by
  have hheader := Operation.statementHeader_uncommented succeeds
  have hkeyword := Operation.keyword_statementHeader succeeds
  have hblank : ∀ line ∈ [Operation.statementHeader succeeds, sql] ++ [[]],
      Text.Uncommented line := by
    simp [hheader, h, Text.uncommented_nil]
  by_cases hempty : sql = []
  · subst hempty
    have hspells : Spells [Operation.statementHeader succeeds, []]
        (Operation.statementHeader succeeds :: [] ++ [[]]) :=
      spells_of_uncommented [_] (by simp [hheader, Text.uncommented_nil])
    have hitem := isItem_of_isOperation start (.statement hspells hkeyword nofun)
    rw [Operation.ok_statementHeader] at hitem
    have hblank : IsItem (start + 2) [[]] .line .blank :=
      .blank (spells_of_uncommented [] (by simp [Text.uncommented_nil]))
    exact ⟨_, .cons hitem (.singleton hblank), (carries_operation _).append carries_blank⟩
  · have hspells : Spells [Operation.statementHeader succeeds, sql, []]
        (Operation.statementHeader succeeds :: [sql] ++ [[]]) :=
      spells_of_uncommented [_, _] hblank
    have hitem := isItem_of_isOperation start
      (.statement hspells hkeyword (by simpa using hempty))
    rw [Operation.ok_statementHeader] at hitem
    have hflatten : [sql].flatten = sql := by simp
    rw [hflatten] at hitem
    exact ⟨_, .singleton hitem, carries_operation _⟩

/-! ## Queries -/

theorem isDigest_line {count : Nat} {text : Text} (inRange : count < Numeral.bound)
    (h : text.Trimmed) :
    IsDigest (Text.trim (Numeral.toText count ++ " values hashing to ".toList ++ text)) count
      text := by
  have hbefore : Text.trimEnd (Numeral.toText count ++ [' ']) = Numeral.toText count := by
    rw [Text.trimEnd_append (Numeral.trimmed_toText count).trimEnd]
    exact List.append_nil _
  have hnot : 'v' ∉ Numeral.toText count ++ [' '] := by
    simpa using Numeral.not_mem_toText (by decide) count
  rw [trim_digest]
  refine ⟨_, _, Text.cutsAt_of_not_mem hnot _, ?_, h.trim_trimEnd_cons.symm⟩
  rw [hbefore]
  exact Numeral.denotes_toText inRange

theorem isResult_lines {expected : Expectation} (h : expected.Printable) :
    IsResult (expected.lines ++ [[]]) .line expected := by
  cases h with
  | empty => exact .empty (spells_of_uncommented [] (by simp [Text.uncommented_nil]))
  | @values value more first no_digest others nonempty =>
    obtain ⟨hvalue, hmore⟩ := List.forall_mem_cons.1 nonempty
    have hspells : Spells [value] [value] := spells_of_uncommented [] (by simpa using first)
    have hresult :
        IsResult ([value] ++ more ++ [[]]) .line (.values (value :: more.map Text.trim)) :=
      .values hspells hvalue no_digest
        (fun line hline => by rw [(others line hline).trimmed]; exact hmore line hline) rfl
    rwa [Text.map_trim_eq_self fun line hline => (others line hline).trimmed] at hresult
  | @digest count text inRange uncommented =>
    have hhash : '#' ∉ Numeral.toText count ++ " values hashing to ".toList ++ text := by
      simpa [uncommented.no_hash] using Numeral.not_mem_toText (by decide) count
    have hspells : Spells
        [Numeral.toText count ++ " values hashing to ".toList ++ text, []]
        [Text.trim (Numeral.toText count ++ " values hashing to ".toList ++ text), []] :=
      spells_of_no_hash [_] (by simpa using hhash)
    exact .digest hspells (isDigest_line inRange uncommented.trimmed)

theorem joined_singleton {sql : Text} (h : sql.Trimmed) : joined [sql] = sql := by
  have hjoin : [' '].intercalate [sql] = sql := by simp [List.intercalate]
  rw [joined, hjoin]
  exact h

/-- The lines of a query form it, with the third of them as the line on which its text ends. -/
theorem exists_items_query (start : Nat) {sql : Text} {sourceLine : Nat} {output : Output}
    {label : Option Text} (h : (Operation.query sql sourceLine output label).Printable) :
    ∃ items, Items start (Operation.query sql sourceLine output label).lines items ∧
      Carries items [.query sql (start + 3) output label] := by
  cases h with
  | query uncommented undelimited columns labelled expected =>
    have hheader : (Operation.queryHeader ⟨output.columns, output.order, label⟩).Uncommented :=
      Operation.queryHeader_uncommented columns labelled
    have hspells : Spells
        [Operation.queryHeader ⟨output.columns, output.order, label⟩, sql, resultDelimiter]
        ([] ++ ("query".toList ++ ' ' :: QueryHeader.print ⟨output.columns, output.order, label⟩) ::
          [sql] ++ [resultDelimiter]) := by
      apply spells_of_uncommented [_, _]
      have hdelimiter : Text.Uncommented resultDelimiter := ⟨⟨rfl, by decide⟩, by decide⟩
      simp [hheader, uncommented, hdelimiter]
    have hheader : QueryHeader.Denotes
        (' ' :: QueryHeader.print ⟨output.columns, output.order, label⟩)
        ⟨output.columns, output.order, label⟩ := QueryHeader.denotes_print columns labelled
    have hitem := isItem_of_isOperation start (.query hspells nofun (absurd rfl) hheader
      (by simpa using Ne.symm undelimited) (isResult_lines expected))
    rw [joined_singleton uncommented.trimmed] at hitem
    refine ⟨_, .singleton ?_, carries_operation _⟩
    rw [Operation.lines, List.append_assoc]
    exact hitem

theorem exists_items_operation (start : Nat) {operation : Operation} (h : operation.Printable) :
    ∃ items, Items start operation.lines items ∧
      Carries items [operation.endingOn (start + 3)] := by
  cases operation with
  | statement sql succeeds =>
    cases h with
    | statement uncommented => exact exists_items_statement start succeeds uncommented
  | query sql sourceLine output label => exact exists_items_query start h

/-- The lines of operations form them. -/
theorem exists_items_operations (start : Nat) {operations : List Operation}
    (h : ∀ operation ∈ operations, operation.Printable) :
    ∃ items, Items start (operations.flatMap Operation.lines) items ∧
      Carries items (Operation.located start operations) := by
  induction operations generalizing start with
  | nil => exact ⟨[], .nil, carries_nil⟩
  | cons operation rest ih =>
    obtain ⟨hoperation, hrest⟩ := List.forall_mem_cons.1 h
    obtain ⟨items, hitems, hcarries⟩ := exists_items_operation start hoperation
    obtain ⟨others, hothers, hcarries'⟩ := ih (start + operation.lines.length) hrest
    exact ⟨items ++ others, hitems.append hothers, hcarries.append hcarries'⟩

/-! ## Threshold and halt -/

def thresholdItems (threshold : Option Nat) : List Item :=
  threshold.elim [] fun n => [.threshold (some n)]

theorem items_threshold {threshold : Option Nat} (h : ∀ n ∈ threshold, n < Numeral.bound) :
    Items 0 (thresholdLines threshold) (thresholdItems threshold) := by
  cases threshold with
  | none => exact .nil
  | some n =>
    have hspells : Spells ["hash-threshold ".toList ++ Numeral.toText n]
        ["hash-threshold".toList ++ ' ' :: Numeral.toText n] :=
      spells_of_uncommented [] (by simpa using threshold_uncommented n)
    refine .singleton (.threshold hspells fun m => ?_)
    rw [Text.trim_cons_blank (by decide), Numeral.trimmed_toText n, ← Numeral.ofText?_eq_some_iff,
      Numeral.ofText?_toText (h n rfl)]

theorem isItem_halt (start : Nat) : IsItem start ["halt".toList] .line (.halt .none) := by
  have hspells : Spells ["halt".toList] ["halt".toList] :=
    spells_of_uncommented [] (by simpa using ⟨⟨rfl, by decide⟩, by decide⟩)
  have hitem : IsItem start ([] ++ ["halt".toList]) .line (.halt .none) :=
    .halt (fun line hline => absurd hline List.not_mem_nil) (names_ofLines _) hspells
      (List.prefix_refl _)
  exact hitem

/-! ## Scripts -/

theorem countP_located (start : Nat) (operations : List Operation) :
    (Operation.located start operations).countP Operation.isQuery =
      operations.countP Operation.isQuery := by
  induction operations generalizing start with
  | nil => rfl
  | cons operation rest ih =>
    have hquery : (operation.endingOn (start + 3)).isQuery = operation.isQuery := by
      cases operation <;> rfl
    rw [Operation.located, List.countP_cons, List.countP_cons, ih, hquery]

def haltItems (halted : Bool) : List Item := if halted then [.halt .none] else []

theorem ofItems_printed {policy : Policy} (name : Text) {items : List Item}
    {operations : List Operation} (hpolicy : policy .none = true)
    (h : Carries items operations) (threshold : Option Nat) (halted : Bool) :
    Script.ofItems policy name (thresholdItems threshold ++ items ++ haltItems halted) =
      ⟨name, operations, operations.countP Operation.isQuery, threshold, halted⟩ := by
  have hoperations : (thresholdItems threshold ++ items ++ haltItems halted).filterMap
      (Item.operation? policy) = operations := by
    have hone : (thresholdItems threshold).filterMap (Item.operation? policy) = [] := by
      cases threshold <;> rfl
    have htwo : (haltItems halted).filterMap (Item.operation? policy) = [] := by
      cases halted <;> rfl
    rw [List.filterMap_append, List.filterMap_append, h.operations_eq policy hpolicy, hone, htwo,
      List.nil_append, List.append_nil]
  have hthreshold : lastThreshold (thresholdItems threshold ++ items ++ haltItems halted) =
      threshold := by
    rw [lastThreshold, List.filterMap_append, List.filterMap_append, h.no_threshold]
    cases threshold <;> cases halted <;> rfl
  have hany : items.any (Item.stops policy) = false := by simpa using h.running policy
  have hhalted : (thresholdItems threshold ++ items ++ haltItems halted).any (Item.stops policy) =
      halted := by
    rw [List.any_append, List.any_append, hany]
    cases threshold <;> cases halted <;> simp [thresholdItems, haltItems, Item.stops, hpolicy]
  rw [Script.ofItems, hoperations, hthreshold, hhalted]

/-- The lines of a printed script are accepted. -/
theorem accepts_printed {policy : Policy} {threshold : Option Nat} {items : List Item}
    {operations others : List Operation} (hpolicy : policy .none = true)
    (inRange : ∀ n ∈ threshold, n < Numeral.bound)
    (hitems : Items (thresholdLines threshold).length (operations.flatMap Operation.lines) items)
    (h : Carries items others) (halted : Bool) :
    Accepts policy (printedLines threshold operations halted)
      (thresholdItems threshold ++ items ++ haltItems halted) := by
  have hthreshold := items_threshold inRange
  have hbody : Items 0 (thresholdLines threshold ++ operations.flatMap Operation.lines)
      (thresholdItems threshold ++ items) :=
    hthreshold.append (by rwa [Nat.zero_add])
  have hrunning : ∀ item ∈ thresholdItems threshold ++ items, !item.stops policy := by
    refine List.forall_mem_append.2 ⟨?_, fun item hitem => by simp [h.running policy item hitem]⟩
    cases threshold with
    | none => nofun
    | some n => exact List.forall_mem_singleton.2 rfl
  cases halted with
  | false =>
    apply Accepts.complete hbody (.comments rfl)
    rwa [List.append_nil]
  | true =>
    have hhalt := hbody.append (.singleton (isItem_halt _))
    rw [← List.append_nil (printedLines _ _ _)]
    exact .halted hhalt hrunning hpolicy

/-- A script that is printed is read back, with the lines on which its queries have their
delimiters. -/
theorem parse_printed {policy : Policy} {name : Text} {threshold : Option Nat}
    {operations : List Operation} {halted : Bool} (hpolicy : policy .none = true)
    (inRange : ∀ n ∈ threshold, n < Numeral.bound)
    (printable : ∀ operation ∈ operations, operation.Printable) :
    (parseText policy name (printed threshold operations halted)).result =
      .ok ⟨name, Operation.located (thresholdLines threshold).length operations,
        operations.countP Operation.isQuery, threshold, halted⟩ := by
  obtain ⟨items, hitems, hcarries⟩ :=
    exists_items_operations (thresholdLines threshold).length printable
  have haccepts := accepts_printed hpolicy inRange hitems hcarries halted
  have hlines : (printed threshold operations halted).lines =
      printedLines threshold operations halted := Text.lines_ofLines (isLine_printed printable)
  rw [← hlines] at haccepts
  rw [haccepts.parse_eq, ofItems_printed name hpolicy hcarries, countP_located]

/-- An empty statement, and a labelled query of an empty text with an empty digest. -/
theorem parse_printed_empty :
    let operations : List Operation := [.statement [] false,
      .query [] 0 ⟨[.integer, .text], .byRow, .digest 30 []⟩ (some "a b".toList)]
    (∀ operation ∈ operations, operation.Printable) ∧
      (parseText .keepAll [] (printed (some 8) operations true)).result =
        .ok ⟨[], [.statement [] false,
          .query [] 7 ⟨[.integer, .text], .byRow, .digest 30 []⟩ (some "a b".toList)],
          1, some 8, true⟩ := by
  intro operations
  have hnil := Text.uncommented_nil
  have hlabel : Text.Uncommented "a b".toList := ⟨⟨rfl, by decide⟩, by decide⟩
  have printable : ∀ operation ∈ operations, operation.Printable := by
    refine List.forall_mem_cons.2 ⟨.statement hnil, List.forall_mem_singleton.2 ?_⟩
    refine .query hnil (by decide) (by decide) ?_ (.digest (by decide) hnil)
    rintro text ⟨⟩
    exact ⟨hlabel, nofun⟩
  have inRange : ∀ n ∈ some 8, n < Numeral.bound := by decide
  exact ⟨printable, parse_printed rfl inRange printable⟩

end LogicTest
