import LogicTest.Proofs.Division.Renumbered
import LogicTest.Proofs.Grammar.Acceptance

/-!
# Scripts one after the other

A blank line closes the item at the end of a script, unless this is a query before its delimiter.
So the items of two scripts with a blank line between them are those of the first and then those of
the second, further down.
-/
namespace LogicTest

def Item.isThreshold : Item → Bool
  | threshold _ => true
  | _ => false

def ScriptError.moved (lines : Nat) (error : ScriptError) : ScriptError :=
  { error with line := error.line + lines }

/-- A script and another one that begins `lines` lines further down. The threshold is that of the
other one if a threshold line is met in it. -/
def Script.followedBy (first second : Script) (lines : Nat) (thresholdMet : Bool) : Script where
  name := first.name
  operations := first.operations ++ second.operations.map (.renumber (· + lines))
  queryCount := first.queryCount + second.queryCount
  hashThreshold := if thresholdMet then second.hashThreshold else first.hashThreshold
  halted := second.halted

section
variable (policy : Policy) (name : Text)

theorem lastThreshold_append (one two : List Item) :
    lastThreshold (one ++ two) =
      if two.any Item.isThreshold then lastThreshold two else lastThreshold one := by
  have hnone : two.any Item.isThreshold = false → two.filterMap Item.threshold? = [] := by
    intro h
    apply List.filterMap_eq_nil_iff.2
    intro item hitem
    have hitem := List.any_eq_false.1 h item hitem
    cases item with
    | threshold value => exact absurd rfl hitem
    | _ => rfl
  have hsome : two.any Item.isThreshold = true → two.filterMap Item.threshold? ≠ [] := by
    intro h hnil
    obtain ⟨item, hitem, hthreshold⟩ := List.any_eq_true.1 h
    have hitem := List.filterMap_eq_nil_iff.1 hnil item hitem
    cases item with
    | threshold value => cases hitem
    | _ => cases hthreshold
  rw [lastThreshold, lastThreshold, lastThreshold, List.filterMap_append, List.getLast?_append]
  cases hany : two.any Item.isThreshold with
  | false => rw [hnone hany]; rfl
  | true =>
    rw [List.getLast?_eq_some_getLast (hsome hany)]
    rfl

theorem ofItems_append {one : List Item} (h : ∀ item ∈ one, item.stops policy = false)
    (two : List Item) (lines : Nat) :
    Script.ofItems policy name (one ++ two.map (Item.renumber (· + lines))) =
      (Script.ofItems policy name one).followedBy (.ofItems policy name two) lines
        (two.any Item.isThreshold) := by
  have hany : one.any (Item.stops policy) = false := by simpa using h
  have hthreshold : (two.map (Item.renumber (· + lines))).any Item.isThreshold =
      two.any Item.isThreshold := by
    rw [List.any_map]
    exact congrArg two.any (funext fun item => by cases item <;> rfl)
  simp only [Script.ofItems, Script.followedBy, List.filterMap_append, operation?_renumber,
    List.countP_append, countP_isQuery_renumber, lastThreshold_append, hthreshold,
    lastThreshold_renumber, List.any_append, hany, any_stops_renumber, Bool.false_or]

/-- A blank line contributes nothing. -/
theorem ofItems_blank (items : List Item) :
    Script.ofItems policy name (items ++ [.blank]) = .ofItems policy name items := by
  simp only [Script.ofItems, List.filterMap_append, lastThreshold_append, List.any_append]
  simp [Item.operation?, Item.isThreshold, Item.stops]

end

namespace Grammar

/-- The lines end with a query that runs to their end without its delimiter. -/
def EndsUndelimited (lines : List Text) : Prop :=
  ∃ body tail items item, lines = body ++ tail ∧ Items 0 body items ∧
    IsItem body.length tail .undelimited item

section
variable {start : Nat} {segment : List Text} {blank : Text} (hblank : Text.trim blank = [])

include hblank

/-! ## The blank line between -/

theorem spells_blank {lines : List Text} (h : logicalLines segment = lines) :
    Spells (segment ++ [blank]) (lines ++ [[]]) := by
  have hlogical : logical blank = [] := by
    rw [logical, hblank]
    rfl
  rw [← hlogical]
  exact spells_concat h (by rw [hblank]; rfl)

theorem IsResult.closed {expected : Expectation} (h : IsResult segment .input expected) :
    IsResult (segment ++ [blank]) .line expected := by
  cases h with
  | emptyAtEnd lines => exact .empty (spells_blank hblank lines)
  | digestAtEnd lines isDigest => exact .digest (spells_blank hblank lines) isDigest
  | valuesAtEnd first nonempty no_digest others =>
    exact .values first nonempty no_digest others hblank

theorem IsOperation.closed {directed : Prop} {operation : Operation}
    (h : IsOperation start directed segment .input operation) :
    IsOperation start directed (segment ++ [blank]) .line operation := by
  cases h with
  | statementAtEnd lines keyword nonempty =>
    exact .statement (spells_blank hblank lines) keyword nonempty
  | query lines blanks placed isHeader undelimited isResult =>
    rw [List.append_assoc]
    exact .query lines blanks placed isHeader undelimited (isResult.closed hblank)

/-- An item that the end of the input closes is closed by a blank line too. -/
theorem IsItem.closed {item : Item} (h : IsItem start segment .input item) :
    IsItem start (segment ++ [blank]) .line item := by
  cases h with
  | operation directives names isOperation =>
    rw [List.append_assoc]
    exact .operation directives names (isOperation.closed hblank)

/-- What stands at the end of a script is closed by a blank line, or this is an item of its own. -/
theorem Tail.closed {last : List Item} (h : Tail start segment last)
    (delimited : ∀ item, ¬ IsItem start segment .undelimited item) :
    Items start (segment ++ [blank]) last ∨
      last = [] ∧ Items start (segment ++ [blank]) [.blank] := by
  cases h with
  | comments lines => exact .inr ⟨rfl, .singleton (.blank (spells_blank hblank lines))⟩
  | @item close item isItem unclosed =>
    left
    cases close with
    | line => exact absurd rfl unclosed
    | input => exact .singleton (isItem.closed hblank)
    | undelimited => exact absurd isItem (delimited item)

end

/-- With a blank line after it, a script consists of items that end with lines of their own. -/
theorem exists_items {lines : List Text} {items : List Item} {blank : Text}
    (h : Cuts 0 lines items none) (delimited : ¬ EndsUndelimited lines)
    (hblank : Text.trim blank = []) :
    ∃ closed, Items 0 (lines ++ [blank]) closed ∧
      (closed = items ∨ closed = items ++ [.blank]) := by
  obtain ⟨body, tail, init, last, rfl, rfl, hbody, htail⟩ := h.exists_tail
  rw [List.append_assoc]
  have hdelimited : ∀ item, ¬ IsItem (0 + body.length) tail .undelimited item := by
    intro item isItem
    rw [Nat.zero_add] at isItem
    exact delimited ⟨body, tail, init, item, rfl, hbody, isItem⟩
  rcases htail.closed hblank hdelimited with hitems | ⟨rfl, hitems⟩
  · exact ⟨_, hbody.append hitems, .inl rfl⟩
  · rw [List.append_nil]
    exact ⟨_, hbody.append hitems, .inr rfl⟩

theorem IsItem.exists_query {start : Nat} {segment : List Text} {item : Item}
    (h : IsItem start segment .undelimited item) :
    ∃ conditions sql sourceLine output label,
      item = .operation conditions (.query sql sourceLine output label) ∧
        output.expected = .values [] := by
  cases h with
  | operation _ _ isOperation =>
    cases isOperation with
    | query _ _ _ _ _ isResult => cases isResult
    | queryAtEnd => exact ⟨_, _, _, _, _, rfl, rfl⟩

/-- A script that ends before the delimiter of a query ends with a query that expects no values. -/
theorem EndsUndelimited.exists_query {lines : List Text} (h : EndsUndelimited lines) :
    ∃ init conditions sql sourceLine output label,
      (Source.division (lines.map .line)).items =
        init ++ [.operation conditions (.query sql sourceLine output label)] ∧
        output.expected = .values [] := by
  obtain ⟨body, tail, items, item, rfl, hbody, isItem⟩ := h
  obtain ⟨conditions, sql, sourceLine, output, label, rfl, hexpected⟩ := isItem.exists_query
  refine ⟨items, conditions, sql, sourceLine, output, label, ?_, hexpected⟩
  have hitems := (divide_items hbody (tail.map .line)).1
  have htail := (divide_tail (.item isItem nofun)).1
  rw [Nat.zero_add, htail, ← List.map_append] at hitems
  exact hitems

/-! ## Two scripts -/

/-- The division of the lines of two scripts with a blank line between them. -/
theorem division_append {lines : List Text} {items : List Item} {blank : Text}
    (h : Items 0 (lines ++ [blank]) items) (others : List Text) :
    (Source.division ((lines ++ blank :: others).map .line)).items =
        items ++ (Source.division (others.map .line)).items.map
          (Item.renumber (· + (lines.length + 1))) ∧
      (Source.division ((lines ++ blank :: others).map .line)).break? =
        (Source.division (others.map .line)).break?.map
          (Break.renumber (· + (lines.length + 1))) := by
  have hitems := divide_items h (others.map .line)
  have hmoved := divide_moved (lines.length + 1) 0 (others.map .line)
  rw [List.length_append, List.length_singleton] at hitems
  rw [Source.division, Source.division, List.append_cons, List.map_append, hitems.1, hitems.2]
  exact ⟨congrArg (items ++ ·) hmoved.1, hmoved.2⟩

/-- Such a blank line changes nothing of what the items come to. -/
theorem closed_eq {policy : Policy} {items closed : List Item} (name : Text)
    (running : ∀ item ∈ items, item.stops policy = false)
    (h : closed = items ∨ closed = items ++ [.blank]) :
    (∀ item ∈ closed, item.stops policy = false) ∧
      asked policy closed none = asked policy items none ∧
      Script.ofItems policy name closed = .ofItems policy name items := by
  rcases h with rfl | rfl
  · exact ⟨running, rfl, rfl⟩
  · refine ⟨List.forall_mem_append.2 ⟨running, by simp [Item.stops]⟩, ?_, ofItems_blank ..⟩
    rw [asked_append running]
    exact List.append_nil _

/-- What a parse makes of items of which none stops it and of items further down. -/
theorem parse_of_division {policy : Policy} {one two : List Item} {ending : Option Break}
    {source : Source} {lines : Nat} (name : Text)
    (hitems : source.division.items = one ++ two.map (Item.renumber (· + lines)))
    (hbreak : source.division.break? = ending.map (Break.renumber (· + lines)))
    (running : ∀ item ∈ one, item.stops policy = false) :
    (parse policy name source).decisions =
        policy.decisions (asked policy one none) ++ policy.decisions (asked policy two ending) ∧
      (parse policy name source).result =
        match breakAfter policy two ending with
        | some ending => .error (ScriptError.moved lines ⟨name, ending.line, ending.fault⟩)
        | none => .ok ((Script.ofItems policy name one).followedBy
            (.ofItems policy name (upToHalt policy two)) lines
            ((upToHalt policy two).any Item.isThreshold)) := by
  constructor
  · rw [parse_decisions, hitems, hbreak, asked_append running, asked_renumber, Policy.decisions,
      List.map_append]
    rfl
  · rw [parse_result, hitems, hbreak, breakAfter_append running, breakAfter_renumber,
      upToHalt_append running, upToHalt_renumber, ofItems_append policy name running]
    cases breakAfter policy two ending <;> rfl

/-- A parse that ends without a `halt` has taken up all items. -/
theorem division_of_running {policy : Policy} {name : Text} {source : Source} {script : Script}
    (h : (parse policy name source).result = .ok script) (running : script.halted = false) :
    (∀ item ∈ source.division.items, item.stops policy = false) ∧ source.division.break? = none ∧
      script = .ofItems policy name source.division.items := by
  obtain ⟨hbreak, hscript⟩ := parse_eq_ok_iff.1 h
  rw [hscript, Script.ofItems, any_stops_upToHalt] at running
  have hrunning : ∀ item ∈ source.division.items, item.stops policy = false := by
    simpa using running
  rw [breakAfter_of_running hrunning] at hbreak
  rw [upToHalt_eq_self hrunning] at hscript
  exact ⟨hrunning, hbreak, hscript⟩

/-- A script, a blank line and another script are parsed like the one and then the other. -/
theorem parse_followed {policy : Policy} {name one two blank : Text} {first : Script}
    (hfirst : (parseText policy name one).result = .ok first) (running : first.halted = false)
    (delimited : ¬ EndsUndelimited one.lines) (hblank : Text.trim blank = []) :
    let lines := one.lines.length + 1
    let whole := parse policy name ((one.lines ++ blank :: two.lines).map .line)
    whole.decisions =
        (parseText policy name one).decisions ++ (parseText policy name two).decisions ∧
      (∀ second, (parseText policy name two).result = .ok second →
        ∃ items, Accepts policy two.lines items ∧
          whole.result = .ok (first.followedBy second lines (items.any Item.isThreshold))) ∧
      ∀ error, (parseText policy name two).result = .error error →
        whole.result = .error (error.moved lines) := by
  intro lines whole
  obtain ⟨hrunning, hbreak, hscript⟩ := division_of_running hfirst running
  have hcuts := cuts_division one.lines
  have hdecisions := parse_decisions policy name (.ofText one)
  simp only [Source.ofText] at hrunning hbreak hscript hdecisions
  rw [hbreak] at hcuts hdecisions
  obtain ⟨closed, hclosed, hsame⟩ := exists_items hcuts delimited hblank
  obtain ⟨hclosed_running, hclosed_asked, hclosed_script⟩ := closed_eq name hrunning hsame
  obtain ⟨hitems, hending⟩ := division_append hclosed two.lines
  obtain ⟨hwhole, hresult⟩ := parse_of_division name hitems hending hclosed_running
  rw [hclosed_asked] at hwhole
  rw [hclosed_script, ← hscript] at hresult
  refine ⟨?_, fun second hsecond => ?_, fun error herror => ?_⟩
  · rw [parseText, parseText, parse_decisions policy name (.ofText two)]
    rw [Source.ofText, hdecisions]
    exact hwhole
  · obtain ⟨htwo, rfl⟩ := parse_eq_ok_iff.1 hsecond
    simp only [Source.ofText] at htwo
    rw [htwo] at hresult
    exact ⟨_, accepts_division htwo, hresult⟩
  · rw [parseText, parse_result] at herror
    simp only [Source.ofText] at herror
    cases htwo : breakAfter policy (Source.division (two.lines.map .line)).items
        (Source.division (two.lines.map .line)).break? with
    | some ending =>
      rw [htwo] at herror hresult
      cases herror
      exact hresult
    | none =>
      rw [htwo] at herror
      cases herror

/-- The last query of the first script is closed by the end of the input, and by the blank line. -/
theorem parse_followed_query :
    let one : Text := "statement ok\nselect 1\n\nquery I nosort\nselect 2\n----\n2".toList
    let two : Text := "hash-threshold 3\nhalt\n".toList
    let first : Script := ⟨[], [.statement "select 1".toList true, .query "select 2".toList 6
      ⟨[.integer], .asProduced, .values ["2".toList]⟩ none], 1, none, false⟩
    (parseText .keepAll [] one).result = .ok first ∧ ¬ EndsUndelimited one.lines ∧
      ∃ items, Accepts .keepAll two.lines items ∧
        (parse .keepAll [] ((one.lines ++ [' '] :: two.lines).map .line)).result =
          .ok (first.followedBy ⟨[], [], 0, some 3, true⟩ 8 (items.any Item.isThreshold)) := by
  intro one two first
  have hfirst : (parseText .keepAll [] one).result = .ok first :=
    parse_eq_ok_iff.2 ⟨by decide +kernel, by decide +kernel⟩
  have hsecond : (parseText .keepAll [] two).result = .ok ⟨[], [], 0, some 3, true⟩ :=
    parse_eq_ok_iff.2 ⟨by decide +kernel, by decide +kernel⟩
  have hdelimited : ¬ EndsUndelimited one.lines := by
    intro h
    obtain ⟨init, conditions, sql, sourceLine, output, label, hitems, hexpected⟩ := h.exists_query
    have hlast : (Source.division (one.lines.map .line)).items =
        [.operation .none (.statement "select 1".toList true)] ++
          [.operation .none (.query "select 2".toList 6
            ⟨[.integer], .asProduced, .values ["2".toList]⟩ none)] := by decide +kernel
    obtain ⟨-, hquery⟩ := List.append_inj' (hitems.symm.trans hlast) rfl
    cases hquery
    simp at hexpected
  have hblank : Text.trim [' '] = [] := by decide
  exact ⟨hfirst, hdelimited, (parse_followed hfirst rfl hdelimited hblank).2.1 _ hsecond⟩

end Grammar
end LogicTest
