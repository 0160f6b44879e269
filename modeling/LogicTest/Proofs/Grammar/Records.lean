import LogicTest.Proofs.Grammar.Acceptance
import LogicTest.Proofs.Grammar.Between

/-!
# Where records begin

A parse asks the policy once about each record that it reaches, by the conditions that the directive
lines of the record name (`Begins.decision`). It reaches the records that begin behind the items of
a script, and is asked about nothing else (`exists_begins`).
-/
namespace LogicTest
open Grammar

namespace Grammar

/-- A record begins: `named` are its directive lines, and the line that follows is none. Without
directive lines, it is neither a blank line nor a threshold line. -/
structure Opens (named rest : List Text) : Prop where
  directives : ∀ line ∈ logicalLines named, IsDirective line
  first : ∃ line ∈ (logicalLines rest).head?, ¬ IsDirective line ∧
    (logicalLines named = [] → line ≠ [] ∧ ¬ "hash-threshold".toList <+: line)

/-- A record begins after the lines of `items`, of which the policy keeps no `halt`. -/
structure Begins (policy : Policy) (before : List Text) (items : List Item)
    (named rest : List Text) : Prop extends Opens named rest where
  between : Between before items
  running : ∀ item ∈ items, item.stops policy = false

end Grammar

/-- A record in the middle of a script is divided after its directive lines. -/
theorem Grammar.Between.division_directives {before : List Text} {items : List Item}
    {named : List Text} (h : Between before items)
    (directives : ∀ line ∈ logicalLines named, IsDirective line) (rest : Source) :
    let division :=
      divide (before.length + named.length) (afterDirectives (logicalLines named)) rest
    (Source.division ((before ++ named).map .line ++ rest)).items = items ++ division.items ∧
      (Source.division ((before ++ named).map .line ++ rest)).break? = division.break? := by
  have hdivision := h.division_eq (named.map .line ++ rest)
  rwa [divide_goes (goes_directives directives) (kind_afterDirectives _) rfl, ← List.append_assoc,
    ← List.map_append] at hdivision

/-! ## The decision about a record -/

/-- The conditions that the policy is asked about first. -/
def Division.asksFirst : Division → Option Conditions
  | ended _ => none
  | failed conditions _ _ => conditions
  | item first _ _ => first.conditions?

theorem Division.head?_asked {division : Division} {conditions : Conditions}
    (h : division.asksFirst = some conditions) (policy : Policy) :
    (asked policy division.items division.break?).head? = some conditions := by
  cases division with
  | ended place => cases h
  | failed found fault place =>
    cases h
    rfl
  | item first place rest =>
    have hfirst : first.conditions? = some conditions := h
    rw [Division.items, asked_cons, hfirst]
    rfl

theorem asksFirst_finish (place : Cursor) (conditions : Conditions) (phase : BodyPhase) :
    ((Phase.body conditions phase).finish place).asksFirst = some conditions := by
  simp only [Phase.finish]
  cases phase.finish place.lineNo <;> rfl

theorem asksFirst_within {conditions : Conditions} {c : Cursor}
    (h : ∀ phase, (divide c.lineNo (.body conditions phase) c.unread).asksFirst = some conditions)
    (step : BodyStep) : (proceed c (step.within conditions)).asksFirst = some conditions := by
  cases step with
  | more next => exact h next
  | done operation => rfl
  | stuck fault => rfl

/-- In the body of a record the policy is asked about this record first. -/
theorem asksFirst_divide (lineNo : Nat) (conditions : Conditions) (phase : BodyPhase)
    (source : Source) :
    (divide lineNo (.body conditions phase) source).asksFirst = some conditions := by
  induction source generalizing lineNo phase with
  | nil => exact asksFirst_finish _ conditions phase
  | cons reading rest ih =>
    cases reading with
    | failure cause => rfl
    | line line =>
      rw [divide_line]
      cases hkind : (Phase.body conditions phase).kind with
      | data =>
        rw [Phase.step_of_data hkind]
        exact asksFirst_within (ih (lineNo + 1)) _
      | script =>
        rw [Phase.step_of_script hkind]
        split
        · exact ih (lineNo + 1) phase
        · exact asksFirst_within (ih (lineNo + 1)) _

/-- A line that is no directive line begins the body of a record, whatever body that is. -/
theorem asksFirst_ofLine {directives : List Text} {line : Text} (h : ¬ IsDirective line)
    (c : Cursor) :
    (proceed c (.ofLine directives line)).asksFirst = some (.ofLines directives) := by
  have hdirective : (Directive.ofLine? line).isSome = false :=
    Bool.eq_false_iff.2 fun hsome => h (isSome_ofLine?_iff.1 hsome)
  have hbody := fun phase => asksFirst_divide c.lineNo (.ofLines directives) phase c.unread
  simp only [Step.ofLine, hdirective, Bool.false_eq_true, if_false]
  split
  · rfl
  · split
    · exact hbody _
    · exact asksFirst_within hbody _

/-- The policy is asked about a record by the conditions that its directive lines name. -/
theorem asksFirst_record {directives rest : List Text} {line : Text}
    (first : line ∈ (logicalLines rest).head?) (undirected : ¬ IsDirective line)
    (begins : directives = [] → line ≠ [] ∧ ¬ "hash-threshold".toList <+: line) (lineNo : Nat) :
    (divide lineNo (afterDirectives directives) (rest.map .line)).asksFirst =
      some (.ofLines directives) := by
  induction rest generalizing lineNo with
  | nil => cases first
  | cons text rest ih =>
    rw [logicalLines_cons] at first
    rw [List.map_cons, divide_line, Phase.step_of_script (kind_afterDirectives _),
      withoutComment_trim]
    cases hcomment : isComment text.trim with
    | true =>
      rw [logicalLines_of_comment hcomment] at first
      exact ih first (lineNo + 1)
    | false =>
      rw [logicalLines_of_not_comment hcomment] at first
      cases first
      have htake : (afterDirectives directives).take (lineNo + 1) (logical text) =
          .ofLine directives (logical text) := by
        by_cases hempty : directives = []
        · obtain ⟨hne, hthreshold⟩ := begins hempty
          exact take_afterDirectives hne (Text.isPrefixOf?_eq_none_iff.2 hthreshold) directives _
        · exact take_directives hempty _ _
      rw [if_neg Bool.false_ne_true, htake]
      exact asksFirst_ofLine undirected _

/-- The answer about a record that is reached is that about its own conditions. -/
theorem Grammar.Begins.decision {policy : Policy} {before named rest : List Text}
    {items : List Item} (h : Begins policy before items named rest) (name : Text) :
    (parse policy name ((before ++ named ++ rest).map .line)).decisions[
        (items.filterMap Item.conditions?).length]? =
      some ⟨.ofLines (logicalLines named), policy (.ofLines (logicalLines named))⟩ := by
  obtain ⟨line, first, undirected, begins⟩ := h.first
  obtain ⟨hitems, hbreak⟩ := h.between.division_directives h.directives (rest.map .line)
  have hfirst := asksFirst_record first undirected begins (before.length + named.length)
  rw [List.map_append, parse_decisions, hitems, hbreak, asked_append h.running,
    asked_of_running h.running, Policy.decisions, List.map_append,
    List.getElem?_append_right (by simp), List.length_map, Nat.sub_self, ← List.head?_eq_getElem?,
    List.head?_map, Division.head?_asked hfirst]
  rfl

/-! ## Every decision is about a record -/

namespace Grammar

variable {start : Nat} {segment lines : List Text}

/-- Blank lines come before the header of a query after directive lines only. -/
theorem opens_query {directed : Prop} {blanks sql : List Text} {description : Text}
    (blank : ∀ line ∈ blanks, line = []) (placed : blanks ≠ [] → directed) :
    ∃ line ∈ (blanks ++ ("query".toList ++ description) :: sql).head?, ¬ IsDirective line ∧
      (¬ directed → line ≠ [] ∧ ¬ "hash-threshold".toList <+: line) := by
  cases blanks with
  | nil =>
    have hquery := undirected_of_keyword description (.inr (.inl rfl))
    exact ⟨_, rfl, hquery.1, fun _ => hquery.2⟩
  | cons line rest =>
    obtain rfl := blank line List.mem_cons_self
    exact ⟨[], rfl, not_isDirective_nil, fun h => absurd (placed (List.cons_ne_nil _ _)) h⟩

theorem IsOperation.exists_first {directed : Prop} {close : Close} {operation : Operation}
    (h : IsOperation start directed segment close operation) :
    ∃ line ∈ (logicalLines segment).head?, ¬ IsDirective line ∧
      (¬ directed → line ≠ [] ∧ ¬ "hash-threshold".toList <+: line) := by
  have hstatement : ∀ {header : Text}, "statement".toList <+: header →
      ¬ IsDirective header ∧
        (¬ directed → header ≠ [] ∧ ¬ "hash-threshold".toList <+: header) := by
    rintro _ ⟨rest, rfl⟩
    have hkeyword := undirected_of_keyword rest (.inl rfl)
    exact ⟨hkeyword.1, fun _ => hkeyword.2⟩
  cases h with
  | statement lines keyword => exact ⟨_, by rw [lines.logicalLines_eq]; rfl, hstatement keyword⟩
  | statementAtEnd lines keyword => exact ⟨_, by rw [lines]; rfl, hstatement keyword⟩
  | query lines blank placed =>
    apply head?_append
    rw [lines.logicalLines_eq, List.append_assoc]
    exact opens_query blank placed
  | queryAtEnd lines blank placed =>
    rw [lines]
    exact opens_query blank placed

/-- A record among the items of a script begins with its first line. -/
theorem IsItem.exists_opens {close : Close} {item : Item} (h : IsItem start segment close item)
    (record : item.conditions? ≠ none) (more : List Text) :
    ∃ named rest, segment ++ more = named ++ rest ∧ Opens named rest := by
  cases h with
  | blank | threshold => exact absurd rfl record
  | @halt named segment conditions line directives names lines keyword =>
    refine ⟨named, segment ++ more, List.append_assoc _ _ _, directives, ?_⟩
    obtain ⟨rest, rfl⟩ := keyword
    have hkeyword := undirected_of_keyword rest (.inr (.inr rfl))
    apply head?_append
    exact ⟨_, by rw [lines.logicalLines_eq]; rfl, hkeyword.1, fun _ => hkeyword.2⟩
  | @operation named segment conditions close operation directives names isOperation =>
    obtain ⟨line, hline, undirected, hfirst⟩ := isOperation.exists_first
    exact ⟨named, segment ++ more, List.append_assoc _ _ _, directives,
      head?_append ⟨line, hline, undirected, fun hnil => hfirst (not_not.2 hnil)⟩⟩

/-- A record in which a fault is met begins there, if the policy is asked about it. -/
theorem Broken.exists_opens {conditions : Conditions} (h : Broken lines (some conditions))
    (formless : Formless start lines) :
    ∃ named rest, lines = named ++ rest ∧ Opens named rest := by
  cases h with
  | @body named rest _ directives names first =>
    obtain ⟨line, hline, undirected⟩ := first
    refine ⟨named, rest, rfl, directives, line, hline, undirected, fun hnil => ?_⟩
    -- a blank line or a threshold line would be an item
    obtain ⟨others, hothers⟩ := List.head?_eq_some_iff.1 hline
    rw [← List.nil_append (line :: others)] at hothers
    obtain ⟨one, found, two, rfl, hfound, hone, rfl, -⟩ := exists_line_of_logicalLines_eq hothers
    have hcomments : logicalLines (named ++ one) = [] := by
      rw [logicalLines_append, hnil, hone, List.append_nil]
    have hspells : Spells (named ++ one ++ [found]) [logical found] :=
      spells_concat hcomments hfound
    have hsplit : named ++ (one ++ found :: two) = (named ++ one ++ [found]) ++ two := by simp
    constructor
    · intro hblank
      rw [hblank] at hspells
      exact formless _ _ .line _ hsplit (absurd rfl) (.blank hspells)
    · rintro ⟨description, hthreshold⟩
      rw [← hthreshold] at hspells
      exact formless _ _ .line _ hsplit (absurd rfl)
        (.threshold hspells fun n => Numeral.ofText?_eq_some_iff)

/-- One of the conditions that are asked for is that of the first item, or one of the others. -/
theorem asked_cons_cases {policy : Policy} {item : Item} {items : List Item} {ending : Option Break}
    {index : Nat} {conditions : Conditions}
    (h : (asked policy (item :: items) ending)[index]? = some conditions) :
    index = 0 ∧ item.conditions? ≠ none ∨
      ∃ later, index = item.conditions?.toList.length + later ∧ item.stops policy = false ∧
        (asked policy items ending)[later]? = some conditions := by
  rw [asked_cons] at h
  cases hstops : item.stops policy with
  | true =>
    rw [hstops, if_pos rfl, List.append_nil] at h
    cases hitem : item.conditions? with
    | none =>
      rw [hitem] at h
      cases h
    | some first =>
      obtain ⟨hindex, -⟩ := List.getElem?_eq_some_iff.1 h
      rw [hitem] at hindex
      exact .inl ⟨Nat.lt_one_iff.1 hindex, nofun⟩
  | false =>
    rw [hstops, if_neg Bool.false_ne_true] at h
    cases hitem : item.conditions? with
    | none =>
      rw [hitem] at h
      exact .inr ⟨index, (Nat.zero_add _).symm, rfl, h⟩
    | some first =>
      rw [hitem] at h
      cases index with
      | zero => exact .inl ⟨rfl, nofun⟩
      | succ index => exact .inr ⟨index, Nat.add_comm _ _, rfl, h⟩

/-- Whatever the policy is asked about, a record begins there. -/
theorem Cuts.exists_opens {items : List Item} {ending : Option Break}
    (h : Cuts start lines items ending) (policy : Policy) {index : Nat} {conditions : Conditions}
    (hasked : (asked policy items ending)[index]? = some conditions) :
    ∃ before found named rest, lines = before ++ named ++ rest ∧ Items start before found ∧
      (∀ item ∈ found, item.stops policy = false) ∧ Opens named rest ∧
      (found.filterMap Item.conditions?).length = index := by
  induction h generalizing index with
  | tail isTail =>
    cases isTail with
    | comments => cases hasked
    | item isItem =>
      rcases asked_cons_cases hasked with ⟨rfl, record⟩ | ⟨later, -, -, hlater⟩
      · obtain ⟨named, rest, hsplit, hopens⟩ := isItem.exists_opens record []
        rw [List.append_nil] at hsplit
        exact ⟨[], [], named, rest, hsplit, .nil, nofun, hopens, rfl⟩
      · cases hlater
  | @broken start lines ending isBroken formless =>
    obtain ⟨found, fault, line⟩ := ending
    cases found with
    | none => cases hasked
    | some found =>
      obtain ⟨hindex, -⟩ := List.getElem?_eq_some_iff.1 hasked
      obtain rfl : index = 0 := Nat.lt_one_iff.1 hindex
      obtain ⟨named, rest, rfl, hopens⟩ := isBroken.exists_opens formless
      exact ⟨[], [], named, rest, rfl, .nil, nofun, hopens, rfl⟩
  | @item start segment lines item items ending first others ih =>
    rcases asked_cons_cases hasked with ⟨rfl, record⟩ | ⟨later, rfl, hrunning, hlater⟩
    · obtain ⟨named, rest, hsplit, hopens⟩ := first.exists_opens record lines
      exact ⟨[], [], named, rest, hsplit, .nil, nofun, hopens, rfl⟩
    · obtain ⟨before, found, named, rest, rfl, hitems, hfound, hopens, hlength⟩ := ih hlater
      refine ⟨segment ++ before, item :: found, named, rest, by simp, .cons first hitems,
        List.forall_mem_cons.2 ⟨hrunning, hfound⟩, hopens, ?_⟩
      rw [← hlength]
      cases hitem : item.conditions? <;> simp [hitem, Nat.add_comm]

end Grammar

/-- Every decision of a parse is about a record that begins in its source. -/
theorem exists_begins {policy : Policy} {name : Text} {lines : List Text} {index : Nat}
    {decision : Decision}
    (h : (parse policy name (lines.map .line)).decisions[index]? = some decision) :
    ∃ before items named rest, lines = before ++ named ++ rest ∧
      Begins policy before items named rest ∧
      (items.filterMap Item.conditions?).length = index := by
  rw [parse_decisions, Policy.decisions, List.getElem?_map] at h
  obtain ⟨conditions, hasked, -⟩ := Option.map_eq_some_iff.1 h
  obtain ⟨before, items, named, rest, hlines, hitems, hrunning, hopens, hindex⟩ :=
    (cuts_division lines).exists_opens policy hasked
  exact ⟨before, items, named, rest, hlines,
    ⟨hopens, ⟨before, [], (List.append_nil _).symm, hitems, rfl⟩, hrunning⟩, hindex⟩

end LogicTest
