import LogicTest.Proofs.Division.Trimmed
import LogicTest.Proofs.Grammar.Records

/-!
# Records and their sets of conditions

Directive lines count for a record by the sets of conditions that they name: the division of a
source does not depend on their order, nor on how often they are repeated
(`divide_afterDirectives_congr`). For the policy of PostgreSQL the sets are said to be kept or not
by the lines themselves.
-/
namespace LogicTest
open Grammar

namespace Grammar

/-- A `skipif` line among `lines` names the condition. -/
def NamesSkip (lines : List Text) (condition : Text) : Prop :=
  ∃ rest, "skipif".toList ++ rest ∈ lines ∧ condition = Text.trim rest

/-- An `onlyif` line among `lines` names the condition. -/
def NamesOnly (lines : List Text) (condition : Text) : Prop :=
  ∃ rest, "onlyif".toList ++ rest ∈ lines ∧ condition = Text.trim rest

/-- Directive lines that name the same conditions of each kind. -/
structure SameConditions (one two : List Text) : Prop where
  skip : ∀ condition, NamesSkip one condition ↔ NamesSkip two condition
  only : ∀ condition, NamesOnly one condition ↔ NamesOnly two condition

/-- All of `lines` are among `more`, and the others there are `skipif` lines. -/
structure AddsSkips (lines more : List Text) : Prop where
  kept : ∀ line ∈ lines, line ∈ more
  added : ∀ line ∈ more, line ∈ lines ∨ "skipif".toList <+: line

/-- What the policy of PostgreSQL keeps, said of the directive lines of a record. -/
def KeptByPostgres (directives : List Text) : Prop :=
  (NamesOnly directives "postgresql".toList ∨ NamesOnly directives "cockroachdb".toList) ∨
    (∀ line ∈ directives, ¬ "onlyif".toList <+: line) ∧
      ¬ NamesSkip directives "postgresql".toList ∧ ¬ NamesSkip directives "cockroachdb".toList

end Grammar

/-! ## Sets of conditions -/

theorem Conditions.ofLines_append (one two : List Text) :
    Conditions.ofLines (one ++ two) =
      (two.filterMap Directive.ofLine?).foldl Directive.addTo (.ofLines one) := by
  rw [Conditions.ofLines, List.filterMap_append, List.foldl_append, Conditions.ofLines]

/-- Lines that name the same conditions give the same pair of sets. -/
theorem sameConditions_iff {one two : List Text} :
    SameConditions one two ↔ Conditions.ofLines one = .ofLines two := by
  have hone := names_ofLines one
  have htwo := names_ofLines two
  constructor
  · intro h
    refine (names_iff.1 ⟨fun condition => ?_, fun condition => ?_⟩).symm
    · exact (htwo.mem_skip condition).trans (h.skip condition).symm
    · exact (htwo.mem_only condition).trans (h.only condition).symm
  · intro h
    rw [← h] at htwo
    exact ⟨fun condition => (hone.mem_skip condition).symm.trans (htwo.mem_skip condition),
      fun condition => (hone.mem_only condition).symm.trans (htwo.mem_only condition)⟩

/-- Directive lines name some condition, unless there are none. -/
theorem ofLines_eq_none_iff {lines : List Text} (h : ∀ line ∈ lines, IsDirective line) :
    Conditions.ofLines lines = .none ↔ lines = [] := by
  constructor
  · intro hnone
    have hlines := names_ofLines lines
    rw [hnone] at hlines
    refine List.eq_nil_iff_forall_not_mem.2 fun line hline => ?_
    rcases h line hline with ⟨rest, rfl⟩ | ⟨rest, rfl⟩
    · exact ConditionSet.not_mem_empty ((hlines.mem_skip _).2 ⟨rest, hline, rfl⟩)
    · exact ConditionSet.not_mem_empty ((hlines.mem_only _).2 ⟨rest, hline, rfl⟩)
  · rintro rfl
    rfl

/-! ## The division after directive lines -/

section
variable {one two : List Text} (h : Conditions.ofLines one = .ofLines two)
include h

theorem divide_directives_congr (lineNo : Nat) (source : Source) :
    divide lineNo (.directives one) source = divide lineNo (.directives two) source := by
  induction source generalizing lineNo one two with
  | nil => rfl
  | cons reading rest ih =>
    cases reading with
    | failure cause => rfl
    | line line =>
      rw [divide_line, divide_line, Phase.step_of_script rfl, Phase.step_of_script rfl]
      split
      · exact ih h (lineNo + 1)
      · simp only [Phase.take, Step.ofLine]
        split
        · refine ih ?_ (lineNo + 1)
          rw [Conditions.ofLines_append, Conditions.ofLines_append, h]
        · rw [h]

/-- What follows directive lines is divided by the sets of conditions that they name. -/
theorem divide_afterDirectives_congr (hone : ∀ line ∈ one, IsDirective line)
    (htwo : ∀ line ∈ two, IsDirective line) (lineNo : Nat) (source : Source) :
    divide lineNo (afterDirectives one) source = divide lineNo (afterDirectives two) source := by
  have hnil : one = [] ↔ two = [] := by
    rw [← ofLines_eq_none_iff hone, ← ofLines_eq_none_iff htwo, h]
  unfold afterDirectives
  by_cases hempty : one = []
  · rw [if_pos hempty, if_pos (hnil.1 hempty)]
  · rw [if_neg hempty, if_neg (hnil.not.1 hempty)]
    exact divide_directives_congr h lineNo source

end

theorem agrees_of_sameConditions (policy : Policy) (name : Text) {before named renamed : List Text}
    {items : List Item} (h : Between before items)
    (directives : ∀ line ∈ logicalLines named, IsDirective line)
    (redirected : ∀ line ∈ logicalLines renamed, IsDirective line)
    (same : SameConditions (logicalLines named) (logicalLines renamed))
    (length_eq : named.length = renamed.length) (rest : List Text) :
    (parse policy name ((before ++ renamed ++ rest).map .line)).Agrees
      (parse policy name ((before ++ named ++ rest).map .line)) := by
  have hnamed := h.division_directives directives (rest.map .line)
  have hrenamed := h.division_directives redirected (rest.map .line)
  rw [divide_afterDirectives_congr (sameConditions_iff.1 same) directives redirected,
    length_eq] at hnamed
  have hline (lines : List Text) :
      (lines ++ rest).map Reading.line = lines.map .line ++ rest.map .line :=
    List.map_append
  rw [hline, hline]
  exact agrees_of_division_eq policy name (hrenamed.1.trans hnamed.1.symm)
    (hrenamed.2.trans hnamed.2.symm)

/-! ## The policy of PostgreSQL -/

theorem namesPostgres_iff {set : ConditionSet} :
    Policy.namesPostgres set = true ↔ "postgresql".toList ∈ set ∨ "cockroachdb".toList ∈ set := by
  simp [Policy.namesPostgres, Policy.postgresNames]

theorem isEmpty_only_iff {directives : List Text} :
    (Conditions.ofLines directives).only.isEmpty = true ↔
      ∀ line ∈ directives, ¬ "onlyif".toList <+: line := by
  have hnames := (names_ofLines directives).mem_only
  rw [ConditionSet.isEmpty, List.isEmpty_iff, List.eq_nil_iff_forall_not_mem]
  constructor
  · rintro h line hline ⟨rest, rfl⟩
    exact h _ ((hnames _).2 ⟨rest, hline, rfl⟩)
  · intro h condition hcondition
    obtain ⟨rest, hline, -⟩ := (hnames condition).1 hcondition
    exact h _ hline ⟨rest, rfl⟩

theorem postgres_ofLines_iff {directives : List Text} :
    Policy.postgres (.ofLines directives) = true ↔ KeptByPostgres directives := by
  have hskip := (names_ofLines directives).mem_skip
  have honly := (names_ofLines directives).mem_only
  have hnames : Policy.namesPostgres (Conditions.ofLines directives).only = true ↔
      NamesOnly directives "postgresql".toList ∨ NamesOnly directives "cockroachdb".toList :=
    namesPostgres_iff.trans (or_congr (honly _) (honly _))
  have hskips : Policy.namesPostgres (Conditions.ofLines directives).skip = true ↔
      NamesSkip directives "postgresql".toList ∨ NamesSkip directives "cockroachdb".toList :=
    namesPostgres_iff.trans (or_congr (hskip _) (hskip _))
  unfold Policy.postgres KeptByPostgres
  rw [← hnames, ← isEmpty_only_iff, ← not_or, ← hskips]
  cases Policy.namesPostgres (Conditions.ofLines directives).only <;>
    cases (Conditions.ofLines directives).only.isEmpty <;> simp

theorem not_skipif_of_onlyif {line : Text} (h : "onlyif".toList <+: line) :
    ¬ "skipif".toList <+: line := by
  obtain ⟨rest, rfl⟩ := h
  rintro ⟨other, hother⟩
  have hhead : some 's' = some 'o' := congrArg List.head? hother
  exact absurd hhead (by decide)

/-- Added `skipif` lines name no condition that is needed. -/
theorem Grammar.AddsSkips.onlyif_iff {lines more : List Text} (h : AddsSkips lines more)
    {line : Text} (honly : "onlyif".toList <+: line) : line ∈ more ↔ line ∈ lines :=
  ⟨fun hline => (h.added line hline).resolve_right (not_skipif_of_onlyif honly), h.kept line⟩

theorem Grammar.AddsSkips.namesOnly_iff {lines more : List Text} (h : AddsSkips lines more)
    (condition : Text) : NamesOnly more condition ↔ NamesOnly lines condition :=
  exists_congr fun rest => and_congr_left' (h.onlyif_iff ⟨rest, rfl⟩)

/-- Added `skipif` lines can only reject. -/
theorem Grammar.KeptByPostgres.of_addsSkips {lines more : List Text} (h : AddsSkips lines more)
    (hkept : KeptByPostgres more) : KeptByPostgres lines := by
  have hskip : ∀ condition, NamesSkip lines condition → NamesSkip more condition :=
    fun condition ⟨rest, hline, hcondition⟩ => ⟨rest, h.kept _ hline, hcondition⟩
  rcases hkept with hnamed | ⟨hno_only, hno_postgres, hno_cockroach⟩
  · exact .inl (hnamed.imp (h.namesOnly_iff _).1 (h.namesOnly_iff _).1)
  · exact .inr ⟨fun line hline => hno_only line (h.kept line hline),
      fun hpostgres => hno_postgres (hskip _ hpostgres),
      fun hcockroach => hno_cockroach (hskip _ hcockroach)⟩

/-- Where something is needed, added `skipif` lines change nothing. -/
theorem keptByPostgres_addsSkips_iff {lines more : List Text} (h : AddsSkips lines more)
    (needs : ∃ line ∈ lines, "onlyif".toList <+: line) :
    KeptByPostgres more ↔ KeptByPostgres lines := by
  obtain ⟨line, hline, honly⟩ := needs
  refine ⟨.of_addsSkips h, ?_⟩
  rintro (hnamed | ⟨hno_only, -⟩)
  · exact .inl (hnamed.imp (h.namesOnly_iff _).2 (h.namesOnly_iff _).2)
  · exact absurd honly (hno_only line hline)

/-- With more `skipif` lines before it, a record that is reached is reached still. -/
theorem Grammar.Begins.of_addsSkips {policy : Policy} {before named more rest : List Text}
    {items : List Item} (h : Begins policy before items named rest)
    (adds : AddsSkips (logicalLines named) (logicalLines more)) :
    Begins policy before items more rest where
  between := h.between
  running := h.running
  directives line hline :=
    (adds.added line hline).elim (h.directives line) fun hskip => .inl hskip
  first := by
    obtain ⟨line, hline, undirected, begins⟩ := h.first
    refine ⟨line, hline, undirected, fun hnil => begins ?_⟩
    exact List.eq_nil_iff_forall_not_mem.2 fun found hfound =>
      List.not_mem_nil (hnil ▸ adds.kept found hfound)

theorem Grammar.Begins.exists_decision {before named rest : List Text} {items : List Item}
    (h : Begins .postgres before items named rest) (name : Text) :
    ∃ decision : Decision,
      (parse .postgres name ((before ++ named ++ rest).map .line)).decisions[
          (items.filterMap Item.conditions?).length]? = some decision ∧
        (decision.kept = true ↔ KeptByPostgres (logicalLines named)) :=
  ⟨_, h.decision name, postgres_ofLines_iff⟩

/-! ## Records of a text -/

/-- Directive lines count by the sets of conditions that they name: other lines that name the same
leave the whole outcome as it is. The policy of PostgreSQL keeps a record that is reached for one of
its names among the needed conditions, or if nothing is needed and neither name is skipped, and it
decides about no other records; so `skipif` lines that are added only ever reject, and do nothing
where something is needed. -/
theorem records_kept_by_conditions (name : Text) :
    (∀ (policy : Policy) (text changed : Text) (before named renamed rest : List Text)
      (items : List Item),
      text.lines = before ++ named ++ rest → changed.lines = before ++ renamed ++ rest →
      Between before items → (∀ line ∈ logicalLines named, IsDirective line) →
      (∀ line ∈ logicalLines renamed, IsDirective line) →
      SameConditions (logicalLines named) (logicalLines renamed) →
      named.length = renamed.length →
      (parseText policy name changed).Agrees (parseText policy name text)) ∧
    (∀ (text : Text) (before named rest : List Text) (items : List Item),
      text.lines = before ++ named ++ rest → Begins .postgres before items named rest →
      ∃ decision : Decision,
        (parseText .postgres name text).decisions[(items.filterMap Item.conditions?).length]? =
          some decision ∧
        (decision.kept = true ↔ KeptByPostgres (logicalLines named))) ∧
    (∀ (text : Text) (index : Nat) (decision : Decision),
      (parseText .postgres name text).decisions[index]? = some decision →
      ∃ before items named rest, text.lines = before ++ named ++ rest ∧
        Begins .postgres before items named rest ∧
        (items.filterMap Item.conditions?).length = index) ∧
    ∀ (text added : Text) (before named more rest : List Text) (items : List Item),
      text.lines = before ++ named ++ rest → added.lines = before ++ more ++ rest →
      Begins .postgres before items named rest →
      AddsSkips (logicalLines named) (logicalLines more) →
      ∃ first second : Decision,
        (parseText .postgres name text).decisions[(items.filterMap Item.conditions?).length]? =
          some first ∧
        (parseText .postgres name added).decisions[(items.filterMap Item.conditions?).length]? =
          some second ∧
        (second.kept = true → first.kept = true) ∧
        ((∃ line ∈ logicalLines named, "onlyif".toList <+: line) → second.kept = first.kept) := by
  refine ⟨?_, ?_, fun text index decision => exists_begins, ?_⟩
  · intro policy text changed before named renamed rest items htext hchanged hbetween directives
      redirected same length_eq
    have hagrees :=
      agrees_of_sameConditions policy name hbetween directives redirected same length_eq rest
    rwa [← htext, ← hchanged] at hagrees
  · intro text before named rest items htext hbegins
    have hdecision := hbegins.exists_decision name
    rwa [← htext] at hdecision
  · intro text added before named more rest items htext hadded hbegins adds
    obtain ⟨first, hfirst, hfirst_kept⟩ := hbegins.exists_decision name
    obtain ⟨second, hsecond, hsecond_kept⟩ := (hbegins.of_addsSkips adds).exists_decision name
    rw [← htext] at hfirst
    rw [← hadded] at hsecond
    refine ⟨first, second, hfirst, hsecond, fun hkept => ?_, fun needs => ?_⟩
    · exact hfirst_kept.2 (.of_addsSkips adds (hsecond_kept.1 hkept))
    · rw [Bool.eq_iff_iff, hfirst_kept, hsecond_kept]
      exact keptByPostgres_addsSkips_iff adds needs

/-- A `halt` after a blank line, with its two directive lines in either order and with one more. -/
theorem records_kept_by_conditions_halt :
    let named := ["skipif sqlite".toList, "onlyif postgresql".toList]
    let text := "\nskipif sqlite\nonlyif postgresql\nhalt\n".toList
    let changed := "\nonlyif  postgresql\nskipif sqlite # twice\nhalt\n".toList
    let added := "\nskipif cockroachdb\nskipif sqlite\nonlyif postgresql\nhalt\n".toList
    (parseText .postgres "t".toList changed).Agrees (parseText .postgres "t".toList text) ∧
      (∃ decision : Decision,
        (parseText .postgres "t".toList text).decisions[0]? = some decision ∧
          (decision.kept = true ↔ KeptByPostgres (logicalLines named))) ∧
      ∃ first second : Decision,
        (parseText .postgres "t".toList text).decisions[0]? = some first ∧
          (parseText .postgres "t".toList added).decisions[0]? = some second ∧
          (second.kept = true → first.kept = true) ∧
          ((∃ line ∈ logicalLines named, "onlyif".toList <+: line) →
            second.kept = first.kept) := by
  have hbetween : Between [[]] [.blank] :=
    ⟨[[]] ++ [], [], rfl, .cons (.blank ⟨by decide, [], [], rfl, by decide⟩) .nil, rfl⟩
  have hbegins : Begins .postgres [[]] [.blank]
      ["skipif sqlite".toList, "onlyif postgresql".toList] ["halt".toList] :=
    ⟨⟨by decide +kernel, "halt".toList, by decide +kernel, by decide, by decide +kernel⟩, hbetween,
      by decide⟩
  obtain ⟨hsame, hkept, -, hadds⟩ := records_kept_by_conditions "t".toList
  refine ⟨?_, ?_, ?_⟩
  · exact hsame .postgres _ _ [[]] ["skipif sqlite".toList, "onlyif postgresql".toList]
      ["onlyif  postgresql".toList, "skipif sqlite # twice".toList] ["halt".toList] [.blank]
      (by decide +kernel) (by decide +kernel) hbetween (by decide +kernel) (by decide +kernel)
      (sameConditions_iff.2 (by decide +kernel)) (by decide +kernel)
  · exact hkept _ [[]] _ ["halt".toList] [.blank] (by decide +kernel) hbegins
  · exact hadds _ _ [[]] _ ["skipif cockroachdb".toList, "skipif sqlite".toList,
      "onlyif postgresql".toList] ["halt".toList] [.blank] (by decide +kernel) (by decide +kernel)
      hbegins ⟨by decide, by decide⟩

end LogicTest
