import LogicTest.Proofs.Division.Replay

/-!
# The same lines under other numbers

What is read of some lines does not depend on the numbers that they have: the items are the same,
and only the lines that the queries are said to be on, and the line of the fault, are other ones.
The new numbers are given as a function of the old ones, so that it makes no difference here why
they have changed. One case is a script that begins some lines further down (`divide_moved`).
-/
namespace LogicTest

/-! ## Line numbers -/

def Operation.renumber (f : Nat → Nat) : Operation → Operation
  | statement sql succeeds => .statement sql succeeds
  | query sql sourceLine output label => .query sql (f sourceLine) output label

/-- The line that a query is said to be on. -/
def Operation.sourceLine? : Operation → Option Nat
  | statement .. => none
  | query _ sourceLine _ _ => some sourceLine

namespace Item

def renumber (f : Nat → Nat) : Item → Item
  | operation conditions found => .operation conditions (found.renumber f)
  | blank => .blank
  | threshold value => .threshold value
  | halt conditions => .halt conditions

def sourceLine? : Item → Option Nat
  | operation _ found => found.sourceLine?
  | _ => none

end Item

def OpenQuery.renumber (f : Nat → Nat) (query : OpenQuery) : OpenQuery :=
  { query with sourceLine := f query.sourceLine }

namespace BodyPhase

def renumber (f : Nat → Nat) : BodyPhase → BodyPhase
  | result query => .result (query.renumber f)
  | values query found => .values (query.renumber f) found
  | separator operation => .separator (operation.renumber f)
  | phase => phase

/-- The line of the query at hand, once its text has ended. -/
def sourceLine? : BodyPhase → Option Nat
  | result query => some query.sourceLine
  | values query _ => some query.sourceLine
  | separator operation => operation.sourceLine?
  | _ => none

end BodyPhase

namespace Phase

def renumber (f : Nat → Nat) : Phase → Phase
  | body conditions phase => .body conditions (phase.renumber f)
  | phase => phase

def sourceLine? : Phase → Option Nat
  | body _ phase => phase.sourceLine?
  | _ => none

end Phase

def BodyStep.renumber (f : Nat → Nat) : BodyStep → BodyStep
  | more phase => .more (phase.renumber f)
  | done operation => .done (operation.renumber f)
  | stuck fault => .stuck fault

def Step.renumber (f : Nat → Nat) : Step → Step
  | more phase => .more (phase.renumber f)
  | done item => .done (item.renumber f)
  | stuck conditions fault => .stuck conditions fault

def Break.renumber (f : Nat → Nat) (ending : Break) : Break :=
  { ending with line := f ending.line }

theorem Operation.renumber_eq_self {f : Nat → Nat} {operation : Operation}
    (h : ∀ line ∈ operation.sourceLine?, f line = line) : operation.renumber f = operation := by
  cases operation with
  | statement => rfl
  | query sql sourceLine => rw [renumber, h sourceLine rfl]

theorem Item.renumber_eq_self {f : Nat → Nat} {item : Item}
    (h : ∀ line ∈ item.sourceLine?, f line = line) : item.renumber f = item := by
  cases item with
  | operation conditions found =>
    exact congrArg (operation conditions) (Operation.renumber_eq_self h)
  | _ => rfl

theorem Item.map_renumber_eq_self {f : Nat → Nat} {items : List Item}
    (h : ∀ item ∈ items, ∀ line ∈ item.sourceLine?, f line = line) :
    items.map (Item.renumber f) = items :=
  (List.map_congr_left fun item hitem => Item.renumber_eq_self (h item hitem)).trans
    (List.map_id items)

theorem Phase.renumber_eq_self {f : Nat → Nat} {phase : Phase}
    (h : ∀ line ∈ phase.sourceLine?, f line = line) : phase.renumber f = phase := by
  cases phase with
  | body conditions phase =>
    refine congrArg (body conditions) ?_
    cases phase with
    | result query | values query =>
      rw [BodyPhase.renumber, OpenQuery.renumber, h query.sourceLine rfl]
    | separator operation =>
      exact congrArg BodyPhase.separator (Operation.renumber_eq_self h)
    | _ => rfl
  | _ => rfl

section
variable (f : Nat → Nat)

/-! ## One line -/

theorem within_renumber (conditions : Conditions) (step : BodyStep) :
    (step.renumber f).within conditions = (step.within conditions).renumber f := by
  cases step <;> rfl

theorem takeHeader_renumber (line : Text) :
    (BodyPhase.takeHeader line).renumber f = BodyPhase.takeHeader line := by
  unfold BodyPhase.takeHeader
  split
  · rfl
  · split
    · rfl
    · split <;> rfl

theorem takeResult_renumber (query : OpenQuery) (line : Text) :
    BodyPhase.takeResult (query.renumber f) line =
      (BodyPhase.takeResult query line).renumber f := by
  unfold BodyPhase.takeResult
  split
  · split <;> rfl
  · split <;> rfl

theorem BodyPhase.take_renumber (phase : BodyPhase) (lineNo : Nat) (line : Text) :
    (phase.renumber f).take (f lineNo) line = (phase.take lineNo line).renumber f := by
  cases phase with
  | heading => exact (takeHeader_renumber f line).symm
  | result query => exact takeResult_renumber f query line
  | statement | text | values | separator =>
    simp only [BodyPhase.renumber, BodyPhase.take]
    split <;> rfl

theorem ofLine_renumber (directives : List Text) (line : Text) :
    (Step.ofLine directives line).renumber f = .ofLine directives line := by
  unfold Step.ofLine
  split
  · rfl
  · split
    · rfl
    · split
      · rfl
      · rw [← within_renumber, takeHeader_renumber]

theorem Phase.take_renumber (phase : Phase) (lineNo : Nat) (line : Text) :
    (phase.renumber f).take (f lineNo) line = (phase.take lineNo line).renumber f := by
  cases phase with
  | start =>
    simp only [Phase.renumber, Phase.take]
    split
    · rfl
    · split
      · rfl
      · exact (ofLine_renumber f [] line).symm
  | directives found => exact (ofLine_renumber f found line).symm
  | body conditions phase =>
    simp only [Phase.renumber, Phase.take, BodyPhase.take_renumber, within_renumber]

theorem Phase.kind_renumber (phase : Phase) : (phase.renumber f).kind = phase.kind := by
  cases phase with
  | body conditions phase => cases phase <;> rfl
  | _ => rfl

theorem Phase.conditions?_renumber (phase : Phase) :
    (phase.renumber f).conditions? = phase.conditions? := by
  cases phase <;> rfl

/-- A line does under another number what it does under this one. -/
theorem Phase.step_renumber (phase : Phase) (lineNo : Nat) (line : Text) :
    (phase.renumber f).step (f lineNo) line = (phase.step lineNo line).renumber f := by
  unfold Phase.step
  rw [Phase.kind_renumber]
  split
  · exact phase.take_renumber f lineNo line
  · split
    · rfl
    · exact phase.take_renumber f lineNo _

/-! ## All of them -/

theorem BodyPhase.finish_renumber (phase : BodyPhase) (lineNo : Nat) :
    (phase.renumber f).finish (f lineNo) = (phase.finish lineNo).map (Operation.renumber f) := by
  cases phase with
  | statement | text =>
    simp only [BodyPhase.renumber, BodyPhase.finish]
    split <;> rfl
  | _ => rfl

theorem Phase.finish_renumber (phase : Phase) (lineNo : Nat) :
    ((phase.renumber f).finish ⟨[], f lineNo, none, true⟩).items =
        (phase.finish ⟨[], lineNo, none, true⟩).items.map (Item.renumber f) ∧
      ((phase.renumber f).finish ⟨[], f lineNo, none, true⟩).break? =
        (phase.finish ⟨[], lineNo, none, true⟩).break?.map (Break.renumber f) := by
  cases phase with
  | body conditions phase =>
    simp only [Phase.renumber, Phase.finish, BodyPhase.finish_renumber]
    cases phase.finish lineNo <;> exact ⟨rfl, rfl⟩
  | _ => exact ⟨rfl, rfl⟩

/-- A source is divided after line `lineNo'` as it is after line `lineNo`, if `f` numbers its lines
anew. Where it does not go on with a line, the line before is numbered anew as well. -/
theorem divide_renumber {lineNo lineNo' : Nat} (phase : Phase) {source : Source}
    (hlines : ∀ i, 0 < i → f (lineNo + i) = lineNo' + i)
    (hend : (∀ line rest, source ≠ .line line :: rest) → f lineNo = lineNo') :
    (divide lineNo' (phase.renumber f) source).items =
        (divide lineNo phase source).items.map (Item.renumber f) ∧
      (divide lineNo' (phase.renumber f) source).break? =
        (divide lineNo phase source).break?.map (Break.renumber f) := by
  induction source generalizing lineNo lineNo' phase with
  | nil =>
    rw [← hend nofun]
    exact phase.finish_renumber f lineNo
  | cons reading rest ih =>
    cases reading with
    | failure cause =>
      rw [← hend nofun, divide, divide, Phase.conditions?_renumber]
      exact ⟨rfl, rfl⟩
    | line line =>
      have hnext : f (lineNo + 1) = lineNo' + 1 := hlines 1 Nat.one_pos
      have hrest : ∀ i, 0 < i → f (lineNo + 1 + i) = lineNo' + 1 + i := fun i _ => by
        rw [Nat.add_assoc, Nat.add_assoc]
        exact hlines (1 + i) (by omega)
      rw [divide_line, divide_line, ← hnext, Phase.step_renumber, hnext]
      cases phase.step (lineNo + 1) line.trim with
      | more next => exact ih next hrest fun _ => hnext
      | done item =>
        obtain ⟨hitems, hbreak⟩ := ih .start hrest fun _ => hnext
        exact ⟨congrArg (item.renumber f :: ·) hitems, hbreak⟩
      | stuck conditions fault =>
        refine ⟨rfl, congrArg some ?_⟩
        rw [Break.renumber, hnext]

/-! ## What they contribute -/

variable (policy : Policy)

theorem Item.stops_renumber (item : Item) :
    (item.renumber f).stops policy = item.stops policy := by
  cases item <;> rfl

theorem upToHalt_renumber (items : List Item) :
    upToHalt policy (items.map (Item.renumber f)) =
      (upToHalt policy items).map (Item.renumber f) := by
  induction items with
  | nil => rfl
  | cons item items ih =>
    rw [List.map_cons, upToHalt, upToHalt, Item.stops_renumber, ih]
    split <;> rfl

theorem any_stops_renumber (items : List Item) :
    (items.map (Item.renumber f)).any (Item.stops policy) = items.any (Item.stops policy) := by
  rw [List.any_map]
  exact congrArg items.any (funext (Item.stops_renumber f policy))

/-- What becomes of the fault is up to `g`. -/
theorem breakAfter_renumber (g : Break → Break) (items : List Item) (ending : Option Break) :
    breakAfter policy (items.map (Item.renumber f)) (ending.map g) =
      (breakAfter policy items ending).map g := by
  rw [breakAfter, breakAfter, any_stops_renumber]
  split <;> rfl

theorem conditions?_renumber (items : List Item) :
    (items.map (Item.renumber f)).filterMap Item.conditions? =
      items.filterMap Item.conditions? := by
  rw [List.filterMap_map]
  exact congrArg (items.filterMap ·) (funext fun item => by cases item <;> rfl)

theorem lastThreshold_renumber (items : List Item) :
    lastThreshold (items.map (Item.renumber f)) = lastThreshold items := by
  rw [lastThreshold, lastThreshold, List.filterMap_map]
  have hthreshold : Item.threshold? ∘ Item.renumber f = Item.threshold? :=
    funext fun item => by cases item <;> rfl
  rw [hthreshold]

theorem operation?_renumber (items : List Item) :
    (items.map (Item.renumber f)).filterMap (Item.operation? policy) =
      (items.filterMap (Item.operation? policy)).map (Operation.renumber f) := by
  rw [List.filterMap_map, List.map_filterMap]
  refine congrArg (items.filterMap ·) (funext fun item => ?_)
  cases item with
  | operation conditions found =>
    simp only [Function.comp, Item.renumber, Item.operation?]
    split <;> rfl
  | _ => rfl

theorem countP_isQuery_renumber (operations : List Operation) :
    (operations.map (Operation.renumber f)).countP Operation.isQuery =
      operations.countP Operation.isQuery := by
  rw [List.countP_map]
  exact congrArg (operations.countP ·) (funext fun operation => by cases operation <;> rfl)

theorem asked_renumber (items : List Item) (ending : Option Break) :
    asked policy (items.map (Item.renumber f)) (ending.map (Break.renumber f)) =
      asked policy items ending := by
  rw [asked, asked, upToHalt_renumber, breakAfter_renumber, conditions?_renumber]
  cases breakAfter policy items ending <;> rfl

end

/-! ## Further down -/

/-- A source is divided further down as it is here. -/
theorem divide_moved (lines lineNo : Nat) (source : Source) :
    (divide (lineNo + lines) .start source).items =
        (divide lineNo .start source).items.map (Item.renumber (· + lines)) ∧
      (divide (lineNo + lines) .start source).break? =
        (divide lineNo .start source).break?.map (Break.renumber (· + lines)) :=
  divide_renumber (· + lines) .start (fun i _ => Nat.add_right_comm lineNo i lines) fun _ => rfl

end LogicTest
