import LogicTest.Proofs.Division.Reading

/-!
# What a parse makes of a division

A parse takes up the items up to the first `halt` that the policy keeps, and meets the fault that
ends the division if there is no such `halt`. Here its outcome is put together from the items alone:
each part of it is a list of what the items contribute, in their order.
-/
namespace LogicTest

namespace Item

/-- The conditions that the policy is asked about, if the item is a record. -/
def conditions? : Item → Option Conditions
  | halt conditions => some conditions
  | operation conditions _ => some conditions
  | _ => none

/-- The operation of an item, if the policy keeps it. -/
def operation? (policy : Policy) : Item → Option Operation
  | operation conditions found => if policy conditions then some found else none
  | _ => none

def threshold? : Item → Option (Option Nat)
  | threshold value => some value
  | _ => none

end Item

/-- The value of the last threshold line among the items, if there is one and it is a number. -/
def lastThreshold (items : List Item) : Option Nat :=
  (items.filterMap Item.threshold?).getLast?.join

/-- The script that consists of the given items. -/
def Script.ofItems (policy : Policy) (name : Text) (items : List Item) : Script where
  name := name
  operations := items.filterMap (Item.operation? policy)
  queryCount := (items.filterMap (Item.operation? policy)).countP Operation.isQuery
  hashThreshold := lastThreshold items
  halted := items.any (Item.stops policy)

/-- What the policy answers about each of some records. -/
def Policy.decisions (policy : Policy) (asked : List Conditions) : List Decision :=
  asked.map fun conditions => ⟨conditions, policy conditions⟩

/-- The items up to the first `halt` that the policy keeps, and all of them if it keeps none. -/
def upToHalt (policy : Policy) : List Item → List Item
  | [] => []
  | item :: rest => if item.stops policy then [item] else item :: upToHalt policy rest

/-- The fault that is met after the items, unless the policy keeps a `halt` among them. -/
def breakAfter (policy : Policy) (items : List Item) (ending : Option Break) : Option Break :=
  if items.any (Item.stops policy) then none else ending

/-- The conditions that the policy is asked about, in order: those of the records that are taken up,
and of the record in which the fault is met. -/
def asked (policy : Policy) (items : List Item) (ending : Option Break) : List Conditions :=
  (upToHalt policy items).filterMap Item.conditions? ++
    ((breakAfter policy items ending).bind Break.conditions).toList

section
variable {policy : Policy}

/-! ## The items that are taken up -/

theorem upToHalt_append {items : List Item} (h : ∀ item ∈ items, item.stops policy = false)
    (rest : List Item) : upToHalt policy (items ++ rest) = items ++ upToHalt policy rest := by
  induction items with
  | nil => rfl
  | cons item items ih =>
    obtain ⟨hitem, hitems⟩ := List.forall_mem_cons.1 h
    rw [List.cons_append, upToHalt, hitem, if_neg Bool.false_ne_true, ih hitems, List.cons_append]

theorem upToHalt_eq_self {items : List Item} (h : ∀ item ∈ items, item.stops policy = false) :
    upToHalt policy items = items := by
  have happend := upToHalt_append h []
  rwa [List.append_nil, upToHalt, List.append_nil] at happend

theorem breakAfter_cons_of_stops {item : Item} (h : item.stops policy = true) (items : List Item)
    (ending : Option Break) : breakAfter policy (item :: items) ending = none := by
  rw [breakAfter, List.any_cons, h, Bool.true_or, if_pos rfl]

theorem breakAfter_cons {item : Item} (h : item.stops policy = false) (items : List Item)
    (ending : Option Break) :
    breakAfter policy (item :: items) ending = breakAfter policy items ending := by
  rw [breakAfter, List.any_cons, h, Bool.false_or, breakAfter]

theorem breakAfter_of_running {items : List Item} (h : ∀ item ∈ items, item.stops policy = false)
    (ending : Option Break) : breakAfter policy items ending = ending := by
  have hany : items.any (Item.stops policy) = false := by simpa using h
  rw [breakAfter, hany, if_neg Bool.false_ne_true]

theorem eq_of_breakAfter {items : List Item} {ending : Option Break} {found : Break}
    (h : breakAfter policy items ending = some found) : ending = some found := by
  rw [breakAfter] at h
  split at h
  · cases h
  · exact h

theorem breakAfter_append {one : List Item}
    (h : ∀ item ∈ one, item.stops policy = false) (two : List Item) (ending : Option Break) :
    breakAfter policy (one ++ two) ending = breakAfter policy two ending := by
  have hany : one.any (Item.stops policy) = false := by simpa using h
  rw [breakAfter, List.any_append, hany, Bool.false_or, breakAfter]

theorem asked_of_running {items : List Item} (h : ∀ item ∈ items, item.stops policy = false) :
    asked policy items none = items.filterMap Item.conditions? := by
  rw [asked, upToHalt_eq_self h, breakAfter_of_running h]
  exact List.append_nil _

theorem asked_append {one : List Item} (h : ∀ item ∈ one, item.stops policy = false)
    (two : List Item) (ending : Option Break) :
    asked policy (one ++ two) ending = asked policy one none ++ asked policy two ending := by
  rw [asked_of_running h, asked, upToHalt_append h, List.filterMap_append, breakAfter_append h,
    asked, List.append_assoc]

theorem asked_cons (item : Item) (items : List Item) (ending : Option Break) :
    asked policy (item :: items) ending =
      item.conditions?.toList ++ if item.stops policy then [] else asked policy items ending := by
  have hfirst : ∀ rest, (item :: rest).filterMap Item.conditions? =
      item.conditions?.toList ++ rest.filterMap Item.conditions? := fun rest => by
    cases h : item.conditions? <;> simp [h]
  cases hstops : item.stops policy with
  | true =>
    rw [asked, upToHalt, hstops, if_pos rfl, if_pos rfl, breakAfter_cons_of_stops hstops, hfirst]
    simp
  | false =>
    rw [asked, upToHalt, hstops, if_neg Bool.false_ne_true, if_neg Bool.false_ne_true,
      breakAfter_cons hstops, hfirst, asked, List.append_assoc]

theorem exists_halt_of_stops {item : Item} (h : item.stops policy = true) :
    ∃ conditions, item = .halt conditions ∧ policy conditions = true := by
  cases item with
  | halt conditions => exact ⟨conditions, rfl, h⟩
  | _ => cases h

/-- Either no `halt` is kept, or the items that are taken up end with the first one that is. -/
theorem running_or_exists_halt (policy : Policy) (items : List Item) :
    (∀ item ∈ items, item.stops policy = false) ∨
      ∃ init conditions rest, items = init ++ .halt conditions :: rest ∧
        (∀ item ∈ init, item.stops policy = false) ∧ policy conditions = true := by
  induction items with
  | nil => exact .inl (by simp)
  | cons item items ih =>
    cases hitem : item.stops policy with
    | true =>
      obtain ⟨conditions, rfl, hkept⟩ := exists_halt_of_stops hitem
      exact .inr ⟨[], conditions, items, rfl, by simp, hkept⟩
    | false =>
      rcases ih with hrunning | ⟨init, conditions, rest, rfl, hinit, hkept⟩
      · exact .inl (List.forall_mem_cons.2 ⟨hitem, hrunning⟩)
      · exact .inr ⟨item :: init, conditions, rest, rfl,
          List.forall_mem_cons.2 ⟨hitem, hinit⟩, hkept⟩

/-- Among the items that are taken up, a `halt` is kept iff one is kept at all. -/
theorem any_stops_upToHalt (policy : Policy) (items : List Item) :
    (upToHalt policy items).any (Item.stops policy) = items.any (Item.stops policy) := by
  induction items with
  | nil => rfl
  | cons item items ih =>
    rw [upToHalt]
    cases hitem : item.stops policy with
    | true => simp [hitem]
    | false => simp [hitem, ih]

/-! ## What they come to -/

namespace Progress

/-- What a parse has come to when it has taken up the items. -/
def after (policy : Policy) (progress : Progress) (items : List Item) : Progress where
  operations := progress.operations ++ items.filterMap (Item.operation? policy)
  queryCount :=
    progress.queryCount + (items.filterMap (Item.operation? policy)).countP Operation.isQuery
  hashThreshold := (items.filterMap Item.threshold?).getLast?.getD progress.hashThreshold
  halted := progress.halted || items.any (Item.stops policy)
  decisions := progress.decisions ++ policy.decisions (items.filterMap Item.conditions?)
  messages := progress.messages ++ (items.filterMap (Item.operation? policy)).map added

theorem after_nil (progress : Progress) : progress.after policy [] = progress := by
  simp [after, Policy.decisions]

theorem takeUp_after (progress : Progress) (item : Item) (items : List Item) :
    (progress.takeUp policy item).after policy items = progress.after policy (item :: items) := by
  cases item with
  | blank =>
    simp [takeUp, after, List.filterMap_cons, Item.operation?, Item.threshold?, Item.conditions?,
      Item.stops]
  | threshold value =>
    simp [takeUp, after, List.filterMap_cons, Item.operation?, Item.threshold?, Item.conditions?,
      Item.stops, List.getLast?_cons]
  | halt conditions =>
    cases hkept : policy conditions <;>
      simp [takeUp, note, after, hkept, List.filterMap_cons, Item.operation?, Item.threshold?,
        Item.conditions?, Item.stops, Policy.decisions]
  | operation conditions operation =>
    cases hkept : policy conditions with
    | true =>
      have hcount : (if operation.isQuery then progress.queryCount + 1 else progress.queryCount) =
          progress.queryCount + if operation.isQuery then 1 else 0 := by split <;> rfl
      simp [takeUp, note, add, after, hkept, List.filterMap_cons, Item.operation?, Item.threshold?,
        Item.conditions?, Item.stops, Policy.decisions, List.countP_cons, hcount, Nat.add_assoc,
        Nat.add_comm (if operation.isQuery then 1 else 0)]
    | false =>
      simp [takeUp, note, after, hkept, List.filterMap_cons, Item.operation?, Item.threshold?,
        Item.conditions?, Item.stops, Policy.decisions]

end Progress

theorem replay_progress (policy : Policy) (progress : Progress) (division : Division) :
    (replay policy progress division).progress =
      (progress.after policy (upToHalt policy division.items)).noteAll policy
        ((breakAfter policy division.items division.break?).bind Break.conditions) := by
  induction division generalizing progress with
  | ended place =>
    simp only [Division.items, upToHalt, Progress.after_nil]
    rfl
  | failed conditions fault place =>
    simp only [Division.items, upToHalt, Progress.after_nil]
    rfl
  | item item place rest ih =>
    rw [replay, Division.items, upToHalt, Division.break?]
    cases hitem : item.stops policy with
    | true =>
      rw [if_pos rfl, if_pos rfl, breakAfter_cons_of_stops hitem, ← Progress.takeUp_after,
        Progress.after_nil]
      rfl
    | false =>
      rw [if_neg Bool.false_ne_true, if_neg Bool.false_ne_true, ih, Progress.takeUp_after,
        breakAfter_cons hitem]

/-- The fault of a replay, with the line that was reached. -/
theorem replay_fault (policy : Policy) (progress : Progress) (division : Division) :
    ((replay policy progress division).fault.map fun fault =>
        (fault, (replay policy progress division).cursor.lineNo)) =
      (breakAfter policy division.items division.break?).map fun ending =>
        (ending.fault, ending.line) := by
  induction division generalizing progress with
  | ended place => rfl
  | failed conditions fault place => rfl
  | item item place rest ih =>
    rw [replay, Division.items, Division.break?]
    cases hitem : item.stops policy with
    | true => rw [if_pos rfl, breakAfter_cons_of_stops hitem]; rfl
    | false => rw [if_neg Bool.false_ne_true, ih, breakAfter_cons hitem]

/-! ## The parse -/

/-- How a source is divided. -/
def Source.division (source : Source) : Division := divide 0 .start source

theorem toScript_after (policy : Policy) (name : Text) (items : List Item) :
    (Progress.start.after policy items).toScript name = Script.ofItems policy name items := by
  have hthreshold : (items.filterMap Item.threshold?).getLast?.getD none = lastThreshold items := by
    rw [lastThreshold]
    cases (items.filterMap Item.threshold?).getLast? <;> rfl
  simp only [Progress.after, Progress.start, Progress.toScript, Script.ofItems, hthreshold,
    Array.toList_appendList, List.nil_append, Nat.zero_add, Bool.false_or]

/-- The result of a parse depends on the items that are taken up and on the fault after them. -/
theorem parse_result (policy : Policy) (name : Text) (source : Source) :
    (parse policy name source).result =
      match breakAfter policy source.division.items source.division.break? with
      | some ending => .error ⟨name, ending.line, ending.fault⟩
      | none => .ok (.ofItems policy name (upToHalt policy source.division.items)) := by
  have hstop : readItems policy .start (.start source) = replay policy .start source.division :=
    readItems_start policy source
  have hfault := replay_fault policy .start source.division
  have hprogress := replay_progress policy .start source.division
  simp only [parse, hstop]
  cases hbreak : breakAfter policy source.division.items source.division.break? with
  | some ending =>
    rw [hbreak] at hfault
    obtain ⟨fault, hfound, hending⟩ := Option.map_eq_some_iff.1 hfault
    obtain ⟨rfl, hline⟩ := Prod.mk.inj hending
    simp only [hfound, hline]
  | none =>
    rw [hbreak] at hfault hprogress
    rw [Option.map_eq_none_iff.1 hfault, hprogress]
    exact congrArg Except.ok (toScript_after policy name _)

theorem parse_eq_ok_iff {policy : Policy} {name : Text} {source : Source} {script : Script} :
    (parse policy name source).result = .ok script ↔
      breakAfter policy source.division.items source.division.break? = none ∧
        script = .ofItems policy name (upToHalt policy source.division.items) := by
  rw [parse_result]
  cases breakAfter policy source.division.items source.division.break? with
  | some ending => exact ⟨nofun, nofun⟩
  | none => exact ⟨fun h => ⟨rfl, (Except.ok.inj h).symm⟩, fun h => congrArg _ h.2.symm⟩

theorem parse_eq_error_iff {policy : Policy} {name : Text} {source : Source} {error : ScriptError} :
    (parse policy name source).result = .error error ↔
      ∃ ending, breakAfter policy source.division.items source.division.break? = some ending ∧
        error = ⟨name, ending.line, ending.fault⟩ := by
  rw [parse_result]
  cases breakAfter policy source.division.items source.division.break? with
  | none => exact ⟨nofun, nofun⟩
  | some ending =>
    refine ⟨fun h => ⟨ending, rfl, (Except.error.inj h).symm⟩, ?_⟩
    rintro ⟨_, ⟨⟩, rfl⟩
    rfl

/-- The decisions of a parse are about the records that it meets. -/
theorem parse_decisions (policy : Policy) (name : Text) (source : Source) :
    (parse policy name source).decisions =
      policy.decisions (asked policy source.division.items source.division.break?) := by
  have hstop : readItems policy .start (.start source) = replay policy .start source.division :=
    readItems_start policy source
  simp only [parse, hstop, replay_progress, asked]
  cases (breakAfter policy source.division.items source.division.break?).bind Break.conditions <;>
    simp [Progress.noteAll, Progress.note, Progress.after, Progress.start, Policy.decisions]

/-- A parse announces the operations that it takes up, and nothing else. -/
theorem parse_messages (policy : Policy) (name : Text) (source : Source) :
    (parse policy name source).messages =
      ((upToHalt policy source.division.items).filterMap (Item.operation? policy)).map
        Progress.added := by
  have hstop : readItems policy .start (.start source) = replay policy .start source.division :=
    readItems_start policy source
  simp only [parse, hstop, replay_progress]
  cases (breakAfter policy source.division.items source.division.break?).bind Break.conditions <;>
    simp [Progress.noteAll, Progress.note, Progress.after, Progress.start]

end

end LogicTest
