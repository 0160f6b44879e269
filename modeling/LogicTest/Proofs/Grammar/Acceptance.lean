import LogicTest.Proofs.Division.Replay
import LogicTest.Proofs.Grammar.Soundness

/-!
# What a parse accepts

A division cuts the lines of a source into stretches that the grammar describes, and the stretches
of the grammar are what they are divided into. With the account of what a parse makes of a division,
this says which texts are accepted, and as which scripts.
-/
namespace LogicTest.Grammar

theorem Items.singleton {start : Nat} {segment : List Text} {item : Item}
    (h : IsItem start segment .line item) : Items start segment [item] := by
  have hitems := Items.cons h .nil
  rwa [List.append_nil] at hitems

theorem Items.append {start : Nat} {one two : List Text} {items others : List Item}
    (h : Items start one items) (h' : Items (start + one.length) two others) :
    Items start (one ++ two) (items ++ others) := by
  induction h with
  | nil => exact h'
  | cons first _ ih =>
    rw [List.append_assoc]
    rw [List.length_append, ← Nat.add_assoc] at h'
    exact .cons first (ih h')

/-- A source of lines is cut as the grammar says. -/
theorem cuts_division (lines : List Text) :
    Cuts 0 lines (Source.division (lines.map .line)).items
      (Source.division (lines.map .line)).break? :=
  cuts_divide_start 0 lines

/-- Of lines that are cut with no fault, all but a last item end with lines of their own. -/
theorem Cuts.exists_tail {start : Nat} {lines : List Text} {items : List Item}
    (h : Cuts start lines items none) :
    ∃ body tail init last, lines = body ++ tail ∧ items = init ++ last ∧ Items start body init ∧
      Tail (start + body.length) tail last := by
  generalize hending : (none : Option Break) = ending at h
  induction h with
  | tail isTail => exact ⟨[], _, [], _, rfl, rfl, .nil, isTail⟩
  | broken => cases hending
  | @item start segment lines item items ending first others ih =>
    obtain ⟨body, tail, init, last, rfl, rfl, hbody, htail⟩ := ih hending
    refine ⟨segment ++ body, tail, item :: init, last, by rw [List.append_assoc], rfl,
      .cons first hbody, ?_⟩
    rwa [List.length_append, ← Nat.add_assoc]

/-- A `halt` ends with its own line, and so do the items before it. -/
theorem Cuts.exists_body {start : Nat} {lines : List Text} {init rest : List Item}
    {conditions : Conditions} {ending : Option Break}
    (h : Cuts start lines (init ++ .halt conditions :: rest) ending) :
    ∃ body after, lines = body ++ after ∧ Items start body (init ++ [.halt conditions]) := by
  generalize hitems : init ++ .halt conditions :: rest = items at h
  induction h generalizing init with
  | tail isTail =>
    exfalso
    cases isTail with
    | comments => simp at hitems
    | @item _ item isItem unclosed =>
      have hmem : .halt conditions ∈ [item] := hitems ▸ List.mem_append_right _ List.mem_cons_self
      cases List.mem_singleton.1 hmem
      cases isItem
      exact unclosed rfl
  | broken => simp at hitems
  | @item start segment lines item items ending first others ih =>
    cases init with
    | nil =>
      obtain ⟨rfl, -⟩ := List.cons.inj hitems
      exact ⟨segment, lines, rfl, .singleton first⟩
    | cons other init =>
      obtain ⟨rfl, hrest⟩ := List.cons.inj hitems
      obtain ⟨body, after, rfl, hbody⟩ := ih hrest
      exact ⟨segment ++ body, after, by rw [List.append_assoc], .cons first hbody⟩

/-- The items of a script that is accepted are those that a parse takes up, and no fault counts. -/
theorem Accepts.division {policy : Policy} {lines : List Text} {items : List Item}
    (h : Accepts policy lines items) :
    upToHalt policy (Source.division (lines.map .line)).items = items ∧
      breakAfter policy (Source.division (lines.map .line)).items
        (Source.division (lines.map .line)).break? = none := by
  cases h with
  | @complete body tail items last isBody isTail running =>
    have hbody := divide_items isBody (tail.map .line)
    have htail := divide_tail isTail
    have hrunning : ∀ item ∈ items ++ last, item.stops policy = false := by simpa using running
    rw [Nat.zero_add, htail.1, htail.2, ← List.map_append] at hbody
    rw [Source.division, hbody.1, hbody.2]
    exact ⟨upToHalt_eq_self hrunning, breakAfter_of_running hrunning none⟩
  | @halted body rest items conditions isBody running kept =>
    have hbody := divide_items isBody (rest.map .line)
    have hrunning : ∀ item ∈ items, item.stops policy = false := by simpa using running
    have hstops : (Item.halt conditions).stops policy = true := kept
    rw [← List.map_append, List.append_assoc, List.singleton_append] at hbody
    rw [Source.division, hbody.1, hbody.2, upToHalt_append hrunning, upToHalt, if_pos hstops]
    exact ⟨rfl, by simp [breakAfter, hstops]⟩

/-- A parse that meets no fault takes up the items of a script that is accepted. -/
theorem accepts_division {policy : Policy} {lines : List Text}
    (h : breakAfter policy (Source.division (lines.map .line)).items
      (Source.division (lines.map .line)).break? = none) :
    Accepts policy lines (upToHalt policy (Source.division (lines.map .line)).items) := by
  have hcuts := cuts_division lines
  rcases running_or_exists_halt policy (Source.division (lines.map .line)).items with
    hrunning | ⟨init, conditions, rest, hitems, hinit, hkept⟩
  · rw [breakAfter_of_running hrunning] at h
    rw [h] at hcuts
    rw [upToHalt_eq_self hrunning]
    obtain ⟨body, tail, init, last, rfl, hitems, hbody, htail⟩ := hcuts.exists_tail
    rw [hitems] at hrunning ⊢
    rw [Nat.zero_add] at htail
    exact .complete hbody htail (by simpa using hrunning)
  · have hstops : (Item.halt conditions).stops policy = true := hkept
    rw [hitems] at hcuts
    rw [hitems, upToHalt_append hinit, upToHalt, if_pos hstops]
    obtain ⟨body, after, rfl, hbody⟩ := hcuts.exists_body
    exact .halted hbody (by simpa using hinit) hkept

theorem Accepts.parse_eq {policy : Policy} {text : Text} {items : List Item}
    (h : Accepts policy text.lines items) (name : Text) :
    (parseText policy name text).result = .ok (.ofItems policy name items) := by
  obtain ⟨hitems, hbreak⟩ := h.division
  exact parse_eq_ok_iff.2 ⟨hbreak, congrArg _ hitems.symm⟩

/-- A text is parsed into a script iff the grammar has a script with its lines, and it is that
script. -/
theorem parse_eq_ok_iff_accepts (policy : Policy) (name text : Text) (script : Script) :
    (parseText policy name text).result = .ok script ↔
      ∃ items, Accepts policy text.lines items ∧ script = .ofItems policy name items := by
  constructor
  · intro h
    obtain ⟨hbreak, rfl⟩ := parse_eq_ok_iff.1 h
    exact ⟨_, accepts_division hbreak, rfl⟩
  · rintro ⟨items, haccepts, rfl⟩
    exact haccepts.parse_eq name

end LogicTest.Grammar
