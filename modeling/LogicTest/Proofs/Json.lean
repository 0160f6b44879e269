import LogicTest.Json
import LogicTest.Proofs.Text.Numeral

/-!
# Documents are read back in one way

Whatever follows a laid out document, no other document begins in the same way: each value shows
where it ends, a number by the first character that is no digit. So the document and what follows it
are both determined by the text (`laidOut_append_inj`).
-/
namespace LogicTest.Json

/-! ## Strings -/

/-- The characters that a string cannot hold as they are. -/
def escaped : List Char := '"' :: '\\' :: (List.range 0x20).map Char.ofNat

theorem escapeChar_of_plain {c : Char} (h : c ∉ escaped) : escapeChar c = [c] := by
  have hlow : ¬ c.toNat < 0x20 := fun hlow =>
    h (List.mem_cons_of_mem _ (List.mem_cons_of_mem _
      (List.mem_map.2 ⟨c.toNat, List.mem_range.2 hlow, Char.ofNat_toNat c⟩)))
  have hne {d : Char} (hd : d ∈ escaped) : c ≠ d := fun heq => h (heq ▸ hd)
  unfold escapeChar
  rw [if_neg (hne (by decide)), if_neg (hne (by decide)), if_neg (hne (by decide)),
    if_neg (hne (by decide)), if_neg (hne (by decide)), if_neg (hne (by decide)),
    if_neg (hne (by decide)), if_neg (fun h => hlow (Nat.lt_trans h (by decide))), if_neg hlow]

theorem head?_escapeChar (c : Char) :
    (escapeChar c).head? = some (if c ∈ escaped then '\\' else c) := by
  by_cases hc : c ∈ escaped
  · have hall : escaped.all (fun c => (escapeChar c).head? == some '\\') = true := by
      decide +kernel
    rw [if_pos hc, eq_of_beq (List.all_eq_true.1 hall c hc)]
  · rw [if_neg hc, escapeChar_of_plain hc]
    rfl

/-- No character is written as the beginning of what another one is written as. -/
theorem eq_of_prefix_escapeChar {c d : Char} (h : escapeChar c <+: escapeChar d) : c = d := by
  have hne : escapeChar c ≠ [] := fun hnil => by
    have hhead := head?_escapeChar c
    rw [hnil] at hhead
    cases hhead
  have hhead : (escapeChar c).head? = (escapeChar d).head? := by
    obtain ⟨rest, hrest⟩ := h
    rw [← hrest, List.head?_append_of_ne_nil _ hne]
  rw [head?_escapeChar, head?_escapeChar, Option.some.injEq] at hhead
  have hbackslash : '\\' ∈ escaped := by decide
  split at hhead
  next hc =>
    split at hhead
    next hd =>
      have hall : escaped.all (fun c => escaped.all fun d =>
          !(escapeChar c).isPrefixOf (escapeChar d) || c == d) = true := by decide +kernel
      have hpair := List.all_eq_true.1 (List.all_eq_true.1 hall c hc) d hd
      rw [List.isPrefixOf_iff_prefix.2 h, Bool.not_true, Bool.false_or] at hpair
      exact eq_of_beq hpair
    next hd => exact absurd (hhead ▸ hbackslash) hd
  next hc =>
    split at hhead
    next hd => exact absurd (hhead ▸ hbackslash) hc
    next hd => exact hhead

theorem escapeChar_append_inj {c d : Char} {one two : Text}
    (h : escapeChar c ++ one = escapeChar d ++ two) : c = d ∧ one = two := by
  have hcd : c = d := by
    have hc : escapeChar c <+: escapeChar d ++ two := h ▸ List.prefix_append _ _
    have hd : escapeChar d <+: escapeChar d ++ two := List.prefix_append _ _
    rcases List.prefix_or_prefix_of_prefix hc hd with hprefix | hprefix
    · exact eq_of_prefix_escapeChar hprefix
    · exact (eq_of_prefix_escapeChar hprefix).symm
  subst hcd
  exact ⟨rfl, List.append_cancel_left h⟩

/-- A quotation mark is not the beginning of any character that is written in a string. -/
theorem escapeChar_append_ne (c : Char) (one two : Text) : escapeChar c ++ one ≠ '"' :: two := by
  intro h
  have hhead := congrArg List.head? h
  rw [List.head?_append, head?_escapeChar, Option.some_or, List.head?_cons] at hhead
  split at hhead
  · exact absurd hhead (by decide)
  next hc => exact hc (Option.some.inj hhead ▸ List.mem_cons_self)

theorem writeString_append_inj {one two rest others : Text}
    (h : writeString one ++ rest = writeString two ++ others) : one = two ∧ rest = others := by
  simp only [writeString, List.cons_append, List.append_assoc, List.nil_append] at h
  have hbody := (List.cons.inj h).2
  clear h
  induction one generalizing two with
  | nil =>
    cases two with
    | nil => exact ⟨rfl, (List.cons.inj hbody).2⟩
    | cons d two =>
      rw [List.flatMap_nil, List.nil_append, List.flatMap_cons, List.append_assoc] at hbody
      exact absurd hbody.symm (escapeChar_append_ne _ _ _)
  | cons c one ih =>
    rw [List.flatMap_cons, List.append_assoc] at hbody
    cases two with
    | nil => exact absurd hbody (escapeChar_append_ne _ _ _)
    | cons d two =>
      rw [List.flatMap_cons, List.append_assoc] at hbody
      obtain ⟨rfl, hothers⟩ := escapeChar_append_inj hbody
      obtain ⟨rfl, hrest⟩ := ih hothers
      exact ⟨rfl, hrest⟩

/-! ## Numbers -/

/-- A number that stands before the text ends there. -/
def NoDigit (text : Text) : Prop := ∀ c ∈ text.head?, c.isDigit = false

theorem takeWhile_toText (n : Nat) {rest : Text} (h : NoDigit rest) :
    (Numeral.toText n ++ rest).takeWhile Char.isDigit = Numeral.toText n := by
  have hrest : rest.takeWhile Char.isDigit = [] := by
    cases rest with
    | nil => rfl
    | cons c rest => exact List.takeWhile_cons_of_neg (by rw [h c rfl]; nofun)
  rw [List.takeWhile_append_of_pos fun c hc => Numeral.isDigit_of_mem_toText hc, hrest,
    List.append_nil]

theorem toText_append_inj {m n : Nat} {one two : Text} (hone : NoDigit one) (htwo : NoDigit two)
    (h : Numeral.toText m ++ one = Numeral.toText n ++ two) : m = n ∧ one = two := by
  have hdigits := congrArg (List.takeWhile Char.isDigit) h
  rw [takeWhile_toText m hone, takeWhile_toText n htwo] at hdigits
  refine ⟨?_, List.append_cancel_left (hdigits ▸ h)⟩
  have hvalue := congrArg (Nat.ofDigitChars 10 · 0) hdigits
  simpa [Numeral.toText, Nat.ofDigitChars_ten_toDigits] using hvalue

/-! ## Values -/

inductive Kind where
  | null | bool | number | string | array | object

def kind : Json → Kind
  | null => .null
  | bool _ => .bool
  | number _ => .number
  | string _ => .string
  | array _ => .array
  | object _ => .object

/-- The kind of value that begins with a character. -/
def kindOf? : Char → Option Kind
  | 'n' => some .null
  | 't' | 'f' => some .bool
  | '"' => some .string
  | '[' => some .array
  | '\x7b' => some .object
  | c => if c.isDigit then some .number else none

theorem kindOf?_of_isDigit {c : Char} (h : c.isDigit = true) : kindOf? c = some .number := by
  unfold kindOf?
  split <;> first | exact absurd h (by decide) | exact if_pos h

theorem kindOf?_head (depth : Nat) (value : Json) (rest : Text) :
    (value.laidOut depth ++ rest).head?.bind kindOf? = some value.kind := by
  cases value with
  | null => rfl
  | bool value => cases value <;> rfl
  | number n =>
    obtain ⟨c, digits, hdigits⟩ := List.exists_cons_of_ne_nil (Numeral.toText_ne_nil n)
    have hc : c.isDigit = true :=
      Numeral.isDigit_of_mem_toText (n := n) (hdigits ▸ List.mem_cons_self)
    rw [laidOut, hdigits, List.cons_append, List.head?_cons, Option.bind_some,
      kindOf?_of_isDigit hc]
    rfl
  | string text => rfl
  | array elements => cases elements <;> rfl
  | object fields => cases fields <;> rfl

/-- A line begins with the text. -/
def BeginsLine (text : Text) : Prop := text.head? = some '\n'

theorem beginsLine_newLine (depth : Nat) (rest : Text) : BeginsLine (newLine depth ++ rest) := rfl

theorem BeginsLine.noDigit {text : Text} (h : BeginsLine text) : NoDigit text := by
  intro c hc
  rw [h] at hc
  cases hc
  rfl

theorem noDigit_elements {text : Text} (h : BeginsLine text) (depth : Nat)
    (elements : List Json) : NoDigit (laidOutElements depth elements ++ text) := by
  cases elements with
  | nil => exact h.noDigit
  | cons element others =>
    intro c hc
    cases hc
    rfl

theorem noDigit_fields {text : Text} (h : BeginsLine text) (depth : Nat)
    (fields : List (Text × Json)) : NoDigit (laidOutFields depth fields ++ text) := by
  cases fields with
  | nil => exact h.noDigit
  | cons field others =>
    intro c hc
    cases hc
    rfl

mutual

/-- A laid out value shows where it ends, and no other value is laid out in the same way. -/
theorem laidOut_append_inj (depth : Nat) (value other : Json) {one two : Text}
    (hone : NoDigit one) (htwo : NoDigit two)
    (h : value.laidOut depth ++ one = other.laidOut depth ++ two) : value = other ∧ one = two := by
  have hkind : value.kind = other.kind := by
    rw [← Option.some.injEq, ← kindOf?_head depth value one, h, kindOf?_head]
  match value, other, hkind with
  | null, null, _ => exact ⟨rfl, List.append_cancel_left h⟩
  | bool true, bool true, _ | bool false, bool false, _ =>
    exact ⟨rfl, List.append_cancel_left h⟩
  | bool true, bool false, _ | bool false, bool true, _ =>
    exact absurd (List.cons.inj h).1 (by decide)
  | number m, number n, _ =>
    obtain ⟨rfl, hrest⟩ := toText_append_inj hone htwo h
    exact ⟨rfl, hrest⟩
  | string one, string two, _ =>
    obtain ⟨rfl, hrest⟩ := writeString_append_inj h
    exact ⟨rfl, hrest⟩
  | array [], array [], _ => exact ⟨rfl, List.append_cancel_left h⟩
  | array [], array (first :: others), _ => cases (List.cons.inj h).2
  | array (first :: others), array [], _ => cases (List.cons.inj h).2
  | array (first :: others), array (first' :: others'), _ =>
    simp only [laidOut, List.cons_append, List.append_assoc] at h
    obtain ⟨rfl, hothers⟩ := laidOut_append_inj (depth + 1) first first'
      (noDigit_elements (beginsLine_newLine _ _) _ _)
      (noDigit_elements (beginsLine_newLine _ _) _ _)
      (List.append_cancel_left (List.cons.inj h).2)
    obtain ⟨rfl, hend⟩ := laidOutElements_append_inj (depth + 1) others others'
      (beginsLine_newLine _ _) (beginsLine_newLine _ _) hothers
    exact ⟨rfl, (List.cons.inj (List.append_cancel_left hend)).2⟩
  | object [], object [], _ => exact ⟨rfl, List.append_cancel_left h⟩
  | object [], object (field :: others), _ => cases (List.cons.inj h).2
  | object (field :: others), object [], _ => cases (List.cons.inj h).2
  | object ((name, first) :: others), object ((name', first') :: others'), _ =>
    simp only [laidOut, List.cons_append, List.append_assoc] at h
    obtain ⟨rfl, hvalue⟩ := writeString_append_inj (List.append_cancel_left (List.cons.inj h).2)
    obtain ⟨rfl, hothers⟩ := laidOut_append_inj (depth + 1) first first'
      (noDigit_fields (beginsLine_newLine _ _) _ _) (noDigit_fields (beginsLine_newLine _ _) _ _)
      (List.append_cancel_left hvalue)
    obtain ⟨rfl, hend⟩ := laidOutFields_append_inj (depth + 1) others others'
      (beginsLine_newLine _ _) (beginsLine_newLine _ _) hothers
    exact ⟨rfl, (List.cons.inj (List.append_cancel_left hend)).2⟩

theorem laidOutElements_append_inj (depth : Nat) (elements others : List Json) {one two : Text}
    (hone : BeginsLine one) (htwo : BeginsLine two)
    (h : laidOutElements depth elements ++ one = laidOutElements depth others ++ two) :
    elements = others ∧ one = two := by
  match elements, others with
  | [], [] => exact ⟨rfl, h⟩
  | [], element :: others =>
    rw [laidOutElements, List.nil_append] at h
    rw [h] at hone
    cases hone
  | element :: elements, [] =>
    rw [laidOutElements, List.nil_append] at h
    rw [← h] at htwo
    cases htwo
  | first :: elements, first' :: others =>
    simp only [laidOutElements, List.cons_append, List.append_assoc] at h
    obtain ⟨rfl, hothers⟩ := laidOut_append_inj depth first first'
      (noDigit_elements hone _ _) (noDigit_elements htwo _ _)
      (List.append_cancel_left (List.cons.inj h).2)
    obtain ⟨rfl, hend⟩ := laidOutElements_append_inj depth elements others hone htwo hothers
    exact ⟨rfl, hend⟩

theorem laidOutFields_append_inj (depth : Nat) (fields others : List (Text × Json))
    {one two : Text} (hone : BeginsLine one) (htwo : BeginsLine two)
    (h : laidOutFields depth fields ++ one = laidOutFields depth others ++ two) :
    fields = others ∧ one = two := by
  match fields, others with
  | [], [] => exact ⟨rfl, h⟩
  | [], field :: others =>
    rw [laidOutFields, List.nil_append] at h
    rw [h] at hone
    cases hone
  | field :: fields, [] =>
    rw [laidOutFields, List.nil_append] at h
    rw [← h] at htwo
    cases htwo
  | (name, first) :: fields, (name', first') :: others =>
    simp only [laidOutFields, List.cons_append, List.append_assoc] at h
    obtain ⟨rfl, hvalue⟩ := writeString_append_inj (List.append_cancel_left (List.cons.inj h).2)
    obtain ⟨rfl, hothers⟩ := laidOut_append_inj depth first first'
      (noDigit_fields hone _ _) (noDigit_fields htwo _ _) (List.append_cancel_left hvalue)
    obtain ⟨rfl, hend⟩ := laidOutFields_append_inj depth fields others hone htwo hothers
    exact ⟨rfl, hend⟩

end

theorem noDigit_nil : NoDigit [] := nofun

/-- No two values are laid out in the same way. -/
theorem laidOut_inj {depth : Nat} {value other : Json}
    (h : value.laidOut depth = other.laidOut depth) : value = other := by
  refine (laidOut_append_inj depth value other noDigit_nil noDigit_nil ?_).1
  rw [List.append_nil, List.append_nil, h]

end LogicTest.Json
