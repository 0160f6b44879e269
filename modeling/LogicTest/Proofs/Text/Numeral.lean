import LogicTest.Proofs.Text.Trim
import LogicTest.Text.Numeral

/-!
# What is a numeral

A numeral is an optional plus sign and one or more ASCII digits, whose value is below the bound.
Numerals that are written are read back.
-/
namespace LogicTest.Numeral

/-- `text` is a numeral of value `n`. -/
structure Denotes (text : Text) (n : Nat) : Prop where
  signed_digits : ∃ digits, (text = digits ∨ text = '+' :: digits) ∧ digits ≠ [] ∧
    (∀ c ∈ digits, c.isDigit = true) ∧ Nat.ofDigitChars 10 digits 0 = n
  lt_bound : n < bound

theorem digit?_eq_some_iff {c : Char} {d : Nat} :
    digit? c = some d ↔ c.isDigit = true ∧ c.toNat - '0'.toNat = d := by
  have : ('0' ≤ c ∧ c ≤ '9') ↔ c.isDigit = true := by
    simp [Char.isDigit, Char.le_def, UInt32.le_iff_toNat_le]
  unfold digit?
  split <;> simp_all

theorem digitsAfter?_eq_some_iff {high n : Nat} {digits : Text} :
    digitsAfter? high digits = some n ↔
      (∀ c ∈ digits, c.isDigit = true) ∧ Nat.ofDigitChars 10 digits high = n := by
  induction digits generalizing high with
  | nil => simp [digitsAfter?]
  | cons c rest ih =>
    simp only [digitsAfter?, Option.bind_eq_some_iff, digit?_eq_some_iff, ih,
      Nat.ofDigitChars_cons, List.forall_mem_cons, Nat.mul_comm high 10]
    constructor
    · rintro ⟨d, ⟨hc, rfl⟩, hrest, hn⟩
      exact ⟨⟨hc, hrest⟩, hn⟩
    · rintro ⟨⟨hc, hrest⟩, hn⟩
      exact ⟨_, ⟨hc, rfl⟩, hrest, hn⟩

/-- The digits of a text that may have a sign. -/
def unsigned : Text → Text
  | '+' :: rest => rest
  | text => text

theorem ofText?_eq (text : Text) :
    ofText? text =
      if (unsigned text).isEmpty then none
      else (digitsAfter? 0 (unsigned text)).filter (· < bound) := rfl

theorem unsigned_eq_iff {text digits : Text} (h : ∀ c ∈ digits, c.isDigit = true) :
    unsigned text = digits ↔ text = digits ∨ text = '+' :: digits := by
  constructor
  · rintro rfl
    unfold unsigned
    split
    · exact .inr rfl
    · exact .inl rfl
  · rintro (rfl | rfl)
    · unfold unsigned
      split
      next rest =>
        exact absurd (h '+' List.mem_cons_self) (by decide)
      · rfl
    · rfl

theorem ofText?_eq_some_iff {text : Text} {n : Nat} : ofText? text = some n ↔ Denotes text n := by
  rw [ofText?_eq]
  constructor
  · intro h
    split at h
    · cases h
    next hempty =>
      obtain ⟨hvalue, hlt⟩ := Option.filter_eq_some_iff.1 h
      obtain ⟨hdigits, hn⟩ := digitsAfter?_eq_some_iff.1 hvalue
      exact ⟨⟨_, (unsigned_eq_iff hdigits).1 rfl, by simpa using hempty, hdigits, hn⟩,
        by simpa using hlt⟩
  · rintro ⟨⟨digits, htext, hempty, hdigits, hn⟩, hlt⟩
    rw [(unsigned_eq_iff hdigits).2 htext, if_neg (by simpa using hempty),
      digitsAfter?_eq_some_iff.2 ⟨hdigits, hn⟩]
    simp [hlt]

theorem isDigit_of_mem_toText {c : Char} {n : Nat} (h : c ∈ toText n) : c.isDigit = true :=
  Nat.isDigit_of_mem_toDigits (by decide) (by decide) h

theorem toText_ne_nil (n : Nat) : toText n ≠ [] := Nat.toDigits_ne_nil

theorem denotes_toText {n : Nat} (h : n < bound) : Denotes (toText n) n :=
  ⟨⟨toText n, .inl rfl, toText_ne_nil n, fun _ => isDigit_of_mem_toText,
    Nat.ofDigitChars_ten_toDigits⟩, h⟩

/-- A number below the bound is read back from its decimal digits. -/
theorem ofText?_toText {n : Nat} (h : n < bound) : ofText? (toText n) = some n :=
  ofText?_eq_some_iff.2 (denotes_toText h)

theorem isBlank_of_isDigit {c : Char} (h : c.isDigit = true) : Text.isBlank c = false := by
  have hrange : 48 ≤ c.toNat ∧ c.toNat ≤ 57 := by
    simpa [Char.isDigit, UInt32.le_iff_toNat_le] using h
  simp only [Text.isBlank, Text.blankRanges, List.any_cons, List.any_nil, Bool.or_false,
    Bool.or_eq_false_iff, Bool.and_eq_false_iff, decide_eq_false_iff_not]
  omega

theorem trimmed_toText (n : Nat) : Text.Trimmed (toText n) :=
  Text.trimmed_iff.2 ⟨
    fun _ hc => isBlank_of_isDigit (isDigit_of_mem_toText (List.mem_of_mem_head? hc)),
    fun _ hc => isBlank_of_isDigit (isDigit_of_mem_toText (List.mem_of_getLast? hc))⟩

theorem not_mem_toText {c : Char} (hc : c.isDigit = false) (n : Nat) : c ∉ toText n := by
  intro h
  rw [isDigit_of_mem_toText h] at hc
  cases hc

end LogicTest.Numeral
