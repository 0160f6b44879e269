import Mathlib.Tactic.SplitIfs
import LogicTest.Text.Utf8

/-!
# Encoded text

Bytes that are decoded are those of one character after the other, of which there are four kinds
(`Sequence`). Each character has its bytes to itself: they are decoded to it whatever follows them,
and unless it is an ASCII character, none of them is an ASCII byte. So bytes can be cut, and
extended, at any ASCII byte (`decode?_append`, `decode?_concat`). A text is decoded from its bytes
(`decode?_encode`), and what can be decoded is also shown without replacements
(`decodeLossy_of_decode?`).
-/
namespace LogicTest.Utf8

theorem continuation?_eq_some_iff {b : UInt8} {n : Nat} :
    continuation? b = some n ↔ isContinuation b ∧ n = b.toNat - 0x80 := by
  unfold continuation? isContinuation
  split
  next hrange => simp [hrange, eq_comm]
  next hrange => simpa using fun h1 h2 => absurd ⟨h1, h2⟩ hrange

theorem isContinuation_iff {b : UInt8} : isContinuation b ↔ 0x80 ≤ b.toNat ∧ b.toNat < 0xC0 := by
  simp [isContinuation, UInt8.le_iff_toNat_le, UInt8.lt_iff_toNat_lt]

theorem high_of_continuation? {b : UInt8} {n : Nat} (h : continuation? b = some n) : 0x80 ≤ b :=
  UInt8.le_iff_toNat_le.2 (isContinuation_iff.1 (continuation?_eq_some_iff.1 h).1).1

theorem scalar?_eq_some_iff {least n : Nat} {c : Char} :
    scalar? least n = some c ↔ least ≤ n ∧ n.isValidChar ∧ c = .ofNat n := by
  unfold scalar?
  by_cases hscalar : least ≤ n ∧ n.isValidChar
  · have hchar : Char.ofNatAux n hscalar.2 = .ofNat n := by rw [Char.ofNat, dif_pos hscalar.2]
    rw [dif_pos hscalar, hchar]
    exact ⟨fun h => ⟨hscalar.1, hscalar.2, (Option.some.inj h).symm⟩,
      fun h => congrArg some h.2.2.symm⟩
  · rw [dif_neg hscalar]
    exact ⟨nofun, fun ⟨h1, h2, _⟩ => absurd ⟨h1, h2⟩ hscalar⟩

theorem le_of_scalar? {least n : Nat} {c : Char} (h : scalar? least n = some c) :
    least ≤ c.toNat := by
  unfold scalar? at h
  by_cases hscalar : least ≤ n ∧ n.isValidChar
  · rw [dif_pos hscalar] at h
    cases h
    exact hscalar.1
  · rw [dif_neg hscalar] at h
    cases h

/-! ## Sequences of bytes -/

/-- The bytes that make up a character, by how many there are. -/
inductive Sequence : List UInt8 → Char → Prop where
  | one {a : UInt8} (low : a < 0x80) : Sequence [a] (.ofNat a.toNat)
  | two {a b₁ : UInt8} {n₁ : Nat} {c : Char} (least : 0xC0 ≤ a.toNat) (most : a.toNat < 0xE0)
      (first : continuation? b₁ = some n₁)
      (number : scalar? 0x80 ((a.toNat - 0xC0) * 64 + n₁) = some c) : Sequence [a, b₁] c
  | three {a b₁ b₂ : UInt8} {n₁ n₂ : Nat} {c : Char} (least : 0xE0 ≤ a.toNat)
      (most : a.toNat < 0xF0) (first : continuation? b₁ = some n₁)
      (second : continuation? b₂ = some n₂)
      (number : scalar? 0x800 (((a.toNat - 0xE0) * 64 + n₁) * 64 + n₂) = some c) :
      Sequence [a, b₁, b₂] c
  | four {a b₁ b₂ b₃ : UInt8} {n₁ n₂ n₃ : Nat} {c : Char} (least : 0xF0 ≤ a.toNat)
      (most : a.toNat < 0xF8) (first : continuation? b₁ = some n₁)
      (second : continuation? b₂ = some n₂) (third : continuation? b₃ = some n₃)
      (number : scalar? 0x10000 ((((a.toNat - 0xF0) * 64 + n₁) * 64 + n₂) * 64 + n₃) = some c) :
      Sequence [a, b₁, b₂, b₃] c

theorem decode?_ascii {a : UInt8} (h : a < 0x80) (rest : List UInt8) :
    decode? (a :: rest) = (decode? rest).map (Char.ofNat a.toNat :: ·) := by
  rw [decode?.eq_def (a :: rest)]
  simp only [if_pos h]
  cases decode? rest <;> rfl

/-- A character is decoded from its bytes, whatever follows them. -/
theorem Sequence.decode?_append {bytes : List UInt8} {c : Char} (h : Sequence bytes c)
    (rest : List UInt8) : decode? (bytes ++ rest) = (decode? rest).map (c :: ·) := by
  cases h with
  | one low => exact decode?_ascii low rest
  | two least most first number =>
    rw [decode?.eq_def]
    simp only [List.cons_append, List.nil_append, UInt8.lt_iff_toNat_lt, UInt8.reduceToNat, first]
    rw [if_neg (by omega), if_neg (by omega), if_pos most]
    simp only [Option.bind_eq_bind, Option.bind_some, number]
    cases decode? rest <;> rfl
  | three least most first second number =>
    rw [decode?.eq_def]
    simp only [List.cons_append, List.nil_append, UInt8.lt_iff_toNat_lt, UInt8.reduceToNat, first,
      second]
    rw [if_neg (by omega), if_neg (by omega), if_neg (by omega), if_pos most]
    simp only [Option.bind_eq_bind, Option.bind_some, number]
    cases decode? rest <;> rfl
  | four least most first second third number =>
    rw [decode?.eq_def]
    simp only [List.cons_append, List.nil_append, UInt8.lt_iff_toNat_lt, UInt8.reduceToNat, first,
      second, third]
    rw [if_neg (by omega), if_neg (by omega), if_neg (by omega), if_neg (by omega), if_pos most]
    simp only [Option.bind_eq_bind, Option.bind_some, number]
    cases decode? rest <;> rfl

/-- Induction on the characters of what can be decoded. -/
theorem decode?_induction {motive : List UInt8 → Text → Prop} (nil : motive [] [])
    (cons : ∀ {bytes rest : List UInt8} {c : Char} {text : Text}, Sequence bytes c →
      motive rest text → motive (bytes ++ rest) (c :: text))
    {bytes : List UInt8} {text : Text} (h : decode? bytes = some text) : motive bytes text := by
  fun_induction decode? bytes generalizing text with
  | case1 =>
    cases h
    exact nil
  | case2 a rest low ih =>
    simp only [Option.pure_def, Option.bind_eq_bind, Option.bind_eq_some_iff,
      Option.some.injEq] at h
    obtain ⟨others, hothers, rfl⟩ := h
    exact cons (.one low) (ih hothers)
  | case4 a _ least most b₁ rest ih =>
    simp only [Option.pure_def, Option.bind_eq_bind, Option.bind_eq_some_iff,
      Option.some.injEq] at h
    obtain ⟨n₁, first, c, number, others, hothers, rfl⟩ := h
    exact cons (.two (UInt8.le_iff_toNat_le.1 (UInt8.not_lt.1 least))
      (UInt8.lt_iff_toNat_lt.1 most) first number) (ih hothers)
  | case6 a _ _ least most b₁ b₂ rest ih =>
    simp only [Option.pure_def, Option.bind_eq_bind, Option.bind_eq_some_iff,
      Option.some.injEq] at h
    obtain ⟨n₁, first, n₂, second, c, number, others, hothers, rfl⟩ := h
    exact cons (.three (UInt8.le_iff_toNat_le.1 (UInt8.not_lt.1 least))
      (UInt8.lt_iff_toNat_lt.1 most) first second number) (ih hothers)
  | case8 a _ _ _ least most b₁ b₂ b₃ rest ih =>
    simp only [Option.pure_def, Option.bind_eq_bind, Option.bind_eq_some_iff,
      Option.some.injEq] at h
    obtain ⟨n₁, first, n₂, second, n₃, third, c, number, others, hothers, rfl⟩ := h
    exact cons (.four (UInt8.le_iff_toNat_le.1 (UInt8.not_lt.1 least))
      (UInt8.lt_iff_toNat_lt.1 most) first second third number) (ih hothers)
  | case3 | case5 | case7 | case9 | case10 => cases h

/-! ## Characters by their bytes -/

/-- The bytes of one character. -/
inductive Encodes : List UInt8 → Char → Prop where
  | ascii {a : UInt8} (low : a < 0x80) : Encodes [a] (Char.ofNat a.toNat)
  | sequence {bytes : List UInt8} {c : Char} (nonempty : bytes ≠ [])
      (high : ∀ b ∈ bytes, 0x80 ≤ b) (least : 0x80 ≤ c.toNat)
      (decodes : ∀ rest, decode? (bytes ++ rest) = (decode? rest).map (c :: ·)) :
      Encodes bytes c

/-- The bytes of a text, character by character. -/
inductive Encoded : List UInt8 → Text → Prop where
  | nil : Encoded [] []
  | cons {bytes rest : List UInt8} {c : Char} {text : Text} (first : Encodes bytes c)
      (others : Encoded rest text) : Encoded (bytes ++ rest) (c :: text)

theorem Encodes.decode?_append {bytes : List UInt8} {c : Char} (h : Encodes bytes c)
    (rest : List UInt8) : decode? (bytes ++ rest) = (decode? rest).map (c :: ·) := by
  cases h with
  | ascii low => exact decode?_ascii low rest
  | sequence _ _ _ decodes => exact decodes rest

theorem Sequence.encodes {bytes : List UInt8} {c : Char} (h : Sequence bytes c) :
    Encodes bytes c := by
  have hdecodes := h.decode?_append
  have hhigh {a : UInt8} (ha : 0xC0 ≤ a.toNat) : 0x80 ≤ a := by
    exact UInt8.le_iff_toNat_le.2 (Nat.le_trans (by decide) ha)
  cases h with
  | one low => exact .ascii low
  | two least _ first number =>
    refine .sequence nofun ?_ (le_of_scalar? number) hdecodes
    simp [hhigh least, high_of_continuation? first]
  | three least _ first second number =>
    refine .sequence nofun ?_ (Nat.le_trans (by decide) (le_of_scalar? number)) hdecodes
    simp [hhigh (Nat.le_trans (by decide) least), high_of_continuation? first,
      high_of_continuation? second]
  | four least _ first second third number =>
    refine .sequence nofun ?_ (Nat.le_trans (by decide) (le_of_scalar? number)) hdecodes
    simp [hhigh (Nat.le_trans (by decide) least), high_of_continuation? first,
      high_of_continuation? second, high_of_continuation? third]

theorem encoded_of_decode? {bytes : List UInt8} {text : Text} (h : decode? bytes = some text) :
    Encoded bytes text :=
  decode?_induction .nil (fun first others => .cons first.encodes others) h

/-- What follows the bytes of a text is decoded by itself. -/
theorem Encoded.decode?_append {bytes : List UInt8} {text : Text} (h : Encoded bytes text)
    (rest : List UInt8) : decode? (bytes ++ rest) = (decode? rest).map (text ++ ·) := by
  induction h with
  | nil => simp
  | cons first _ ih =>
    rw [List.append_assoc, first.decode?_append, ih, Option.map_map]
    rfl

theorem decode?_eq_some_iff {bytes : List UInt8} {text : Text} :
    decode? bytes = some text ↔ Encoded bytes text := by
  refine ⟨encoded_of_decode?, fun h => ?_⟩
  have hall := h.decode?_append []
  rwa [List.append_nil, decode?, Option.map_some, List.append_nil] at hall

theorem toNat_ofNat_ascii {a : UInt8} (h : a < 0x80) : (Char.ofNat a.toNat).toNat = a.toNat := by
  have hvalid : a.toNat.isValidChar := .inl (by
    have := UInt8.lt_iff_toNat_lt.1 h
    simp only [UInt8.reduceToNat] at this
    omega)
  rw [Char.ofNat, dif_pos hvalid]
  rfl

theorem Encodes.ne_nil {bytes : List UInt8} {c : Char} (h : Encodes bytes c) : bytes ≠ [] := by
  cases h with
  | ascii => nofun
  | sequence nonempty => exact nonempty

/-- An ASCII byte is a character of its own. -/
theorem Encodes.eq_of_mem {bytes : List UInt8} {c : Char} {b : UInt8} (h : Encodes bytes c)
    (low : b < 0x80) (hmem : b ∈ bytes) : bytes = [b] ∧ c = Char.ofNat b.toNat := by
  cases h with
  | ascii => cases List.mem_singleton.1 hmem; exact ⟨rfl, rfl⟩
  | sequence _ high => exact absurd low (UInt8.not_lt.2 (high b hmem))

/-- An ASCII character is its own byte. -/
theorem Encodes.eq_singleton {bytes : List UInt8} {b : UInt8} (low : b < 0x80)
    (h : Encodes bytes (Char.ofNat b.toNat)) : bytes = [b] := by
  generalize hc : Char.ofNat b.toNat = c at h
  have hnumber : c.toNat = b.toNat := hc ▸ toNat_ofNat_ascii low
  cases h with
  | ascii ascii =>
    rw [toNat_ofNat_ascii ascii] at hnumber
    rw [UInt8.toNat_inj.1 hnumber]
  | sequence _ _ least =>
    have := UInt8.lt_iff_toNat_lt.1 low
    simp only [UInt8.reduceToNat] at this
    omega

theorem Encoded.exists_init {bytes : List UInt8} {b : UInt8} {text : Text} (low : b < 0x80)
    (h : Encoded (bytes ++ [b]) text) : ∃ init, Encoded bytes init := by
  generalize hall : bytes ++ [b] = all at h
  induction h generalizing bytes with
  | nil => simp at hall
  | @cons first rest c text hfirst hothers ih =>
    rcases List.append_eq_append_iff.1 hall with ⟨last, rfl, hlast⟩ | ⟨more, rfl, rfl⟩
    · cases last with
      | nil => exact ⟨[c], by simpa using Encoded.cons hfirst .nil⟩
      | cons d last =>
        obtain ⟨rfl, -⟩ := List.cons.inj hlast
        have hsingle := (hfirst.eq_of_mem low (List.mem_append_right _ List.mem_cons_self)).1
        have hbytes : bytes = [] := by
          have hlength := congrArg List.length hsingle
          simp only [List.length_append, List.length_cons, List.length_nil] at hlength
          exact List.length_eq_zero_iff.1 (by omega)
        exact ⟨[], hbytes ▸ .nil⟩
    · obtain ⟨init, hinit⟩ := ih rfl
      exact ⟨c :: init, .cons hfirst hinit⟩

/-- Whether bytes are decoded does not depend on an ASCII byte behind them. -/
theorem decode?_concat {b : UInt8} (low : b < 0x80) (bytes : List UInt8) :
    decode? (bytes ++ [b]) = (decode? bytes).map (· ++ [Char.ofNat b.toNat]) := by
  cases h : decode? bytes with
  | some text =>
    rw [(encoded_of_decode? h).decode?_append, decode?_ascii low]
    rfl
  | none =>
    cases hall : decode? (bytes ++ [b]) with
    | none => rfl
    | some text =>
      obtain ⟨init, hinit⟩ := (encoded_of_decode? hall).exists_init low
      rw [decode?_eq_some_iff.2 hinit] at h
      cases h

/-! ## Decoding with replacements -/

theorem canBegin_iff {a b : UInt8} : canBegin a b ↔ 0xC2 ≤ a.toNat ∧ a.toNat ≤ 0xF4 ∧
    (if a.toNat = 0xE0 then 0xA0 else if a.toNat = 0xF0 then 0x90 else 0x80) ≤ b.toNat ∧
    b.toNat ≤ (if a.toNat = 0xED then 0x9F else if a.toNat = 0xF4 then 0x8F else 0xBF) := by
  unfold canBegin
  simp only [Bool.and_eq_true, decide_eq_true_eq, UInt8.le_iff_toNat_le, ← UInt8.toNat_inj,
    apply_ite UInt8.toNat, and_assoc]
  rfl

theorem decodeLossy_ascii {a : UInt8} (low : a.toNat < 0x80) (rest : List UInt8) :
    decodeLossy (a :: rest) = Char.ofNat a.toNat :: decodeLossy rest := by
  have hlow : a < 0x80 := UInt8.lt_iff_toNat_lt.2 low
  cases rest <;> simp [decodeLossy.eq_def (a :: _), hlow, decodeLossy]

section
variable {a b c d : UInt8} (hbegin : canBegin a b) (rest : List UInt8)
include hbegin

theorem not_low_of_canBegin : ¬ a < 0x80 := by
  have hleast := (canBegin_iff.1 hbegin).1
  simp only [UInt8.lt_iff_toNat_lt, UInt8.reduceToNat]
  omega

theorem decodeLossy_two (ha : a.toNat < 0xE0) :
    decodeLossy (a :: b :: rest) = charOf (a.toNat - 0xC0) [b] :: decodeLossy rest := by
  have hhigh := not_low_of_canBegin hbegin
  have ha : a < 0xE0 := UInt8.lt_iff_toNat_lt.2 ha
  rw [decodeLossy.eq_def]
  simp [hhigh, hbegin, ha]

theorem decodeLossy_three (hc : isContinuation c) (hleast : 0xE0 ≤ a.toNat)
    (hmost : a.toNat < 0xF0) :
    decodeLossy (a :: b :: c :: rest) = charOf (a.toNat - 0xE0) [b, c] :: decodeLossy rest := by
  have hhigh := not_low_of_canBegin hbegin
  have hleast : ¬ a < 0xE0 := UInt8.not_lt.2 (UInt8.le_iff_toNat_le.2 hleast)
  have hmost : a < 0xF0 := UInt8.lt_iff_toNat_lt.2 hmost
  rw [decodeLossy.eq_def]
  simp [hhigh, hbegin, hc, hleast, hmost]

theorem decodeLossy_four (hc : isContinuation c) (hd : isContinuation d)
    (hleast : 0xF0 ≤ a.toNat) :
    decodeLossy (a :: b :: c :: d :: rest) =
      charOf (a.toNat - 0xF0) [b, c, d] :: decodeLossy rest := by
  have hhigh := not_low_of_canBegin hbegin
  have hleast : ¬ a < 0xF0 := UInt8.not_lt.2 (UInt8.le_iff_toNat_le.2 hleast)
  have hlong : ¬ a < 0xE0 := fun h => hleast (UInt8.lt_trans h (by decide))
  rw [decodeLossy.eq_def]
  simp [hhigh, hbegin, hc, hd, hleast, hlong]

end

theorem Sequence.decodeLossy_append {bytes : List UInt8} {c : Char} (h : Sequence bytes c)
    (rest : List UInt8) : decodeLossy (bytes ++ rest) = c :: decodeLossy rest := by
  cases h with
  | one low => exact decodeLossy_ascii (UInt8.lt_iff_toNat_lt.1 low) rest
  | @two a b₁ _ _ least most first number =>
    obtain ⟨hb₁, hn₁⟩ := continuation?_eq_some_iff.1 first
    obtain ⟨hfits, -, hchar⟩ := scalar?_eq_some_iff.1 number
    rw [isContinuation_iff] at hb₁
    have hbegin : canBegin a b₁ := by
      rw [canBegin_iff]
      split_ifs <;> omega
    rw [hchar, hn₁]
    exact decodeLossy_two hbegin rest most
  | @three a b₁ b₂ _ _ _ least most first second number =>
    obtain ⟨hb₁, hn₁⟩ := continuation?_eq_some_iff.1 first
    obtain ⟨hb₂, hn₂⟩ := continuation?_eq_some_iff.1 second
    obtain ⟨hfits, hvalid, hchar⟩ := scalar?_eq_some_iff.1 number
    have hlow := isContinuation_iff.1 hb₂
    rw [isContinuation_iff] at hb₁
    have hbegin : canBegin a b₁ := by
      rw [canBegin_iff]
      rw [Nat.isValidChar] at hvalid
      split_ifs <;> omega
    rw [hchar, hn₁, hn₂]
    exact decodeLossy_three hbegin rest hb₂ least most
  | @four a b₁ b₂ b₃ _ _ _ _ least most first second third number =>
    obtain ⟨hb₁, hn₁⟩ := continuation?_eq_some_iff.1 first
    obtain ⟨hb₂, hn₂⟩ := continuation?_eq_some_iff.1 second
    obtain ⟨hb₃, hn₃⟩ := continuation?_eq_some_iff.1 third
    obtain ⟨hfits, hvalid, hchar⟩ := scalar?_eq_some_iff.1 number
    have hlow := isContinuation_iff.1 hb₂
    have hlast := isContinuation_iff.1 hb₃
    rw [isContinuation_iff] at hb₁
    have hbegin : canBegin a b₁ := by
      rw [canBegin_iff]
      rw [Nat.isValidChar] at hvalid
      split_ifs <;> omega
    rw [hchar, hn₁, hn₂, hn₃]
    exact decodeLossy_four hbegin rest hb₂ hb₃ least

/-- What is decoded needs no replacements. -/
theorem decodeLossy_of_decode? {bytes : List UInt8} {text : Text} (h : decode? bytes = some text) :
    decodeLossy bytes = text := by
  refine decode?_induction (motive := fun bytes text => decodeLossy bytes = text) rfl ?_ h
  intro _ _ _ _ first ih
  rw [first.decodeLossy_append, ih]

/-! ## The bytes of a text -/

theorem toNat_ofNat {n : Nat} (h : n < 256) : (UInt8.ofNat n).toNat = n := by
  rw [UInt8.toNat_ofNat', Nat.mod_eq_of_lt h]

theorem continuation?_ofNat {n : Nat} (h : n < 64) : continuation? (.ofNat (n + 128)) = some n := by
  have hbyte := toNat_ofNat (show n + 128 < 256 by omega)
  refine continuation?_eq_some_iff.2 ⟨isContinuation_iff.2 ?_, ?_⟩ <;> omega

theorem scalar?_ofNat {least n : Nat} (hleast : least ≤ n) (hvalid : n.isValidChar) :
    scalar? least n = some (.ofNat n) :=
  scalar?_eq_some_iff.2 ⟨hleast, hvalid, rfl⟩

theorem sequence_encodeChar (c : Char) : Sequence (String.utf8EncodeChar c) c := by
  have hchar : Char.ofNat c.val.toNat = c := Char.ofNat_toNat c
  have hvalid : c.val.toNat.isValidChar := c.valid
  unfold String.utf8EncodeChar
  generalize c.val.toNat = n at hchar hvalid
  subst hchar
  have hmax : n < 0x110000 := by
    rcases hvalid with h | h <;> omega
  simp only []
  split_ifs with h1 h2 h3
  · have hfirst := toNat_ofNat (show n < 256 by omega)
    have hlow : UInt8.ofNat n < 0x80 := by
      rw [UInt8.lt_iff_toNat_lt, hfirst]
      exact Nat.lt_succ_of_le h1
    have hone := Sequence.one hlow
    rwa [hfirst] at hone
  · have hfirst := toNat_ofNat (show n / 64 % 32 + 192 < 256 by omega)
    have hnumber : (n / 64 % 32 + 192 - 0xC0) * 64 + n % 64 = n := by omega
    refine .two ?_ ?_ (continuation?_ofNat (Nat.mod_lt n (by decide))) ?_
    · omega
    · omega
    · rw [hfirst, hnumber]
      exact scalar?_ofNat (by omega) hvalid
  · have hfirst := toNat_ofNat (show n / 4096 % 16 + 224 < 256 by omega)
    have hnumber : ((n / 4096 % 16 + 224 - 0xE0) * 64 + n / 64 % 64) * 64 + n % 64 = n := by omega
    refine .three ?_ ?_ (continuation?_ofNat (Nat.mod_lt _ (by decide)))
      (continuation?_ofNat (Nat.mod_lt n (by decide))) ?_
    · omega
    · omega
    · rw [hfirst, hnumber]
      exact scalar?_ofNat (by omega) hvalid
  · have hfirst := toNat_ofNat (show n / 262144 % 8 + 240 < 256 by omega)
    have hnumber : (((n / 262144 % 8 + 240 - 0xF0) * 64 + n / 4096 % 64) * 64 + n / 64 % 64) * 64 +
        n % 64 = n := by omega
    refine .four ?_ ?_ (continuation?_ofNat (Nat.mod_lt _ (by decide)))
      (continuation?_ofNat (Nat.mod_lt _ (by decide)))
      (continuation?_ofNat (Nat.mod_lt n (by decide))) ?_
    · omega
    · omega
    · rw [hfirst, hnumber]
      exact scalar?_ofNat (by omega) hvalid

/-- A text is decoded from its bytes. -/
theorem decode?_encode (text : Text) : decode? (encode text) = some text := by
  induction text with
  | nil => rfl
  | cons c text ih =>
    have hbytes : encode (c :: text) = String.utf8EncodeChar c ++ encode text := rfl
    rw [hbytes, (sequence_encodeChar c).decode?_append, ih, Option.map_some]

theorem encoded_encode (text : Text) : Encoded (encode text) text :=
  encoded_of_decode? (decode?_encode text)

end LogicTest.Utf8
