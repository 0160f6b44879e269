import LogicTest.Text.Basic

/-!
# UTF-8

Decoding is strict: a sequence longer than its character needs, a surrogate, a number above
U+10FFFF and a broken sequence each make the whole input undecodable. What has to be shown in any
case is decoded with replacements for the bytes that make up no character.
-/
namespace LogicTest.Utf8

/-- The six bits that a continuation byte carries. -/
def continuation? (b : UInt8) : Option Nat :=
  if 0x80 ≤ b ∧ b < 0xC0 then some (b.toNat - 0x80) else none

/-- The character numbered `n`, refused when a shorter sequence could have held it. -/
def scalar? (least n : Nat) : Option Char :=
  if h : least ≤ n ∧ n.isValidChar then some (Char.ofNatAux n h.2) else none

def decode? : List UInt8 → Option Text
  | [] => some []
  | a :: rest =>
    if a < 0x80 then return Char.ofNat a.toNat :: (← decode? rest)
    else if a < 0xC0 then none
    else if a < 0xE0 then
      match rest with
      | b :: rest => do
        let y ← continuation? b
        return (← scalar? 0x80 ((a.toNat - 0xC0) * 64 + y)) :: (← decode? rest)
      | _ => none
    else if a < 0xF0 then
      match rest with
      | b :: c :: rest => do
        let x ← continuation? b
        let y ← continuation? c
        return (← scalar? 0x800 (((a.toNat - 0xE0) * 64 + x) * 64 + y)) :: (← decode? rest)
      | _ => none
    else if a < 0xF8 then
      match rest with
      | b :: c :: d :: rest => do
        let w ← continuation? b
        let x ← continuation? c
        let y ← continuation? d
        let n := (((a.toNat - 0xF0) * 64 + w) * 64 + x) * 64 + y
        return (← scalar? 0x10000 n) :: (← decode? rest)
      | _ => none
    else none

def encode (text : Text) : List UInt8 := text.flatMap String.utf8EncodeChar

def isContinuation (b : UInt8) : Bool := 0x80 ≤ b && b < 0xC0

/-- Whether a character of several bytes can begin with these two: not if it would be longer than it
needs to be, a surrogate, or above U+10FFFF. -/
def canBegin (a b : UInt8) : Bool :=
  let least : UInt8 := if a = 0xE0 then 0xA0 else if a = 0xF0 then 0x90 else 0x80
  let most : UInt8 := if a = 0xED then 0x9F else if a = 0xF4 then 0x8F else 0xBF
  0xC2 ≤ a && a ≤ 0xF4 && least ≤ b && b ≤ most

/-- The character numbered by the bits of a first byte, without those that tell the length, and of
continuation bytes. -/
def charOf (first : Nat) (others : List UInt8) : Char :=
  .ofNat (others.foldl (fun n b => n * 64 + (b.toNat - 0x80)) first)

/-- The character that stands for bytes which are not decoded. -/
def replacement : Char := '\uFFFD'

/-- Decodes as much as possible. Bytes that a character could begin with, as many as there are, are
replaced as one if it does not go on; any other byte that is not decoded is replaced by itself. -/
def decodeLossy : List UInt8 → Text
  | [] => []
  | [a] => [if a < 0x80 then .ofNat a.toNat else replacement]
  | a :: b :: rest =>
    if a < 0x80 then .ofNat a.toNat :: decodeLossy (b :: rest)
    else if !canBegin a b then replacement :: decodeLossy (b :: rest)
    else if a < 0xE0 then charOf (a.toNat - 0xC0) [b] :: decodeLossy rest
    else match rest with
      | [] => [replacement]
      | c :: rest =>
        if !isContinuation c then replacement :: decodeLossy (c :: rest)
        else if a < 0xF0 then charOf (a.toNat - 0xE0) [b, c] :: decodeLossy rest
        else match rest with
          | [] => [replacement]
          | d :: rest =>
            if !isContinuation d then replacement :: decodeLossy (d :: rest)
            else charOf (a.toNat - 0xF0) [b, c, d] :: decodeLossy rest

end LogicTest.Utf8
