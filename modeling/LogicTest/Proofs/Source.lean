import Mathlib.Data.List.Forall2
import LogicTest.Proofs.Text.Utf8
import LogicTest.Source

/-!
# What a reader can be given

A stream and a text are cut at their line feeds, so no line of a source holds one: in a stream it is
a byte by itself, and strict decoding gives a line feed for no other bytes. For the same reason it
makes no difference whether bytes are cut into lines before or after they are decoded
(`ofBytes_eq_ofText`).
-/
namespace LogicTest

/-- A line feed is decoded from its own byte only. -/
theorem Utf8.Encoded.newline_mem {bytes : List UInt8} {text : Text} (h : Encoded bytes text)
    (hmem : '\n' ∈ text) : 0x0A ∈ bytes := by
  induction h with
  | nil => cases hmem
  | cons first _ ih =>
    rcases List.mem_cons.1 hmem with rfl | hmem
    · have hbytes := first.eq_singleton (b := 0x0A) (by decide)
      simp [hbytes]
    · exact List.mem_append_right _ (ih hmem)

/-! ## Stretches -/

/-- Puts bytes before the first stretch; a failure takes them. -/
def Stretch.extend (bytes : List UInt8) : List Stretch → List Stretch
  | [] => [.bytes bytes]
  | .bytes line :: more => .bytes (bytes ++ line) :: more
  | .failure reason :: more => .failure reason :: more

/-- A byte that is no line feed, and no carriage return before one, belongs to the stretch after
it. -/
theorem Stretch.ofSignals_byte {b : UInt8} {rest : List Signal} (hnewline : b ≠ 0x0A)
    (hreturn : b = 0x0D → rest.head? ≠ some (.byte 0x0A)) :
    ofSignals (.byte b :: rest) = extend [b] (ofSignals rest) := by
  rw [ofSignals]
  · rfl
  · rintro more rfl rfl
    exact hreturn rfl rfl
  · exact hnewline

theorem Stretch.extend_extend (one two : List UInt8) (stretches : List Stretch) :
    extend one (extend two stretches) = extend (one ++ two) stretches := by
  cases stretches with
  | nil => rfl
  | cons first more => cases first <;> simp [extend]

/-- Bytes above ASCII belong to the stretch after them. -/
theorem Stretch.ofSignals_high {bytes : List UInt8} (hbytes : bytes ≠ [])
    (high : ∀ b ∈ bytes, 0x80 ≤ b) (rest : List Signal) :
    ofSignals (bytes.map .byte ++ rest) = extend bytes (ofSignals rest) := by
  induction bytes with
  | nil => exact absurd rfl hbytes
  | cons b bytes ih =>
    obtain ⟨hb, high⟩ := List.forall_mem_cons.1 high
    have hne (a : UInt8) (ha : a < 0x80) : b ≠ a := fun h => UInt8.not_lt.2 hb (h ▸ ha)
    rw [List.map_cons, List.cons_append,
      ofSignals_byte (hne _ (by decide)) (absurd · (hne _ (by decide)))]
    cases bytes with
    | nil => rfl
    | cons d bytes => rw [ih nofun high, extend_extend, List.singleton_append]

/-- What is cut at the byte of the line feed does not hold it. -/
theorem Stretch.newline_not_mem {signals : List Signal} {line : List UInt8}
    (h : .bytes line ∈ ofSignals signals) : 0x0A ∉ line := by
  fun_induction ofSignals signals generalizing line with
  | case1 => cases h
  | case2 reason rest ih => exact ih ((List.mem_cons.1 h).resolve_left nofun)
  | case3 rest ih | case4 rest ih =>
    rcases List.mem_cons.1 h with h | h
    · cases h
      exact List.not_mem_nil
    · exact ih h
  | case5 b rest _ hb hrest =>
    cases List.mem_singleton.1 h
    simpa using Ne.symm hb
  | case6 b rest _ hb first more hrest ih =>
    rw [hrest] at ih
    rcases List.mem_cons.1 h with h | h
    · cases h
      exact List.not_mem_cons_of_ne_of_not_mem (Ne.symm hb) (ih List.mem_cons_self)
    · exact ih (List.mem_cons_of_mem _ h)
  | case7 b rest _ _ reason more hrest ih =>
    rw [hrest] at ih
    exact ih h

theorem Text.newline_not_mem_lines {text line : Text} (h : line ∈ text.lines) : '\n' ∉ line := by
  fun_induction Text.lines text generalizing line with
  | case1 => cases h
  | case2 rest ih | case3 rest ih =>
    rcases List.mem_cons.1 h with rfl | h
    · exact List.not_mem_nil
    · exact ih h
  | case4 c rest _ hc hrest =>
    cases List.mem_singleton.1 h
    simpa using Ne.symm hc
  | case5 c rest _ hc first more hrest ih =>
    rw [hrest] at ih
    rcases List.mem_cons.1 h with rfl | h
    · exact List.not_mem_cons_of_ne_of_not_mem (Ne.symm hc) (ih List.mem_cons_self)
    · exact ih (List.mem_cons_of_mem _ h)

namespace Source

/-- The sources that a reader is given: those of streams and of texts. -/
inductive Given : Source → Prop where
  | stream (signals : List Signal) : Given (.ofSignals signals)
  | text (text : Text) : Given (.ofText text)

theorem Given.newline_not_mem {source : Source} (h : source.Given) {line : Text}
    (hline : .line line ∈ source) : '\n' ∉ line := by
  cases h with
  | stream signals =>
    obtain ⟨stretch, hstretch, hreading⟩ := List.mem_map.1 hline
    cases stretch with
    | failure reason => cases hreading
    | bytes bytes =>
      rw [Stretch.toReading] at hreading
      cases hdecode : Utf8.decode? bytes with
      | none =>
        rw [hdecode] at hreading
        cases hreading
      | some decoded =>
        rw [hdecode] at hreading
        cases hreading
        exact fun hmem =>
          Stretch.newline_not_mem hstretch ((Utf8.encoded_of_decode? hdecode).newline_mem hmem)
  | text text =>
    obtain ⟨_, hmem, hreading⟩ := List.mem_map.1 hline
    cases hreading
    exact Text.newline_not_mem_lines hmem

end Source

/-! ## Bytes and their text -/

/-- A stretch that holds the bytes of a line. -/
def Stretch.Holds (stretch : Stretch) (line : Text) : Prop :=
  ∃ bytes, stretch = .bytes bytes ∧ Utf8.Encoded bytes line

/-- Puts a character before the first line. -/
def Text.extend (c : Char) : List Text → List Text
  | [] => [[c]]
  | line :: more => (c :: line) :: more

/-- A character that is no line feed, and no carriage return before one, belongs to the line after
it. -/
theorem Text.lines_cons {c : Char} {rest : Text} (hnewline : c ≠ '\n')
    (hreturn : c = '\r' → rest.head? ≠ some '\n') :
    Text.lines (c :: rest) = extend c (Text.lines rest) := by
  rw [Text.lines]
  · rfl
  · rintro more rfl rfl
    exact hreturn rfl rfl
  · exact hnewline

theorem Stretch.holds_extend {bytes : List UInt8} {c : Char} (h : Utf8.Encodes bytes c)
    {stretches : List Stretch} {lines : List Text} (hall : List.Forall₂ Holds stretches lines) :
    List.Forall₂ Holds (extend bytes stretches) (Text.extend c lines) := by
  cases hall with
  | nil => exact .cons ⟨bytes, rfl, by simpa using Utf8.Encoded.cons h .nil⟩ .nil
  | cons hfirst hmore =>
    obtain ⟨first, rfl, hline⟩ := hfirst
    exact .cons ⟨bytes ++ first, rfl, .cons h hline⟩ hmore

theorem Utf8.ofNat_inj_ascii {a b : UInt8} (ha : a < 0x80) (hb : b < 0x80) :
    Char.ofNat a.toNat = Char.ofNat b.toNat ↔ a = b := by
  refine ⟨fun h => UInt8.toNat_inj.1 ?_, fun h => h ▸ rfl⟩
  rw [← toNat_ofNat_ascii ha, h, toNat_ofNat_ascii hb]

theorem Utf8.Encoded.head?_newline {bytes : List UInt8} {text : Text} (h : Encoded bytes text) :
    text.head? = some '\n' ↔ bytes.head? = some 0x0A := by
  cases h with
  | nil => simp
  | @cons first rest c text hfirst _ =>
    constructor
    · intro hhead
      obtain rfl : c = '\n' := Option.some.inj hhead
      rw [hfirst.eq_singleton (b := 0x0A) (by decide)]
      rfl
    · intro hhead
      have hmem : (0x0A : UInt8) ∈ first := by
        cases first with
        | nil => exact absurd rfl hfirst.ne_nil
        | cons b bytes => simp_all
      rw [(hfirst.eq_of_mem (by decide) hmem).2]
      rfl

/-- The bytes of a text are cut where the text is. -/
theorem Stretch.holds_lines {bytes : List UInt8} {text : Text} (h : Utf8.Encoded bytes text) :
    List.Forall₂ Holds (ofSignals (bytes.map .byte)) text.lines := by
  induction h with
  | nil => exact .nil
  | @cons first rest c text hfirst hothers ih =>
    rw [List.map_append]
    cases hfirst with
    | sequence hne high least decodes =>
      have hc (d : Char) (hd : d.toNat < 0x80) : c ≠ d := by
        rintro rfl
        omega
      rw [ofSignals_high hne high,
        Text.lines_cons (hc '\n' (by decide)) (absurd · (hc '\r' (by decide)))]
      exact holds_extend (.sequence hne high least decodes) ih
    | @ascii a low =>
      by_cases hnewline : a = 0x0A
      · subst hnewline
        exact .cons ⟨[], rfl, .nil⟩ ih
      by_cases hend : a = 0x0D ∧ rest.head? = some 0x0A
      · -- the carriage return is dropped with the line feed, which ends the same line by itself
        obtain ⟨rfl, hhead⟩ := hend
        obtain ⟨others, rfl⟩ := List.head?_eq_some_iff.1 (hothers.head?_newline.2 hhead)
        obtain ⟨more, rfl⟩ := List.head?_eq_some_iff.1 hhead
        exact ih
      · have hbyte : ofSignals (.byte a :: rest.map .byte) =
            extend [a] (ofSignals (rest.map .byte)) := by
          refine ofSignals_byte hnewline fun ha hhead => hend ⟨ha, ?_⟩
          simpa [List.head?_map] using hhead
        have hchar : Text.lines (Char.ofNat a.toNat :: text) =
            Text.extend (Char.ofNat a.toNat) text.lines := by
          refine Text.lines_cons (fun hc => hnewline ?_) fun hc hhead => hend ⟨?_, ?_⟩
          · exact (Utf8.ofNat_inj_ascii (b := 0x0A) low (by decide)).1 hc
          · exact (Utf8.ofNat_inj_ascii (b := 0x0D) low (by decide)).1 hc
          · exact hothers.head?_newline.1 hhead
        rw [hchar]
        change List.Forall₂ Holds (ofSignals (.byte a :: rest.map .byte)) _
        rw [hbyte]
        exact holds_extend (.ascii low) ih

/-- Bytes that are UTF-8 give the lines of their text. -/
theorem Source.ofBytes_eq_ofText {bytes : List UInt8} {text : Text}
    (h : Utf8.decode? bytes = some text) : ofBytes bytes = ofText text := by
  rw [ofBytes, ofSignals, ofText]
  have hall := Stretch.holds_lines (Utf8.encoded_of_decode? h)
  generalize Stretch.ofSignals (bytes.map .byte) = stretches at hall ⊢
  generalize text.lines = lines at hall ⊢
  induction hall with
  | nil => rfl
  | cons hfirst _ ih =>
    obtain ⟨first, rfl, hline⟩ := hfirst
    rw [List.map_cons, List.map_cons, ih, Stretch.toReading, Utf8.decode?_eq_some_iff.2 hline]
    rfl

end LogicTest
