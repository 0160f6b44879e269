import LogicTest.Cursor.Basic
import LogicTest.Proofs.Text.Cut
import LogicTest.Proofs.Text.Utf8

/-!
# Cutting encoded text

A search finds a marker by its bytes, and gives the offset of the first of them. If the marker is
ASCII, that is where a character begins (`exists_of_standsAt`), so the bytes can be cut
there, before and behind the marker: both parts are those of texts, and the texts are those that
`Text.cutAround?` gives. So every cut that is made in a line is one between characters.
-/
namespace LogicTest.Utf8

/-- The bytes of `needle` stand in `bytes` at this offset. -/
def StandsAt (needle bytes : List UInt8) (offset : Nat) : Prop := needle <+: bytes.drop offset

/-- A search for `needle` finds it at this offset. -/
structure FirstAt (needle bytes : List UInt8) (offset : Nat) : Prop where
  stands : StandsAt needle bytes offset
  first : ∀ other, StandsAt needle bytes other → offset ≤ other

/-- The offset lies within the bytes and between two characters: the bytes before it are those of
one text, and the others those of another. -/
structure CutsInto (bytes : List UInt8) (offset : Nat) (before after : Text) : Prop where
  within : offset ≤ bytes.length
  before_eq : decode? (bytes.take offset) = some before
  after_eq : decode? (bytes.drop offset) = some after

/-! ## Parts of encoded text -/

theorem Encoded.cutsInto {one two : List UInt8} {before after : Text} (h : Encoded one before)
    (h' : Encoded two after) : CutsInto (one ++ two) one.length before after where
  within := by simp
  before_eq := by rw [List.take_left, decode?_eq_some_iff]; exact h
  after_eq := by rw [List.drop_left, decode?_eq_some_iff]; exact h'

theorem Encoded.append {one two : List UInt8} {before after : Text} (h : Encoded one before)
    (h' : Encoded two after) : Encoded (one ++ two) (before ++ after) := by
  rw [← decode?_eq_some_iff, h.decode?_append, decode?_eq_some_iff.2 h']
  rfl

/-- A part of a text has a part of its bytes. -/
theorem Encoded.exists_split {bytes : List UInt8} {one two : Text}
    (h : Encoded bytes (one ++ two)) :
    ∃ first rest, bytes = first ++ rest ∧ Encoded first one ∧ Encoded rest two := by
  induction one generalizing bytes with
  | nil => exact ⟨[], bytes, rfl, .nil, h⟩
  | cons c one ih =>
    cases h with
    | cons hfirst hothers =>
      obtain ⟨middle, rest, rfl, hone, htwo⟩ := ih hothers
      exact ⟨_, rest, (List.append_assoc _ _ _).symm, .cons hfirst hone, htwo⟩

theorem Encoded.eq_nil {bytes : List UInt8} (h : Encoded bytes []) : bytes = [] := by
  cases h
  rfl

theorem Encoded.ne_nil {bytes : List UInt8} {text : Text} (h : Encoded bytes text)
    (hne : text ≠ []) : bytes ≠ [] := by
  cases h with
  | nil => exact absurd rfl hne
  | cons hfirst _ => exact List.append_ne_nil_of_left_ne_nil hfirst.ne_nil _

/-- Bytes that encode the same text and begin the same bytes are the same. -/
theorem Encoded.eq_of_prefix {one two bytes : List UInt8} {text : Text} (h : Encoded one text)
    (h' : Encoded two text) (hone : one <+: bytes) (htwo : two <+: bytes) : one = two := by
  have hlonger : ∀ {short rest : List UInt8}, Encoded short text → Encoded (short ++ rest) text →
      short = short ++ rest := by
    intro short rest hshort hlong
    rw [← decode?_eq_some_iff, hshort.decode?_append] at hlong
    obtain ⟨others, hothers, happend⟩ := Option.map_eq_some_iff.1 hlong
    obtain rfl : others = [] := by simpa using happend
    rw [(decode?_eq_some_iff.1 hothers).eq_nil, List.append_nil]
  rcases List.prefix_or_prefix_of_prefix hone htwo with ⟨rest, rfl⟩ | ⟨rest, rfl⟩
  · exact hlonger h h'
  · exact (hlonger h' h).symm

/-- Of two beginnings of the same bytes, the one with the longer text is longer. -/
theorem Encoded.length_lt {long short bytes : List UInt8} {one two : Text} (h : Encoded long one)
    (h' : Encoded short two) (hlong : long <+: bytes) (hshort : short <+: bytes)
    (hpart : two <+: one)
    (hlt : two.length < one.length) : short.length < long.length := by
  obtain ⟨others, rfl⟩ := hpart
  obtain ⟨first, rest, rfl, hfirst, hrest⟩ := h.exists_split
  obtain rfl := h'.eq_of_prefix hfirst hshort ((List.prefix_append _ _).trans hlong)
  have hne : rest ≠ [] := hrest.ne_nil (by
    rintro rfl
    simp at hlt)
  simpa using List.length_pos_of_ne_nil hne

/-- An ASCII text is encoded in one way. -/
theorem Encoded.eq_of_low {needle other : List UInt8} {marker : Text} (h : Encoded needle marker)
    (low : ∀ b ∈ needle, b < 0x80) (h' : Encoded other marker) : other = needle := by
  induction h generalizing other with
  | nil => exact h'.eq_nil
  | @cons bytes rest c text hfirst _ ih =>
    obtain ⟨b, hb⟩ := List.exists_mem_of_ne_nil _ hfirst.ne_nil
    have hlow := low b (List.mem_append_left _ hb)
    obtain ⟨rfl, rfl⟩ := hfirst.eq_of_mem hlow hb
    cases h' with
    | cons hother hothers =>
      rw [hother.eq_singleton hlow,
        ih (fun b hb => low b (List.mem_append_right _ hb)) hothers]

/-! ## Where a marker stands -/

section
variable {needle bytes : List UInt8} {marker text : Text} {offset : Nat}
  (hneedle : Encoded needle marker) (low : ∀ b ∈ needle, b < 0x80) (ne_nil : needle ≠ [])
  (h : Encoded bytes text)
include hneedle low ne_nil h

/-- ASCII bytes stand at the beginning of a character only. -/
theorem exists_of_standsAt (hstands : StandsAt needle bytes offset) :
    ∃ one two before after, bytes = one ++ (needle ++ two) ∧ one.length = offset ∧
      Encoded one before ∧ Encoded two after := by
  induction h generalizing offset with
  | nil =>
    rw [StandsAt, List.drop_nil] at hstands
    exact absurd (List.prefix_nil.1 hstands) ne_nil
  | @cons first rest c text hfirst hothers ih =>
    by_cases hinside : offset < first.length
    · cases offset with
      | zero =>
        obtain ⟨two, htwo⟩ := hstands
        have hall := decode?_eq_some_iff.2 (Encoded.cons hfirst hothers)
        rw [List.drop_zero] at htwo
        rw [← htwo, hneedle.decode?_append] at hall
        obtain ⟨after, hafter, -⟩ := Option.map_eq_some_iff.1 hall
        exact ⟨[], two, [], after, htwo.symm, rfl, .nil, decode?_eq_some_iff.1 hafter⟩
      | succ offset =>
        -- the first byte of the needle would stand inside a character
        exfalso
        obtain ⟨b, others, rfl⟩ := List.exists_cons_of_ne_nil ne_nil
        have hlow := low b List.mem_cons_self
        have hb : first[offset + 1] = b := by
          obtain ⟨two, htwo⟩ := hstands
          have hhead := congrArg List.head? htwo
          rw [List.head?_drop, List.getElem?_append_left hinside,
            List.getElem?_eq_getElem hinside] at hhead
          exact (Option.some.inj hhead).symm
        have hsingle := (hfirst.eq_of_mem hlow (hb ▸ List.getElem_mem hinside)).1
        rw [hsingle] at hinside
        exact absurd hinside (by simp)
    · have hle : first.length ≤ offset := Nat.le_of_not_lt hinside
      have hrest : StandsAt needle rest (offset - first.length) := by
        rwa [StandsAt, List.drop_append, List.drop_eq_nil_of_le hle, List.nil_append] at hstands
      obtain ⟨one, two, before, after, rfl, hone, hbefore, hafter⟩ := ih hrest
      refine ⟨first ++ one, two, c :: before, after, (List.append_assoc _ _ _).symm, ?_,
        .cons hfirst hbefore, hafter⟩
      rw [List.length_append, hone, Nat.add_sub_cancel' hle]

/-- Where the marker stands in the text, its bytes stand behind those of what comes before. -/
theorem exists_standsAt {before after : Text} (heq : text = before ++ marker ++ after) :
    ∃ first, Encoded first before ∧ first <+: bytes ∧ StandsAt needle bytes first.length := by
  rw [heq, List.append_assoc] at h
  obtain ⟨first, others, rfl, hfirst, hothers⟩ := h.exists_split
  obtain ⟨middle, rest, rfl, hmiddle, -⟩ := hothers.exists_split
  obtain rfl := hneedle.eq_of_low low hmiddle
  refine ⟨first, hfirst, List.prefix_append _ _, rest, ?_⟩
  rw [List.drop_left]

/-- The text is not cut if the bytes of the marker are not found. -/
theorem cutAround?_of_not_standsAt (hnone : ∀ offset, ¬ StandsAt needle bytes offset) :
    Text.cutAround? marker text = none := by
  rw [Text.cutAround?_eq_none_iff]
  rintro ⟨before, after, heq⟩
  obtain ⟨first, -, -, hstands⟩ := exists_standsAt hneedle low ne_nil h heq.symm
  exact hnone _ hstands

/-- Where the bytes of the marker are found first, the text is cut. -/
theorem cut_of_firstAt (hfirst : FirstAt needle bytes offset) :
    ∃ before after, Text.cutAround? marker text = some (before, after) ∧
      CutsInto bytes offset before (marker ++ after) ∧
      CutsInto bytes (offset + needle.length) (before ++ marker) after := by
  obtain ⟨one, two, before, after, rfl, rfl, hone, htwo⟩ :=
    exists_of_standsAt hneedle low ne_nil h hfirst.stands
  have hbehind := (hone.append hneedle).cutsInto htwo
  rw [List.append_assoc, List.length_append] at hbehind
  refine ⟨before, after, ?_, hone.cutsInto (hneedle.append htwo), hbehind⟩
  have htext : text = before ++ marker ++ after := by
    have hall := decode?_eq_some_iff.2 (hone.append (hneedle.append htwo))
    rw [decode?_eq_some_iff.2 h, ← List.append_assoc] at hall
    exact Option.some.inj hall
  refine Text.cutAround?_eq_some_iff.2 ⟨htext, fun before' after' htext' => ?_⟩
  obtain ⟨first, hbefore', hprefix, hstands⟩ := exists_standsAt hneedle low ne_nil h htext'
  by_contra hshorter
  have hpart : before' <+: before := by
    have hbefore : before' <+: text := ⟨marker ++ after', by rw [htext', List.append_assoc]⟩
    have hleft : before <+: text := ⟨marker ++ after, by rw [htext, List.append_assoc]⟩
    exact List.prefix_of_prefix_length_le hbefore hleft (Nat.le_of_not_le hshorter)
  have hlt := hone.length_lt hbefore' (List.prefix_append _ _) hprefix hpart
    (Nat.lt_of_not_le hshorter)
  exact absurd (hfirst.first _ hstands) (Nat.not_le.2 hlt)

end

/-! ## The cuts that are made in a line -/

/-- Every cut that is made in a line lies between two of its characters. A comment is cut off at the
first number sign; the line of a digest is cut before and behind the words that mark it; and the
words of a header are cut off one after the other. -/
structure SafelyCut (bytes : List UInt8) (text : Text) : Prop where
  comment : ∀ offset, FirstAt (encode ['#']) bytes offset → ∃ before after,
    CutsInto bytes offset before after ∧ withoutComment text = before.trimEnd ∧
    (isComment text ↔ offset = 0)
  no_comment : (∀ offset, ¬ StandsAt (encode ['#']) bytes offset) →
    withoutComment text = text ∧ ¬ isComment text
  digest : ∀ offset, FirstAt (encode digestMarker) bytes offset → ∃ before after,
    Text.cutAround? digestMarker text = some (before, after) ∧
    CutsInto bytes offset before (digestMarker ++ after) ∧
    CutsInto bytes (offset + (encode digestMarker).length) (before ++ digestMarker) after
  no_digest : (∀ offset, ¬ StandsAt (encode digestMarker) bytes offset) →
    Text.cutAround? digestMarker text = none
  token : ∃ offset, CutsInto bytes offset text.splitToken.1 text.splitToken.2

/-- A comment is cut off where the number sign is found. -/
theorem withoutComment_of_cutsAt {text before after : Text}
    (h : Text.CutsAt ['#'] text before after) :
    withoutComment text = before.trimEnd ∧ (isComment text ↔ before = []) := by
  have hsharp : ∀ c ∈ before, c ≠ '#' := by
    rintro c hmem rfl
    obtain ⟨one, two, rfl⟩ := List.append_of_mem hmem
    have hfirst := h.first one (two ++ '#' :: after) (by simp [h.eq_append])
    rw [List.length_append, List.length_cons] at hfirst
    omega
  obtain rfl := h.eq_append
  constructor
  · rw [withoutComment, if_pos (by simp), List.append_assoc,
      List.takeWhile_append_of_pos fun c hc => decide_eq_true (hsharp c hc), List.singleton_append,
      List.takeWhile_cons_of_neg (by simp), List.append_nil]
  · cases before with
    | nil => simp [isComment]
    | cons c before => simp [isComment, hsharp c List.mem_cons_self]

/-- Every line of a source is safely cut. -/
theorem safelyCut_of_decode? {bytes : List UInt8} {text : Text}
    (hbytes : decode? bytes = some text) :
    SafelyCut bytes text := by
  have h := encoded_of_decode? hbytes
  have lowSharp : ∀ b ∈ encode ['#'], b < 0x80 := by decide +kernel
  have lowMarker : ∀ b ∈ encode digestMarker, b < 0x80 := by decide +kernel
  have sharp_ne_nil : encode ['#'] ≠ [] := by decide +kernel
  have marker_ne_nil : encode digestMarker ≠ [] := by decide +kernel
  refine ⟨fun offset hfirst => ?_, fun hnone => ?_,
    fun offset => cut_of_firstAt (encoded_encode _) lowMarker marker_ne_nil h,
    cutAround?_of_not_standsAt (encoded_encode _) lowMarker marker_ne_nil h, ?_⟩
  · obtain ⟨before, after, hcut, hbefore, -⟩ :=
      cut_of_firstAt (encoded_encode _) lowSharp sharp_ne_nil h hfirst
    obtain ⟨hline, hcomment⟩ := withoutComment_of_cutsAt (Text.cutAround?_eq_some_iff.1 hcut)
    refine ⟨before, _, hbefore, hline, hcomment.trans ?_⟩
    have hencoded := encoded_of_decode? hbefore.before_eq
    constructor
    · rintro rfl
      have hlength := congrArg List.length hencoded.eq_nil
      rw [List.length_take_of_le hbefore.within] at hlength
      exact hlength
    · rintro rfl
      by_contra hne
      exact hencoded.ne_nil hne List.take_zero
  · have hcut := cutAround?_of_not_standsAt (encoded_encode _) lowSharp sharp_ne_nil h hnone
    have hmem : '#' ∉ text := fun hmem => by
      rw [Text.cutAround?_eq_none_iff] at hcut
      obtain ⟨before, after, rfl⟩ := List.append_of_mem hmem
      exact hcut ⟨before, after, by simp⟩
    refine ⟨if_neg hmem, fun hcomment => hmem ?_⟩
    exact List.mem_of_mem_head? (beq_iff_eq.1 hcomment)
  · have hsplit : text = text.splitToken.1 ++ text.splitToken.2 :=
      List.takeWhile_append_dropWhile.symm
    rw [hsplit] at h
    obtain ⟨one, two, rfl, hone, htwo⟩ := h.exists_split
    exact ⟨one.length, hone.cutsInto htwo⟩

end LogicTest.Utf8
