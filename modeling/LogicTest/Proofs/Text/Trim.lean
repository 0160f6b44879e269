import Mathlib.Data.List.DropRight
import LogicTest.Text.Basic

/-!
# Trimming and tokens

Trimming is described by the ends of a text: a text is trimmed if it neither begins nor ends with a
blank. A token and what follows it are found again when they are written one after the other.
-/
namespace LogicTest.Text

/-- Neither the first nor the last character is blank. -/
def Trimmed (text : Text) : Prop := text.trim = text

theorem trimEnd_eq_rdropWhile (text : Text) : text.trimEnd = text.rdropWhile isBlank := rfl

theorem prefix_trimEnd (text : Text) : text.trimEnd <+: text := text.rdropWhile_prefix isBlank

theorem trimStart_suffix (text : Text) : text.trimStart <:+ text := List.dropWhile_suffix _

theorem mem_of_mem_trim {c : Char} {text : Text} (h : c ∈ text.trim) : c ∈ text :=
  (trimStart_suffix text).subset ((prefix_trimEnd _).subset h)

theorem trimEnd_trimEnd (text : Text) : text.trimEnd.trimEnd = text.trimEnd :=
  List.rdropWhile_idempotent isBlank text

theorem trimEnd_eq_self_iff {text : Text} :
    text.trimEnd = text ↔ ∀ c ∈ text.getLast?, isBlank c = false := by
  rw [trimEnd_eq_rdropWhile, List.rdropWhile_eq_self_iff]
  cases text using List.reverseRecOn with
  | nil => simp
  | append_singleton init last => simp

theorem trimStart_eq_self_iff {text : Text} :
    text.trimStart = text ↔ ∀ c ∈ text.head?, isBlank c = false := by
  cases text with
  | nil => simp [trimStart]
  | cons c rest =>
    cases h : isBlank c with
    | false => simp [trimStart, h]
    | true =>
      have hlength := (List.dropWhile_sublist isBlank (l := rest)).length_le
      have : rest.dropWhile isBlank ≠ c :: rest := fun heq => by
        simp only [heq, List.length_cons] at hlength
        omega
      simp [trimStart, h, this]

theorem head?_trimEnd {text : Text} (h : text.trimEnd ≠ []) : text.trimEnd.head? = text.head? := by
  obtain ⟨rest, hrest⟩ := prefix_trimEnd text
  conv_rhs => rw [← hrest, List.head?_append_of_ne_nil _ h]

theorem head?_trimStart (text : Text) : ∀ c ∈ text.trimStart.head?, isBlank c = false := by
  intro c hc
  have := List.head?_dropWhile_not isBlank text
  simp only [trimStart, Option.mem_def] at hc
  rw [hc] at this
  simpa using this

theorem trimmed_iff {text : Text} :
    text.Trimmed ↔
      (∀ c ∈ text.head?, isBlank c = false) ∧ ∀ c ∈ text.getLast?, isBlank c = false := by
  rw [← trimStart_eq_self_iff, ← trimEnd_eq_self_iff]
  refine ⟨fun h => ?_, fun ⟨hstart, hend⟩ => by rw [Trimmed, trim, hstart, hend]⟩
  have hend : text.trimEnd = text := by rw [← h, trim, trimEnd_trimEnd]
  refine ⟨?_, hend⟩
  by_cases hempty : text.trimStart.trimEnd = []
  · rw [Trimmed, trim, hempty] at h
    rw [← h]
    rfl
  · rw [trimStart_eq_self_iff]
    have hhead := head?_trimEnd hempty
    rw [show text.trimStart.trimEnd = text from h] at hhead
    rw [hhead]
    exact head?_trimStart text

theorem trimmed_trim (text : Text) : text.trim.Trimmed := by
  refine trimmed_iff.2 ⟨?_, trimEnd_eq_self_iff.1 (trimEnd_trimEnd _)⟩
  by_cases hempty : text.trim = []
  · simp [hempty]
  · rw [trim, head?_trimEnd hempty]
    exact head?_trimStart text

theorem Trimmed.trimEnd {text : Text} (h : text.Trimmed) : text.trimEnd = text :=
  trimEnd_eq_self_iff.2 (trimmed_iff.1 h).2

theorem Trimmed.trimStart {text : Text} (h : text.Trimmed) : text.trimStart = text :=
  trimStart_eq_self_iff.2 (trimmed_iff.1 h).1

/-- Two texts one after the other, of which the first begins and the second ends without a blank. -/
theorem trimmed_append {one two : Text} (hone : ∀ c ∈ one.head?, isBlank c = false)
    (hone_ne : one ≠ []) (htwo : ∀ c ∈ two.getLast?, isBlank c = false) (htwo_ne : two ≠ []) :
    Trimmed (one ++ two) := by
  rw [trimmed_iff, List.head?_append_of_ne_nil _ hone_ne, List.getLast?_append_of_ne_nil _ htwo_ne]
  exact ⟨hone, htwo⟩

theorem trimEnd_append {one : Text} (h : one.trimEnd = one) (two : Text) :
    Text.trimEnd (one ++ two) = one ++ Text.trimEnd two := by
  induction two using List.reverseRecOn with
  | nil =>
    rw [List.append_nil, h]
    exact (List.append_nil _).symm
  | append_singleton init last ih =>
    rw [← List.append_assoc, trimEnd_eq_rdropWhile, trimEnd_eq_rdropWhile]
    cases hlast : isBlank last with
    | true =>
      rw [List.rdropWhile_concat_pos _ _ _ hlast, List.rdropWhile_concat_pos _ _ _ hlast]
      exact ih
    | false =>
      have hlast : ¬ isBlank last = true := by simp [hlast]
      rw [List.rdropWhile_concat_neg _ _ _ hlast, List.rdropWhile_concat_neg _ _ _ hlast,
        List.append_assoc]

theorem map_trim_eq_self {lines : List Text} (h : ∀ line ∈ lines, Trimmed line) :
    lines.map Text.trim = lines := by
  induction lines with
  | nil => rfl
  | cons line lines ih =>
    obtain ⟨hline, hlines⟩ := List.forall_mem_cons.1 h
    rw [List.map_cons, hline, ih hlines]

theorem trim_eq_nil_iff {text : Text} : text.trim = [] ↔ ∀ c ∈ text, isBlank c = true := by
  rw [trim, trimEnd_eq_rdropWhile, List.rdropWhile_eq_nil_iff]
  refine ⟨fun h => ?_, fun h c hc => h c ((trimStart_suffix text).subset hc)⟩
  have hstart : text.trimStart = [] := by
    cases hstart : text.trimStart with
    | nil => rfl
    | cons c rest =>
      have hc := head?_trimStart text c (by simp [hstart])
      rw [h c (by simp [hstart])] at hc
      cases hc
  exact List.dropWhile_eq_nil_iff.1 hstart

/-- What the end of a trimmed text holds is not all blank. -/
theorem Trimmed.trim_ne_nil {init rest : Text} (h : Trimmed (init ++ rest)) (hrest : rest ≠ []) :
    rest.trim ≠ [] := by
  intro hnil
  obtain ⟨last, hlast⟩ := Option.ne_none_iff_exists'.1 fun hnone =>
    hrest (List.getLast?_eq_none_iff.1 hnone)
  have hblank := trim_eq_nil_iff.1 hnil last (List.mem_of_getLast? hlast)
  rw [(trimmed_iff.1 h).2 last (by simp [List.getLast?_append, hlast])] at hblank
  cases hblank

theorem trimStart_ne_nil {text : Text} (h : text.trim ≠ []) : text.trimStart ≠ [] := by
  intro hnil
  apply h
  rw [trim, hnil]
  rfl

theorem trimStart_append {one : Text} (h : one.trim ≠ []) (two : Text) :
    trimStart (one ++ two) = one.trimStart ++ two := by
  have hstart : ¬ one.trimStart.isEmpty := by
    rw [List.isEmpty_iff]
    exact trimStart_ne_nil h
  exact List.dropWhile_append.trans (if_neg hstart)

theorem trim_concat_blank {c : Char} (h : isBlank c = true) (text : Text) :
    trim (text ++ [c]) = text.trim := by
  by_cases hblank : text.trim = []
  · have hall := trim_eq_nil_iff.1 hblank
    rw [hblank, trim_eq_nil_iff]
    simpa [or_imp, forall_and, h] using hall
  · rw [trim, trimStart_append hblank, trimEnd_eq_rdropWhile, List.rdropWhile_concat_pos _ _ _ h]
    rfl

/-- Where a text is cut off, the blanks at its end make no difference to what is left of it. -/
theorem trimEnd_takeWhile_trimEnd (p : Char → Bool) (text : Text) :
    Text.trimEnd (text.trimEnd.takeWhile p) = Text.trimEnd (text.takeWhile p) := by
  induction text using List.reverseRecOn with
  | nil => rfl
  | append_singleton init last ih =>
    cases hlast : isBlank last with
    | false =>
      have hend : Text.trimEnd (init ++ [last]) = init ++ [last] :=
        trimEnd_eq_self_iff.2 (by simpa using hlast)
      rw [hend]
    | true =>
      have hblank : Text.trimEnd (init ++ [last]) = Text.trimEnd init :=
        List.rdropWhile_concat_pos isBlank init last hlast
      rw [hblank, ih, List.takeWhile_append]
      split
      next hlength =>
        rw [(List.takeWhile_prefix p).eq_of_length hlength]
        cases hp : p last with
        | false => simp [hp]
        | true => simp [hp, hblank]
      · rfl

theorem trimStart_cons_blank {c : Char} (h : isBlank c = true) (text : Text) :
    trimStart (c :: text) = text.trimStart := by
  simp [trimStart, h]

theorem trim_cons_blank {c : Char} (h : isBlank c = true) (text : Text) :
    trim (c :: text) = text.trim := by
  rw [trim, trimStart_cons_blank h, trim]

/-- A trimmed text that a space comes before is found again behind it. -/
theorem Trimmed.trim_trimEnd_cons {text : Text} (h : text.Trimmed) :
    Text.trim (Text.trimEnd (' ' :: text)) = text := by
  by_cases hempty : text = []
  · subst hempty
    rfl
  · have hend : Text.trimEnd (' ' :: text) = ' ' :: text := by
      rw [trimEnd_eq_self_iff, List.getLast?_cons_of_ne_nil hempty]
      exact (trimmed_iff.1 h).2
    rw [hend, trim_cons_blank (by decide)]
    exact h

theorem trimStart_append_of_blank {gap : Text} (h : ∀ c ∈ gap, isBlank c = true) (text : Text) :
    trimStart (gap ++ text) = text.trimStart := by
  simp [trimStart, List.dropWhile_append_of_pos h]

/-- What follows a token: nothing, or a blank and more. -/
def EndsToken (rest : Text) : Prop := ∀ c ∈ rest.head?, isBlank c = true

theorem splitToken_append {token rest : Text} (htoken : ∀ c ∈ token, isBlank c = false)
    (hrest : EndsToken rest) : splitToken (token ++ rest) = (token, rest) := by
  have hpos : ∀ c ∈ token, (!isBlank c) = true := by simpa using htoken
  rw [splitToken, List.takeWhile_append_of_pos hpos, List.dropWhile_append_of_pos hpos]
  cases rest with
  | nil => simp
  | cons c rest =>
    have hc : isBlank c = true := hrest c rfl
    simp [hc]

theorem splitToken_fst_append_snd (text : Text) :
    (splitToken text).1 ++ (splitToken text).2 = text := List.takeWhile_append_dropWhile

theorem endsToken_splitToken (text : Text) : EndsToken (splitToken text).2 := by
  intro c hc
  have := List.head?_dropWhile_not (fun c => !isBlank c) text
  simp only [splitToken, Option.mem_def] at hc
  rw [hc] at this
  simpa using this

end LogicTest.Text
