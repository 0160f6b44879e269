import Mathlib.Data.List.Forall2
import LogicTest.Proofs.Division.Trimmed
import LogicTest.Proofs.Source

/-!
# Line ends

A carriage return before a line end makes no difference. One is dropped with the line feed; if the
line had one already, the other stays at the end of the line, where it is trimmed, and a line that
is not UTF-8 is none with it either. So each line of a stream reads as before when its line feeds
become line ends of two bytes, and the failures of the stream stay where they are
(`parse_of_trimmed_lines`).
-/
namespace LogicTest

/-- The signal, with a carriage return before it if it is a line feed. -/
def Signal.withReturn : Signal → List Signal
  | .byte 0x0A => [.byte 0x0D, .byte 0x0A]
  | signal => [signal]

namespace Stretch

/-- What becomes of a stretch when line ends get a carriage return: nothing, or one stays in it. -/
inductive Returned : Stretch → Stretch → Prop where
  | same (stretch : Stretch) : Returned stretch stretch
  | kept (line : List UInt8) : Returned (.bytes line) (.bytes (line ++ [0x0D]))

theorem Returned.trimmed_eq {one two : Stretch} (h : Returned one two) :
    one.toReading.trimmed = two.toReading.trimmed := by
  cases h with
  | same => rfl
  | kept line =>
    rw [toReading, toReading, Utf8.decode?_concat (by decide)]
    cases Utf8.decode? line with
    | none => rfl
    | some text =>
      have htrim : Text.trim (text ++ ['\r']) = text.trim := Text.trim_concat_blank (by decide) text
      exact congrArg Reading.line htrim.symm

theorem returned_extend {one two : List Stretch} (h : List.Forall₂ Returned one two)
    (bytes : List UInt8) :
    List.Forall₂ Returned (Stretch.extend bytes one) (Stretch.extend bytes two) := by
  cases h with
  | nil => exact .cons (.same _) .nil
  | @cons first _ _ _ hfirst hmore =>
    cases hfirst with
    | same => cases first <;> exact .cons (.same _) hmore
    | kept line =>
      rw [Stretch.extend, Stretch.extend, ← List.append_assoc]
      exact .cons (.kept _) hmore

theorem withReturn_of_ne {b : UInt8} (h : b ≠ 0x0A) :
    Signal.withReturn (.byte b) = [.byte b] := by
  rw [Signal.withReturn]
  rintro ⟨⟩
  exact h rfl

/-- With a carriage return before each line feed, no line feed comes first. -/
theorem head?_withReturn (signals : List Signal) :
    (signals.flatMap Signal.withReturn).head? ≠ some (.byte 0x0A) := by
  cases signals with
  | nil => nofun
  | cons signal rest =>
    rw [List.flatMap_cons]
    unfold Signal.withReturn
    split
    · simp
    next h => simpa using h

/-- A stream is cut into the same stretches when its line feeds get a carriage return, but for the
carriage returns that were there before. -/
theorem returned_withReturn (signals : List Signal) :
    List.Forall₂ Returned (ofSignals signals) (ofSignals (signals.flatMap Signal.withReturn)) := by
  induction signals with
  | nil => exact .nil
  | cons signal rest ih =>
    rw [List.flatMap_cons]
    cases signal with
    | failure reason => exact .cons (.same _) ih
    | byte b =>
      by_cases hnewline : b = 0x0A
      · subst hnewline
        exact .cons (.same _) ih
      · rw [withReturn_of_ne hnewline, List.singleton_append,
          ofSignals_byte hnewline fun _ => head?_withReturn rest]
        by_cases hend : b = 0x0D ∧ rest.head? = some (.byte 0x0A)
        · obtain ⟨rfl, hhead⟩ := hend
          obtain ⟨more, rfl⟩ := List.head?_eq_some_iff.1 hhead
          -- what was dropped with the line feed before is now in front of another carriage return
          cases ih with
          | cons _ hmore => exact .cons (.kept []) hmore
        · rw [ofSignals_byte hnewline fun hb hhead => hend ⟨hb, hhead⟩]
          exact returned_extend ih [b]

end Stretch

theorem trimmed_withReturn (signals : List Signal) :
    (Source.ofSignals signals).trimmed =
      (Source.ofSignals (signals.flatMap Signal.withReturn)).trimmed := by
  rw [Source.ofSignals, Source.ofSignals, Source.trimmed, Source.trimmed, List.map_map,
    List.map_map]
  have hreturned := Stretch.returned_withReturn signals
  generalize Stretch.ofSignals signals = one at hreturned ⊢
  generalize Stretch.ofSignals (signals.flatMap Signal.withReturn) = two at hreturned ⊢
  induction hreturned with
  | nil => rfl
  | cons hfirst _ ih => exact congrArg₂ List.cons hfirst.trimmed_eq ih

theorem trimmed_ofText (text : Text) :
    (Source.ofText text).trimmed = (text.lines.map Text.trim).map .line := by
  rw [Source.ofText, Source.trimmed, List.map_map, List.map_map]
  rfl

/-- Only the trimmed lines of a script matter: texts that have the same ones are parsed alike. So
are two streams that differ in the line ends only, whatever they hold and wherever they fail. -/
theorem parse_of_trimmed_lines (policy : Policy) (name : Text) :
    (∀ one two : Text, one.lines.map Text.trim = two.lines.map Text.trim →
      (parseText policy name one).Agrees (parseText policy name two)) ∧
    ∀ signals : List Signal,
      (parse policy name (.ofSignals signals)).Agrees
        (parse policy name (.ofSignals (signals.flatMap Signal.withReturn))) := by
  constructor
  · intro one two h
    apply agrees_of_trimmed_eq
    rw [trimmed_ofText, trimmed_ofText, h]
  · exact fun signals => agrees_of_trimmed_eq policy name (trimmed_withReturn signals)

/-- Blanks around a line, and the carriage return of a line end, are not looked at. -/
theorem parse_of_trimmed_lines_tab :
    let one : Text := "statement ok\r\n\tselect 1\n".toList
    let two : Text := " statement ok\nselect 1 ".toList
    one.lines.map Text.trim = two.lines.map Text.trim ∧
      (parseText .keepAll [] one).Agrees (parseText .keepAll [] two) ∧
      (parseText .keepAll [] one).result =
        .ok ⟨[], [.statement "select 1".toList true], 0, none, false⟩ := by
  intro one two
  have hlines : one.lines.map Text.trim = two.lines.map Text.trim := by decide +kernel
  exact ⟨hlines, (parse_of_trimmed_lines .keepAll []).1 one two hlines,
    parse_eq_ok_iff.2 ⟨by decide +kernel, by decide +kernel⟩⟩

end LogicTest
