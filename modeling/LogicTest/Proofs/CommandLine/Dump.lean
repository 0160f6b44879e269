import LogicTest.CommandLine.Run
import LogicTest.Proofs.Json

/-!
# Dumped scripts

The documents of scripts, printed one after the other, determine the scripts: the document of a
script holds every part of it in a form of its own, and no document begins like another one.
Main statement: `dumps_determine_scripts`.
-/
namespace LogicTest

theorem Column.name_inj {one two : Column} (h : one.name = two.name) : one = two := by
  cases one <;> cases two <;> first | rfl | exact absurd h (by decide)

theorem SortOrder.name_inj {one two : SortOrder} (h : one.name = two.name) : one = two := by
  cases one <;> cases two <;> first | rfl | exact absurd h (by decide)

theorem Column.toJson_inj {one two : Column} (h : one.toJson = two.toJson) : one = two :=
  Column.name_inj (Json.string.inj h)

theorem SortOrder.toJson_inj {one two : SortOrder} (h : one.toJson = two.toJson) : one = two :=
  SortOrder.name_inj (Json.string.inj h)

/-- An optional part is there or not, and what it is if it is there. -/
theorem Json.optional_inj {α : Type} {f : α → Json} (hf : Function.Injective f)
    (hnull : ∀ a, f a ≠ .null) {one two : Option α}
    (h : Json.optional (one.map f) = .optional (two.map f)) : one = two := by
  cases one with
  | none =>
    cases two with
    | none => rfl
    | some b => exact absurd h.symm (hnull b)
  | some a =>
    cases two with
    | none => exact absurd h (hnull a)
    | some b => rw [hf h]

theorem Json.array_map_inj {α : Type} {f : α → Json} (hf : Function.Injective f) {one two : List α}
    (h : Json.array (one.map f) = .array (two.map f)) : one = two :=
  List.map_injective_iff.2 hf (Json.array.inj h)

theorem Expectation.toJson_inj {one two : Expectation} (h : one.toJson = two.toJson) :
    one = two := by
  cases one with
  | values lines =>
    cases two with
    | values others =>
      simp only [toJson, Json.object.injEq, List.cons.injEq, Prod.mk.injEq, true_and, and_true] at h
      rw [Json.array_map_inj (fun _ _ => Json.string.inj) h]
    | digest count text =>
      simp only [toJson, Json.object.injEq, List.cons.injEq, Prod.mk.injEq] at h
      exact absurd h.1.1 (by decide)
  | digest count text =>
    cases two with
    | values others =>
      simp only [toJson, Json.object.injEq, List.cons.injEq, Prod.mk.injEq] at h
      exact absurd h.1.1 (by decide)
    | digest other another =>
      simp only [toJson, Json.object.injEq, List.cons.injEq, Prod.mk.injEq, Json.number.injEq,
        Json.string.injEq, true_and, and_true] at h
      rw [h.1, h.2]

theorem Output.toJson_inj {one two : Output} (h : one.toJson = two.toJson) : one = two := by
  simp only [toJson, Json.object.injEq, List.cons.injEq, Prod.mk.injEq, true_and, and_true] at h
  obtain ⟨hcolumns, horder, hexpected⟩ := h
  rw [Output.mk.injEq]
  exact ⟨Json.array_map_inj (fun _ _ => Column.toJson_inj) hcolumns, SortOrder.toJson_inj horder,
    Expectation.toJson_inj hexpected⟩

theorem Operation.toJson_inj {one two : Operation} (h : one.toJson = two.toJson) : one = two := by
  cases one with
  | statement sql succeeds =>
    cases two with
    | statement other others =>
      simp only [toJson, Json.object.injEq, List.cons.injEq, Prod.mk.injEq, Json.string.injEq,
        Json.bool.injEq, true_and, and_true] at h
      rw [h.1, h.2]
    | query other line output label =>
      simp only [toJson, Json.object.injEq, List.cons.injEq, Prod.mk.injEq, Json.string.injEq,
        true_and] at h
      exact absurd h.1 (by decide)
  | query sql line output label =>
    cases two with
    | statement other others =>
      simp only [toJson, Json.object.injEq, List.cons.injEq, Prod.mk.injEq, Json.string.injEq,
        true_and] at h
      exact absurd h.1 (by decide)
    | query other line' output' label' =>
      simp only [toJson, Json.object.injEq, List.cons.injEq, Prod.mk.injEq, Json.string.injEq,
        Json.number.injEq, true_and, and_true] at h
      obtain ⟨hsql, hline, houtput, hlabel⟩ := h
      rw [hsql, hline, Output.toJson_inj houtput,
        Json.optional_inj (fun _ _ => Json.string.inj) nofun hlabel]

theorem Script.toJson_inj {one two : Script} (h : one.toJson = two.toJson) : one = two := by
  simp only [toJson, Json.object.injEq, List.cons.injEq, Prod.mk.injEq, Json.string.injEq,
    Json.number.injEq, Json.bool.injEq, true_and, and_true] at h
  obtain ⟨hname, hoperations, hcount, hthreshold, hhalted⟩ := h
  rw [Script.mk.injEq]
  exact ⟨hname, Json.array_map_inj (fun _ _ => Operation.toJson_inj) hoperations, hcount,
    Json.optional_inj (fun _ _ => Json.number.inj) nofun hthreshold, hhalted⟩

namespace CommandLine

/-- Documents that stand one after the other are told apart. -/
theorem dumps_inj {one two : List Script}
    (h : one.flatMap (fun script => script.toJson.laidOut 0 ++ ['\n']) =
      two.flatMap (fun script => script.toJson.laidOut 0 ++ ['\n'])) : one = two := by
  induction one generalizing two with
  | nil =>
    cases two with
    | nil => rfl
    | cons script others => simp at h
  | cons script scripts ih =>
    cases two with
    | nil => simp at h
    | cons other others =>
      simp only [List.flatMap_cons, List.append_assoc, List.cons_append, List.nil_append] at h
      have hline (text : Text) : Json.NoDigit ('\n' :: text) := Json.BeginsLine.noDigit rfl
      obtain ⟨hscript, hrest⟩ := Json.laidOut_append_inj 0 _ _ (hline _) (hline _) h
      rw [Script.toJson_inj hscript, ih (List.cons.inj hrest).2]

/-- What a dump prints determines the scripts, and the document of an operation, at any depth, all
parts of it. So a query without a label is told from one with any label, and expected values from
any digest. -/
theorem dumps_determine_scripts :
    (∀ (noFail : Bool) (summaryFile : Option Path) (paths : List Text) (one two : List Script),
      let options : Options := ⟨0, noFail, true, summaryFile, paths⟩
      one.flatMap (printScript options) = two.flatMap (printScript options) ↔ one = two) ∧
    (∀ (depth : Nat) (one two : Operation),
      one.toJson.laidOut depth = two.toJson.laidOut depth ↔ one = two) ∧
    (∀ (depth : Nat) (sql other : Text) (line next : Nat) (output outcome : Output) (label : Text),
      (Operation.query sql line output none).toJson.laidOut depth ≠
        (Operation.query other next outcome (some label)).toJson.laidOut depth) ∧
    ∀ (depth : Nat) (lines : List Text) (count : Nat) (text : Text),
      (Expectation.values lines).toJson.laidOut depth ≠
        (Expectation.digest count text).toJson.laidOut depth := by
  have hoperation (depth : Nat) (one two : Operation)
      (h : one.toJson.laidOut depth = two.toJson.laidOut depth) : one = two :=
    Operation.toJson_inj (Json.laidOut_inj h)
  refine ⟨?_, fun depth one two => ⟨hoperation depth one two, fun h => h ▸ rfl⟩, ?_, ?_⟩
  · intro noFail summaryFile paths one two options
    have hprint : printScript options = fun script => script.toJson.laidOut 0 ++ ['\n'] := rfl
    rw [hprint]
    exact ⟨dumps_inj, fun h => h ▸ rfl⟩
  · intro depth sql other line next output outcome label h
    cases hoperation depth _ _ h
  · intro depth lines count text h
    cases Expectation.toJson_inj (Json.laidOut_inj h)

end CommandLine
end LogicTest
