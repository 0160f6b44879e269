import LogicTest.Proofs.CommandLine.Account
import LogicTest.Proofs.Json
import LogicTest.Proofs.Printing.Printable
import LogicTest.Proofs.Text.Indent

/-!
# The listing of a run

From verbosity 2 on, and without documents, a run prints a line on each script and one on each of
its operations, and the totals at the end. That these are lines rests on what a parse returns: no
text in an operation holds a line feed. So the lines can be counted, and the figures that they show
add up to the totals (`run_lists`).
-/
namespace LogicTest

/-! ## Operations -/

theorem Numeral.newline_not_mem (n : Nat) : '\n' ∉ toText n := not_mem_toText (by decide) n

theorem Expectation.Printable.newline_not_mem {expected : Expectation} (h : expected.Printable) :
    '\n' ∉ expected.render := by
  cases h with
  | empty => decide
  | values =>
    simp only [Expectation.render, List.mem_append, not_or]
    exact ⟨Numeral.newline_not_mem _, by decide⟩
  | digest _ uncommented =>
    simp only [Expectation.render, List.mem_append, not_or]
    exact ⟨⟨⟨⟨Numeral.newline_not_mem _, by decide⟩, by decide⟩, by decide⟩,
      uncommented.no_newline⟩

theorem Output.newline_not_mem {output : Output} (h : output.expected.Printable) :
    '\n' ∉ output.render := by
  have hletters : '\n' ∉ output.columns.map Column.letter := by
    intro hmem
    obtain ⟨column, -, hcolumn⟩ := List.mem_map.1 hmem
    cases column <;> cases hcolumn
  have hword : '\n' ∉ output.order.word := by cases output.order <;> decide
  simp only [Output.render, List.mem_append, not_or]
  exact ⟨⟨⟨⟨⟨hletters, by decide⟩, hword⟩, by decide⟩, h.newline_not_mem⟩, by decide⟩

namespace Operation.Printable

theorem newline_not_mem_summary {operation : Operation} (h : operation.Printable) :
    '\n' ∉ operation.summary := by
  cases h with
  | @statement sql succeeds =>
    cases succeeds
    · show '\n' ∉ "statement error".toList
      decide
    · show '\n' ∉ "statement ok".toList
      decide
  | @query sql sourceLine output label _ _ _ labelled expected =>
    have hlabel : '\n' ∉ label.elim [] fun label => " [".toList ++ label ++ "]".toList := by
      cases label with
      | none => exact List.not_mem_nil
      | some text =>
        simp only [Option.elim_some, List.mem_append, not_or]
        exact ⟨⟨by decide, (labelled text rfl).1.no_newline⟩, by decide⟩
    unfold Operation.summary
    simp only [List.mem_append, not_or]
    refine ⟨⟨⟨⟨?_, Output.newline_not_mem expected⟩, ?_⟩, Numeral.newline_not_mem _⟩, hlabel⟩
    · decide
    · decide

theorem uncommented_sql {operation : Operation} (h : operation.Printable) :
    Text.Uncommented operation.sql := by
  cases h with
  | statement uncommented => exact uncommented
  | query uncommented => exact uncommented

/-- A rendered operation ends with its SQL, which is trimmed. -/
theorem isLine_render {operation : Operation} (h : operation.Printable) :
    Text.IsLine operation.render := by
  have hsql : Text.IsLine (": ".toList ++ operation.sql) := by
    by_cases hempty : operation.sql = []
    · rw [hempty]
      exact Text.isLine_of_not_mem (by decide) (by decide)
    · exact Text.IsLine.append_left (by decide) h.uncommented_sql.toPlain.isLine hempty
  rw [Operation.render, List.append_assoc]
  exact Text.IsLine.append_left h.newline_not_mem_summary hsql
    (List.append_ne_nil_of_left_ne_nil (by decide) _)

end Operation.Printable

theorem Operation.render_ne_nil (operation : Operation) : operation.render ≠ [] := by
  rw [Operation.render, List.append_assoc]
  exact List.append_ne_nil_of_right_ne_nil _ (List.append_ne_nil_of_left_ne_nil (by decide) _)

namespace CommandLine

/-! ## The line on a script -/

/-- The line on a script. -/
def scriptLine (script : Script) : Text := List.replicate 4 ' ' ++ overview script

/-- What the line on a script shows behind the count of its queries. -/
def overviewEnding (script : Script) : Text :=
  script.hashThreshold.elim "none".toList Numeral.toText
    ++ if script.halted then " (halted)".toList else []

theorem not_mem_threshold {c : Char} (hdigit : c.isDigit = false) (hnone : c ∉ "none".toList)
    (threshold : Option Nat) : c ∉ threshold.elim "none".toList Numeral.toText := by
  cases threshold with
  | none => exact hnone
  | some n => exact Numeral.not_mem_toText hdigit n

section
variable (script : Script)

theorem not_mem_overviewEnding {c : Char} (hdigit : c.isDigit = false) (hnone : c ∉ "none".toList)
    (hhalted : c ∉ " (halted)".toList) : c ∉ overviewEnding script := by
  have hlast : c ∉ if script.halted then " (halted)".toList else [] := by
    split
    · exact hhalted
    · exact List.not_mem_nil
  exact fun hmem => (List.mem_append.1 hmem).elim (not_mem_threshold hdigit hnone _) hlast

theorem overviewEnding_ne_nil : overviewEnding script ≠ [] := by
  apply List.append_ne_nil_of_left_ne_nil
  cases script.hashThreshold with
  | none => decide
  | some n => exact Numeral.toText_ne_nil n

theorem overview_ne_nil : overview script ≠ [] := by
  unfold overview
  rw [List.append_assoc]
  exact List.append_ne_nil_of_right_ne_nil _ (overviewEnding_ne_nil script)

variable {script} in
theorem isLine_overview (named : '\n' ∉ script.name) : Text.IsLine (overview script) := by
  have hending : Text.IsLine (overviewEnding script) :=
    Text.isLine_of_not_mem
      (not_mem_overviewEnding script (by decide) (by decide) (by decide))
      (not_mem_overviewEnding script (by decide) (by decide) (by decide))
  unfold overview
  rw [List.append_assoc]
  refine Text.IsLine.append_left ?_ hending (overviewEnding_ne_nil script)
  simp only [List.mem_append, not_or]
  refine ⟨⟨⟨⟨⟨named, ?_⟩, Numeral.newline_not_mem _⟩, ?_⟩, Numeral.newline_not_mem _⟩, ?_⟩
  all_goals decide

end

/-- The figures of a script. -/
structure Figures where
  statements : Nat
  queries : Nat
  halted : Bool
  deriving DecidableEq, Repr

namespace Figures

/-- The number that a text begins with. -/
def leading (text : Text) : Nat := Nat.ofDigitChars 10 (text.takeWhile Char.isDigit) 0

/-- Reads the figures off a line on a script. A name can hold anything, so they are looked for from
the end of the line: the last three equals signs are not in the name. -/
def ofLine? (line : Text) : Option Figures :=
  match (line.splitOn '=').reverse with
  | ending :: queries :: statements :: _ =>
    some ⟨leading statements, leading queries, " (halted)".toList.isSuffixOf ending⟩
  | _ => none

def ofScript (script : Script) : Figures :=
  ⟨script.statementCount, script.queryCount, script.halted⟩

theorem leading_toText (n : Nat) {rest : Text} (h : Json.NoDigit rest) :
    leading (Numeral.toText n ++ rest) = n := by
  rw [leading, Json.takeWhile_toText n h]
  exact Nat.ofDigitChars_ten_toDigits

/-- A threshold does not end like the mark of a halted script. -/
theorem isSuffixOf_overviewEnding (script : Script) :
    " (halted)".toList.isSuffixOf (overviewEnding script) = script.halted := by
  rw [Bool.eq_iff_iff, List.isSuffixOf_iff_suffix]
  cases hhalted : script.halted with
  | true => simp [overviewEnding, hhalted]
  | false =>
    refine ⟨fun hsuffix => ?_, nofun⟩
    have hthreshold : overviewEnding script =
        script.hashThreshold.elim "none".toList Numeral.toText := by
      rw [overviewEnding, hhalted]
      exact List.append_nil _
    have hmem : '(' ∈ overviewEnding script := hsuffix.subset (by decide)
    exact absurd (hthreshold ▸ hmem) (not_mem_threshold (by decide) (by decide) _)

/-- A line on a script, with its equals signs apart. -/
theorem scriptLine_eq (script : Script) :
    scriptLine script = List.replicate 4 ' ' ++ script.name ++ ": statements".toList ++ '=' ::
      (Numeral.toText script.statementCount ++ " queries".toList ++ '=' ::
        (Numeral.toText script.queryCount ++ " hash-threshold".toList ++ '=' ::
          overviewEnding script)) := by
  have hstatements : ": statements=".toList = ": statements".toList ++ ['='] := by decide
  have hqueries : " queries=".toList = " queries".toList ++ ['='] := by decide
  have hthreshold : " hash-threshold=".toList = " hash-threshold".toList ++ ['='] := by decide
  unfold scriptLine overview overviewEnding
  rw [hstatements, hqueries, hthreshold]
  simp only [List.append_assoc, List.cons_append, List.nil_append]

theorem ofLine?_scriptLine (script : Script) :
    ofLine? (scriptLine script) = some (ofScript script) := by
  have hfigure (n : Nat) {word : Text} (hword : '=' ∉ word) : '=' ∉ Numeral.toText n ++ word :=
    fun hmem => (List.mem_append.1 hmem).elim (Numeral.not_mem_toText (by decide) n) hword
  have hending : '=' ∉ overviewEnding script :=
    not_mem_overviewEnding script (by decide) (by decide) (by decide)
  have hparts : ((scriptLine script).splitOn '=').reverse =
      overviewEnding script :: (Numeral.toText script.queryCount ++ " hash-threshold".toList) ::
        (Numeral.toText script.statementCount ++ " queries".toList) ::
          ((List.replicate 4 ' ' ++ script.name ++ ": statements".toList).splitOn '=').reverse := by
    rw [scriptLine_eq, List.splitOn_append_cons_self,
      List.splitOn_append_cons_self_of_not_mem (hfigure _ (by decide)),
      List.splitOn_append_cons_self_of_not_mem (hfigure _ (by decide)),
      List.splitOn_eq_singleton hending, List.reverse_append]
    rfl
  have hstatements :
      leading (Numeral.toText script.statementCount ++ " queries".toList) = script.statementCount :=
    leading_toText _ (by rintro _ ⟨⟩; rfl)
  have hqueries :
      leading (Numeral.toText script.queryCount ++ " hash-threshold".toList) = script.queryCount :=
    leading_toText _ (by rintro _ ⟨⟩; rfl)
  unfold ofLine?
  rw [hparts]
  simp only [hstatements, hqueries, isSuffixOf_overviewEnding, ofScript]

end Figures

/-! ## What is listed of a script -/

def operationLine (operation : Operation) : Text := List.replicate 8 ' ' ++ operation.render

/-- The lines on a script and its operations. -/
def listing (script : Script) : List Text :=
  scriptLine script :: script.operations.map operationLine

/-- A script on which each line that is listed is one line. -/
structure Listable (script : Script) : Prop where
  named : '\n' ∉ script.name
  printable : ∀ operation ∈ script.operations, operation.Printable

theorem Listable.isLine {script : Script} (h : Listable script) :
    ∀ line ∈ listing script, Text.IsLine line := by
  refine List.forall_mem_cons.2 ⟨?_, List.forall_mem_map.2 fun operation hoperation => ?_⟩
  · exact (isLine_overview h.named).spaced (overview_ne_nil script) 4
  · exact (h.printable operation hoperation).isLine_render.spaced operation.render_ne_nil 8

/-- Each part of what is printed is one line, so it is indented at its beginning only. -/
theorem Listable.printScript_eq {options : Options} (verbose : 2 ≤ options.verbosity)
    (plain : options.dump = false) {script : Script} (h : Listable script) :
    printScript options script = .ofLines (listing script) := by
  have hscript : Text.indent 4 (overview script) = scriptLine script :=
    Text.indent_of_not_mem (isLine_overview h.named).no_newline 4
  have hoperations :
      script.operations.flatMap (fun operation => line (Text.indent 8 operation.render)) =
        Text.ofLines (script.operations.map operationLine) := by
    rw [Text.ofLines, List.flatMap_map]
    refine List.flatMap_congr fun operation hoperation => ?_
    rw [Text.indent_of_not_mem (h.printable operation hoperation).isLine_render.no_newline]
    rfl
  unfold printScript
  rw [if_pos (Nat.le_of_succ_le verbose), if_pos verbose, plain, hscript, hoperations]
  exact List.append_nil _

/-- What was parsed of given sources can be printed, whatever its name is. -/
theorem printable_of_parsed {view : FileView} {paths : List Text} {stdin : Source}
    (given : stdin.Given) {script : Script}
    (h : script ∈ scripts ((parseInputs view paths stdin).map (·.result))) :
    ∀ operation ∈ script.operations, operation.Printable := by
  obtain ⟨parsed, hparsed, hscript⟩ := List.mem_map.1 (mem_scripts.1 h)
  rcases exists_of_mem_parseInputs hparsed with ⟨name, source, hsource, rfl⟩ | ⟨error, rfl⟩
  · obtain ⟨lines, items, rest, rfl, haccepts, rfl⟩ := Grammar.exists_accepts hscript
    refine haccepts.printable fun line hline => ?_
    have hmem : Reading.line line ∈ lines.map .line ++ rest :=
      List.mem_append_left _ (List.mem_map_of_mem hline)
    rcases hsource with hsuffix | hgiven
    · exact given.newline_not_mem (hsuffix.subset hmem)
    · exact hgiven.newline_not_mem hmem
  · cases hscript

/-! ## What is listed in a run -/

/-- A failure prints nothing on the standard output. -/
theorem flatMap_printResult {options : Options} (verbose : 2 ≤ options.verbosity)
    (plain : options.dump = false) {results : List Result}
    (listable : ∀ script ∈ scripts results, Listable script) :
    results.flatMap (printResult options) =
      Text.ofLines ((scripts results).flatMap listing) := by
  induction results with
  | nil => rfl
  | cons result results ih =>
    cases result with
    | error error =>
      rw [List.flatMap_cons, ih listable]
      rfl
    | ok script =>
      obtain ⟨hscript, hall⟩ := List.forall_mem_cons.1 listable
      rw [List.flatMap_cons, ih hall, scripts_ok, List.flatMap_cons, Text.ofLines_append,
        ← hscript.printScript_eq verbose plain]
      rfl

theorem length_flatMap_listing (scripts : List Script) :
    (scripts.flatMap listing).length =
      scripts.length + (scripts.map (·.operations.length)).sum := by
  induction scripts with
  | nil => rfl
  | cons script scripts ih =>
    rw [List.flatMap_cons, List.length_append, ih, listing, List.length_cons, List.length_map,
      List.length_cons, List.map_cons, List.sum_cons]
    omega

theorem isLine_render_totals (totals : Totals) : Text.IsLine totals.render := by
  have hfirst : '\n' ∉ if totals.anyFailed then "FAIL!".toList else "SUCCESS!".toList := by
    cases totals.anyFailed <;> decide
  have hlast : Text.IsLine (Numeral.toText totals.halted) :=
    Text.isLine_of_not_mem (Numeral.newline_not_mem _) (Numeral.not_mem_toText (by decide) _)
  unfold Totals.render
  refine Text.IsLine.append_left ?_ hlast (Numeral.toText_ne_nil _)
  simp only [List.mem_append, not_or, hfirst, Numeral.newline_not_mem, not_false_eq_true, true_and,
    and_true]
  decide

/-- From verbosity 2 on, and without documents, a run prints a line on each script, each followed by
a line on each of its operations, and then the totals, whatever files fail and whatever becomes of
the summary file. No text of an operation holds a line feed, so it is enough that the names of the
scripts hold none. Then the lines can be counted, and the figures that are read off the lines on the
scripts add up to the totals. What the paths lead to can be anything. -/
theorem run_lists {options : Options} (verbose : 2 ≤ options.verbosity)
    (plain : options.dump = false) (view : FileView) (signals : List Signal)
    (named : ∀ script ∈ scripts ((parseInputs view options.paths
      (.ofSignals signals)).map (·.result)), '\n' ∉ script.name) :
    let results := (parseInputs view options.paths (.ofSignals signals)).map (·.result)
    let files := scripts results
    let totals := Totals.ofResults results
    let printed := files.flatMap listing ++ [totals.render]
    let output := (account options view (.ofSignals signals)).output
    let count := totals.files + totals.statements + totals.queries + 1
    (∀ tree : FileTree, tree.lookup = view →
      (run options tree (.ofSignals signals)).1.output = output) ∧
    (output = .ofLines printed ∧ output.lines = printed) ∧
    (printed.length = count ∧ output.count '\n' = count) ∧
    totals.files = files.length ∧
    ∃ figures : List Figures, (files.map scriptLine).map Figures.ofLine? = figures.map some ∧
      totals.statements = (figures.map (·.statements)).sum ∧
      totals.queries = (figures.map (·.queries)).sum ∧
      totals.halted = figures.countP (·.halted) := by
  intro results files totals printed output count
  have htotals : totals = _ := ofResults_eq results
  have hlistable (script : Script) (h : script ∈ files) : Listable script :=
    ⟨named script h, printable_of_parsed (.stream signals) h⟩
  have hlines : ∀ line ∈ printed, Text.IsLine line := by
    refine List.forall_mem_append.2 ⟨fun line hline => ?_, ?_⟩
    · obtain ⟨script, hscript, hline⟩ := List.mem_flatMap.1 hline
      exact (hlistable script hscript).isLine line hline
    · exact List.forall_mem_singleton.2 (isLine_render_totals totals)
  have houtput : output = .ofLines printed := by
    have hprinted : results.flatMap (printResult options) = Text.ofLines (files.flatMap listing) :=
      flatMap_printResult verbose plain hlistable
    rw [Text.ofLines_append, ← hprinted, List.flatMap_map]
    exact congrArg _ (List.append_nil _).symm
  have hlength : printed.length = count := by
    have hoperations : totals.statements + totals.queries =
        (files.map (·.operations.length)).sum := by
      rw [htotals]
      exact sum_statementCount_add_queryCount fun script h => queryCount_le_of_parsed h
    have hfiles : totals.files = files.length := by rw [htotals]
    rw [List.length_append, length_flatMap_listing, ← hoperations, ← hfiles, List.length_singleton,
      ← Nat.add_assoc]
  refine ⟨?_, ⟨houtput, ?_⟩, ⟨hlength, ?_⟩, ?_, files.map Figures.ofScript, ?_, ?_, ?_, ?_⟩
  · rintro tree rfl
    exact output_run options tree _
  · rw [houtput]
    exact Text.lines_ofLines hlines
  · rw [houtput, ← hlength]
    exact Text.count_newline_ofLines hlines
  · rw [htotals]
  · rw [List.map_map, List.map_map]
    exact List.map_congr_left fun script _ => Figures.ofLine?_scriptLine script
  · rw [htotals, List.map_map]
    rfl
  · rw [htotals, List.map_map]
    rfl
  · rw [htotals, List.countP_map]
    rfl

/-- The standard input holds a statement and a query; the file, which lies above the current
directory and has an absolute path, fails and is not listed. -/
theorem run_lists_failing_file :
    let name (text : String) : Name := Utf8.encode text.toList
    let options : Options := ⟨2, false, false, none, ["-".toList, "/d".toList]⟩
    let tree : FileTree := ⟨.sub (name "d") (.file (name "f") (name "x") (.sub (name "e") .empty
      .empty)) .empty, [name "d", name "e"], none⟩
    let signals : List Signal := (Utf8.encode
      "statement ok\nselect 1\n\nquery I nosort\nselect 1\n----\n1\n".toList).map .byte
    let results := (parseInputs tree.lookup options.paths (.ofSignals signals)).map (·.result)
    (∀ script ∈ scripts results, '\n' ∉ script.name) ∧
      (run options tree (.ofSignals signals)).1.output.lines =
        ["    <stdin>: statements=1 queries=1 hash-threshold=none".toList,
          "        statement ok: select 1".toList,
          "        query I nosort (1 lines) at line 6: select 1".toList,
          "FAIL! files=1 parse-failure=1 statements=1 queries=1 halted=0".toList] := by
  intro name options tree signals results
  have named : ∀ script ∈ scripts results, '\n' ∉ script.name := by decide +kernel
  obtain ⟨hrun, ⟨-, hlines⟩, -⟩ := run_lists (by decide) rfl tree.lookup signals named
  exact ⟨named, hrun tree rfl ▸ hlines.trans (by decide +kernel)⟩

end CommandLine
end LogicTest
