import Mathlib.Algebra.GroupWithZero.Nat
import LogicTest.Proofs.Batch
import LogicTest.Proofs.CommandLine.StandardInput
import LogicTest.Proofs.CommandLine.Summary

/-!
# What a run accounts for

Every input of a run has one result, and every result is counted once: as a script, with what it
holds, or as a failure, which is also reported. `run_accounts` follows the counts to where they are
shown: the line of totals, the summary file and the exit code.
-/
namespace LogicTest.CommandLine

/-! ## Results -/

/-- What the results of an input are of, as it is shown: the standard input, or what the walk from
its path comes to. -/
def inputNames (view : FileView) (path : Text) : List Text :=
  if path = stdinPath then ["<stdin>".toList]
  else (walk view (.ofText path)).map fun walked => (walkedPath walked).display

theorem subjects_parseInputs (view : FileView) (paths : List Text) (stdin : Source) :
    (parseInputs view paths stdin).map Parse.subject = paths.flatMap (inputNames view) := by
  induction paths generalizing stdin with
  | nil => rfl
  | cons path paths ih =>
    rw [parseInputs, List.flatMap_cons, inputNames]
    split
    · rw [List.map_cons, subject_parse, ih]
      rfl
    · have hsubjects : ((parseFiles .postgres view [.ofText path]).map (·.2)).map Parse.subject =
          ((parseFiles .postgres view [.ofText path]).map (·.1)).map Path.display := by
        rw [List.map_map, List.map_map]
        exact List.map_congr_left fun pair hpair => subject_of_mem_parseFiles hpair
      rw [List.map_append, ih, hsubjects, parseFiles_paths, List.flatMap_singleton, List.map_map]
      rfl

/-- Every input was parsed, or could not be read at all. What was parsed is what the standard input
still holds, or the bytes of a file. -/
theorem exists_of_mem_parseInputs {view : FileView} {paths : List Text} {stdin : Source}
    {parsed : Parse} (h : parsed ∈ parseInputs view paths stdin) :
    (∃ name, ∃ source : Source, (source <:+ stdin ∨ source.Given) ∧
        parsed = parse .postgres name source) ∨
      ∃ error, parsed = .failed error := by
  induction paths generalizing stdin with
  | nil => cases h
  | cons path paths ih =>
    rw [parseInputs] at h
    split at h
    · rcases List.mem_cons.1 h with rfl | h
      · exact .inl ⟨_, _, .inl List.suffix_rfl, rfl⟩
      · obtain ⟨taken, hstdin, -⟩ := Grammar.parse_consumes .postgres "<stdin>".toList stdin
        have hunread : (parse .postgres "<stdin>".toList stdin).unread <:+ stdin :=
          ⟨taken, hstdin.symm⟩
        rcases ih h with ⟨name, source, hsource, hparsed⟩ | hfailed
        · exact .inl ⟨name, source, hsource.imp_left (·.trans hunread), hparsed⟩
        · exact .inr hfailed
    · rcases List.mem_append.1 h with h | h
      · obtain ⟨pair, hpair, rfl⟩ := List.mem_map.1 h
        obtain ⟨root, _, hpair⟩ := List.mem_flatMap.1 hpair
        obtain ⟨found, _, rfl⟩ := List.mem_map.1 hpair
        rcases parseFound_cases .postgres found with ⟨name, content, hparsed⟩ | hfailed
        · exact .inl ⟨name, _, .inr (.stream _), hparsed⟩
        · exact .inr hfailed
      · exact ih h

abbrev Result := Except ScriptError Script

def failure? : Result → Option ScriptError
  | .ok _ => none
  | .error error => some error

/-- The scripts among some results. -/
def scripts (results : List Result) : List Script := results.filterMap Except.toOption

/-- The failures among some results. -/
def failures (results : List Result) : List ScriptError := results.filterMap failure?

section
variable (script : Script) (error : ScriptError) (results : List Result)

@[simp] theorem scripts_ok : scripts (.ok script :: results) = script :: scripts results := rfl

@[simp] theorem scripts_error : scripts (.error error :: results) = scripts results := rfl

@[simp] theorem failures_ok : failures (.ok script :: results) = failures results := rfl

@[simp] theorem failures_error :
    failures (.error error :: results) = error :: failures results := rfl

end

theorem length_scripts_add_failures (results : List Result) :
    (scripts results).length + (failures results).length = results.length := by
  induction results with
  | nil => rfl
  | cons result results ih =>
    cases result with
    | ok script =>
      simp only [scripts_ok, failures_ok, List.length_cons]
      omega
    | error error =>
      simp only [scripts_error, failures_error, List.length_cons]
      omega

theorem mem_scripts {results : List Result} {script : Script} :
    script ∈ scripts results ↔ .ok script ∈ results := by
  induction results with
  | nil => simp [scripts]
  | cons result results ih => cases result <;> simp [ih]

/-- The queries of a script that was parsed are among its operations. -/
theorem queryCount_le_of_parsed {view : FileView} {paths : List Text} {stdin : Source}
    {script : Script} (h : script ∈ scripts ((parseInputs view paths stdin).map (·.result))) :
    script.queryCount ≤ script.operations.length := by
  obtain ⟨parsed, hparsed, hscript⟩ := List.mem_map.1 (mem_scripts.1 h)
  rcases exists_of_mem_parseInputs hparsed with ⟨name, source, -, rfl⟩ | ⟨error, rfl⟩
  · obtain ⟨-, rfl⟩ := parse_eq_ok_iff.1 hscript
    exact List.countP_le_length
  · cases hscript

/-! ## Totals -/

/-- Each result is added to the totals so far, as a script or as a failure. -/
theorem foldl_count (totals : Totals) (results : List Result) :
    results.foldl Totals.count totals =
      ⟨totals.files + (scripts results).length, totals.failures + (failures results).length,
        totals.statements + ((scripts results).map (·.statementCount)).sum,
        totals.queries + ((scripts results).map (·.queryCount)).sum,
        totals.halted + (scripts results).countP (·.halted)⟩ := by
  induction results generalizing totals with
  | nil => rfl
  | cons result results ih =>
    rw [List.foldl_cons, ih]
    cases result with
    | error error => simp [Totals.count, Nat.add_assoc, Nat.add_comm 1]
    | ok script =>
      cases hhalted : script.halted <;>
        simp [Totals.count, hhalted, Nat.add_assoc, Nat.add_comm 1]

theorem ofResults_eq (results : List Result) :
    Totals.ofResults results =
      ⟨(scripts results).length, (failures results).length,
        ((scripts results).map (·.statementCount)).sum, ((scripts results).map (·.queryCount)).sum,
        (scripts results).countP (·.halted)⟩ := by
  simp [Totals.ofResults, foldl_count, Totals.zero]

/-- Statements and queries make up the operations, as long as no script counts more queries than it
has operations. -/
theorem sum_statementCount_add_queryCount {scripts : List Script}
    (h : ∀ script ∈ scripts, script.queryCount ≤ script.operations.length) :
    (scripts.map (·.statementCount)).sum + (scripts.map (·.queryCount)).sum =
      (scripts.map (·.operations.length)).sum := by
  induction scripts with
  | nil => rfl
  | cons script scripts ih =>
    obtain ⟨hscript, hall⟩ := List.forall_mem_cons.1 h
    have hall := ih hall
    simp only [List.map_cons, List.sum_cons, Script.statementCount] at hall ⊢
    omega

/-! ## The standard error -/

/-- What is written to the standard error, piece by piece. -/
inductive Notice where
  | log (event : Event) | report (error : ScriptError)
  | noSummary (path : Path) (error : SummaryError)
  deriving DecidableEq, Repr

namespace Notice

def render : Notice → Text
  | log event => line event.render
  | report error => line ("error: parsing file: ".toList ++ error.diagnostic.render)
  | noSummary path error => line ("error: ".toList ++ error.message path)

def reported? : Notice → Option ScriptError
  | report error => some error
  | _ => none

/-- What is written about one parse: its log lines, then its failure. -/
def ofParse (options : Options) (parsed : Parse) : List Notice :=
  ((Event.ofParse parsed).filter (isLogged options)).map log ++
    (failure? parsed.result).toList.map report

theorem render_ofParse (options : Options) (parsed : Parse) :
    (ofParse options parsed).flatMap render = logParse options parsed := by
  rw [ofParse, logParse, List.flatMap_append, List.flatMap_map]
  cases hresult : parsed.result <;> simp [failure?, reportFailure, render]

theorem reported_ofParse (options : Options) (parsed : Parse) :
    (ofParse options parsed).filterMap reported? = (failure? parsed.result).toList := by
  have hlogs (events : List Event) : (events.map log).filterMap reported? = [] := by
    simp [List.filterMap_map, Function.comp_def, reported?]
  rw [ofParse, List.filterMap_append, hlogs]
  cases failure? parsed.result <;> rfl

theorem isLogged_of_mem_ofParse {options : Options} {parsed : Parse} {event : Event}
    (h : log event ∈ ofParse options parsed) : isLogged options event := by
  rcases List.mem_append.1 h with h | h
  · obtain ⟨other, hother, ⟨⟩⟩ := List.mem_map.1 h
    exact (List.mem_filter.1 hother).2
  · obtain ⟨error, -, ⟨⟩⟩ := List.mem_map.1 h

end Notice

/-- What is written about all parses, in order. -/
def notices (options : Options) (parses : List Parse) : List Notice :=
  parses.flatMap (Notice.ofParse options)

section
variable (options : Options) (parses : List Parse)

theorem render_notices :
    (notices options parses).flatMap Notice.render = parses.flatMap (logParse options) := by
  rw [notices, List.flatMap_assoc]
  congr 1
  funext parsed
  exact Notice.render_ofParse options parsed

theorem reported_notices :
    (notices options parses).filterMap Notice.reported? = failures (parses.map (·.result)) := by
  rw [notices]
  induction parses with
  | nil => rfl
  | cons parsed parses ih =>
    rw [List.flatMap_cons, List.filterMap_append, Notice.reported_ofParse, ih, List.map_cons]
    cases parsed.result <;> rfl

variable {options parses} in
theorem noSummary_not_mem_notices {path : Path} {error : SummaryError} :
    .noSummary path error ∉ notices options parses := by
  intro h
  obtain ⟨parsed, -, h⟩ := List.mem_flatMap.1 h
  rcases List.mem_append.1 h with h | h
  · obtain ⟨_, -, ⟨⟩⟩ := List.mem_map.1 h
  · obtain ⟨_, -, ⟨⟩⟩ := List.mem_map.1 h

variable {options parses} in
theorem isLogged_of_mem_notices {event : Event} (h : .log event ∈ notices options parses) :
    isLogged options event := by
  obtain ⟨parsed, -, hevent⟩ := List.mem_flatMap.1 h
  exact Notice.isLogged_of_mem_ofParse hevent

end

/-! ## The end of a run -/

theorem fail_prefix_render (totals : Totals) :
    "FAIL!".toList <+: totals.render ↔ 0 < totals.failures := by
  rw [Totals.render, Totals.anyFailed]
  by_cases hfailed : 0 < totals.failures
  · simp [hfailed]
  · simp [hfailed]

section
variable {options : Options}

theorem conclude_none (account : Account) (options : Options) :
    account.conclude options none = ⟨account.output, account.errors,
      if 0 < account.totals.failures ∧ options.noFail = false then 1 else 0⟩ := by
  unfold Account.conclude
  cases options.summaryFile <;> simp [Totals.anyFailed]

theorem conclude_some (account : Account) {path : Path} (hpath : options.summaryFile = some path)
    (error : SummaryError) :
    account.conclude options (some error) =
      ⟨account.output, account.errors ++ Notice.render (.noSummary path error), 2⟩ := by
  unfold Account.conclude
  rw [hpath]
  rfl

/-- A run ends with the reason why the summary file fails, or with the file as it was asked for. -/
theorem run_cases (options : Options) (tree : FileTree) (stdin : Source) :
    let account := account options tree.lookup stdin
    (∃ path error, SummaryFails options tree account.summary path error ∧
      (run options tree stdin).1 =
        ⟨account.output, account.errors ++ Notice.render (.noSummary path error), 2⟩) ∨
    (∀ path error, ¬ SummaryFails options tree account.summary path error) ∧
      (run options tree stdin).1 = ⟨account.output, account.errors,
        if 0 < account.totals.failures ∧ options.noFail = false then 1 else 0⟩ ∧
      ∀ path, options.summaryFile = some path →
        (run options tree stdin).2.contentAt? path = some (Utf8.encode account.summary) := by
  intro account
  have hrun : run options tree stdin =
      (account.conclude options (writeSummary options tree account.summary).2,
        (writeSummary options tree account.summary).1) := rfl
  rw [hrun]
  rcases writeSummary_cases options tree account.summary with
    ⟨path, error, hfails, hwritten⟩ | ⟨hnone, hwritten, hcontent⟩
  · refine .inl ⟨path, error, hfails, ?_⟩
    rw [hwritten, conclude_some account hfails.asked]
  · refine .inr ⟨hnone, ?_, hcontent⟩
    rw [hwritten, conclude_none]

end

section
variable (options : Options) (tree : FileTree) (stdin : Source)

theorem output_run :
    (run options tree stdin).1.output = (account options tree.lookup stdin).output := by
  rcases run_cases options tree stdin with ⟨_, _, _, hended⟩ | ⟨_, hended, _⟩ <;> rw [hended]

/-- The failures are reported in order, an event is logged if the options ask for it, and the
failure of the summary file is told if there is one. -/
theorem errors_run :
    ∃ written : List Notice,
      (run options tree stdin).1.errors = written.flatMap Notice.render ∧
      written.filterMap Notice.reported? =
        failures ((parseInputs tree.lookup options.paths stdin).map (·.result)) ∧
      (∀ event, .log event ∈ written → isLogged options event) ∧
      ∀ path error, .noSummary path error ∈ written ↔
        SummaryFails options tree (account options tree.lookup stdin).summary path error := by
  let parses := parseInputs tree.lookup options.paths stdin
  have herrors : (account options tree.lookup stdin).errors =
      (notices options parses).flatMap Notice.render := (render_notices options parses).symm
  have hparses (path : Path) (error : SummaryError) :
      .noSummary path error ∉ notices options parses := noSummary_not_mem_notices
  rcases run_cases options tree stdin with ⟨path, error, hfails, hended⟩ | ⟨hnone, hended, -⟩
  · rw [hended]
    refine ⟨notices options parses ++ [.noSummary path error], ?_, ?_, fun event hevent => ?_,
      fun other cause => ?_⟩
    · rw [List.flatMap_append, ← herrors, List.flatMap_singleton]
    · rw [List.filterMap_append, reported_notices]
      exact List.append_nil _
    · exact isLogged_of_mem_notices ((List.mem_append.1 hevent).resolve_right (by simp))
    · rw [List.mem_append, or_iff_right (hparses other cause), List.mem_singleton]
      constructor
      · rintro ⟨⟩
        exact hfails
      · intro hother
        obtain ⟨rfl, rfl⟩ := hfails.unique hother
        rfl
  · rw [hended]
    exact ⟨notices options parses, herrors, reported_notices options parses,
      fun _ => isLogged_of_mem_notices,
      fun path error => iff_of_false (hparses path error) (hnone path error)⟩

theorem contentAt?_run {path : Path} (hpath : options.summaryFile = some path)
    (hnone : ∀ error,
      ¬ SummaryFails options tree (account options tree.lookup stdin).summary path error) :
    (run options tree stdin).2.contentAt? path =
      some (Utf8.encode (account options tree.lookup stdin).summary) := by
  rcases run_cases options tree stdin with ⟨other, error, hfails, -⟩ | ⟨-, -, hcontent⟩
  · obtain rfl : other = path := Option.some.inj (hfails.asked.symm.trans hpath)
    exact absurd hfails (hnone error)
  · exact hcontent path hpath

/-- The summary file decides on the exit code before the failures do. -/
theorem exitCode_run :
    let account := account options tree.lookup stdin
    let unsaved := ∃ path error, SummaryFails options tree account.summary path error
    let code := (run options tree stdin).1.exitCode
    (code = 2 ↔ unsaved) ∧
    (code = 1 ↔ ¬ unsaved ∧ 0 < account.totals.failures ∧ options.noFail = false) ∧
    (code = 0 ↔ ¬ unsaved ∧ (account.totals.failures = 0 ∨ options.noFail = true)) := by
  intro account unsaved code
  rcases run_cases options tree stdin with ⟨path, error, hfails, hended⟩ | ⟨hnone, hended, -⟩
  · have hunsaved : unsaved := ⟨path, error, hfails⟩
    have hcode : code = 2 := congrArg (·.exitCode) hended
    simp [hcode, hunsaved]
  · have hsaved : ¬ unsaved := fun ⟨path, error, h⟩ => hnone path error h
    have hcode : code = if 0 < account.totals.failures ∧ options.noFail = false then 1 else 0 :=
      congrArg (·.exitCode) hended
    rw [hcode]
    refine ⟨?_, ?_, ?_⟩
    · split <;> simp [hsaved]
    · split <;> simp_all
    · cases options.noFail <;> simp [hsaved, Nat.pos_iff_ne_zero]

end

/-- A run accounts for every input. Each mention of the standard input, each file and each error of
a walk has one result, whatever the results before it are; every result is counted once, and with a
script its operations. The failures are reported in order, and make the run one that failed. The
summary file, if it can be made and written, holds the totals that are printed: they are read back
off its bytes. If it cannot, that is told and decides on the exit code. -/
theorem run_accounts (options : Options) (tree : FileTree) (stdin : Source) :
    let parses := parseInputs tree.lookup options.paths stdin
    let results := parses.map (·.result)
    let totals := Totals.ofResults results
    let ended := run options tree stdin
    let unsaved := ∃ path error, SummaryFails options tree totals.toJson.compact path error
    (parses.map Parse.subject = options.paths.flatMap (inputNames tree.lookup) ∧
      ∀ before after, options.paths = before ++ after →
        parses = parseInputs tree.lookup before stdin ++
          parseInputs tree.lookup after (unreadAfter stdin (before.count stdinPath))) ∧
    (totals.files = (scripts results).length ∧ totals.failures = (failures results).length ∧
      totals.files + totals.failures = results.length) ∧
    (totals.queries = ((scripts results).map (·.queryCount)).sum ∧
      totals.statements + totals.queries = ((scripts results).map (·.operations.length)).sum ∧
      (∀ script ∈ scripts results, script.queryCount ≤ script.operations.length) ∧
      totals.halted = (scripts results).countP (·.halted)) ∧
    (∃ notices : List Notice, ended.1.errors = notices.flatMap Notice.render ∧
      notices.filterMap Notice.reported? = failures results ∧
      (∀ event, .log event ∈ notices → isLogged options event) ∧
      ∀ path error, .noSummary path error ∈ notices ↔
        SummaryFails options tree totals.toJson.compact path error) ∧
    (ended.1.output = results.flatMap (printResult options) ++ line totals.render ∧
      ("FAIL!".toList <+: totals.render ↔ 0 < totals.failures)) ∧
    (¬ unsaved → ∀ path, options.summaryFile = some path →
      ∃ content, ended.2.contentAt? path = some content ∧
        content = Utf8.encode totals.toJson.compact ∧ Totals.ofBytes? content = some totals) ∧
    (ended.1.exitCode = 2 ↔ unsaved) ∧
    (ended.1.exitCode = 1 ↔ ¬ unsaved ∧ 0 < totals.failures ∧ options.noFail = false) ∧
    (ended.1.exitCode = 0 ↔ ¬ unsaved ∧ (totals.failures = 0 ∨ options.noFail = true)) := by
  intro parses results totals ended unsaved
  have htotals : totals = _ := ofResults_eq results
  have hqueries (script : Script) (h : script ∈ scripts results) :
      script.queryCount ≤ script.operations.length := queryCount_le_of_parsed h
  refine ⟨⟨subjects_parseInputs _ _ _, fun before after hpaths => ?_⟩, ⟨?_, ?_, ?_⟩,
    ⟨?_, ?_, hqueries, ?_⟩, ?_⟩
  · rw [← parseInputs_append, ← hpaths]
  · rw [htotals]
  · rw [htotals]
  · rw [htotals]
    exact length_scripts_add_failures results
  · rw [htotals]
  · rw [htotals]
    exact sum_statementCount_add_queryCount hqueries
  · rw [htotals]
  have hprinted : results.flatMap (printResult options) =
      parses.flatMap (printResult options ·.result) := by
    rw [List.flatMap_map]
  refine ⟨errors_run options tree stdin, ⟨?_, fail_prefix_render totals⟩,
    fun hsaved path hpath => ⟨_, ?_, rfl, totals.ofBytes?_summary⟩,
    exitCode_run options tree stdin⟩
  · rw [hprinted]
    exact output_run options tree stdin
  · exact contentAt?_run options tree stdin hpath fun error h => hsaved ⟨path, error, h⟩

/-- A summary file that can be made need not be one that can be written: a run with a full device
for it ends with exit code 2, and the file does not hold the totals. -/
theorem run_unwritten_summary :
    ¬ ∀ (options : Options) (tree : FileTree) (stdin : Source) (path : Path)
      (location : List Name), options.summaryFile = some path →
      tree.target path = .ok location →
      (run options tree stdin).1.exitCode ≠ 2 ∧
        ∃ content, (run options tree stdin).2.contentAt? path = some content ∧
          Totals.ofBytes? content = some (account options tree.lookup stdin).totals := by
  intro h
  let name (text : String) : Name := Utf8.encode text.toList
  let path : Path := name "/dev/full"
  let options : Options := ⟨0, false, false, some path, ["-".toList]⟩
  let device : Directory := .file (name "full") [] .empty
  let tree : FileTree := ⟨.sub (name "dev") device .empty, [], some ⟨0, .noSpace⟩⟩
  have hmade : tree.target path = .ok [name "dev", name "full"] := by decide +kernel
  exact (h options tree [] path _ rfl hmade).1 (by decide +kernel)

end LogicTest.CommandLine
