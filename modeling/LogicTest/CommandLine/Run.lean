import LogicTest.Batch
import LogicTest.CommandLine.Options
import LogicTest.CommandLine.Totals
import LogicTest.Event
import LogicTest.Script.Json

/-!
# Runs of the command line

A run parses its inputs in order and reports each of them: scripts on the standard output, as far
as the options ask for it, log lines and failures on the standard error. The totals come last. Then
the summary file is made and written, if one is asked for; whether that succeeds decides with the
totals on the exit code.
-/
namespace LogicTest.CommandLine

/-- The path that stands for the standard input. -/
def stdinPath : Text := "-".toList

/-- Parses the inputs in order. Each mention of the standard input goes on with the lines that the
mention before left unread. -/
def parseInputs (view : FileView) : List Text → Source → List Parse
  | [], _ => []
  | path :: paths, stdin =>
    if path = stdinPath then
      let parsed := parse .postgres "<stdin>".toList stdin
      parsed :: parseInputs view paths parsed.unread
    else (parseFiles .postgres view [.ofText path]).map (·.2) ++ parseInputs view paths stdin

def line (text : Text) : Text := text ++ ['\n']

/-- One line on a script. -/
def overview (script : Script) : Text :=
  script.name ++ ": statements=".toList ++ Numeral.toText script.statementCount
    ++ " queries=".toList ++ Numeral.toText script.queryCount
    ++ " hash-threshold=".toList ++ script.hashThreshold.elim "none".toList Numeral.toText
    ++ if script.halted then " (halted)".toList else []

/-- What is printed of a script: its overview at verbosity 1, its operations at verbosity 2, and
its document if the options ask for it. -/
def printScript (options : Options) (script : Script) : Text :=
  (if options.verbosity ≥ 1 then line (Text.indent 4 (overview script)) else [])
    ++ (if options.verbosity ≥ 2 then
        script.operations.flatMap fun operation => line (Text.indent 8 operation.render)
      else [])
    ++ if options.dump then line (script.toJson.laidOut 0) else []

def printResult (options : Options) : Except ScriptError Script → Text
  | .ok script => printScript options script
  | .error _ => []

/-- Whether an event is logged: from verbosity 2 on, and chatter from verbosity 3 on. -/
def isLogged (options : Options) (event : Event) : Bool :=
  match event.level with
  | .trace => options.verbosity ≥ 3
  | .debug | .info => options.verbosity ≥ 2

def reportFailure : Except ScriptError Script → Text
  | .ok _ => []
  | .error error => line ("error: parsing file: ".toList ++ error.diagnostic.render)

/-- What a parse leaves on the standard error: the log lines, then the failure if it failed. -/
def logParse (options : Options) (parsed : Parse) : Text :=
  ((Event.ofParse parsed).filter (isLogged options)).flatMap (fun event => line event.render)
    ++ reportFailure parsed.result

/-- What a run has printed and counted when all inputs are parsed. -/
structure Account where
  output : Text
  errors : Text
  totals : Totals
  deriving DecidableEq, Repr

def account (options : Options) (view : FileView) (stdin : Source) : Account :=
  let parses := parseInputs view options.paths stdin
  let totals := Totals.ofResults (parses.map (·.result))
  ⟨parses.flatMap (printResult options ·.result) ++ line totals.render,
    parses.flatMap (logParse options), totals⟩

/-- What a run has printed when it ends, and its exit code. -/
structure Outcome where
  output : Text
  errors : Text
  exitCode : Nat
  deriving DecidableEq, Repr

/-- Why the summary file is not there as a whole. -/
inductive SummaryError where
  | notCreated (cause : FileError) | notWritten (cause : FileError)
  deriving DecidableEq, Repr

def SummaryError.message (path : Path) : SummaryError → Text
  | notCreated cause => "creating ".toList ++ path.display ++ ": ".toList ++ cause.message
  | notWritten cause => "unable to write summary file: ".toList ++ cause.message

namespace Account

/-- The content of the summary file. -/
def summary (account : Account) : Text := account.totals.toJson.compact

/-- Ends a run; `failure` is why the summary file, if one is asked for, is not there as a whole. -/
def conclude (account : Account) (options : Options) (failure : Option SummaryError) : Outcome :=
  match options.summaryFile, failure with
  | some path, some error =>
    ⟨account.output, account.errors ++ line ("error: ".toList ++ error.message path), 2⟩
  | _, _ =>
    ⟨account.output, account.errors, if account.totals.anyFailed && !options.noFail then 1 else 0⟩

end Account

/-- Makes the summary file that the options ask for, and tells what went wrong with it. -/
def writeSummary (options : Options) (tree : FileTree) (summary : Text) :
    FileTree × Option SummaryError :=
  match options.summaryFile with
  | none => (tree, none)
  | some path =>
    match tree.target path with
    | .error cause => (tree, some (.notCreated cause))
    | .ok location =>
      let (written, refused) := tree.fill location (Utf8.encode summary)
      (written, refused.map .notWritten)

/-- Runs in a file tree, and gives the tree as the run leaves it. -/
def run (options : Options) (tree : FileTree) (stdin : Source) : Outcome × FileTree :=
  let account := account options tree.lookup stdin
  let (written, failure) := writeSummary options tree account.summary
  (account.conclude options failure, written)

end LogicTest.CommandLine
