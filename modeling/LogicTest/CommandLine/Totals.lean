import LogicTest.Json
import LogicTest.Script

/-!
# Totals

The totals of a run count the scripts that were parsed, the failures, and what the scripts hold.
-/
namespace LogicTest

def Script.statementCount (script : Script) : Nat := script.operations.length - script.queryCount

namespace CommandLine

structure Totals where
  files : Nat
  failures : Nat
  statements : Nat
  queries : Nat
  halted : Nat
  deriving DecidableEq, Repr

namespace Totals

def zero : Totals := ⟨0, 0, 0, 0, 0⟩

def count (totals : Totals) : Except ScriptError Script → Totals
  | .error _ => { totals with failures := totals.failures + 1 }
  | .ok script =>
    { totals with
      files := totals.files + 1
      statements := totals.statements + script.statementCount
      queries := totals.queries + script.queryCount
      halted := if script.halted then totals.halted + 1 else totals.halted }

def ofResults (results : List (Except ScriptError Script)) : Totals := results.foldl count zero

def anyFailed (totals : Totals) : Bool := totals.failures > 0

def render (totals : Totals) : Text :=
  (if totals.anyFailed then "FAIL!".toList else "SUCCESS!".toList)
    ++ " files=".toList ++ Numeral.toText totals.files
    ++ " parse-failure=".toList ++ Numeral.toText totals.failures
    ++ " statements=".toList ++ Numeral.toText totals.statements
    ++ " queries=".toList ++ Numeral.toText totals.queries
    ++ " halted=".toList ++ Numeral.toText totals.halted

def toJson (totals : Totals) : Json :=
  .object [("files".toList, .number totals.files),
    ("parse_failures".toList, .number totals.failures),
    ("statements".toList, .number totals.statements),
    ("queries".toList, .number totals.queries),
    ("halted".toList, .number totals.halted)]

end Totals
end CommandLine
end LogicTest
