import LogicTest.Directory.Path
import LogicTest.QueryHeader
import LogicTest.Source

/-!
# Faults

What can go wrong with a script, by its cause, and the form in which it is reported: file, line,
kind of fault and message.
-/
namespace LogicTest

/-- The kinds of fault that a report tells apart. -/
inductive FaultKind where
  | prematureEnd | malformedDirective | unexpectedLine | pushbackOveruse | missingSeparator | io
  deriving DecidableEq, Repr

def FaultKind.text : FaultKind → Text
  | prematureEnd => "premature end of file".toList
  | malformedDirective => "malformed directive".toList
  | unexpectedLine => "unexpected line".toList
  | pushbackOveruse => "pushback overuse".toList
  | missingSeparator => "missing separator line".toList
  | io => "i/o error".toList

/-- The cause of a fault, with the text it is about. -/
inductive Fault where
  /-- the input ended where a line was needed -/
  | prematureEnd
  /-- a line was put back while another was pending -/
  | pushbackOveruse
  | badHeader (defect : HeaderDefect)
  | badCount (count : Text)
  /-- `line` stands where a record had to begin -/
  | unexpectedLine (line : Text)
  /-- `line` follows a digest with no blank line between -/
  | missingSeparator (line : Text)
  | readFailed (cause : ReadFailure)
  | openFailed (cause : FileError)
  /-- the search for files failed at `path` -/
  | searchFailed (path : Text) (cause : FileError)
  deriving DecidableEq, Repr

namespace Fault

def kind : Fault → FaultKind
  | prematureEnd => .prematureEnd
  | pushbackOveruse => .pushbackOveruse
  | badHeader _ | badCount _ => .malformedDirective
  | unexpectedLine _ => .unexpectedLine
  | missingSeparator _ => .missingSeparator
  | readFailed _ | openFailed _ | searchFailed .. => .io

def message : Fault → Text
  | prematureEnd => "test file ends prematurely".toList
  | pushbackOveruse => "only one undo allowed".toList
  | badHeader defect => defect.message
  | badCount count => "invalid value count ".toList ++ count.quoted
  | unexpectedLine line => "unexpected line: ".toList ++ line.quoted
  | missingSeparator line => "expected an empty line between tests: ".toList ++ line.quoted
  | readFailed cause => cause.message
  | openFailed cause => cause.message
  | searchFailed path cause =>
    "reading directory entry: IO error for operation on ".toList ++ path ++ ": ".toList
      ++ cause.message

end Fault

/-- A fault as it is reported: where, what kind, and the particulars. -/
structure Diagnostic where
  file : Text
  line : Nat
  kind : FaultKind
  message : Text
  deriving DecidableEq, Repr

def Diagnostic.render (diagnostic : Diagnostic) : Text :=
  diagnostic.file ++ ":".toList ++ Numeral.toText diagnostic.line ++ ": ".toList
    ++ diagnostic.kind.text ++ ": ".toList ++ diagnostic.message

/-- A fault and where it was met; line 0 is before the first line. -/
structure ScriptError where
  file : Text
  line : Nat
  fault : Fault
  deriving DecidableEq, Repr

def ScriptError.diagnostic (error : ScriptError) : Diagnostic :=
  ⟨error.file, error.line, error.fault.kind, error.fault.message⟩

end LogicTest
