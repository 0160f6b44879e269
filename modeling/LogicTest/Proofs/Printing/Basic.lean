import LogicTest.Script
import LogicTest.Proofs.Text.Lines
import LogicTest.Proofs.Text.Trim

/-!
# Printed scripts

A script is printed in one form: each record has its SQL on one line and ends with a blank line, a
digest is written with single spaces, and a `halt` comes last. What can be printed so that it is
read back is said of each text by itself.
-/
namespace LogicTest

/-- The lines in which a result is written. -/
def Expectation.lines : Expectation → List Text
  | values lines => lines
  | digest count text => [Numeral.toText count ++ " values hashing to ".toList ++ text]

def QueryHeader.print (header : QueryHeader) : Text :=
  header.columns.map Column.letter ++ (' ' :: header.order.word) ++ header.label.elim [] (' ' :: ·)

namespace Operation

def statementHeader : Bool → Text
  | true => "statement ok".toList
  | false => "statement error".toList

def queryHeader (header : QueryHeader) : Text := "query ".toList ++ header.print

def lines : Operation → List Text
  | statement sql succeeds => [statementHeader succeeds, sql, []]
  | query sql _ output label =>
    [queryHeader ⟨output.columns, output.order, label⟩, sql, resultDelimiter] ++
      output.expected.lines ++ [[]]

/-- The operation, with `line` as the line on which its text ends if it is a query. -/
def endingOn (line : Nat) : Operation → Operation
  | statement sql succeeds => .statement sql succeeds
  | query sql _ output label => .query sql line output label

/-- The operations as they are read from their lines after `start` others: the delimiter of a query
is the third of its lines. -/
def located (start : Nat) : List Operation → List Operation
  | [] => []
  | operation :: rest =>
    operation.endingOn (start + 3) :: located (start + operation.lines.length) rest

end Operation

def thresholdLines (threshold : Option Nat) : List Text :=
  threshold.elim [] fun n => ["hash-threshold ".toList ++ Numeral.toText n]

def haltLines (halted : Bool) : List Text := if halted then ["halt".toList] else []

/-- The lines of a script with this threshold and these operations, halted or not. -/
def printedLines (threshold : Option Nat) (operations : List Operation) (halted : Bool) :
    List Text :=
  thresholdLines threshold ++ operations.flatMap Operation.lines ++ haltLines halted

def printed (threshold : Option Nat) (operations : List Operation) (halted : Bool) : Text :=
  .ofLines (printedLines threshold operations halted)

/-- A text that a line can hold by itself. -/
structure Text.Plain (text : Text) : Prop where
  trimmed : text.Trimmed
  no_newline : '\n' ∉ text

/-- A plain text in which no comment begins. -/
structure Text.Uncommented (text : Text) : Prop extends text.Plain where
  no_hash : '#' ∉ text

/-- Results that are read back. Only the first value could be taken for something else. -/
inductive Expectation.Printable : Expectation → Prop where
  | empty : Printable (.values [])
  | values {value more} (first : Text.Uncommented value) (no_digest : ¬ digestMarker <:+: value)
      (others : ∀ line ∈ more, Text.Plain line) (nonempty : ∀ line ∈ value :: more, line ≠ []) :
      Printable (.values (value :: more))
  | digest {count text} (inRange : count < Numeral.bound) (uncommented : Text.Uncommented text) :
      Printable (.digest count text)

/-- Operations that are read back. -/
inductive Operation.Printable : Operation → Prop where
  | statement {sql succeeds} (uncommented : Text.Uncommented sql) :
      Printable (.statement sql succeeds)
  | query {sql sourceLine output label} (uncommented : Text.Uncommented sql)
      (undelimited : sql ≠ resultDelimiter) (columns : output.columns ≠ [])
      (labelled : ∀ text ∈ label, Text.Uncommented text ∧ text ≠ [])
      (expected : output.expected.Printable) :
      Printable (.query sql sourceLine output label)

end LogicTest
