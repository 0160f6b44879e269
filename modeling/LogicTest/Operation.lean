import LogicTest.Text.Numeral

/-!
# Operations

What a script asks for: statements to execute, and queries whose output is compared with values
written in the script or with a digest of them.
-/
namespace LogicTest

/-- The type of one output column, as a query header declares it. -/
inductive Column where
  | integer | text | real | bool | oid
  deriving DecidableEq, Repr

namespace Column

def letter : Column → Char
  | integer => 'I'
  | text => 'T'
  | real => 'R'
  | bool => 'B'
  | oid => 'O'

def ofLetter? : Char → Option Column
  | 'I' => some integer
  | 'T' => some text
  | 'R' => some real
  | 'B' => some bool
  | 'O' => some oid
  | _ => none

/-- The type as a data document names it. -/
def name : Column → Text
  | integer => "Integer".toList
  | text => "Text".toList
  | real => "Real".toList
  | bool => "Bool".toList
  | oid => "Oid".toList

end Column

/-- How the output is ordered before it is compared. -/
inductive SortOrder where
  | asProduced | byRow | byValue
  deriving DecidableEq, Repr

namespace SortOrder

/-- The word that stands for the order in a query header. -/
def word : SortOrder → Text
  | asProduced => "nosort".toList
  | byRow => "rowsort".toList
  | byValue => "valuesort".toList

def ofWord? (word : Text) : Option SortOrder :=
  [asProduced, byRow, byValue].find? (·.word == word)

/-- The order as a data document names it. -/
def name : SortOrder → Text
  | asProduced => "no_sort".toList
  | byRow => "row_sort".toList
  | byValue => "value_sort".toList

end SortOrder

/-- The output to expect: the values themselves, or how many there are and a digest of them, which
is not interpreted here. -/
inductive Expectation where
  | values (lines : List Text)
  | digest (count : Nat) (text : Text)
  deriving DecidableEq, Repr

/-- The words between the count and the text of a digest. -/
def digestMarker : Text := "values hashing to".toList

structure Output where
  columns : List Column
  order : SortOrder
  expected : Expectation
  deriving DecidableEq, Repr

def Expectation.render : Expectation → Text
  | values lines => Numeral.toText lines.length ++ " lines".toList
  | digest count text =>
    Numeral.toText count ++ " ".toList ++ digestMarker ++ " ".toList ++ text

def Output.render (output : Output) : Text :=
  output.columns.map Column.letter ++ " ".toList ++ output.order.word ++ " (".toList
    ++ output.expected.render ++ ")".toList

/-- A statement with the outcome it is to have, or a query with the output it is to produce. The
`sourceLine` of a query is the line on which its text ended. -/
inductive Operation where
  | statement (sql : Text) (succeeds : Bool)
  | query (sql : Text) (sourceLine : Nat) (output : Output) (label : Option Text)
  deriving DecidableEq, Repr

namespace Operation

def sql : Operation → Text
  | statement sql _ => sql
  | query sql _ _ _ => sql

def isQuery : Operation → Bool
  | statement .. => false
  | query .. => true

/-- Everything but the SQL: what is asked for and where it stands. -/
def summary : Operation → Text
  | statement _ true => "statement ok".toList
  | statement _ false => "statement error".toList
  | query _ sourceLine output label =>
    "query ".toList ++ output.render ++ " at line ".toList ++ Numeral.toText sourceLine
      ++ label.elim [] fun label => " [".toList ++ label ++ "]".toList

def render (operation : Operation) : Text :=
  operation.summary ++ ": ".toList ++ operation.sql

end Operation
end LogicTest
