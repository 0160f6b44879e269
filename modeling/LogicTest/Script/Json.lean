import LogicTest.Json
import LogicTest.Script

/-!
# Scripts as JSON documents

The document of a script holds all of it. An operation tells its kind in a field of its own; an
expectation is an object with one field, whose name tells values from a digest.
-/
namespace LogicTest

def Json.optional (value : Option Json) : Json := value.getD .null

def Column.toJson (column : Column) : Json := .string column.name

def SortOrder.toJson (order : SortOrder) : Json := .string order.name

def Expectation.toJson : Expectation → Json
  | values lines => .object [("literal".toList, .array (lines.map .string))]
  | digest count text =>
    .object [("digest".toList,
      .object [("value_count".toList, .number count), ("digest".toList, .string text)])]

def Output.toJson (output : Output) : Json :=
  .object [("column_types".toList, .array (output.columns.map Column.toJson)),
    ("sort_order".toList, output.order.toJson),
    ("expected".toList, output.expected.toJson)]

def Operation.toJson : Operation → Json
  | statement sql succeeds =>
    .object [("kind".toList, .string "statement".toList),
      ("sql".toList, .string sql),
      ("expect_success".toList, .bool succeeds)]
  | query sql sourceLine output label =>
    .object [("kind".toList, .string "query".toList),
      ("sql".toList, .string sql),
      ("source_line".toList, .number sourceLine),
      ("output".toList, output.toJson),
      ("label".toList, .optional (label.map .string))]

def Script.toJson (script : Script) : Json :=
  .object [("name".toList, .string script.name),
    ("operations".toList, .array (script.operations.map Operation.toJson)),
    ("test_count".toList, .number script.queryCount),
    ("hash_threshold".toList, .optional (script.hashThreshold.map .number)),
    ("halted".toList, .bool script.halted)]

end LogicTest
