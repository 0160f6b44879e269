import LogicTest.Operation

/-!
# Query headers

After its keyword a query header holds a token of column letters, a sort word and, optionally, a
label that runs to the end of the line, separated by blanks. Of several defects the leftmost is
reported.
-/
namespace LogicTest

inductive HeaderDefect where
  | noColumns | badColumns (token : Text) | noSortOrder | badSortOrder (token : Text)
  deriving DecidableEq, Repr

def HeaderDefect.message : HeaderDefect → Text
  | noColumns => "malformed query description: missing column types".toList
  | badColumns token => "could not parse output column types: ".toList ++ token.quoted
  | noSortOrder => "malformed query description: missing sort order".toList
  | badSortOrder token => "did not understand sort order: ".toList ++ token.quoted

structure QueryHeader where
  columns : List Column
  order : SortOrder
  label : Option Text
  deriving DecidableEq, Repr

namespace QueryHeader

/-- The label that `text` holds: an empty one is no label. -/
def labelOf? (text : Text) : Option Text :=
  if text.trim.isEmpty then none else some text.trim

/-- Reads what follows the keyword. -/
def ofText (text : Text) : Except HeaderDefect QueryHeader :=
  let text := text.trim
  if text.isEmpty then .error .noColumns else
  let (letters, rest) := text.splitToken
  match letters.mapM Column.ofLetter? with
  | none => .error (.badColumns letters)
  | some columns =>
    let rest := rest.trimStart
    if rest.isEmpty then .error .noSortOrder else
    let (word, rest) := rest.splitToken
    match SortOrder.ofWord? word with
    | none => .error (.badSortOrder word)
    | some order => .ok ⟨columns, order, labelOf? rest⟩

end QueryHeader
end LogicTest
