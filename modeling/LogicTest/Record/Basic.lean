import LogicTest.Condition
import LogicTest.Cursor.Weight

/-!
# Records

A script is a sequence of items: blank lines, threshold lines and records. A record is a run of
condition lines followed by a `halt` line, a statement or a query. Reading an item has two parts:
the head up to the first line that is not a condition, and the body that this line begins. What is
read does not depend on any policy.
-/
namespace LogicTest

/-- What a condition line asks for. -/
inductive Directive where
  | skip (condition : Text) | only (condition : Text)
  deriving DecidableEq, Repr

namespace Directive

def ofLine? (line : Text) : Option Directive :=
  match "skipif".toList.isPrefixOf? line with
  | some condition => some (.skip (Text.trim condition))
  | none => ("onlyif".toList.isPrefixOf? line).map fun condition => .only (Text.trim condition)

def addTo (conditions : Conditions) : Directive → Conditions
  | skip condition => conditions.addSkip condition
  | only condition => conditions.addOnly condition

end Directive

/-- The conditions that condition lines name. -/
def Conditions.ofLines (lines : List Text) : Conditions :=
  (lines.filterMap Directive.ofLine?).foldl Directive.addTo .none

/-- The beginning of an item. -/
inductive Head where
  | ended
  | blank
  | threshold (value : Option Nat)
  /-- the conditions of a record and the line that begins its body -/
  | record (conditions : Conditions) (line : Text)
  deriving DecidableEq

/-- The body of a record; `absent` if the input ends where a query was to be found. -/
inductive Body where
  | halt | operation (operation : Operation) | absent
  deriving DecidableEq, Repr

/-- Separates the text of a query from its result. -/
def resultDelimiter : Text := "----".toList

/-- The text of a query, from its lines. -/
def joinQuery (lines : List Text) : Text := Text.trim (lines.flatMap fun line => ' ' :: line)

namespace Read

def lineNo : Read Nat := fun c => .ok c.lineNo c

def atEnd : Read Bool := fun c => .ok c.done c

/-- Reads on from `line` while the lines satisfy `more` and the end is not found. Gives these lines
and the one that stopped it, which is empty at the end. -/
def linesWhile (more : Text → Bool) (kind : LineKind) (need : Need) (line : Text) :
    Read (List Text × Text) := fun c =>
  if _h : c.done ∨ more line = false then .ok ([], line) c
  else
    match _hnext : Cursor.next kind need c with
    | .ok following c' =>
      match linesWhile more kind need following c' with
      | .ok (lines, stop) c'' => .ok (line :: lines, stop) c''
      | .error fault c'' => .error fault c''
    | .error fault c' => .error fault c'
termination_by c => c.weight
decreasing_by exact Cursor.weight_next_lt (.inr (by simp_all)) _hnext

/-- Reads the head of an item. -/
def head : Read Head := do
  let line ← Cursor.next .script .optional
  if ← atEnd then return .ended
  if line.isEmpty then return .blank
  match "hash-threshold".toList.isPrefixOf? line with
  | some value => return .threshold (Numeral.ofText? (Text.trim value))
  | none =>
    let (directives, line) ← linesWhile (Directive.ofLine? · |>.isSome) .script .required line
    return .record (.ofLines directives) line

/-- Reads the lines of a statement, which a blank line or the end closes. There is at least one
line, though it may be blank. -/
def statement (header : Text) : Read Operation := do
  let line ← Cursor.next .script .required
  let (lines, _) ← linesWhile (!·.isEmpty) .script .optional line
  return .statement lines.flatten ("statement ok".toList.isPrefixOf header)

/-- Reads the blank line after a digest. -/
def separator : Read Unit := do
  let line ← Cursor.next .script .optional
  if (← atEnd) || line.isEmpty then return
  throw (.missingSeparator line)

/-- Reads the result of a query. Comments are removed from its first line only; the others are
values, whatever they look like. -/
def expectation : Read Expectation := do
  let line ← Cursor.next .script .optional
  if ← atEnd then return .values []
  match Text.cutAround? digestMarker line with
  | some (count, digest) =>
    match Numeral.ofText? count.trimEnd with
    | none => throw (.badCount count.trimEnd)
    | some n =>
      separator
      return .digest n digest.trim
  | none =>
    let (values, _) ← linesWhile (!·.isEmpty) .data .optional line
    return .values values

/-- Reads what follows a query header. The text ends at the delimiter or the end of the input, in
which case no values are expected. -/
def queryAfter (header : QueryHeader) : Read Operation := do
  let line ← Cursor.next .script .required
  let (lines, _) ← linesWhile (· ≠ resultDelimiter) .script .optional line
  let sourceLine ← lineNo
  let expected ← if ← atEnd then pure (.values []) else expectation
  return .query (joinQuery lines) sourceLine ⟨header.columns, header.order, expected⟩ header.label

/-- Reads a query, passing over blank lines before its header. -/
def query : Read (Option Operation) := do
  let line ← Cursor.next .script .optional
  if ← atEnd then return none
  let (_, header) ← linesWhile (·.isEmpty) .script .required line
  match "query".toList.isPrefixOf? header with
  | none => throw (.unexpectedLine header)
  | some description =>
    match QueryHeader.ofText description with
    | .error defect => throw (.badHeader defect)
    | .ok header => return some (← queryAfter header)

/-- Reads the body of a record, given the line that begins it. A line that begins neither `halt`
nor a statement is put back, for a query to begin there. -/
def body (line : Text) : Read Body := do
  if "halt".toList.isPrefixOf line then return .halt
  else if "statement".toList.isPrefixOf line then return .operation (← statement line)
  else
    Cursor.pushBack line
    match ← query with
    | some operation => return .operation operation
    | none => return .absent

end Read
end LogicTest
