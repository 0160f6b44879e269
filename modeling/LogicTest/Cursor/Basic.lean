import LogicTest.Fault

/-!
# The line cursor

A cursor hands out the lines of a source, trimmed, and can hold one line that was put back. A
reading action moves the cursor and gives a value or a fault; after a fault the cursor stands where
the fault was met, and reading can go on.
-/
namespace LogicTest

/-- Whether a line is needed, or the end of the input will do. -/
inductive Need where
  | optional | required
  deriving DecidableEq, Repr

/-- How lines are taken: script lines without their comments, data lines as they are. -/
inductive LineKind where
  | script | data
  deriving DecidableEq, Repr

/-- The place reached in a source. `lineNo` counts the lines taken from the source, and `done` says
whether a read has found its end. -/
structure Cursor where
  unread : Source
  lineNo : Nat
  pending : Option Text
  done : Bool
  deriving DecidableEq, Repr

abbrev Read := EStateM Fault Cursor

def isComment (line : Text) : Bool := line.head? == some '#'

/-- A comment runs from the first number sign to the end of the line. -/
def withoutComment (line : Text) : Text :=
  if '#' ∈ line then Text.trimEnd (line.takeWhile (· ≠ '#')) else line

def Reading.isComment : Reading → Bool
  | line text => LogicTest.isComment text.trim
  | failure _ => false

namespace Cursor

def start (source : Source) : Cursor := ⟨source, 0, none, false⟩

/-- The end of the input as an answer to a need for a line. -/
def endOfInput (need : Need) : Read Text := fun c =>
  match need with
  | .optional => .ok [] c
  | .required => .error .prematureEnd c

/-- The pending line as it was put back, else the next line of the source, trimmed. -/
def nextRaw (need : Need) : Read Text := fun c =>
  match c.pending with
  | some line => .ok line { c with pending := none }
  | none =>
    if c.done then endOfInput need c
    else match c.unread with
      | [] => endOfInput need { c with done := true }
      | .line text :: rest => .ok text.trim { c with unread := rest, lineNo := c.lineNo + 1 }
      | .failure cause :: rest => .error (.readFailed cause) { c with unread := rest }

/-- Passes over the comment lines at the front of the source. -/
def skipUnread (c : Cursor) : Cursor :=
  if c.done then c
  else { c with
    unread := c.unread.dropWhile (·.isComment)
    lineNo := c.lineNo + (c.unread.takeWhile (·.isComment)).length }

/-- Passes over comment lines, the pending line included. -/
def skipComments (c : Cursor) : Cursor :=
  match c.pending with
  | some line => if isComment line then skipUnread { c with pending := none } else c
  | none => c.skipUnread

/-- The next line that is not a comment, without the comment at its end. -/
def nextLine (need : Need) : Read Text := do
  modify skipComments
  return withoutComment (← nextRaw need)

def next : LineKind → Need → Read Text
  | .script => nextLine
  | .data => nextRaw

/-- Makes `line` the next one to be read; only one line can be pending. -/
def pushBack (line : Text) : Read Unit := fun c =>
  if c.pending.isSome then .error .pushbackOveruse c
  else .ok () { c with pending := some line }

end Cursor
end LogicTest
