import LogicTest.Policy
import LogicTest.Record.Weight

/-!
# Scripts

Parsing a script reads its items in order and asks the policy about each record once, before its
body is read: a rejected record is read all the same, so that it takes the lines that it would take
if it were kept. A `halt` that is kept ends the parse; the first fault ends it too.

Besides the script, a parse tells what the policy was asked, what was announced, and what of the
source it left unread.
-/
namespace LogicTest

/-- A parsed script: what it asks for, in order, and how many of that are queries. -/
structure Script where
  name : Text
  operations : List Operation
  queryCount : Nat
  /-- the value of the last threshold line, if it is a number -/
  hashThreshold : Option Nat
  halted : Bool
  deriving DecidableEq, Repr

/-- An answer of the policy. -/
structure Decision where
  conditions : Conditions
  kept : Bool
  deriving DecidableEq

/-- An announcement; the higher its verbosity, the fewer want to hear it. -/
structure Message where
  text : Text
  verbosity : Nat
  deriving DecidableEq, Repr

/-- What a parse has come to so far, each list in the order of the script. -/
structure Progress where
  operations : Array Operation
  queryCount : Nat
  hashThreshold : Option Nat
  halted : Bool
  decisions : Array Decision
  messages : Array Message
  deriving DecidableEq

namespace Progress

def start : Progress := ⟨#[], 0, none, false, #[], #[]⟩

def note (progress : Progress) (decision : Decision) : Progress :=
  { progress with decisions := progress.decisions.push decision }

def added (operation : Operation) : Message :=
  ⟨"Operation added ".toList ++ operation.render, 2⟩

/-- Takes up an operation and announces it. -/
def add (progress : Progress) (operation : Operation) : Progress :=
  { progress with
    operations := progress.operations.push operation
    queryCount := if operation.isQuery then progress.queryCount + 1 else progress.queryCount
    messages := progress.messages.push (added operation) }

def toScript (progress : Progress) (name : Text) : Script :=
  ⟨name, progress.operations.toList, progress.queryCount, progress.hashThreshold, progress.halted⟩

end Progress

/-- How a parse stopped: what it came to, the fault if there was one, and where it stood. -/
structure Stop where
  progress : Progress
  fault : Option Fault
  cursor : Cursor
  deriving DecidableEq

/-- Reads the items from `c` on, taking up the records that `policy` keeps. -/
def readItems (policy : Policy) (progress : Progress) (c : Cursor) : Stop :=
  match _hhead : Read.head c with
  | .error fault d => ⟨progress, some fault, d⟩
  | .ok .ended d => ⟨progress, none, d⟩
  | .ok .blank d => readItems policy progress d
  | .ok (.threshold value) d => readItems policy { progress with hashThreshold := value } d
  | .ok (.record conditions line) d =>
    let kept := policy conditions
    let progress := progress.note ⟨conditions, kept⟩
    match _hbody : Read.body line d with
    | .error fault e => ⟨progress, some fault, e⟩
    | .ok .halt e =>
      if kept then ⟨{ progress with halted := true }, none, e⟩
      else readItems policy progress e
    | .ok (.operation operation) e =>
      readItems policy (if kept then progress.add operation else progress) e
    | .ok .absent e => readItems policy progress e
termination_by c.weight
decreasing_by
  all_goals have := Read.weight_head _hhead nofun
  · exact this
  · exact this
  all_goals exact Nat.lt_of_le_of_lt (Read.advances_body _ _ _ _ _hbody) this

/-- The outcome of a parse and the traces that it leaves. -/
structure Parse where
  result : Except ScriptError Script
  decisions : List Decision
  messages : List Message
  unread : Source

/-- Parses `source` under `name`, keeping the records that `policy` keeps. -/
def parse (policy : Policy) (name : Text) (source : Source) : Parse :=
  let stop := readItems policy .start (.start source)
  let result := match stop.fault with
    | some fault => .error ⟨name, stop.cursor.lineNo, fault⟩
    | none => .ok (stop.progress.toScript name)
  ⟨result, stop.progress.decisions.toList, stop.progress.messages.toList, stop.cursor.unread⟩

/-- Parses a text, of which every line can be read. -/
def parseText (policy : Policy) (name text : Text) : Parse :=
  parse policy name (.ofText text)

end LogicTest
