import LogicTest.Script

/-!
# The division of a source into items

A second account of reading, one line at a time: a phase says what has been gathered of the item
at hand, a step takes one line up into it, and the division of a source is the sequence of items
that its lines complete. No policy is asked. Replaying a division under a policy gives what the
parse gives; that the two agree is shown in `LogicTest.Proofs.Division.Reading`.
-/
namespace LogicTest

/-- An item of a script, read to its end. -/
inductive Item where
  | blank
  | threshold (value : Option Nat)
  | halt (conditions : Conditions)
  | operation (conditions : Conditions) (operation : Operation)
  deriving DecidableEq

/-- A query of which the text has ended, on line `sourceLine`. -/
structure OpenQuery where
  header : QueryHeader
  lines : List Text
  sourceLine : Nat
  deriving DecidableEq

def OpenQuery.expecting (query : OpenQuery) (expected : Expectation) : Operation :=
  .query (joinQuery query.lines) query.sourceLine
    ⟨query.header.columns, query.header.order, expected⟩ query.header.label

/-- What has been gathered of the body of a record. -/
inductive BodyPhase where
  | statement (header : Text) (lines : List Text)
  /-- a query header is to follow, after blank lines if there are any -/
  | heading
  | text (header : QueryHeader) (lines : List Text)
  | result (query : OpenQuery)
  | values (query : OpenQuery) (lines : List Text)
  /-- the operation is complete, but for the blank line after its digest -/
  | separator (operation : Operation)
  deriving DecidableEq

/-- What has been gathered of an item. -/
inductive Phase where
  | start
  | directives (lines : List Text)
  | body (conditions : Conditions) (phase : BodyPhase)
  deriving DecidableEq

inductive BodyStep where
  | more (phase : BodyPhase)
  | done (operation : Operation)
  | stuck (fault : Fault)
  deriving DecidableEq

/-- What a line does to an item. A fault comes with the conditions of the record that it is met
in, if they are complete. -/
inductive Step where
  | more (phase : Phase)
  | done (item : Item)
  | stuck (conditions : Option Conditions) (fault : Fault)
  deriving DecidableEq

def BodyStep.within (conditions : Conditions) : BodyStep → Step
  | more phase => .more (.body conditions phase)
  | done operation => .done (.operation conditions operation)
  | stuck fault => .stuck (some conditions) fault

namespace BodyPhase

/-- A line where a query header is to follow. -/
def takeHeader (line : Text) : BodyStep :=
  if line.isEmpty then .more .heading
  else match "query".toList.isPrefixOf? line with
    | none => .stuck (.unexpectedLine line)
    | some description =>
      match QueryHeader.ofText description with
      | .error defect => .stuck (.badHeader defect)
      | .ok header => .more (.text header [])

/-- The first line after the delimiter of a query. -/
def takeResult (query : OpenQuery) (line : Text) : BodyStep :=
  match Text.cutAround? digestMarker line with
  | some (count, digest) =>
    match Numeral.ofText? count.trimEnd with
    | none => .stuck (.badCount count.trimEnd)
    | some n => .more (.separator (query.expecting (.digest n digest.trim)))
  | none =>
    if line.isEmpty then .done (query.expecting (.values []))
    else .more (.values query [line])

/-- What a line does that is not a comment; it is line `lineNo` of the source. -/
def take (lineNo : Nat) : BodyPhase → Text → BodyStep
  | statement header lines, line =>
    if line.isEmpty then
      .done (.statement lines.flatten ("statement ok".toList.isPrefixOf header))
    else .more (.statement header (lines ++ [line]))
  | heading, line => takeHeader line
  | text header lines, line =>
    if line = resultDelimiter then .more (.result ⟨header, lines, lineNo⟩)
    else .more (.text header (lines ++ [line]))
  | result query, line => takeResult query line
  | values query lines, line =>
    if line.isEmpty then .done (query.expecting (.values lines))
    else .more (.values query (lines ++ [line]))
  | separator operation, line =>
    if line.isEmpty then .done operation else .stuck (.missingSeparator line)

/-- What the end of the input does, after line `lineNo`. -/
def finish (lineNo : Nat) : BodyPhase → Except Fault Operation
  | statement header lines =>
    if lines.isEmpty then .error .prematureEnd
    else .ok (.statement lines.flatten ("statement ok".toList.isPrefixOf header))
  | heading => .error .prematureEnd
  | text header lines =>
    if lines.isEmpty then .error .prematureEnd
    else .ok (OpenQuery.expecting ⟨header, lines, lineNo⟩ (.values []))
  | result query => .ok (query.expecting (.values []))
  | values query lines => .ok (query.expecting (.values lines))
  | separator operation => .ok operation

end BodyPhase

/-- A line after the directives `lines`, or where a record may begin if there are none. -/
def Step.ofLine (lines : List Text) (line : Text) : Step :=
  if (Directive.ofLine? line).isSome then .more (.directives (lines ++ [line]))
  else if "halt".toList.isPrefixOf line then .done (.halt (.ofLines lines))
  else if "statement".toList.isPrefixOf line then
    .more (.body (.ofLines lines) (.statement line []))
  else (BodyPhase.takeHeader line).within (.ofLines lines)

namespace Phase

/-- Values are data; every other line loses its comment. -/
def kind : Phase → LineKind
  | body _ (.values _ _) => .data
  | _ => .script

/-- The conditions of the record at hand, once they are complete. -/
def conditions? : Phase → Option Conditions
  | body conditions _ => some conditions
  | _ => none

def take (lineNo : Nat) : Phase → Text → Step
  | start, line =>
    if line.isEmpty then .done .blank
    else match "hash-threshold".toList.isPrefixOf? line with
      | some value => .done (.threshold (Numeral.ofText? (Text.trim value)))
      | none => .ofLine [] line
  | directives lines, line => .ofLine lines line
  | body conditions phase, line => (phase.take lineNo line).within conditions

/-- What line `lineNo` of the source does, of which the trimmed text is `line`. -/
def step (lineNo : Nat) (phase : Phase) (line : Text) : Step :=
  match phase.kind with
  | .data => phase.take lineNo line
  | .script =>
    if isComment line then .more phase else phase.take lineNo (withoutComment line)

end Phase

/-- The items of a source, each with the place where it ends, and how they come to an end. -/
inductive Division where
  | ended (place : Cursor)
  | failed (conditions : Option Conditions) (fault : Fault) (place : Cursor)
  | item (item : Item) (place : Cursor) (rest : Division)
  deriving DecidableEq

/-- A fault that ends a division: the conditions of the record that it is met in, if they are
complete, and the line that was reached. -/
structure Break where
  conditions : Option Conditions
  fault : Fault
  line : Nat
  deriving DecidableEq

namespace Division

def items : Division → List Item
  | item first _ rest => first :: rest.items
  | _ => []

def break? : Division → Option Break
  | ended _ => none
  | failed conditions fault place => some ⟨conditions, fault, place.lineNo⟩
  | item _ _ rest => rest.break?

end Division

/-- What the end of the input makes of a phase. -/
def Phase.finish (place : Cursor) : Phase → Division
  | start => .ended place
  | directives _ => .failed none .prematureEnd place
  | body conditions phase =>
    match phase.finish place.lineNo with
    | .ok operation => .item (.operation conditions operation) place (.ended place)
    | .error fault => .failed (some conditions) fault place

/-- Divides what follows line `lineNo`, in the middle of an item. -/
def divide (lineNo : Nat) (phase : Phase) : Source → Division
  | [] => phase.finish ⟨[], lineNo, none, true⟩
  | .failure cause :: rest =>
    .failed phase.conditions? (.readFailed cause) ⟨rest, lineNo, none, false⟩
  | .line line :: rest =>
    match phase.step (lineNo + 1) line.trim with
    | .more next => divide (lineNo + 1) next rest
    | .done item =>
      .item item ⟨rest, lineNo + 1, none, false⟩ (divide (lineNo + 1) .start rest)
    | .stuck conditions fault => .failed conditions fault ⟨rest, lineNo + 1, none, false⟩

namespace Progress

/-- Takes up an item of which the policy says whether it is kept. -/
def takeUp (policy : Policy) (progress : Progress) : Item → Progress
  | .blank => progress
  | .threshold value => { progress with hashThreshold := value }
  | .halt conditions =>
    let progress := progress.note ⟨conditions, policy conditions⟩
    if policy conditions then { progress with halted := true } else progress
  | .operation conditions operation =>
    let progress := progress.note ⟨conditions, policy conditions⟩
    if policy conditions then progress.add operation else progress

def noteAll (policy : Policy) (progress : Progress) (conditions : Option Conditions) : Progress :=
  conditions.elim progress fun conditions => progress.note ⟨conditions, policy conditions⟩

end Progress

/-- Whether the item is a `halt` that the policy keeps. -/
def Item.stops (policy : Policy) : Item → Bool
  | halt conditions => policy conditions
  | _ => false

/-- What a parse makes of a division. -/
def replay (policy : Policy) (progress : Progress) : Division → Stop
  | .ended place => ⟨progress, none, place⟩
  | .failed conditions fault place => ⟨progress.noteAll policy conditions, some fault, place⟩
  | .item item place rest =>
    if item.stops policy then ⟨progress.takeUp policy item, none, place⟩
    else replay policy (progress.takeUp policy item) rest

end LogicTest
