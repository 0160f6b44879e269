import LogicTest.Proofs.Division.Basic
import LogicTest.Proofs.QueryHeader
import LogicTest.Proofs.Text.Cut
import LogicTest.Proofs.Text.Numeral

/-!
# The grammar of scripts

Which stretches of physical lines form an item, and which item they form. The relations say nothing
of cursors, pending lines or phases: an item is described by the logical forms of its lines, and a
script by the stretches that it consists of. Line numbers are lengths: a stretch comes after `start`
lines of the script.

That a parse accepts exactly what is described here is shown in
`LogicTest.Proofs.Grammar.Acceptance`.
-/
namespace LogicTest.Grammar

/-- The logical form of a line: trimmed, and without its comment. -/
def logical (line : Text) : Text := Text.trimEnd (line.trim.takeWhile (· ≠ '#'))

/-- The logical forms of the lines that are not comments. -/
def logicalLines (lines : List Text) : List Text :=
  (lines.filter fun line => !isComment line.trim).map logical

/-- The logical lines of `segment` are `lines`, and it ends with the last of them. -/
structure Spells (segment lines : List Text) : Prop where
  logicalLines_eq : logicalLines segment = lines
  ends : ∃ init last, segment = init ++ [last] ∧ isComment last.trim = false

/-- Where an item ends: with the last of its lines, with the input, or with the input before the
delimiter of a query. -/
inductive Close where
  | line | input | undelimited
  deriving DecidableEq, Repr

def IsDirective (line : Text) : Prop := "skipif".toList <+: line ∨ "onlyif".toList <+: line

instance (line : Text) : Decidable (IsDirective line) :=
  inferInstanceAs (Decidable ("skipif".toList <+: line ∨ "onlyif".toList <+: line))

/-- The conditions are those that the directive lines name. -/
structure Names (directives : List Text) (conditions : Conditions) : Prop where
  mem_skip : ∀ condition, condition ∈ conditions.skip ↔
    ∃ rest, "skipif".toList ++ rest ∈ directives ∧ condition = Text.trim rest
  mem_only : ∀ condition, condition ∈ conditions.only ↔
    ∃ rest, "onlyif".toList ++ rest ∈ directives ∧ condition = Text.trim rest

/-- A line that gives a count, the words between, and a digest. -/
def IsDigest (line : Text) (count : Nat) (digest : Text) : Prop :=
  ∃ before after, Text.CutsAt digestMarker line before after ∧
    Numeral.Denotes before.trimEnd count ∧ digest = after.trim

/-- The lines after the delimiter of a query. -/
inductive IsResult : List Text → Close → Expectation → Prop where
  | empty {segment} (lines : Spells segment [[]]) : IsResult segment .line (.values [])
  | emptyAtEnd {segment} (lines : logicalLines segment = []) : IsResult segment .input (.values [])
  | digest {segment line count digest} (lines : Spells segment [line, []])
      (isDigest : IsDigest line count digest) : IsResult segment .line (.digest count digest)
  | digestAtEnd {segment line count digest} (lines : logicalLines segment = [line])
      (isDigest : IsDigest line count digest) : IsResult segment .input (.digest count digest)
  /-- Comments are removed up to the first value, and not after it. -/
  | values {segment value more blank} (first : Spells segment [value]) (nonempty : value ≠ [])
      (no_digest : ¬ digestMarker <:+: value) (others : ∀ line ∈ more, Text.trim line ≠ [])
      (last : Text.trim blank = []) :
      IsResult (segment ++ more ++ [blank]) .line (.values (value :: more.map Text.trim))
  | valuesAtEnd {segment value more} (first : Spells segment [value]) (nonempty : value ≠ [])
      (no_digest : ¬ digestMarker <:+: value) (others : ∀ line ∈ more, Text.trim line ≠ []) :
      IsResult (segment ++ more) .input (.values (value :: more.map Text.trim))

/-- The lines of a query join with single spaces. -/
def joined (lines : List Text) : Text := Text.trim ([' '].intercalate lines)

/-- A statement or a query, after the directive lines of its record. Blank lines may stand before
the header of a query if there are any such lines (`directed`). -/
inductive IsOperation (start : Nat) (directed : Prop) : List Text → Close → Operation → Prop where
  | statement {segment header sql} (lines : Spells segment (header :: sql ++ [[]]))
      (keyword : "statement".toList <+: header) (nonempty : ∀ line ∈ sql, line ≠ []) :
      IsOperation start directed segment .line
        (.statement sql.flatten (decide ("statement ok".toList <+: header)))
  | statementAtEnd {segment header sql} (lines : logicalLines segment = header :: sql)
      (keyword : "statement".toList <+: header) (nonempty : ∀ line ∈ sql, line ≠ [])
      (some_line : sql ≠ []) :
      IsOperation start directed segment .input
        (.statement sql.flatten (decide ("statement ok".toList <+: header)))
  | query {text result blanks sql description header close expected}
      (lines : Spells text
        (blanks ++ ("query".toList ++ description) :: sql ++ [resultDelimiter]))
      (blank : ∀ line ∈ blanks, line = []) (placed : blanks ≠ [] → directed)
      (isHeader : QueryHeader.Denotes description header) (undelimited : resultDelimiter ∉ sql)
      (isResult : IsResult result close expected) :
      IsOperation start directed (text ++ result) close
        (.query (joined sql) (start + text.length) ⟨header.columns, header.order, expected⟩
          header.label)
  | queryAtEnd {text blanks sql description header}
      (lines : logicalLines text = blanks ++ ("query".toList ++ description) :: sql)
      (blank : ∀ line ∈ blanks, line = []) (placed : blanks ≠ [] → directed)
      (isHeader : QueryHeader.Denotes description header) (undelimited : resultDelimiter ∉ sql)
      (some_line : sql ≠ []) :
      IsOperation start directed text .undelimited
        (.query (joined sql) (start + text.length) ⟨header.columns, header.order, .values []⟩
          header.label)

/-- A blank line, a threshold line or a record. -/
inductive IsItem (start : Nat) : List Text → Close → Item → Prop where
  | blank {segment} (lines : Spells segment [[]]) : IsItem start segment .line .blank
  | threshold {segment description value}
      (lines : Spells segment ["hash-threshold".toList ++ description])
      (denotes : ∀ n, value = some n ↔ Numeral.Denotes (Text.trim description) n) :
      IsItem start segment .line (.threshold value)
  | halt {named segment conditions line}
      (directives : ∀ line ∈ logicalLines named, IsDirective line)
      (names : Names (logicalLines named) conditions) (lines : Spells segment [line])
      (keyword : "halt".toList <+: line) :
      IsItem start (named ++ segment) .line (.halt conditions)
  | operation {named segment conditions close operation}
      (directives : ∀ line ∈ logicalLines named, IsDirective line)
      (names : Names (logicalLines named) conditions)
      (isOperation : IsOperation (start + named.length) (logicalLines named ≠ []) segment close
        operation) :
      IsItem start (named ++ segment) close (.operation conditions operation)

/-- A stretch of items, each of which ends with a line of its own. -/
inductive Items : Nat → List Text → List Item → Prop where
  | nil {start} : Items start [] []
  | cons {start segment lines item items} (first : IsItem start segment .line item)
      (others : Items (start + segment.length) lines items) :
      Items start (segment ++ lines) (item :: items)

/-- What may stand between the last item that ends with a line and the end of the input. -/
inductive Tail (start : Nat) : List Text → List Item → Prop where
  | comments {segment} (lines : logicalLines segment = []) : Tail start segment []
  | item {segment close item} (isItem : IsItem start segment close item)
      (unclosed : close ≠ .line) :
      Tail start segment [item]

/-- The items that a script with these lines has under a policy: all of them, or those up to the
first `halt` that the policy keeps. After that `halt` anything may follow. -/
inductive Accepts (policy : Policy) : List Text → List Item → Prop where
  | complete {body tail items last} (isBody : Items 0 body items)
      (isTail : Tail body.length tail last) (running : ∀ item ∈ items ++ last, !item.stops policy) :
      Accepts policy (body ++ tail) (items ++ last)
  | halted {body rest items conditions} (isBody : Items 0 body (items ++ [.halt conditions]))
      (running : ∀ item ∈ items, !item.stops policy) (kept : policy conditions) :
      Accepts policy (body ++ rest) (items ++ [.halt conditions])

/-- A record in which a fault is met, or the input after it. Its conditions are those that its own
directive lines name, if these are followed by a line that is none. -/
inductive Broken : List Text → Option Conditions → Prop where
  | directives {lines} (directives : ∀ line ∈ logicalLines lines, IsDirective line)
      (some_line : logicalLines lines ≠ []) : Broken lines none
  | body {named rest conditions} (directives : ∀ line ∈ logicalLines named, IsDirective line)
      (names : Names (logicalLines named) conditions)
      (first : ∃ line ∈ (logicalLines rest).head?, ¬ IsDirective line) :
      Broken (named ++ rest) (some conditions)

/-- No item begins these lines, nor do all of them form one. -/
def Formless (start : Nat) (lines : List Text) : Prop :=
  ∀ segment rest close item, lines = segment ++ rest → (close ≠ .line → rest = []) →
    ¬ IsItem start segment close item

/-- The items that the lines of a script are cut into, and the fault that ends them if there is
one. -/
inductive Cuts : Nat → List Text → List Item → Option Break → Prop where
  | tail {start lines items} (isTail : Tail start lines items) : Cuts start lines items none
  | broken {start lines ending} (isBroken : Broken lines ending.conditions)
      (formless : Formless start lines) : Cuts start lines [] (some ending)
  | item {start segment lines item items ending} (first : IsItem start segment .line item)
      (others : Cuts (start + segment.length) lines items ending) :
      Cuts start (segment ++ lines) (item :: items) ending

end LogicTest.Grammar
