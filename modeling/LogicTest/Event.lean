import LogicTest.Script

/-!
# Log events

Announcements become log events at a level given by their verbosity, and a parse that succeeds ends
with an event that sums it up. A log line shows an event with its level and the part of the program
that it comes from.
-/
namespace LogicTest

inductive Level where
  | trace | debug | info
  deriving DecidableEq, Repr

namespace Level

def name : Level → Text
  | trace => "TRACE".toList
  | debug => "DEBUG".toList
  | info => "INFO".toList

/-- The level of an announcement: always of interest, of some interest, or chatter. -/
def ofVerbosity : Nat → Level
  | 0 => info
  | 1 => debug
  | _ => trace

end Level

structure Event where
  level : Level
  /-- the part of the program that the event comes from -/
  target : Text
  message : Text
  fields : List (Text × Text)
  deriving DecidableEq, Repr

namespace Event

def ofMessage (message : Message) : Event :=
  ⟨.ofVerbosity message.verbosity, "slt_parser::sink".toList, message.text, []⟩

def ofScript (script : Script) : Event :=
  ⟨.debug, "slt_parser::parser".toList, "parsed sqllogictest file".toList,
    [("file".toList, script.name),
      ("operations".toList, Numeral.toText script.operations.length),
      ("tests".toList, Numeral.toText script.queryCount),
      ("halted".toList, if script.halted then "true".toList else "false".toList)]⟩

/-- What is logged of a parse. -/
def ofParse (parse : Parse) : List Event :=
  parse.messages.map ofMessage ++ match parse.result with
    | .ok script => [ofScript script]
    | .error _ => []

/-- A character of a message as the log shows it: one that could steer a terminal is spelled out. -/
def showChar (c : Char) : Text :=
  let hex := Nat.toDigits 16 c.toNat
  if c = '\x1b' ∨ c = '\x7f' then "\\x".toList ++ hex
  else if c = '\x07' ∨ c = '\x08' ∨ c = '\x0c' then "\\x0".toList ++ hex
  else if 0x80 ≤ c.toNat ∧ c.toNat ≤ 0x9F then "\\u\x7b".toList ++ hex ++ "\x7d".toList
  else [c]

def showField (field : Text × Text) : Text :=
  " ".toList ++ field.1 ++ "=".toList ++ field.2

/-- The log line of an event. -/
def render (event : Event) : Text :=
  event.level.name ++ " ".toList ++ event.target ++ ": ".toList
    ++ event.message.flatMap showChar ++ event.fields.flatMap showField

end Event
end LogicTest
