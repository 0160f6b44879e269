import LogicTest.Text.Numeral

/-!
# JSON documents

A document is written in a compact form, without any space, or laid out, with each element and each
field on a line of its own, two spaces deeper than what holds it. An empty array or object is two
brackets in either form. Strings escape the quotation mark, the backslash and what is below U+0020,
and nothing else.
-/
namespace LogicTest

inductive Json where
  | null
  | bool (value : Bool)
  | number (value : Nat)
  | string (text : Text)
  | array (elements : List Json)
  | object (fields : List (Text × Json))
  deriving Repr

namespace Json

def escapeChar (c : Char) : Text :=
  if c = '"' then "\\\"".toList
  else if c = '\\' then "\\\\".toList
  else if c = '\x08' then "\\b".toList
  else if c = '\t' then "\\t".toList
  else if c = '\n' then "\\n".toList
  else if c = '\x0c' then "\\f".toList
  else if c = '\r' then "\\r".toList
  else if c.toNat < 0x10 then "\\u000".toList ++ Nat.toDigits 16 c.toNat
  else if c.toNat < 0x20 then "\\u00".toList ++ Nat.toDigits 16 c.toNat
  else [c]

def writeString (text : Text) : Text :=
  '"' :: text.flatMap escapeChar ++ ['"']

/-- Begins a line `depth` levels deep. -/
def newLine (depth : Nat) : Text := '\n' :: List.replicate (2 * depth) ' '

mutual

/-- The laid out form of a value that stands `depth` levels deep. -/
def laidOut (depth : Nat) : Json → Text
  | null => "null".toList
  | bool value => if value then "true".toList else "false".toList
  | number value => Numeral.toText value
  | string text => writeString text
  | array [] => "[]".toList
  | array (first :: others) =>
    '[' :: newLine (depth + 1) ++ laidOut (depth + 1) first ++ laidOutElements (depth + 1) others
      ++ newLine depth ++ [']']
  | object [] => ['\x7b', '\x7d']
  | object ((name, value) :: others) =>
    '\x7b' :: newLine (depth + 1) ++ writeString name ++ ": ".toList ++ laidOut (depth + 1) value
      ++ laidOutFields (depth + 1) others ++ newLine depth ++ ['\x7d']

/-- Elements after the first. -/
def laidOutElements (depth : Nat) : List Json → Text
  | [] => []
  | element :: others =>
    ',' :: newLine depth ++ laidOut depth element ++ laidOutElements depth others

/-- Fields after the first. -/
def laidOutFields (depth : Nat) : List (Text × Json) → Text
  | [] => []
  | (name, value) :: others =>
    ',' :: newLine depth ++ writeString name ++ ": ".toList ++ laidOut depth value
      ++ laidOutFields depth others

end

mutual

def compact : Json → Text
  | null => "null".toList
  | bool value => if value then "true".toList else "false".toList
  | number value => Numeral.toText value
  | string text => writeString text
  | array [] => "[]".toList
  | array (first :: others) => '[' :: compact first ++ compactElements others ++ [']']
  | object [] => ['\x7b', '\x7d']
  | object ((name, value) :: others) =>
    '\x7b' :: writeString name ++ ":".toList ++ compact value ++ compactFields others ++ ['\x7d']

/-- Elements after the first. -/
def compactElements : List Json → Text
  | [] => []
  | element :: others => ',' :: compact element ++ compactElements others

/-- Fields after the first. -/
def compactFields : List (Text × Json) → Text
  | [] => []
  | (name, value) :: others =>
    ',' :: writeString name ++ ":".toList ++ compact value ++ compactFields others

end

end Json
end LogicTest
