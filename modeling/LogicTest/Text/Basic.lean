import LogicTest.Text.Blank

/-!
# Text

Text is a list of characters, so that a line is taken apart by recursion on its characters. Here
are the cuts that scripts, query headers and paths are made of, and the division into lines.
-/
namespace LogicTest

abbrev Text := List Char

namespace Text

def trimStart (text : Text) : Text := text.dropWhile isBlank

def trimEnd (text : Text) : Text := (text.reverse.dropWhile isBlank).reverse

def trim (text : Text) : Text := trimEnd (trimStart text)

/-- The part before the first blank, and the rest with that blank in front. -/
def splitToken (text : Text) : Text × Text :=
  (text.takeWhile (!isBlank ·), text.dropWhile (!isBlank ·))

/-- What stands before and after the first occurrence of `marker`. -/
def cutAround? (marker text : Text) : Option (Text × Text) :=
  match marker.isPrefixOf? text, text with
  | some after, _ => some ([], after)
  | none, [] => none
  | none, c :: rest => (cutAround? marker rest).map fun (before, after) => (c :: before, after)

/-- The lines of a text. A line feed, with at most one carriage return before it, ends a line; what
follows the last line feed is a line unless it is empty. -/
def lines : Text → List Text
  | [] => []
  | '\r' :: '\n' :: rest => [] :: lines rest
  | '\n' :: rest => [] :: lines rest
  | c :: rest =>
    match lines rest with
    | [] => [[c]]
    | line :: more => (c :: line) :: more

/-- Puts `width` spaces before the text and after every line feed in it. -/
def indent (width : Nat) (text : Text) : Text :=
  let space := List.replicate width ' '
  space ++ text.flatMap fun c => if c = '\n' then '\n' :: space else [c]

/-- The text between apostrophes, as messages quote it. -/
def quoted (text : Text) : Text := "'".toList ++ text ++ "'".toList

end Text
end LogicTest
