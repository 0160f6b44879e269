import LogicTest.Text.Utf8

/-!
# Sources

A source is what a reader of lines meets, in order: lines, and reads that fail. It is made from a
text, which never fails, or from the bytes and failures of a stream.
-/
namespace LogicTest

/-- Why a read gave no line: the stream failed, or the line is not UTF-8. -/
inductive ReadFailure where
  | stream (reason : Text) | notUtf8
  deriving DecidableEq, Repr

def ReadFailure.message : ReadFailure → Text
  | stream reason => reason
  | notUtf8 => "stream did not contain valid UTF-8".toList

/-- What one attempt to take a line gives. -/
inductive Reading where
  | line (text : Text) | failure (cause : ReadFailure)
  deriving DecidableEq, Repr

abbrev Source := List Reading

/-- What a stream gives at one place. -/
inductive Signal where
  | byte (value : UInt8) | failure (reason : Text)
  deriving DecidableEq, Repr

/-- What a stream gives up to one line end or failure. -/
inductive Stretch where
  | bytes (line : List UInt8) | failure (reason : Text)
  deriving DecidableEq, Repr

/-- Cuts a stream at its line ends and failures. A failure takes the part of the line before it. -/
def Stretch.ofSignals : List Signal → List Stretch
  | [] => []
  | .failure reason :: rest => .failure reason :: ofSignals rest
  | .byte 0x0D :: .byte 0x0A :: rest => .bytes [] :: ofSignals rest
  | .byte 0x0A :: rest => .bytes [] :: ofSignals rest
  | .byte b :: rest =>
    match ofSignals rest with
    | [] => [.bytes [b]]
    | .bytes line :: more => .bytes (b :: line) :: more
    | .failure reason :: more => .failure reason :: more

def Stretch.toReading : Stretch → Reading
  | bytes line => (Utf8.decode? line).elim (.failure .notUtf8) .line
  | failure reason => .failure (.stream reason)

namespace Source

def ofText (text : Text) : Source := text.lines.map .line

def ofSignals (signals : List Signal) : Source := (Stretch.ofSignals signals).map (·.toReading)

def ofBytes (bytes : List UInt8) : Source := ofSignals (bytes.map .byte)

end Source
end LogicTest
