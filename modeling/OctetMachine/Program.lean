import OctetMachine.Numeral
import OctetMachine.Program.Literal
import OctetMachine.Text.Blank

/-!
# Program texts

A program text holds one byte literal a line. A comment runs from `#` to the end of its line, white
space around a literal is ignored, and lines without a literal are skipped but counted. The image of
a program is the list of its bytes; the first line that is no literal decides the error.
-/

namespace OctetMachine.Program

/-- Why a program could not be loaded. -/
inductive LoadError where
  | unreadable (path reason : String)
  /-- A line, counted from one, that holds something other than a literal. -/
  | malformed (line : Nat) (text : String) (cause : LiteralError)
  | tooLarge (length capacity : Nat)
  deriving DecidableEq

def LoadError.message : LoadError → String
  | .unreadable path reason => "could not read program file '" ++ path ++ "': " ++ reason
  | .malformed line text _ =>
    "line " ++ Numeral.decimal line ++ ": '" ++ text ++ "' is not a binary byte literal"
  | .tooLarge length capacity =>
    "program is " ++ Numeral.decimal length ++ " bytes but memory holds only " ++
      Numeral.decimal capacity

/-- The lines of a text. A line feed ends a line; a carriage return before it is white space. -/
def lines (text : List Char) : List (List Char) := text.splitOn '\n'

/-- A line without its comment and the white space around the rest. -/
def code (line : List Char) : List Char :=
  Text.trim (line.takeWhile (· ≠ '#'))

/-- The bytes of lines that are counted from `number` on. -/
def imageOfLines (number : Nat) : List (List Char) → Except LoadError (List UInt8)
  | [] => .ok []
  | line :: rest =>
    if (code line).isEmpty then imageOfLines (number + 1) rest
    else
      match readLiteral (code line) with
      | .error cause => .error (.malformed number (String.ofList (code line)) cause)
      | .ok b => (imageOfLines (number + 1) rest).map (b :: ·)

/-- The image of a program text. -/
def image (text : String) : Except LoadError (List UInt8) := imageOfLines 1 (lines text.toList)

/-- The image of a program file, of which the text or the reason why it has none is known. -/
def imageOfFile (path : String) (text : Except String String) : Except LoadError (List UInt8) :=
  match text with
  | .error reason => .error (.unreadable path reason)
  | .ok text => image text

end OctetMachine.Program
