/-!
# Byte literals

A literal is a binary numeral of value at most 255. A plus sign may stand before it, then a mark
`0b` or `0B`, behind which one separator `_` may stand, and single separators may stand between
digits. A text in which separators are misplaced is read as it is, and fails at one of them or
before it.
-/

namespace OctetMachine.Program

/-- Why a text is no byte literal. -/
inductive LiteralError where
  | empty
  | invalidDigit
  | overflow
  deriving DecidableEq

def LiteralError.message : LiteralError → String
  | .empty => "cannot parse integer from empty string"
  | .invalidDigit => "invalid digit found in string"
  | .overflow => "number too large to fit in target type"

/-- The text behind a sign, or all of it. -/
def unsigned : List Char → List Char
  | '+' :: rest => rest
  | text => text

/-- The text behind a separator, or all of it. -/
def unseparated : List Char → List Char
  | '_' :: rest => rest
  | text => text

/-- The part of an unsigned text that may hold separators; there is none in a bare numeral. -/
def separable? : List Char → Option (List Char)
  | '0' :: 'b' :: rest => some (unseparated rest)
  | '0' :: 'B' :: rest => some (unseparated rest)
  | text => if text.contains '_' then some text else none

/-- Whether a character other than a separator follows each separator. -/
def separatorsFollowed : List Char → Bool
  | [] => true
  | ['_'] => false
  | '_' :: '_' :: _ => false
  | _ :: rest => separatorsFollowed rest

/-- Whether separators stand singly between other characters, and no sign comes first. -/
def wellSeparated : List Char → Bool
  | [] => false
  | '_' :: _ => false
  | '+' :: _ => false
  | text => separatorsFollowed text

/-- A literal without mark and separators; a text with misplaced separators is left as it is. -/
def digitsOf (text : List Char) : List Char :=
  match separable? (unsigned text) with
  | none => text
  | some body => if wellSeparated body then body.filter (· ≠ '_') else text

def digitValue? : Char → Option Nat
  | '0' => some 0
  | '1' => some 1
  | _ => none

/-- Reads digits behind those of value `value`. At one digit, being invalid comes before overflow.
-/
def readDigits (value : Nat) : List Char → Except LiteralError UInt8
  | [] => .ok (UInt8.ofNat value)
  | c :: rest =>
    match digitValue? c with
    | none => .error .invalidDigit
    | some d => if 2 * value + d < 256 then readDigits (2 * value + d) rest else .error .overflow

/-- Reads a binary numeral; a sign counts as one only before other characters. -/
def readNumeral : List Char → Except LiteralError UInt8
  | [] => .error .empty
  | '+' :: c :: rest => readDigits 0 (c :: rest)
  | text => readDigits 0 text

def readLiteral (text : List Char) : Except LiteralError UInt8 := readNumeral (digitsOf text)

end OctetMachine.Program
