import Mathlib.Data.Nat.Digits.Defs
import OctetMachine.JsonText.Token

/-!
# JSON texts as trees

The grammar of JSON as trees: white space, words, numbers, strings, arrays and objects, with every
choice of spelling kept and no other text to spell. What a tree stands for is said here from its
parts, without a reader; a string whose surrogates are not paired stands for nothing.
-/

namespace OctetMachine.JsonText

/-! ## White space -/

inductive Space where
  | blank
  | tab
  | lineFeed
  | carriageReturn

def Space.char : Space → Char
  | .blank => ' '
  | .tab => '\t'
  | .lineFeed => '\n'
  | .carriageReturn => '\r'

/-- The white space between two tokens. -/
abbrev Gap := List Space

def Gap.text (g : Gap) : List Char := g.map Space.char

/-! ## Strings -/

/-- A hexadecimal digit; a letter is written in either case. -/
structure HexDigit where
  value : Fin 16
  capital : Bool := false

def HexDigit.char (d : HexDigit) : Char :=
  if d.capital then (Nat.digitChar d.value).toUpper else Nat.digitChar d.value

/-- Sixteen bits in four digits. -/
structure CodeUnit where
  first : HexDigit
  second : HexDigit
  third : HexDigit
  fourth : HexDigit

namespace CodeUnit

def text (u : CodeUnit) : List Char := [u.first.char, u.second.char, u.third.char, u.fourth.char]

def value (u : CodeUnit) : Nat :=
  16 ^ 3 * u.first.value + 16 ^ 2 * u.second.value + 16 * u.third.value + u.fourth.value

/-- Whether a code unit is the first of a surrogate pair. -/
def IsHigh (u : CodeUnit) : Prop := 0xD800 ≤ u.value ∧ u.value < 0xDC00

/-- Whether a code unit is the second of a surrogate pair. -/
def IsLow (u : CodeUnit) : Prop := 0xDC00 ≤ u.value ∧ u.value < 0xE000

instance (u : CodeUnit) : Decidable u.IsHigh := inferInstanceAs (Decidable (_ ∧ _))

instance (u : CodeUnit) : Decidable u.IsLow := inferInstanceAs (Decidable (_ ∧ _))

end CodeUnit

/-- The code point of a surrogate pair. -/
def pairValue (high low : CodeUnit) : Nat :=
  0x10000 + (high.value - 0xD800) * 0x400 + (low.value - 0xDC00)

/-- A character that is written as a backslash and a letter or sign. -/
inductive Escape where
  | quote
  | backslash
  | slash
  | backspace
  | formFeed
  | lineFeed
  | carriageReturn
  | tab

namespace Escape

def sign : Escape → Char
  | .quote => '"'
  | .backslash => '\\'
  | .slash => '/'
  | .backspace => 'b'
  | .formFeed => 'f'
  | .lineFeed => 'n'
  | .carriageReturn => 'r'
  | .tab => 't'

def char : Escape → Char
  | .quote => '"'
  | .backslash => '\\'
  | .slash => '/'
  | .backspace => '\x08'
  | .formFeed => '\x0c'
  | .lineFeed => '\n'
  | .carriageReturn => '\r'
  | .tab => '\t'

end Escape

/-- Whether a character stands for itself in a string. -/
def IsPlain (c : Char) : Prop := ' ' ≤ c ∧ c ≠ '"' ∧ c ≠ '\\'

instance (c : Char) : Decidable (IsPlain c) := inferInstanceAs (Decidable (_ ∧ _))

/-- A part of a string. -/
inductive Piece where
  | plain (c : Char) (h : IsPlain c)
  | escape (e : Escape)
  | unit (u : CodeUnit)

def Piece.text : Piece → List Char
  | .plain c _ => [c]
  | .escape e => ['\\', e.sign]
  | .unit u => '\\' :: 'u' :: u.text

/-- A string as it is written between its quotes. -/
abbrev Quotation := List Piece

namespace Quotation

def inside (q : Quotation) : List Char := q.flatMap Piece.text

def text (q : Quotation) : List Char := '"' :: (q.inside ++ ['"'])

/-- The string that is written with characters that stand for themselves; others are left out. -/
def plainly (text : String) : Quotation :=
  text.toList.filterMap fun c ↦ if h : IsPlain c then some (.plain c h) else none

/-- What a string stands for, if its surrogates are paired. -/
def decode? : Quotation → Option (List Char)
  | [] => some []
  | .plain c _ :: rest => (decode? rest).map (c :: ·)
  | .escape e :: rest => (decode? rest).map (e.char :: ·)
  | .unit u :: rest =>
    if u.IsHigh then
      match rest with
      | .unit v :: rest =>
        if v.IsLow then (decode? rest).map (Char.ofNat (pairValue u v) :: ·) else none
      | _ => none
    else if u.IsLow then none
    else (decode? rest).map (Char.ofNat u.value :: ·)

end Quotation

/-! ## Numbers -/

/-- Decimal digits, of which there is one. -/
structure Digits where
  first : Fin 10
  rest : List (Fin 10) := []

namespace Digits

def list (ds : Digits) : List (Fin 10) := ds.first :: ds.rest

def text (ds : Digits) : List Char := ds.list.map fun d ↦ Nat.digitChar d.val

def value (ds : Digits) : Nat := Nat.ofDigits 10 (ds.list.reverse.map Fin.val)

end Digits

/-- The sign of an exponent, which may be left out. -/
inductive ExponentSign where
  | absent
  | plus
  | minus

def ExponentSign.text : ExponentSign → List Char
  | .absent => []
  | .plus => ['+']
  | .minus => ['-']

structure Exponent where
  capital : Bool := false
  sign : ExponentSign := .absent
  digits : Digits

def Exponent.text (e : Exponent) : List Char :=
  (if e.capital then 'E' else 'e') :: (e.sign.text ++ e.digits.text)

/-- A number as it is written; zero is the only whole part that starts with a zero. -/
structure Decimal where
  negative : Bool := false
  whole : Digits
  noLeadingZero : whole.first = 0 → whole.rest = []
  fraction : Option Digits := none
  exponent : Option Exponent := none

namespace Decimal

/-- The number without its sign. -/
def unsigned (x : Decimal) : List Char :=
  x.whole.text ++ (x.fraction.elim [] fun ds ↦ '.' :: ds.text) ++ x.exponent.elim [] Exponent.text

def text (x : Decimal) : List Char := (if x.negative then ['-'] else []) ++ x.unsigned

/-- Whether a number has neither sign nor fraction nor exponent. -/
def IsWhole (x : Decimal) : Prop := x.negative = false ∧ x.fraction = none ∧ x.exponent = none

instance (x : Decimal) : Decidable x.IsWhole := inferInstanceAs (Decidable (_ ∧ _))

end Decimal

/-! ## Values -/

/-- An element of an array with the white space around it. -/
structure Element (α : Type) where
  before : Gap
  value : α
  after : Gap

/-- A member of an object with the white space around its parts. -/
structure Member (α : Type) where
  before : Gap := []
  key : Quotation
  afterKey : Gap := []
  beforeValue : Gap := []
  value : α
  after : Gap := []

inductive Value where
  | word (w : Word)
  | number (x : Decimal)
  | string (q : Quotation)
  | array (inner : Gap) (elements : List (Element Value))
  | object (inner : Gap) (members : List (Member Value))

def Word.text : Word → List Char
  | .true => ['t', 'r', 'u', 'e']
  | .false => ['f', 'a', 'l', 's', 'e']
  | .null => ['n', 'u', 'l', 'l']

mutual

def Value.text : Value → List Char
  | .word w => w.text
  | .number x => x.text
  | .string q => q.text
  | .array inner elements =>
    '[' :: (inner.text ++ [','].intercalate (elementTexts elements) ++ [']'])
  | .object inner members =>
    '\x7b' :: (inner.text ++ [','].intercalate (memberTexts members) ++ ['\x7d'])

def elementTexts : List (Element Value) → List (List Char)
  | [] => []
  | e :: rest => elementText e :: elementTexts rest

def elementText : Element Value → List Char
  | ⟨before, value, after⟩ => before.text ++ value.text ++ after.text

def memberTexts : List (Member Value) → List (List Char)
  | [] => []
  | m :: rest => memberText m :: memberTexts rest

def memberText : Member Value → List Char
  | ⟨before, key, afterKey, beforeValue, value, after⟩ =>
    before.text ++ key.text ++ afterKey.text ++
      ':' :: (beforeValue.text ++ value.text ++ after.text)

end

/-- A member says what its value is under its key, if the key decodes. -/
abbrev Entry := Option (List Char) × Value

def Member.entry (m : Member Value) : Entry := (m.key.decode?, m.value)

/-- What the members of an object say, in their order; nothing is said by another value. -/
def Value.entries : Value → List Entry
  | .object _ members => members.map Member.entry
  | _ => []

/-- A JSON text whose root is an object. -/
structure Document where
  before : Gap := []
  inner : Gap := []
  members : List (Member Value)
  after : Gap := []

namespace Document

def text (d : Document) : String :=
  String.ofList (d.before.text ++ (Value.object d.inner d.members).text ++ d.after.text)

/-- The keys of the root. -/
def keys (d : Document) : List (Option (List Char)) := d.members.map fun m ↦ m.key.decode?

/-- What is said inside the member `general` of the root. -/
def entries (d : Document) : List Entry :=
  d.members.flatMap fun m ↦ if m.key.decode? = some "general".toList then m.value.entries else []

end Document

end OctetMachine.JsonText
