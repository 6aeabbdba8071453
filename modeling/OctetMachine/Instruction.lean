import OctetMachine.Numeral
import OctetMachine.Opcode

/-!
# Instructions

An instruction is three bytes: an operation and two operands, of which the format in the operation's
upper half says how many belong to it. The format is read off any byte, also one outside the set.
The listing of an instruction shows exactly the operands that belong to it.
-/

namespace OctetMachine

/-- How a byte says its instruction is laid out: bits 7 and 6 count the operands, bit 5 marks an
arithmetic result and bit 4 an operation that sets the program counter itself. -/
structure Format where
  operandCount : UInt8
  isArithmetic : Bool
  setsCounter : Bool
  deriving DecidableEq

namespace Format

def ofByte (b : UInt8) : Format where
  operandCount := b >>> 6
  isArithmetic := b &&& 0b00100000 != 0
  setsCounter := b &&& 0b00010000 != 0

/-- The bytes that an instruction takes: the operation and its operands. -/
def width (f : Format) : UInt8 := 1 + f.operandCount

end Format

/-- The window of three bytes that is read at the program counter. -/
structure Instruction where
  opcode : UInt8
  a : UInt8
  b : UInt8
  deriving DecidableEq

/-- What an operand byte stands for. -/
inductive Operand where
  | register
  | immediate
  deriving DecidableEq

/-- Register operands are shown as written, without reduction to the eight registers. -/
def Operand.text : Operand → UInt8 → String
  | .register, b => "R" ++ Numeral.decimal b.toNat
  | .immediate, b => Numeral.decimal b.toNat

/-- The operands of an operation, in order. -/
def Opcode.operands : Opcode → List Operand
  | .nop | .hlt | .ret | .iret => []
  | .ldi => [.register, .immediate]
  | .push | .pop | .prn | .pra | .call | .int | .jmp | .jeq | .jne | .jgt | .jlt | .jle | .jge
  | .inc | .dec | .not => [.register]
  | .ld | .st | .add | .sub | .mul | .div | .mod | .cmp | .and | .or | .xor | .shl | .shr =>
    [.register, .register]

/-- An operation has as many operands as the format in its byte says. -/
theorem Opcode.length_operands (op : Opcode) :
    op.operands.length = (Format.ofByte op.toByte).operandCount.toNat := by
  cases op <;> rfl

namespace Instruction

def format (i : Instruction) : Format := Format.ofByte i.opcode

/-- Items in a row; the first follows a blank, each other a comma and a blank. -/
def listed : List String → String
  | [] => ""
  | [item] => " " ++ item
  | item :: next :: rest => " " ++ item ++ "," ++ listed (next :: rest)

/-- The line of a listing for an instruction: its mnemonic and operands, or the byte in binary if it
is no operation. -/
def text (i : Instruction) : String :=
  match Opcode.ofByte? i.opcode with
  | none => "??? 0b" ++ Numeral.binary i.opcode
  | some op => op.mnemonic ++ listed (List.zipWith Operand.text op.operands [i.a, i.b])

end Instruction

end OctetMachine
