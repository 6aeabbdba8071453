/-!
# The instruction set

The set has thirty-four operations. Eighteen of them can be executed; the others have a byte and a
mnemonic only. `ofByte?` reads a byte and `toByte` writes it; each undoes the other on the set.
-/

namespace OctetMachine

/-- An operation of the instruction set. -/
inductive Opcode where
  | nop | hlt | ret | iret
  | push | pop | prn | pra
  | call | int | jmp | jeq | jne | jgt | jlt | jle | jge
  | inc | dec | not
  | ldi | ld | st
  | add | sub | mul | div | mod | cmp | and | or | xor | shl | shr
  deriving DecidableEq

/-- What an operation works on, for the mix of a run. -/
inductive OpcodeKind where
  | alu | load | stack | branch | io | other
  deriving DecidableEq

namespace Opcode

/-- The operations in the order of their bytes. -/
def all : List Opcode :=
  [.nop, .hlt, .ret, .iret, .push, .pop, .prn, .pra, .call, .int, .jmp, .jeq, .jne, .jgt, .jlt,
    .jle, .jge, .inc, .dec, .not, .ldi, .ld, .st, .add, .sub, .mul, .div, .mod, .cmp, .and, .or,
    .xor, .shl, .shr]

/-- The byte of an operation. Its upper half holds the instruction format. -/
def toByte : Opcode → UInt8
  | .nop => 0b00000000
  | .hlt => 0b00000001
  | .ret => 0b00010001
  | .iret => 0b00010011
  | .push => 0b01000101
  | .pop => 0b01000110
  | .prn => 0b01000111
  | .pra => 0b01001000
  | .call => 0b01010000
  | .int => 0b01010010
  | .jmp => 0b01010100
  | .jeq => 0b01010101
  | .jne => 0b01010110
  | .jgt => 0b01010111
  | .jlt => 0b01011000
  | .jle => 0b01011001
  | .jge => 0b01011010
  | .inc => 0b01100101
  | .dec => 0b01100110
  | .not => 0b01101001
  | .ldi => 0b10000010
  | .ld => 0b10000011
  | .st => 0b10000100
  | .add => 0b10100000
  | .sub => 0b10100001
  | .mul => 0b10100010
  | .div => 0b10100011
  | .mod => 0b10100100
  | .cmp => 0b10100111
  | .and => 0b10101000
  | .or => 0b10101010
  | .xor => 0b10101011
  | .shl => 0b10101100
  | .shr => 0b10101101

/-- The operation of a byte, if the set has one. -/
def ofByte? (b : UInt8) : Option Opcode := all.find? fun op ↦ op.toByte == b

def mnemonic : Opcode → String
  | .nop => "NOP"
  | .hlt => "HLT"
  | .ret => "RET"
  | .iret => "IRET"
  | .push => "PUSH"
  | .pop => "POP"
  | .prn => "PRN"
  | .pra => "PRA"
  | .call => "CALL"
  | .int => "INT"
  | .jmp => "JMP"
  | .jeq => "JEQ"
  | .jne => "JNE"
  | .jgt => "JGT"
  | .jlt => "JLT"
  | .jle => "JLE"
  | .jge => "JGE"
  | .inc => "INC"
  | .dec => "DEC"
  | .not => "NOT"
  | .ldi => "LDI"
  | .ld => "LD"
  | .st => "ST"
  | .add => "ADD"
  | .sub => "SUB"
  | .mul => "MUL"
  | .div => "DIV"
  | .mod => "MOD"
  | .cmp => "CMP"
  | .and => "AND"
  | .or => "OR"
  | .xor => "XOR"
  | .shl => "SHL"
  | .shr => "SHR"

/-- The operation of a mnemonic, spelled in capitals. -/
def ofMnemonic? (name : String) : Option Opcode := all.find? fun op ↦ op.mnemonic == name

/-- Whether the machine can execute the operation. -/
def isImplemented : Opcode → Bool
  | .nop | .hlt | .ret | .push | .pop | .prn | .pra | .call | .jmp | .jeq | .jne | .inc | .dec
  | .ldi | .ld | .add | .mul | .cmp => true
  | .iret | .int | .jgt | .jlt | .jle | .jge | .not | .st | .sub | .div | .mod | .and | .or | .xor
  | .shl | .shr => false

/-- Operations that cannot be executed count as `other`. -/
def kind : Opcode → OpcodeKind
  | .add | .mul | .inc | .dec | .cmp => .alu
  | .ldi | .ld => .load
  | .push | .pop => .stack
  | .call | .ret | .jmp | .jeq | .jne => .branch
  | .prn | .pra => .io
  | _ => .other

theorem mem_all (op : Opcode) : op ∈ all := by cases op <;> decide

@[simp] theorem ofByte?_toByte (op : Opcode) : ofByte? op.toByte = some op := by cases op <;> rfl

theorem ofByte?_eq_some_iff {b : UInt8} {op : Opcode} : ofByte? b = some op ↔ op.toByte = b := by
  constructor
  · intro h
    simpa using List.find?_some h
  · rintro rfl
    exact ofByte?_toByte op

@[simp] theorem ofMnemonic?_mnemonic (op : Opcode) : ofMnemonic? op.mnemonic = some op := by
  cases op <;> decide +kernel

end Opcode

end OctetMachine
