import OctetMachine.Flags
import OctetMachine.Instruction
import OctetMachine.Memory
import OctetMachine.Registers
import OctetMachine.Settings
import OctetMachine.Statistics

/-!
# The machine

The state of a machine without its output device. The stack grows downward through memory from the
stack pointer, which addresses the byte pushed last; nothing guards its ends, so it wraps and may
run into the program.
-/

namespace OctetMachine

structure Machine where
  registers : Registers := .zero
  memory : Memory := .zero
  /-- The program counter. -/
  counter : UInt8 := 0
  flags : Flags := .clear
  halted : Bool := false
  tracing : Bool := false
  budget : Option UInt64 := none
  statistics : Statistics := {}
  deriving DecidableEq

namespace Machine

/-- A fresh machine with empty memory. -/
def ofSettings (s : Settings) : Machine where
  registers := match s.stackPointer with
    | none => .zero
    | some sp => Registers.zero.setStackPointer sp
  tracing := s.tracing
  budget := s.budget

/-- The value of the register that an operand byte names. -/
def operand (m : Machine) (b : UInt8) : UInt8 := m.registers.get (Register.ofByte b)

/-- The machine with a new value in the register that an operand byte names. -/
def setOperand (m : Machine) (b v : UInt8) : Machine :=
  { m with registers := m.registers.set (Register.ofByte b) v }

def stackPointer (m : Machine) : UInt8 := m.registers.stackPointer

/-- Stores a byte below the stack pointer, which then addresses it. -/
def push (m : Machine) (v : UInt8) : Machine :=
  { m with
    registers := m.registers.setStackPointer (m.stackPointer - 1)
    memory := m.memory.write (m.stackPointer - 1) v }

/-- The byte at the stack pointer. -/
def top (m : Machine) : UInt8 := m.memory.read m.stackPointer

/-- Moves the stack pointer past the byte it addresses. -/
def drop (m : Machine) : Machine :=
  { m with registers := m.registers.setStackPointer (m.stackPointer + 1) }

/-- The window at the program counter; it wraps around the end of memory. -/
def fetch (m : Machine) : Instruction where
  opcode := m.memory.read m.counter
  a := m.memory.read (m.counter + 1)
  b := m.memory.read (m.counter + 2)

/-- Lays an image out from address zero on. -/
def place (m : Machine) (image : List UInt8) : Machine :=
  { m with memory := m.memory.load image }

/-- The budget, if it allows no further instruction. -/
def spentBudget? (m : Machine) : Option UInt64 :=
  match m.budget with
  | none => none
  | some limit => if limit ≤ m.statistics.retired then some limit else none

end Machine

end OctetMachine
