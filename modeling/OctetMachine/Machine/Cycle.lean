import OctetMachine.Arithmetic
import OctetMachine.Machine

/-!
# Around an operation

An operation leaves the program counter, the halt and the results of arithmetic to the cycle that
executes it, as an `Effect`. The cycle does what was left to be done, moves the program counter on
unless the operation sets it, and counts the instruction as retired.
-/

namespace OctetMachine

/-- What remains to be done after an operation. -/
inductive Effect where
  /-- Nothing but to move on. -/
  | next
  /-- Store the low byte of a result in the first operand's register. -/
  | writeBack (result : UInt16)
  /-- Continue at an address. -/
  | jump (target : UInt8)
  | halt
  deriving DecidableEq

namespace Machine

/-- An arithmetic operation changes nothing before its result is stored. -/
def calculate (m : Machine) (op : Arithmetic) (i : Instruction) : Effect :=
  .writeBack (op.wide (m.operand i.a) (m.operand i.b))

/-- The address behind the instruction at the program counter. -/
def following (m : Machine) (i : Instruction) : UInt8 := m.counter + i.format.width

/-- Does what an operation left to be done; `a` is its first operand. -/
def complete (m : Machine) (a : UInt8) : Effect → Machine
  | .next => m
  | .writeBack result => m.setOperand a (Arithmetic.narrow result)
  | .jump target => { m with counter := target }
  | .halt => { m with halted := true }

/-- Moves the program counter past an instruction that does not set it. -/
def advance (m : Machine) (i : Instruction) : Machine :=
  if i.format.setsCounter then m else { m with counter := m.following i }

def retire (m : Machine) (op : Opcode) : Machine :=
  { m with statistics := m.statistics.retire op }

/-- All that the cycle does behind an operation. -/
def settle (m : Machine) (op : Opcode) (i : Instruction) (e : Effect) : Machine :=
  ((m.complete i.a e).advance i).retire op

end Machine

end OctetMachine
