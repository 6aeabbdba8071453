import OctetMachine.Machine.Cycle

/-!
# The successor of a machine

A step goes from the window over the operation and its effect to the advance of the program counter.
Here its result is said once more by components: what an operation that can be executed leaves in
each of them. `settled_execute` shows the two the same, so what a step keeps or changes is read off
the component and needs no look at the others.
-/

namespace OctetMachine

namespace Opcode

/-- Operations that put a byte on the stack. -/
def pushes : Opcode → Bool
  | .push | .call => true
  | _ => false

/-- Operations that take a byte off the stack. -/
def pops : Opcode → Bool
  | .pop | .ret => true
  | _ => false

/-- Operations that store a value in the register of their first operand. -/
def writesOperand : Opcode → Bool
  | .ldi | .ld | .add | .mul | .inc | .dec | .pop => true
  | _ => false

end Opcode

namespace Arithmetic

/-- The low byte of a sixteen-bit result is the result modulo 256, also for the predecessor of zero.
-/
theorem narrow_wide (op : Arithmetic) (a b : UInt8) :
    narrow (op.wide a b) =
      match op with
      | .add => a + b
      | .mul => a * b
      | .inc => a + 1
      | .dec => a - 1 := by
  cases op <;> simp [narrow, wide]

end Arithmetic

namespace Statistics

@[simp] theorem retired_countJump (s : Statistics) (taken : Bool) :
    (s.countJump taken).retired = s.retired := by
  cases taken <;> rfl

@[simp] theorem count_countJump (s : Statistics) (taken : Bool) (kind : OpcodeKind) :
    (s.countJump taken).count kind = s.count kind := by
  cases taken <;> cases kind <;> rfl

end Statistics

namespace Condition

theorem next_equal (flags : Flags) (counter target : UInt8) :
    next flags counter target .equal = if flags = .equal then target else counter + 2 := by
  cases flags <;> rfl

theorem next_notEqual (flags : Flags) (counter target : UInt8) :
    next flags counter target .notEqual = if flags = .equal then counter + 2 else target := by
  cases flags <;> rfl

end Condition

namespace Machine

/-- The register that the first operand of the next instruction names. -/
def target (m : Machine) : Register := Register.ofByte m.fetch.a

/-- The stack pointer moves before a popped byte is stored, so a pop into it keeps the byte. -/
def nextRegisters (m : Machine) : Opcode → Registers
  | .ldi => m.registers.set m.target m.fetch.b
  | .ld => m.registers.set m.target (m.memory.read (m.operand m.fetch.b))
  | .add => m.registers.set m.target (m.operand m.fetch.a + m.operand m.fetch.b)
  | .mul => m.registers.set m.target (m.operand m.fetch.a * m.operand m.fetch.b)
  | .inc => m.registers.set m.target (m.operand m.fetch.a + 1)
  | .dec => m.registers.set m.target (m.operand m.fetch.a - 1)
  | .push | .call => m.registers.setStackPointer (m.stackPointer - 1)
  | .pop => (m.registers.setStackPointer (m.stackPointer + 1)).set m.target m.top
  | .ret => m.registers.setStackPointer (m.stackPointer + 1)
  | _ => m.registers

/-- The byte that an operation puts on the stack, if it does. -/
def pushed (m : Machine) : Opcode → UInt8
  | .call => m.counter + 2
  | _ => m.operand m.fetch.a

def nextMemory (m : Machine) (op : Opcode) : Memory :=
  if op.pushes then m.memory.write (m.stackPointer - 1) (m.pushed op) else m.memory

def nextCounter (m : Machine) : Opcode → UInt8
  | .call => (m.nextRegisters .call).get m.target
  | .ret => m.top
  | .jmp => m.operand m.fetch.a
  | .jeq => if m.flags = .equal then m.operand m.fetch.a else m.counter + 2
  | .jne => if m.flags = .equal then m.counter + 2 else m.operand m.fetch.a
  | op => m.counter + (Format.ofByte op.toByte).width

def nextFlags (m : Machine) : Opcode → Flags
  | .cmp => Flags.compare (m.operand m.fetch.a) (m.operand m.fetch.b)
  | _ => m.flags

/-- The counters after the jump of an operation, if it is a conditional one, was counted. -/
def jumpStatistics (m : Machine) : Opcode → Statistics
  | .jeq => m.statistics.countJump (m.flags == .equal)
  | .jne => m.statistics.countJump (m.flags != .equal)
  | _ => m.statistics

/-- The machine after one instruction with an operation that can be executed. -/
def next (m : Machine) (op : Opcode) : Machine where
  registers := m.nextRegisters op
  memory := m.nextMemory op
  counter := m.nextCounter op
  flags := m.nextFlags op
  halted := op == .hlt || m.halted
  tracing := m.tracing
  budget := m.budget
  statistics := (m.jumpStatistics op).retire op

/-- The text that an operation prints. -/
def printed (m : Machine) : Opcode → List Char
  | .prn => Numeral.decimalDigits (m.operand m.fetch.a).toNat
  | .pra => [Char.ofNat (m.operand m.fetch.a).toNat]
  | _ => []

/-- The text that an operation prints on a window of its own. -/
def text (m : Machine) (op : Opcode) (i : Instruction) : List Char :=
  match op with
  | .prn => Numeral.decimalDigits (m.operand i.a).toNat
  | .pra => [Char.ofNat (m.operand i.a).toNat]
  | _ => []

theorem text_fetch (m : Machine) (op : Opcode) : m.text op m.fetch = m.printed op := by
  cases op <;> rfl

theorem text_eq_nil (m : Machine) {op : Opcode} (hprn : op ≠ .prn) (hpra : op ≠ .pra)
    (i : Instruction) : m.text op i = [] := by
  unfold text
  split
  · exact absurd rfl hprn
  · exact absurd rfl hpra
  · rfl

/-! ## The account of a successor -/

@[simp] theorem retired_jumpStatistics (m : Machine) (op : Opcode) :
    (m.jumpStatistics op).retired = m.statistics.retired := by
  cases op <;> simp [jumpStatistics]

@[simp] theorem count_jumpStatistics (m : Machine) (op : Opcode) (kind : OpcodeKind) :
    (m.jumpStatistics op).count kind = m.statistics.count kind := by
  cases op <;> simp [jumpStatistics]

/-- Every operation counts once, whatever it does to the other counters. -/
theorem retired_next (m : Machine) (op : Opcode) :
    (m.next op).statistics.retired = m.statistics.retired + 1 := by
  change ((m.jumpStatistics op).retire op).retired = m.statistics.retired + 1
  rw [Statistics.retired_retire, retired_jumpStatistics]

@[simp] theorem budget_next (m : Machine) (op : Opcode) : (m.next op).budget = m.budget := rfl

/-! ## The stack in a successor -/

/-- Memory is written in one cell at most, the one below the stack pointer. -/
theorem read_nextMemory (m : Machine) (op : Opcode) (address : UInt8) :
    (m.nextMemory op).read address =
      if op.pushes ∧ address = m.stackPointer - 1 then m.pushed op else m.memory.read address := by
  unfold nextMemory
  cases op.pushes <;> simp

/-- Unless an operation names the stack pointer as its result, it moves it as a stack does. -/
theorem stackPointer_next {m : Machine} {op : Opcode}
    (hfree : op.writesOperand = true → m.target ≠ Register.stackPointer) :
    (m.next op).stackPointer =
      if op.pushes then m.stackPointer - 1
      else if op.pops then m.stackPointer + 1
      else m.stackPointer := by
  have hset (r : Registers) (v : UInt8) (h : m.target ≠ Register.stackPointer) :
      (r.set m.target v).stackPointer = r.stackPointer := by
    rw [Registers.stackPointer, Registers.get_set, if_neg h.symm, Registers.stackPointer]
  have hmove (v : UInt8) : (m.registers.setStackPointer v).stackPointer = v := by
    rw [Registers.setStackPointer, Registers.stackPointer, Registers.get_set, if_pos rfl]
  change (m.nextRegisters op).stackPointer = _
  cases op <;> simp only [Opcode.writesOperand] at hfree <;>
    simp [nextRegisters, Opcode.pushes, Opcode.pops, hset, hmove, hfree, stackPointer]

end Machine

end OctetMachine
