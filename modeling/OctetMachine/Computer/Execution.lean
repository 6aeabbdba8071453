import OctetMachine.Computer
import OctetMachine.Machine.Cycle

/-!
# Executing one operation

An operation writes registers, memory, flags and jump counters in place, and offers what it prints
to the device. It reads its operands from the window it is given, whatever byte heads it. Nothing is
undone when it fails.
-/

namespace OctetMachine.Computer

variable {δ : Type}

/-- A jump goes where its condition leads; only conditional jumps are counted. -/
def branch (c : Computer δ) (condition : Condition) (i : Instruction) :
    Computer δ × Except Fault Effect :=
  let m := c.machine
  let target := condition.next m.flags m.counter (m.operand i.a)
  if condition = .always then (c, .ok (.jump target))
  else
    let statistics := m.statistics.countJump (condition.holds m.flags)
    (c.mapMachine fun m ↦ { m with statistics }, .ok (.jump target))

/-- A call pushes the return address first, so one through the stack pointer sees it moved. -/
def call (c : Computer δ) (i : Instruction) : Computer δ × Except Fault Effect :=
  let c := c.mapMachine fun m ↦ m.push (m.following i)
  (c, .ok (.jump (c.machine.operand i.a)))

variable [Device δ]

/-- Offers a text to the device, which may take a part of it and fail. -/
def print (c : Computer δ) (text : List Char) : Computer δ × Except Fault Effect :=
  match c.outlet.print text with
  | (outlet, none) => ({ c with outlet }, .ok .next)
  | (outlet, some reason) => ({ c with outlet }, .error (.output reason))

/-- Executes an operation on the operands of a window; what it leaves to be done is the answer. -/
def execute (c : Computer δ) (op : Opcode) (i : Instruction) : Computer δ × Except Fault Effect :=
  let m := c.machine
  match op with
  | .nop => (c, .ok .next)
  | .hlt => (c, .ok .halt)
  | .ldi => (c.mapMachine fun m ↦ m.setOperand i.a i.b, .ok .next)
  | .ld => (c.mapMachine fun m ↦ m.setOperand i.a (m.memory.read (m.operand i.b)), .ok .next)
  | .add => (c, .ok (m.calculate .add i))
  | .mul => (c, .ok (m.calculate .mul i))
  | .inc => (c, .ok (m.calculate .inc i))
  | .dec => (c, .ok (m.calculate .dec i))
  | .cmp =>
    let flags := Flags.compare (m.operand i.a) (m.operand i.b)
    (c.mapMachine fun m ↦ { m with flags }, .ok .next)
  | .push => (c.mapMachine fun m ↦ m.push (m.operand i.a), .ok .next)
  | .pop => ((c.mapMachine Machine.drop).mapMachine fun n ↦ n.setOperand i.a m.top, .ok .next)
  | .call => c.call i
  | .ret => (c.mapMachine Machine.drop, .ok (.jump m.top))
  | .jmp => c.branch .always i
  | .jeq => c.branch .equal i
  | .jne => c.branch .notEqual i
  | .prn => c.print (Numeral.decimalDigits (m.operand i.a).toNat)
  | .pra => c.print [Char.ofNat (m.operand i.a).toNat]
  | .iret | .int | .jgt | .jlt | .jle | .jge | .not | .st | .sub | .div | .mod | .and | .or | .xor
  | .shl | .shr => (c, .error (.unimplementedOpcode i.opcode))

end OctetMachine.Computer
