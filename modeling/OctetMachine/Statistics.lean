import OctetMachine.Opcode

/-!
# Statistics

Nine counters describe a run: the instructions retired, six counters that split them by kind, and
two for the conditional jumps that were taken or not. A counter is a 64-bit word.
-/

namespace OctetMachine

structure Statistics where
  retired : UInt64 := 0
  alu : UInt64 := 0
  load : UInt64 := 0
  stack : UInt64 := 0
  branch : UInt64 := 0
  io : UInt64 := 0
  other : UInt64 := 0
  taken : UInt64 := 0
  notTaken : UInt64 := 0
  deriving DecidableEq

namespace Statistics

/-- The counter of a kind. -/
def count (s : Statistics) : OpcodeKind → UInt64
  | .alu => s.alu
  | .load => s.load
  | .stack => s.stack
  | .branch => s.branch
  | .io => s.io
  | .other => s.other

/-- One more instruction of a kind. -/
def countKind (s : Statistics) : OpcodeKind → Statistics
  | .alu => { s with alu := s.alu + 1 }
  | .load => { s with load := s.load + 1 }
  | .stack => { s with stack := s.stack + 1 }
  | .branch => { s with branch := s.branch + 1 }
  | .io => { s with io := s.io + 1 }
  | .other => { s with other := s.other + 1 }

/-- One more instruction retired. -/
def retire (s : Statistics) (op : Opcode) : Statistics :=
  { s.countKind op.kind with retired := s.retired + 1 }

/-- One more conditional jump. -/
def countJump (s : Statistics) (taken : Bool) : Statistics :=
  if taken then { s with taken := s.taken + 1 } else { s with notTaken := s.notTaken + 1 }

@[simp] theorem retired_retire (s : Statistics) (op : Opcode) :
    (s.retire op).retired = s.retired + 1 := rfl

theorem count_retire (s : Statistics) (op : Opcode) (kind : OpcodeKind) :
    (s.retire op).count kind = s.count kind + if kind = op.kind then 1 else 0 := by
  unfold retire
  cases op.kind <;> cases kind <;> simp [count, countKind]

@[simp] theorem taken_retire (s : Statistics) (op : Opcode) : (s.retire op).taken = s.taken := by
  unfold retire
  cases op.kind <;> rfl

@[simp] theorem notTaken_retire (s : Statistics) (op : Opcode) :
    (s.retire op).notTaken = s.notTaken := by
  unfold retire
  cases op.kind <;> rfl

end Statistics

end OctetMachine
