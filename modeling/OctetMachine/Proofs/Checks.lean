import OctetMachine.Proofs.Effects

/-!
# Checked steps

A step can be taken with a check before everything that may go wrong in a machine of words and
arrays: that an index lies in what it addresses, that a number fits in its word, and that an
operation whose result is stored has a format that says so. Such a step never fails a check as long
as no counter is full, and comes to what a step comes to.
-/

namespace OctetMachine

/-- A check that fails. -/
inductive Breach where
  /-- An index beyond the end of what it addresses. -/
  | index
  /-- A number too large for its word. -/
  | overflow
  /-- A result to be stored for an operation whose format does not announce one. -/
  | format
  deriving DecidableEq

abbrev Checked := Except Breach

namespace Checked

/-- A number that has to be below a bound. -/
def below (bound n : Nat) : Checked Nat := if n < bound then .ok n else .error .overflow

/-- An element that has to be there. -/
def found {α : Type} : Option α → Checked α
  | some a => .ok a
  | none => .error .index

theorem below_of_lt {bound n : Nat} (h : n < bound) : below bound n = .ok n := if_pos h

end Checked

open Checked (below below_of_lt found)

/-! ## Indices -/

namespace Registers

/-- The number of the register that an operand byte names. -/
def index (b : UInt8) : Nat := b.toNat % 8

def checkedGet (r : Registers) (b : UInt8) : Checked UInt8 := found r.cells[index b]?

def checkedSet (r : Registers) (b v : UInt8) : Checked Registers :=
  if h : index b < 8 then .ok { cells := r.cells.set (index b) v h } else .error .index

@[simp] theorem checkedGet_eq (r : Registers) (b : UInt8) :
    r.checkedGet b = .ok (r.get (Register.ofByte b)) := by
  have hlt : index b < 8 := Nat.mod_lt _ (by decide)
  rw [checkedGet, Vector.getElem?_eq_getElem hlt]
  rfl

@[simp] theorem checkedSet_eq (r : Registers) (b v : UInt8) :
    r.checkedSet b v = .ok (r.set (Register.ofByte b) v) :=
  dif_pos (Nat.mod_lt _ (by decide))

end Registers

namespace Memory

def checkedRead (m : Memory) (address : UInt8) : Checked UInt8 := found m.cells[address.toNat]?

def checkedWrite (m : Memory) (address v : UInt8) : Checked Memory :=
  if h : address.toNat < 256 then .ok { cells := m.cells.set address.toNat v h }
  else .error .index

@[simp] theorem checkedRead_eq (m : Memory) (address : UInt8) :
    m.checkedRead address = .ok (m.read address) := by
  rw [checkedRead, Vector.getElem?_eq_getElem address.toNat_lt]
  rfl

@[simp] theorem checkedWrite_eq (m : Memory) (address v : UInt8) :
    m.checkedWrite address v = .ok (m.write address v) :=
  dif_pos address.toNat_lt

end Memory

/-! ## Words -/

namespace Arithmetic

/-- The predecessor wraps by intention, so it needs no check. -/
def checkedWide (a b : UInt8) : Arithmetic → Checked UInt16
  | .add => (below UInt16.size (a.toNat + b.toNat)).map UInt16.ofNat
  | .mul => (below UInt16.size (a.toNat * b.toNat)).map UInt16.ofNat
  | .inc => (below UInt16.size (a.toNat + 1)).map UInt16.ofNat
  | .dec => .ok (a.toUInt16 - 1)

@[simp] theorem checkedWide_eq (op : Arithmetic) (a b : UInt8) :
    op.checkedWide a b = .ok (op.wide a b) := by
  have ha := a.toNat_lt
  have hb := b.toNat_lt
  cases op with
  | add =>
    rw [checkedWide, below_of_lt (Nat.lt_of_lt_of_le (Nat.add_lt_add ha hb) (by decide))]
    exact congrArg Except.ok (by simp [wide])
  | mul =>
    have hmul : a.toNat * b.toNat < UInt16.size := Nat.mul_lt_mul'' ha hb
    rw [checkedWide, below_of_lt hmul]
    exact congrArg Except.ok (by simp [wide])
  | inc =>
    rw [checkedWide, below_of_lt (Nat.lt_of_le_of_lt ha (by decide))]
    exact congrArg Except.ok (by simp [wide])
  | dec => rfl

/-- The number that an operation stands for. -/
def exact (a b : Int) : Arithmetic → Int
  | .add => a + b
  | .mul => a * b
  | .inc => a + 1
  | .dec => a - 1

/-- What is stored is the exact number modulo 256, also for the predecessor of zero. -/
theorem toNat_narrow_wide (op : Arithmetic) (a b : UInt8) :
    ((narrow (op.wide a b)).toNat : Int) = op.exact a.toNat b.toNat % 256 := by
  rw [narrow_wide]
  cases op with
  | add =>
    rw [UInt8.toNat_add, Int.natCast_emod, Int.natCast_add]
    rfl
  | mul =>
    rw [UInt8.toNat_mul, Int.natCast_emod, Int.natCast_mul]
    rfl
  | inc =>
    rw [UInt8.toNat_add, Int.natCast_emod, Int.natCast_add]
    rfl
  | dec =>
    have hlt := a.toNat_lt
    rw [UInt8.toNat_sub, UInt8.toNat_one, exact]
    omega

end Arithmetic

/-- The arithmetic of an operation. -/
def Opcode.arithmetic? : Opcode → Option Arithmetic
  | .add => some .add
  | .mul => some .mul
  | .inc => some .inc
  | .dec => some .dec
  | _ => none

namespace Format

def checkedWidth (f : Format) : Checked UInt8 :=
  (below UInt8.size (1 + f.operandCount.toNat)).map UInt8.ofNat

/-- Two bits count no more than three operands. -/
@[simp] theorem checkedWidth_ofByte (b : UInt8) :
    (ofByte b).checkedWidth = .ok (ofByte b).width := by
  have hcount : (b >>> 6).toNat < 4 := by
    have hlt := b.toNat_lt
    have hshift : (b >>> 6).toNat = b.toNat >>> 6 := UInt8.toNat_shiftRight b 6
    rw [hshift, Nat.shiftRight_eq_div_pow]
    omega
  have hwidth : 1 + (ofByte b).operandCount.toNat < UInt8.size :=
    Nat.lt_of_lt_of_le (Nat.add_lt_add_left hcount 1) (by decide)
  rw [checkedWidth, below_of_lt hwidth]
  exact congrArg Except.ok (by simp [width])

end Format

namespace Statistics

def checkedSucc (n : UInt64) : Checked UInt64 :=
  (below UInt64.size (n.toNat + 1)).map UInt64.ofNat

theorem checkedSucc_eq {n : UInt64} (h : n.toNat < UInt64.size - 1) :
    checkedSucc n = .ok (n + 1) := by
  rw [checkedSucc, below_of_lt (Nat.add_lt_of_lt_sub h)]
  exact congrArg Except.ok (by simp)

/-- No counter is full. -/
structure HasRoom (s : Statistics) : Prop where
  retired : s.retired.toNat < UInt64.size - 1
  count : ∀ kind, (s.count kind).toNat < UInt64.size - 1
  taken : s.taken.toNat < UInt64.size - 1
  notTaken : s.notTaken.toNat < UInt64.size - 1

def checkedCountKind (s : Statistics) : OpcodeKind → Checked Statistics
  | .alu => return { s with alu := ← checkedSucc s.alu }
  | .load => return { s with load := ← checkedSucc s.load }
  | .stack => return { s with stack := ← checkedSucc s.stack }
  | .branch => return { s with branch := ← checkedSucc s.branch }
  | .io => return { s with io := ← checkedSucc s.io }
  | .other => return { s with other := ← checkedSucc s.other }

def checkedRetire (s : Statistics) (op : Opcode) : Checked Statistics := do
  checkedCountKind { s with retired := ← checkedSucc s.retired } op.kind

def checkedCountJump (s : Statistics) (taken : Bool) : Checked Statistics :=
  if taken then return { s with taken := ← checkedSucc s.taken }
  else return { s with notTaken := ← checkedSucc s.notTaken }

theorem checkedCountKind_eq {s : Statistics} {kind : OpcodeKind}
    (h : (s.count kind).toNat < UInt64.size - 1) :
    s.checkedCountKind kind = .ok (s.countKind kind) := by
  cases kind <;> exact congrArg (Except.map _) (checkedSucc_eq h)

theorem checkedRetire_eq {s : Statistics} (hretired : s.retired.toNat < UInt64.size - 1)
    {op : Opcode} (hcount : (s.count op.kind).toNat < UInt64.size - 1) :
    s.checkedRetire op = .ok (s.retire op) := by
  have hkind : ({ s with retired := s.retired + 1 } : Statistics).checkedCountKind op.kind =
      .ok (({ s with retired := s.retired + 1 } : Statistics).countKind op.kind) :=
    checkedCountKind_eq (by cases h : op.kind <;> exact h ▸ hcount)
  rw [checkedRetire, checkedSucc_eq hretired]
  refine hkind.trans (congrArg Except.ok ?_)
  rw [retire]
  cases op.kind <;> rfl

theorem checkedCountJump_eq {s : Statistics} (h : s.HasRoom) (taken : Bool) :
    s.checkedCountJump taken = .ok (s.countJump taken) := by
  cases taken
  · rw [checkedCountJump, checkedSucc_eq h.notTaken]
    rfl
  · rw [checkedCountJump, checkedSucc_eq h.taken]
    rfl

end Statistics

/-! ## Steps -/

namespace Machine

def checkedOperand (m : Machine) (b : UInt8) : Checked UInt8 := m.registers.checkedGet b

def checkedSetOperand (m : Machine) (b v : UInt8) : Checked Machine :=
  return { m with registers := ← m.registers.checkedSet b v }

def checkedFetch (m : Machine) : Checked Instruction :=
  return {
    opcode := ← m.memory.checkedRead m.counter
    a := ← m.memory.checkedRead (m.counter + 1)
    b := ← m.memory.checkedRead (m.counter + 2) }

def checkedPush (m : Machine) (v : UInt8) : Checked Machine := do
  let pointer ← m.registers.checkedGet 7
  return { m with
    registers := ← m.registers.checkedSet 7 (pointer - 1)
    memory := ← m.memory.checkedWrite (pointer - 1) v }

def checkedTop (m : Machine) : Checked UInt8 := do
  m.memory.checkedRead (← m.registers.checkedGet 7)

def checkedDrop (m : Machine) : Checked Machine := do
  let pointer ← m.registers.checkedGet 7
  return { m with registers := ← m.registers.checkedSet 7 (pointer + 1) }

def checkedCalculate (m : Machine) (op : Arithmetic) (i : Instruction) : Checked Effect :=
  return .writeBack (← op.checkedWide (← m.checkedOperand i.a) (← m.checkedOperand i.b))

/-- Does what an operation left to be done. A result is stored only if the format announces one. -/
def checkedComplete (m : Machine) (i : Instruction) : Effect → Checked Machine
  | .next => return m
  | .writeBack result =>
    if i.format.isArithmetic then m.checkedSetOperand i.a (Arithmetic.narrow result)
    else .error .format
  | .jump target => return { m with counter := target }
  | .halt => return { m with halted := true }

def checkedAdvance (m : Machine) (i : Instruction) : Checked Machine :=
  if i.format.setsCounter then return m
  else return { m with counter := m.counter + (← i.format.checkedWidth) }

def checkedRetire (m : Machine) (op : Opcode) : Checked Machine :=
  return { m with statistics := ← m.statistics.checkedRetire op }

/-- Does all that a cycle does behind an operation. -/
def checkedSettle (m : Machine) (op : Opcode) (i : Instruction) (e : Effect) : Checked Machine := do
  let completed ← m.checkedComplete i e
  let advanced ← completed.checkedAdvance i
  advanced.checkedRetire op

/-! ### Parts of a step -/

@[simp] theorem checkedFetch_eq (m : Machine) : m.checkedFetch = .ok m.fetch := by
  simp only [checkedFetch, Memory.checkedRead_eq]
  rfl

theorem checkedComplete_eq {m : Machine} {i : Instruction} {e : Effect}
    (h : ∀ result, e = .writeBack result → i.format.isArithmetic = true) :
    m.checkedComplete i e = .ok (m.complete i.a e) := by
  cases e with
  | writeBack result =>
    rw [checkedComplete, if_pos (h result rfl), checkedSetOperand, Registers.checkedSet_eq]
    rfl
  | next => rfl
  | jump => rfl
  | halt => rfl

theorem checkedAdvance_eq (m : Machine) (i : Instruction) :
    m.checkedAdvance i = .ok (m.advance i) := by
  rw [checkedAdvance, Instruction.format, Format.checkedWidth_ofByte, advance, Instruction.format]
  split <;> rfl

theorem checkedRetire_eq {m : Machine} {op : Opcode}
    (hretired : m.statistics.retired.toNat < UInt64.size - 1)
    (hcount : (m.statistics.count op.kind).toNat < UInt64.size - 1) :
    m.checkedRetire op = .ok (m.retire op) := by
  rw [checkedRetire, Statistics.checkedRetire_eq hretired hcount]
  rfl

end Machine

/-! ### Formats and what operations leave to the cycle -/

namespace Effect

def isWriteBack : Effect → Bool
  | .writeBack _ => true
  | _ => false

def isJump : Effect → Bool
  | .jump _ => true
  | _ => false

/-- How often a cycle sets the program counter: for a jump, and to move it on. -/
def counterUpdates (e : Effect) (f : Format) : Nat := e.isJump.toNat + (!f.setsCounter).toNat

end Effect

namespace Opcode

theorem isArithmetic_of_calculating {op : Opcode} (h : op ∈ calculating) :
    (Format.ofByte op.toByte).isArithmetic = true := by
  cases op <;> first | rfl | exact absurd h (by decide)

/-- The bit is also set for jumps that cannot be executed. -/
theorem setsCounter_eq {op : Opcode} (h : op.isImplemented = true) :
    (Format.ofByte op.toByte).setsCounter = decide (op ∈ jumping) := by
  cases op <;> cases h <;> decide

end Opcode

theorem Effect.Suits.isJump_eq {e : Effect} {op : Opcode} (h : e.Suits op) :
    e.isJump = decide (op ∈ Opcode.jumping) := by
  cases h with
  | writeBack result calculates => cases op <;> first | rfl | exact absurd calculates (by decide)
  | jump target jumps => exact (decide_eq_true jumps).symm
  | halt => rfl
  | next _ jumps => exact (decide_eq_false jumps).symm

namespace Machine

theorem statistics_complete_advance (m : Machine) (i : Instruction) (e : Effect) :
    ((m.complete i.a e).advance i).statistics = m.statistics := by
  rw [advance]
  split <;> cases e <;> rfl

end Machine

namespace Computer

variable {δ : Type}

def checkedBranch (c : Computer δ) (condition : Condition) (i : Instruction) :
    Checked (Computer δ × Except Fault Effect) := do
  let m := c.machine
  let target := condition.next m.flags m.counter (← m.checkedOperand i.a)
  if condition = .always then return (c, .ok (.jump target))
  else
    let statistics ← m.statistics.checkedCountJump (condition.holds m.flags)
    return ({ c with machine := { m with statistics } }, .ok (.jump target))

def checkedCall (c : Computer δ) (i : Instruction) :
    Checked (Computer δ × Except Fault Effect) := do
  let m := c.machine
  let pushed ← m.checkedPush (m.counter + (← i.format.checkedWidth))
  return ({ c with machine := pushed }, .ok (.jump (← pushed.checkedOperand i.a)))

variable [Device δ]

/-- Executes an operation with checks. A fault of the program is no failed check. -/
def checkedExecute (c : Computer δ) (op : Opcode) (i : Instruction) :
    Checked (Computer δ × Except Fault Effect) :=
  let m := c.machine
  match op with
  | .nop => return (c, .ok .next)
  | .hlt => return (c, .ok .halt)
  | .ldi => return ({ c with machine := ← m.checkedSetOperand i.a i.b }, .ok .next)
  | .ld => do
    let v ← m.memory.checkedRead (← m.checkedOperand i.b)
    return ({ c with machine := ← m.checkedSetOperand i.a v }, .ok .next)
  | .add => return (c, .ok (← m.checkedCalculate .add i))
  | .mul => return (c, .ok (← m.checkedCalculate .mul i))
  | .inc => return (c, .ok (← m.checkedCalculate .inc i))
  | .dec => return (c, .ok (← m.checkedCalculate .dec i))
  | .cmp => do
    let flags := Flags.compare (← m.checkedOperand i.a) (← m.checkedOperand i.b)
    return ({ c with machine := { m with flags } }, .ok .next)
  | .push => return ({ c with machine := ← m.checkedPush (← m.checkedOperand i.a) }, .ok .next)
  | .pop => do
    let v ← m.checkedTop
    return ({ c with machine := ← (← m.checkedDrop).checkedSetOperand i.a v }, .ok .next)
  | .call => c.checkedCall i
  | .ret => do
    let target ← m.checkedTop
    return ({ c with machine := ← m.checkedDrop }, .ok (.jump target))
  | .jmp => c.checkedBranch .always i
  | .jeq => c.checkedBranch .equal i
  | .jne => c.checkedBranch .notEqual i
  | .prn => return c.print (Numeral.decimalDigits (← m.checkedOperand i.a).toNat)
  | .pra => return c.print [Char.ofNat (← m.checkedOperand i.a).toNat]
  | .iret | .int | .jgt | .jlt | .jle | .jge | .not | .st | .sub | .div | .mod | .and | .or | .xor
  | .shl | .shr => return (c, .error (.unimplementedOpcode i.opcode))

/-- A step with checks. -/
def checkedStep (c : Computer δ) : Checked (Computer δ × Except Fault Unit) :=
  if c.machine.halted then return (c, .ok ())
  else do
    let i ← c.machine.checkedFetch
    let c := c.trace
    match Opcode.ofByte? i.opcode with
    | none => return (c, .error (.unknownOpcode c.machine.counter i.opcode))
    | some op =>
      match ← (c.log (.instruction c.machine.counter i)).checkedExecute op i with
      | (c, .error fault) => return (c, .error fault)
      | (c, .ok effect) =>
        return ({ c with machine := ← c.machine.checkedSettle op i effect }, .ok ())

theorem checkedExecute_eq {c : Computer δ} (h : c.machine.statistics.HasRoom) (op : Opcode)
    (i : Instruction) : c.checkedExecute op i = .ok (c.execute op i) := by
  cases op <;>
    simp only [checkedExecute, Machine.checkedCalculate, checkedBranch, checkedCall,
      Machine.checkedTop, Machine.checkedDrop, Machine.checkedPush, Machine.checkedOperand,
      Machine.checkedSetOperand, Registers.checkedGet_eq, Registers.checkedSet_eq,
      Memory.checkedRead_eq, Memory.checkedWrite_eq, Arithmetic.checkedWide_eq,
      Instruction.format, Format.checkedWidth_ofByte, Statistics.checkedCountJump_eq h]
  all_goals rfl

section

variable {c c' : Computer δ} {op : Opcode} {i : Instruction} {effect : Effect}

theorem isArithmetic_of_execute (hop : Opcode.ofByte? i.opcode = some op)
    (h : c.execute op i = (c', .ok effect)) {result : UInt16} (he : effect = .writeBack result) :
    i.format.isArithmetic = true := by
  have hsuits := suits_execute h
  rw [he] at hsuits
  cases hsuits with
  | writeBack _ calculates =>
    rw [Instruction.format, ← Opcode.ofByte?_eq_some_iff.1 hop]
    exact Opcode.isArithmetic_of_calculating calculates

theorem isJump_of_execute (hop : Opcode.ofByte? i.opcode = some op)
    (h : c.execute op i = (c', .ok effect)) : effect.isJump = i.format.setsCounter := by
  have himplemented : op.isImplemented = true := by
    rw [← Bool.not_eq_false]
    intro hmissing
    cases (execute_of_not_implemented hmissing c i).symm.trans h
  rw [(suits_execute h).isJump_eq, Instruction.format, ← Opcode.ofByte?_eq_some_iff.1 hop,
    Opcode.setsCounter_eq himplemented]

/-- The cycle sets the counter to the target of a jump, or moves it past the instruction. -/
theorem counter_of_execute (hop : Opcode.ofByte? i.opcode = some op) :
    c.execute op i = (c', .ok effect) →
      ((c'.machine.complete i.a effect).advance i).counter =
        match effect with
        | .jump target => target
        | _ => c.machine.counter + i.format.width := by
  intro h
  have hjump := isJump_of_execute hop h
  obtain ⟨hcounter, -⟩ := execute_keeps h
  rw [Machine.advance, ← hjump, ← hcounter]
  cases effect <;> rfl

theorem narrow_of_execute {result : UInt16} (h : c.execute op i = (c', .ok (.writeBack result))) :
    ∃ f, op.arithmetic? = some f ∧ ((Arithmetic.narrow result).toNat : Int) =
      f.exact (c.machine.operand i.a).toNat (c.machine.operand i.b).toNat % 256 := by
  cases op
  case prn | pra => cases (eq_of_print_eq_ok h).2
  all_goals cases h
  all_goals exact ⟨_, rfl, Arithmetic.toNat_narrow_wide _ _ _⟩

/-- The cycle settles what an operation left without a failed check. -/
theorem checkedSettle_eq (hroom : c.machine.statistics.HasRoom)
    (hop : Opcode.ofByte? i.opcode = some op) (h : c.execute op i = (c', .ok effect)) :
    c'.machine.checkedSettle op i effect = .ok (c'.machine.settle op i effect) := by
  have hstatistics : ((c'.machine.complete i.a effect).advance i).statistics =
      c.machine.jumpStatistics op := by
    rw [Machine.statistics_complete_advance, statistics_execute h]
  have hretire : ((c'.machine.complete i.a effect).advance i).checkedRetire op =
      .ok (((c'.machine.complete i.a effect).advance i).retire op) := by
    apply Machine.checkedRetire_eq
    · rw [hstatistics, Machine.retired_jumpStatistics]
      exact hroom.retired
    · rw [hstatistics, Machine.count_jumpStatistics]
      exact hroom.count _
  rw [Machine.checkedSettle, Machine.checkedComplete_eq fun _ ↦ isArithmetic_of_execute hop h]
  dsimp only [bind, Except.bind]
  rw [Machine.checkedAdvance_eq]
  exact hretire

end

/-- A step with checks comes to what the step comes to. -/
theorem checkedStep_eq_step {c : Computer δ} (h : c.machine.statistics.HasRoom) :
    c.checkedStep = .ok c.step := by
  rw [checkedStep, step]
  split
  · rfl
  · rw [Machine.checkedFetch_eq]
    dsimp only [bind, Except.bind]
    cases hop : Opcode.ofByte? c.machine.fetch.opcode with
    | none => rfl
    | some op =>
      -- The journal is of no concern to the checks.
      generalize hlogged : c.trace.log (.instruction c.trace.machine.counter c.machine.fetch) = d
      have hmachine : d.machine = c.machine := by rw [← hlogged, log, machine_trace]
      rw [← hmachine] at h
      dsimp only
      rw [checkedExecute_eq h]
      dsimp only
      cases hexecute : d.execute op c.machine.fetch with
      | mk e answer =>
        cases answer with
        | error fault => rfl
        | ok effect =>
          dsimp only
          rw [checkedSettle_eq h hop hexecute]
          rfl

/-- As long as no counter is full, no check of a step fails, nor one of an operation on any window.
When an operation is executed on a window of its own, its result is stored only if the format of the
window announces one, and is then the exact number modulo 256; it continues elsewhere if and only if
the format says that it sets the program counter, so that is set exactly once. -/
theorem checkedStep_eq (c : Computer δ) (h : c.machine.statistics.HasRoom) :
    c.checkedStep = .ok c.step ∧
      (∀ op i, c.checkedExecute op i = .ok (c.execute op i)) ∧
      ∀ op i c' effect, Opcode.ofByte? i.opcode = some op → c.execute op i = (c', .ok effect) →
        (effect.isWriteBack = true → i.format.isArithmetic = true) ∧
        (effect.isJump = true ↔ i.format.setsCounter = true) ∧
        effect.counterUpdates i.format = 1 ∧
        ((c'.machine.complete i.a effect).advance i).counter =
          (match effect with
            | .jump target => target
            | _ => c.machine.counter + i.format.width) ∧
        ∀ result, effect = .writeBack result →
          ∃ f, op.arithmetic? = some f ∧ ((Arithmetic.narrow result).toNat : Int) =
            f.exact (c.machine.operand i.a).toNat (c.machine.operand i.b).toNat % 256 := by
  refine ⟨checkedStep_eq_step h, checkedExecute_eq h, ?_⟩
  intro op i c' effect hop hexecute
  have hjump := isJump_of_execute hop hexecute
  refine ⟨?_, by rw [hjump], ?_, counter_of_execute hop hexecute, ?_⟩
  · intro hwrites
    cases effect with
    | writeBack result => exact isArithmetic_of_execute hop hexecute rfl
    | next | jump | halt => cases hwrites
  · rw [Effect.counterUpdates, hjump]
    cases i.format.setsCounter <;> rfl
  · rintro result rfl
    exact narrow_of_execute hexecute

/-- The predecessor of zero in a register that is named by the largest byte. -/
theorem checkedStep_eq_of_predecessor :
    let c := (ofSettings {} ({} : Container)).mapMachine fun m ↦ m.place [0b01100110, 255]
    c.machine.statistics.HasRoom ∧ c.checkedStep = .ok c.step ∧
      c.execute .dec c.machine.fetch = (c, .ok (.writeBack 65535)) ∧
      (Effect.writeBack 65535).counterUpdates c.machine.fetch.format = 1 ∧
      ((Arithmetic.narrow 65535).toNat : Int) = (0 - 1) % 256 := by
  intro c
  have hroom : c.machine.statistics.HasRoom :=
    ⟨by decide, fun kind ↦ by cases kind <;> decide, by decide, by decide⟩
  have hop : Opcode.ofByte? c.machine.fetch.opcode = some .dec := by decide +kernel
  have hoperand : c.machine.operand c.machine.fetch.a = 0 := by decide +kernel
  have hexecute : c.execute .dec c.machine.fetch = (c, .ok (.writeBack 65535)) := by
    change (c, Except.ok (Effect.writeBack
      ((c.machine.operand c.machine.fetch.a).toUInt16 - 1))) = _
    rw [hoperand]
    rfl
  obtain ⟨hstep, -, heffects⟩ := checkedStep_eq c hroom
  obtain ⟨-, -, honce, -, hexact⟩ := heffects .dec c.machine.fetch c _ hop hexecute
  obtain ⟨f, hf, hnarrow⟩ := hexact _ rfl
  refine ⟨hroom, hstep, hexecute, honce, ?_⟩
  rw [hnarrow, hoperand]
  cases hf
  rfl

end Computer

end OctetMachine
