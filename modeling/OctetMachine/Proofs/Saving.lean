import Mathlib.Data.UInt
import OctetMachine.Proofs.Course
import OctetMachine.Proofs.Stack

/-!
# Saved registers

Code that pushes registers and pops them in the opposite order gives each of them back its value.
Around such code stand one more push and one more pop of a register, and what the inner code does
not touch is enough for the outer pop to find the byte of the outer push. This holds of the stack
pointer, too: what is pushed is its value before the push, and a pop moves it before it stores the
byte. The stack must stay clear of the code, which therefore holds less than 256 bytes.
-/

namespace OctetMachine

namespace Program

/-- Instructions that push the registers named by operand bytes. -/
def saving (operands : List UInt8) : List UInt8 :=
  operands.flatMap fun a ↦ [Opcode.push.toByte, a]

/-- Instructions that pop the registers named by operand bytes, the last one first. -/
def restoring (operands : List UInt8) : List UInt8 :=
  operands.reverse.flatMap fun a ↦ [Opcode.pop.toByte, a]

theorem saving_append_restoring_cons (a : UInt8) (rest : List UInt8) :
    saving (a :: rest) ++ restoring (a :: rest) =
      [Opcode.push.toByte, a] ++ (saving rest ++ restoring rest) ++ [Opcode.pop.toByte, a] := by
  simp [saving, restoring]

theorem length_saving_append_restoring (operands : List UInt8) :
    (saving operands ++ restoring operands).length = 4 * operands.length := by
  induction operands with
  | nil => rfl
  | cons a rest ih =>
    rw [saving_append_restoring_cons]
    simp only [List.length_append, List.length_cons, List.length_nil] at ih ⊢
    omega

end Program

namespace Memory

theorem bytesFrom_add (m : Memory) (address : UInt8) (k n : Nat) :
    m.bytesFrom address (k + n) =
      m.bytesFrom address k ++ m.bytesFrom (address + UInt8.ofNat k) n := by
  induction n with
  | zero => simp [bytesFrom]
  | succ n ih =>
    rw [← Nat.add_assoc, bytesFrom_succ, ih, bytesFrom_succ, List.append_assoc, UInt8.ofNat_add,
      add_assoc]

theorem bytesFrom_eq_append_iff {m : Memory} {address : UInt8} {s t : List UInt8} {k n : Nat}
    (hs : s.length = k) :
    m.bytesFrom address (k + n) = s ++ t ↔
      m.bytesFrom address k = s ∧ m.bytesFrom (address + UInt8.ofNat k) n = t := by
  rw [bytesFrom_add]
  constructor
  · exact fun h ↦ List.append_inj h (by rw [length_bytesFrom, hs])
  · rintro ⟨rfl, rfl⟩
    rfl

theorem bytesFrom_two (m : Memory) (address : UInt8) :
    m.bytesFrom address 2 = [m.read address, m.read (address + 1)] := rfl

theorem bytesFrom_congr {m m' : Memory} {address : UInt8} {n : Nat}
    (h : ∀ i < n, m.read (address + UInt8.ofNat i) = m'.read (address + UInt8.ofNat i)) :
    m.bytesFrom address n = m'.bytesFrom address n := by
  induction n with
  | zero => rfl
  | succ n ih =>
    rw [bytesFrom_succ, bytesFrom_succ, h n n.lt_succ_self,
      ih fun i hi ↦ h i (Nat.lt_succ_of_lt hi)]

end Memory

namespace Machine

/-- The address is that of one of the `n` cells below the stack pointer. -/
def IsBelow (m : Machine) (n : Nat) (address : UInt8) : Prop :=
  ∃ j, 1 ≤ j ∧ j ≤ n ∧ address = m.stackPointer - UInt8.ofNat j

/-- The first cell below the stack pointer is the one that a push takes. -/
theorem isBelow_succ_iff {m m' : Machine} (h : m'.stackPointer = m.stackPointer - 1) {n : Nat}
    {address : UInt8} :
    m.IsBelow (n + 1) address ↔ address = m.stackPointer - 1 ∨ m'.IsBelow n address := by
  have hlower (j : Nat) :
      m'.stackPointer - UInt8.ofNat j = m.stackPointer - UInt8.ofNat (j + 1) := by
    calc m'.stackPointer - UInt8.ofNat j
        = m.stackPointer - (1 + UInt8.ofNat j) := by rw [h, sub_sub]
      _ = m.stackPointer - UInt8.ofNat (1 + j) := by rw [UInt8.ofNat_add]; rfl
      _ = m.stackPointer - UInt8.ofNat (j + 1) := by rw [Nat.add_comm]
  constructor
  · rintro ⟨_ | _ | j, hj, hle, rfl⟩
    · cases hj
    · exact .inl rfl
    · exact .inr ⟨j + 1, j.succ_pos, Nat.le_of_succ_le_succ hle, (hlower (j + 1)).symm⟩
  · rintro (rfl | ⟨j, -, hle, rfl⟩)
    · exact ⟨1, Nat.le_refl 1, n.succ_pos, rfl⟩
    · exact ⟨j + 1, j.succ_pos, Nat.succ_le_succ hle, hlower j⟩

/-- Less than a round below the stack pointer, no cell is the one that it addresses. -/
theorem not_isBelow_stackPointer (m : Machine) {n : Nat} (hn : n < 256) :
    ¬ m.IsBelow n m.stackPointer := by
  rintro ⟨j, hj, hle, heq⟩
  apply Memory.ofNat_ne_of_lt (i := 0) (j := j) hj (by omega)
  exact (sub_eq_self.1 heq.symm).symm

/-- Cells below the stack pointer that are clear of `width` cells leave less than a round for them.
-/
theorem lt_of_not_isBelow {m : Machine} {n width : Nat}
    (hapart : ∀ i < width, ¬ m.IsBelow (n + 1) (m.counter + UInt8.ofNat i)) : width < 256 := by
  by_contra hle
  have hdistance : (m.stackPointer - 1 - m.counter).toNat < 256 := UInt8.toNat_lt _
  apply hapart (m.stackPointer - 1 - m.counter).toNat (by omega)
  refine ⟨1, Nat.le_refl 1, n.succ_pos, ?_⟩
  rw [UInt8.ofNat_toNat, add_sub_cancel]
  rfl

end Machine

namespace Computer

variable {δ : Type} [Device δ]

theorem retires_of_bytesFrom {c : Computer δ} {op : Opcode} {a : UInt8}
    (hrun : c.machine.halted = false)
    (hcode : c.machine.memory.bytesFrom c.machine.counter 2 = [op.toByte, a])
    (himp : op.isImplemented = true) (hnil : c.machine.printed op = []) :
    c.Retires op c.step.1 ∧ c.step.1.outlet = c.outlet ∧ c.machine.fetch.a = a := by
  rw [Memory.bytesFrom_two, List.cons.injEq, List.cons.injEq] at hcode
  obtain ⟨hopcode, ha, -⟩ := hcode
  have hop : Opcode.ofByte? c.machine.fetch.opcode = some op :=
    Opcode.ofByte?_eq_some_iff.2 hopcode.symm
  have hretires : c.Retires op c.step.1 := retires_of_printed_nil hrun hop himp hnil
  have hprint := hretires.print
  rw [hnil, Outlet.print_nil] at hprint
  exact ⟨hretires, (congrArg Prod.fst hprint).symm, ha⟩

/-- The next step succeeds and pushes a byte. -/
structure Pushes (c : Computer δ) (v : UInt8) : Prop where
  succeeds : c.step.2 = .ok ()
  running : c.step.1.machine.halted = c.machine.halted
  registers : c.step.1.machine.registers =
    c.machine.registers.setStackPointer (c.machine.stackPointer - 1)
  flags : c.step.1.machine.flags = c.machine.flags
  outlet : c.step.1.outlet = c.outlet
  counter : c.step.1.machine.counter = c.machine.counter + 2
  memory : c.step.1.machine.memory = c.machine.memory.write (c.machine.stackPointer - 1) v

/-- The next step succeeds and pops a byte into the register of an operand byte. -/
structure Pops (c : Computer δ) (a : UInt8) : Prop where
  succeeds : c.step.2 = .ok ()
  running : c.step.1.machine.halted = c.machine.halted
  registers : c.step.1.machine.registers =
    (c.machine.registers.setStackPointer (c.machine.stackPointer + 1)).set (.ofByte a) c.machine.top
  flags : c.step.1.machine.flags = c.machine.flags
  outlet : c.step.1.outlet = c.outlet
  counter : c.step.1.machine.counter = c.machine.counter + 2
  memory : c.step.1.machine.memory = c.machine.memory

theorem pushes_of_code {c : Computer δ} {a : UInt8} (hrun : c.machine.halted = false)
    (hcode : c.machine.memory.bytesFrom c.machine.counter 2 = [Opcode.push.toByte, a]) :
    c.Pushes (c.machine.operand a) := by
  obtain ⟨hretires, houtlet, rfl⟩ := retires_of_bytesFrom hrun hcode rfl rfl
  refine ⟨congrArg Prod.snd hretires.step, ?_, ?_, ?_, houtlet, ?_, ?_⟩ <;>
    rw [hretires.machine] <;> rfl

theorem pops_of_code {c : Computer δ} {a : UInt8} (hrun : c.machine.halted = false)
    (hcode : c.machine.memory.bytesFrom c.machine.counter 2 = [Opcode.pop.toByte, a]) :
    c.Pops a := by
  obtain ⟨hretires, houtlet, rfl⟩ := retires_of_bytesFrom hrun hcode rfl rfl
  refine ⟨congrArg Prod.snd hretires.step, ?_, ?_, ?_, houtlet, ?_, ?_⟩ <;>
    rw [hretires.machine] <;> rfl

theorem Pushes.stackPointer {c : Computer δ} {v : UInt8} (h : c.Pushes v) :
    c.step.1.machine.stackPointer = c.machine.stackPointer - 1 := by
  rw [Machine.stackPointer, h.registers]
  exact c.machine.stackPointer_push v

theorem Pushes.read {c : Computer δ} {v : UInt8} (h : c.Pushes v) (address : UInt8) :
    c.step.1.machine.memory.read address =
      if address = c.machine.stackPointer - 1 then v else c.machine.memory.read address := by
  rw [h.memory]
  exact Memory.read_write _ _ _ _

/-- The next `2 * n` steps succeed. Behind `4 * n` bytes of code they leave the computer with the
registers, the flags and the output that it had, and with its memory, except for the `n` cells below
the stack pointer. -/
structure Restores (c : Computer δ) (n : Nat) : Prop where
  succeeds : ∀ i < 2 * n, (c.steps i).machine.halted = false ∧ (c.steps i).step.2 = .ok ()
  running : (c.steps (2 * n)).machine.halted = false
  registers : (c.steps (2 * n)).machine.registers = c.machine.registers
  flags : (c.steps (2 * n)).machine.flags = c.machine.flags
  outlet : (c.steps (2 * n)).outlet = c.outlet
  counter : (c.steps (2 * n)).machine.counter = c.machine.counter + UInt8.ofNat (4 * n)
  memory : ∀ address, ¬ c.machine.IsBelow n address →
    (c.steps (2 * n)).machine.memory.read address = c.machine.memory.read address

theorem restores_zero {c : Computer δ} (hrun : c.machine.halted = false) : c.Restores 0 :=
  ⟨fun i hi ↦ absurd hi i.not_lt_zero, hrun, rfl, rfl, rfl, (UInt8.add_zero _).symm,
    fun _ _ ↦ rfl⟩

/-- Code that restores keeps its own bytes, and the byte that was pushed in front of it stays on top
of the stack. -/
theorem Pushes.keeps {c : Computer δ} {v : UInt8} {n : Nat} (hn : n < 256) (hpush : c.Pushes v)
    (hinner : c.step.1.Restores n) :
    (c.step.1.steps (2 * n)).machine.stackPointer = c.machine.stackPointer - 1 ∧
    (c.step.1.steps (2 * n)).machine.top = v ∧
    ∀ address, ¬ c.machine.IsBelow (n + 1) address →
      (c.step.1.steps (2 * n)).machine.memory.read address = c.machine.memory.read address := by
  have hback : (c.step.1.steps (2 * n)).machine.stackPointer = c.machine.stackPointer - 1 :=
    (congrArg Registers.stackPointer hinner.registers).trans hpush.stackPointer
  refine ⟨hback, ?_, ?_⟩
  · rw [Machine.top, hback, ← hpush.stackPointer,
      hinner.memory _ (Machine.not_isBelow_stackPointer _ hn), hpush.read,
      if_pos hpush.stackPointer]
  · intro address haddress
    rw [Machine.isBelow_succ_iff hpush.stackPointer, not_or] at haddress
    rw [hinner.memory address haddress.2, hpush.read, if_neg haddress.1]

/-- A push in front of code that restores, and a pop of the same register behind it. -/
theorem Restores.enclose {c : Computer δ} {a : UInt8} {n : Nat} (hn : n < 256)
    (hrun : c.machine.halted = false) (hpush : c.Pushes (c.machine.operand a))
    (hinner : c.step.1.Restores n)
    (hcode : c.machine.memory.bytesFrom (c.machine.counter + UInt8.ofNat (2 + 4 * n)) 2 =
      [Opcode.pop.toByte, a])
    (hapart : ∀ i < 2,
      ¬ c.machine.IsBelow (n + 1)
        (c.machine.counter + UInt8.ofNat (2 + 4 * n) + UInt8.ofNat i)) :
    c.Restores (n + 1) := by
  obtain ⟨hpointer, htop, hmemory⟩ := hpush.keeps hn hinner
  have hlast : c.steps (2 * (n + 1)) = (c.step.1.steps (2 * n)).step.1 := by
    rw [Nat.mul_succ, steps_succ, ← steps_step]
  have hcounter : (c.step.1.steps (2 * n)).machine.counter =
      c.machine.counter + UInt8.ofNat (2 + 4 * n) := by
    rw [hinner.counter, hpush.counter, UInt8.ofNat_add, ← add_assoc]
    rfl
  have hpop : (c.step.1.steps (2 * n)).Pops a := by
    apply pops_of_code hinner.running
    rw [← hcode, hcounter]
    exact Memory.bytesFrom_congr fun i hi ↦ hmemory _ (hapart i hi)
  constructor
  · rw [Nat.mul_succ, Nat.forall_lt_succ_right, Nat.forall_lt_succ_left]
    refine ⟨⟨⟨hrun, hpush.succeeds⟩, ?_⟩, ?_⟩
    · intro i hi
      rw [← steps_step]
      exact hinner.succeeds i hi
    · rw [← steps_step]
      exact ⟨hinner.running, hpop.succeeds⟩
  · rw [hlast, hpop.running, hinner.running]
  · -- The stack pointer is back before the register is set, so a saved stack pointer is right too.
    rw [hlast, hpop.registers, htop, hpointer, hinner.registers, hpush.registers]
    calc ((c.machine.registers.setStackPointer (c.machine.stackPointer - 1)).setStackPointer
            (c.machine.stackPointer - 1 + 1)).set (.ofByte a) (c.machine.operand a)
        = (c.machine.registers.setStackPointer c.machine.stackPointer).set (.ofByte a)
            (c.machine.operand a) := by
          rw [Registers.setStackPointer_setStackPointer, sub_add_cancel]
      _ = c.machine.registers.set (.ofByte a) (c.machine.operand a) :=
          congrArg (fun r ↦ Registers.set r (.ofByte a) (c.machine.operand a))
            (Registers.setStackPointer_self _)
      _ = c.machine.registers := Registers.set_get_self _ _
  · rw [hlast, hpop.flags, hinner.flags, hpush.flags]
  · rw [hlast, hpop.outlet, hinner.outlet, hpush.outlet]
  · have hwidth : 4 * (n + 1) = 2 + 4 * n + 2 := by omega
    rw [hlast, hpop.counter, hcounter, hwidth, UInt8.ofNat_add (2 + 4 * n), add_assoc]
    rfl
  · intro address haddress
    rw [hlast, hpop.memory]
    exact hmemory address haddress

/-- Code that saves registers and restores them. -/
theorem restores_of_code {operands : List UInt8} {c : Computer δ} (hrun : c.machine.halted = false)
    (hcode : c.machine.memory.bytesFrom c.machine.counter (4 * operands.length) =
      Program.saving operands ++ Program.restoring operands)
    (hapart : ∀ i < 4 * operands.length,
      ¬ c.machine.IsBelow operands.length (c.machine.counter + UInt8.ofNat i)) :
    c.Restores operands.length := by
  -- The operands are taken from the outside in: the first is pushed first and popped last.
  induction operands generalizing c with
  | nil => exact restores_zero hrun
  | cons a rest ih =>
    have hbound : 4 * (rest.length + 1) < 256 := Machine.lt_of_not_isBelow hapart
    have hwidth : 4 * (rest.length + 1) = 2 + 4 * rest.length + 2 := by omega
    rw [List.length_cons] at hcode hapart ⊢
    rw [hwidth] at hcode hapart
    have hcells : ([Opcode.push.toByte, a] ++
        (Program.saving rest ++ Program.restoring rest)).length = 2 + 4 * rest.length := by
      rw [List.length_append, Program.length_saving_append_restoring]
      rfl
    rw [Program.saving_append_restoring_cons, Memory.bytesFrom_eq_append_iff hcells,
      Memory.bytesFrom_eq_append_iff (k := 2) rfl] at hcode
    obtain ⟨⟨hfirst, hinner⟩, hlast⟩ := hcode
    have hpush : c.Pushes (c.machine.operand a) := pushes_of_code hrun hfirst
    have hcounter : c.step.1.machine.counter = c.machine.counter + UInt8.ofNat 2 := hpush.counter
    have hclear : ∀ i < 4 * rest.length,
        c.step.1.machine.counter + UInt8.ofNat i ≠ c.machine.stackPointer - 1 ∧
          ¬ c.step.1.machine.IsBelow rest.length (c.step.1.machine.counter + UInt8.ofNat i) := by
      intro i hi
      have hnot := hapart (2 + i) (by omega)
      rwa [Machine.isBelow_succ_iff hpush.stackPointer, not_or, UInt8.ofNat_add, ← add_assoc,
        ← hcounter] at hnot
    apply Restores.enclose (by omega) hrun hpush _ hlast
    · intro i hi
      rw [add_assoc, ← UInt8.ofNat_add]
      exact hapart (2 + 4 * rest.length + i) (by omega)
    · apply ih
      · rw [hpush.running, hrun]
      · rw [hpush.memory, Memory.bytesFrom_write_of_ne _ _ fun i hi ↦ (hclear i hi).1, hcounter,
          hinner]
      · exact fun i hi ↦ (hclear i hi).2

/-- Saving registers on the stack and restoring them changes no register, whatever the list of them,
if the stack stays clear of the code: the bytes of any operands, repeated ones and the stack pointer
among them, may be in it. -/
theorem steps_of_saving_restoring (c : Computer δ) (hrun : c.machine.halted = false)
    (operands : List UInt8)
    (hcode : c.machine.memory.bytesFrom c.machine.counter (4 * operands.length) =
      Program.saving operands ++ Program.restoring operands)
    (hapart : ∀ i < 4 * operands.length, ∀ j, 1 ≤ j → j ≤ operands.length →
      c.machine.counter + UInt8.ofNat i ≠ c.machine.stackPointer - UInt8.ofNat j) :
    let c' := c.steps (2 * operands.length)
    (∀ i < 2 * operands.length,
        (c.steps i).machine.halted = false ∧ (c.steps i).step.2 = .ok ()) ∧
      c'.machine.registers = c.machine.registers ∧
      c'.machine.flags = c.machine.flags ∧
      c'.outlet = c.outlet ∧
      c'.machine.counter = c.machine.counter + UInt8.ofNat (4 * operands.length) ∧
      ∀ address, (∀ j, 1 ≤ j → j ≤ operands.length →
          address ≠ c.machine.stackPointer - UInt8.ofNat j) →
        c'.machine.memory.read address = c.machine.memory.read address := by
  intro c'
  have hclear : ∀ i < 4 * operands.length,
      ¬ c.machine.IsBelow operands.length (c.machine.counter + UInt8.ofNat i) := by
    rintro i hi ⟨j, hj, hle, heq⟩
    exact hapart i hi j hj hle heq
  have hrestores : c.Restores operands.length := restores_of_code hrun hcode hclear
  refine ⟨hrestores.succeeds, hrestores.registers, hrestores.flags, hrestores.outlet,
    hrestores.counter, ?_⟩
  intro address haddress
  apply hrestores.memory
  rintro ⟨j, hj, hle, heq⟩
  exact haddress j hj hle heq

/-- The stack pointer is saved first and last, one register goes under two names, the code runs
around the end of memory, and the stack takes the cells up to it. -/
theorem steps_of_saving_restoring_of_wrap :
    let operands : List UInt8 := [7, 2, 250, 15]
    let code := Program.saving operands ++ Program.restoring operands
    let c := (ofSettings { stackPointer := some 250 } ({} : Container)).mapMachine fun m ↦
      { (m.place (code.drop 6 ++ List.replicate 240 0 ++ code.take 6)).setOperand 2 99 with
        counter := 250 }
    (∀ i < 8, (c.steps i).step.2 = .ok ()) ∧
      (c.steps 8).machine.registers = c.machine.registers ∧
      c.machine.stackPointer = 250 ∧
      (c.steps 8).machine.counter = 10 ∧
      (c.steps 8).machine.memory.read 245 = 0 := by
  intro operands code c
  have hcode : c.machine.memory.bytesFrom c.machine.counter (4 * operands.length) = code := by
    decide +kernel
  have hapart : ∀ i < 4 * operands.length, ∀ j, 1 ≤ j → j ≤ operands.length →
      c.machine.counter + UInt8.ofNat i ≠ c.machine.stackPointer - UInt8.ofNat j := by
    decide +kernel
  obtain ⟨hsucceeds, hregisters, -, -, hcounter, hmemory⟩ :=
    steps_of_saving_restoring c rfl operands hcode hapart
  have hsteps : 2 * operands.length = 8 := rfl
  have hround : c.machine.counter + UInt8.ofNat (4 * operands.length) = 10 := by decide +kernel
  rw [hsteps] at hsucceeds hregisters hcounter hmemory
  refine ⟨fun i hi ↦ (hsucceeds i hi).2, hregisters, by decide +kernel, hcounter.trans hround, ?_⟩
  rw [hmemory 245 (by decide +kernel)]
  decide +kernel

end Computer

end OctetMachine
