import Mathlib.Data.UInt
import OctetMachine.Proofs.History

/-!
# Calls and returns

A call keeps its return address in the cell below the stack pointer of the caller. What runs after
it may push and pop as it likes: while it has not popped more than it pushed, and not pushed more
than 255 bytes that it did not pop, no byte it pushes reaches that cell, because memory is written
only below the stack pointer. It must not store a result in the stack pointer, which would move the
stack without a push or a pop. The bound is exact: the next byte pushed at depth 255 replaces the
return address.
-/

namespace OctetMachine

/-- How far an operation moves the stack by itself. -/
def Opcode.lift (op : Opcode) : Int :=
  if op.pushes then 1 else if op.pops then -1 else 0

namespace Retirement

/-- The number of bytes pushed less the number of bytes popped. -/
def depth (log : List Retirement) : Int :=
  log.countP (fun r ↦ r.op.pushes) - log.countP (fun r ↦ r.op.pops)

/-- The instruction stored its result in the stack pointer. -/
def writesStackPointer (r : Retirement) : Bool :=
  r.op.writesOperand && r.before.target == Register.stackPointer

theorem depth_append (log : List Retirement) (r : Retirement) :
    depth (log ++ [r]) = depth log + r.op.lift := by
  simp only [depth, List.countP_append, List.countP_singleton, Opcode.lift]
  cases r.op <;> simp [Opcode.pushes, Opcode.pops] <;> omega

end Retirement

namespace Machine

/-- The machine is inside a call that was made with stack pointer `sp` and returns to `address`,
with `depth` bytes on the stack above the return address. -/
structure Inside (m : Machine) (sp address : UInt8) (depth : Int) : Prop where
  stackPointer : m.stackPointer = sp - 1 - UInt8.ofInt depth
  slot : m.memory.read (sp - 1) = address

theorem inside_next_call (m : Machine) :
    (m.next .call).Inside m.stackPointer (m.counter + 2) 0 := by
  constructor
  · rw [stackPointer_next (by simp [Opcode.writesOperand])]
    exact (UInt8.sub_zero _).symm
  · change (m.nextMemory .call).read _ = _
    rw [read_nextMemory, if_pos ⟨rfl, rfl⟩]
    rfl

/-- It takes 255 bytes on top of the return address to come round to the cell above it. -/
theorem sub_ofInt_ne {depth : Int} (hnonneg : 0 ≤ depth) (hlt : depth < 255) (sp : UInt8) :
    sp - 1 - UInt8.ofInt depth ≠ sp := by
  intro heq
  have hsize : sp.toNat < 256 := sp.toNat_lt
  have hdepth : (UInt8.ofInt depth).toNat = depth.toNat := by
    simp only [UInt8.ofInt, UInt8.toNat_ofNat']
    omega
  have hnat : (sp - 1 - UInt8.ofInt depth).toNat = sp.toNat := congrArg UInt8.toNat heq
  rw [UInt8.toNat_sub, UInt8.toNat_sub, UInt8.toNat_one, hdepth] at hnat
  omega

namespace Inside

variable {m : Machine} {sp address : UInt8} {depth : Int} {op : Opcode}

theorem stackPointer_next (h : m.Inside sp address depth)
    (hfree : op.writesOperand = true → m.target ≠ Register.stackPointer) :
    (m.next op).stackPointer = sp - 1 - UInt8.ofInt (depth + op.lift) := by
  have hup : UInt8.ofInt 1 = 1 := rfl
  have hdown : UInt8.ofInt (-1) = -1 := rfl
  have hstill : UInt8.ofInt 0 = 0 := rfl
  rw [Machine.stackPointer_next hfree, h.stackPointer, Opcode.lift, UInt8.ofInt_add]
  by_cases hpushes : op.pushes = true
  · rw [if_pos hpushes, if_pos hpushes, hup, sub_sub]
  · rw [if_neg hpushes, if_neg hpushes]
    by_cases hpops : op.pops = true
    · rw [if_pos hpops, if_pos hpops, hdown, ← sub_sub, sub_neg_eq_add]
    · rw [if_neg hpops, if_neg hpops, hstill, add_zero]

theorem slot_next (h : m.Inside sp address depth) (hnonneg : 0 ≤ depth)
    (hle : depth + op.lift ≤ 255) : (m.next op).memory.read (sp - 1) = address := by
  change (m.nextMemory op).read (sp - 1) = address
  rw [read_nextMemory, if_neg, h.slot]
  rintro ⟨hpushes, haddress⟩
  rw [Opcode.lift, if_pos hpushes] at hle
  rw [UInt8.sub_left_inj, h.stackPointer] at haddress
  exact sub_ofInt_ne hnonneg (by omega) sp haddress.symm

theorem next (h : m.Inside sp address depth) (hnonneg : 0 ≤ depth)
    (hle : depth + op.lift ≤ 255)
    (hfree : op.writesOperand = true → m.target ≠ Register.stackPointer) :
    (m.next op).Inside sp address (depth + op.lift) :=
  ⟨h.stackPointer_next hfree, h.slot_next hnonneg hle⟩

/-- The byte pushed on top of 255 others takes the place of the return address. -/
theorem slot_next_of_full (h : m.Inside sp address 255) (hpushes : op.pushes = true) :
    (m.next op).memory.read (sp - 1) = m.pushed op := by
  have hround : m.stackPointer = sp := by
    rw [h.stackPointer, sub_sub]
    exact UInt8.sub_zero sp
  change (m.nextMemory op).read (sp - 1) = m.pushed op
  rw [read_nextMemory, if_pos ⟨hpushes, by rw [hround]⟩]

theorem next_ret (h : m.Inside sp address 0) :
    (m.next .ret).counter = address ∧ (m.next .ret).stackPointer = sp := by
  have hpointer : m.stackPointer = sp - 1 := h.stackPointer.trans (UInt8.sub_zero _)
  constructor
  · change m.memory.read m.stackPointer = address
    rw [hpointer, h.slot]
  · rw [Machine.stackPointer_next (by simp [Opcode.writesOperand]), hpointer]
    exact UInt8.sub_add_cancel sp 1

end Inside

end Machine

namespace Computer

open Retirement (depth)

variable {δ : Type} [Device δ]

theorem inside_steps {c : Computer δ} {sp address : UInt8} (hstart : c.machine.Inside sp address 0)
    {n : Nat} (hdepth : ∀ i ≤ n, 0 ≤ depth (c.history i) ∧ depth (c.history i) ≤ 255)
    (hfree : ∀ r ∈ c.history n, r.writesStackPointer = false) :
    (c.steps n).machine.Inside sp address (depth (c.history n)) := by
  induction n with
  | zero => exact hstart
  | succ n ih =>
    have hbefore : (c.steps n).machine.Inside sp address (depth (c.history n)) := by
      apply ih
      · intro i hi
        exact hdepth i (Nat.le_succ_of_le hi)
      · intro r hr
        exact hfree r ((c.history_prefix_history n.le_succ).subset hr)
    rcases c.steps_succ_cases n with ⟨hmachine, hhistory⟩ | ⟨op, hretires, hhistory⟩
    · rw [hmachine, hhistory]
      exact hbefore
    · have hnonneg : 0 ≤ depth (c.history n) := (hdepth n n.le_succ).1
      have hle : depth (c.history (n + 1)) ≤ 255 := (hdepth (n + 1) (Nat.le_refl _)).2
      rw [hhistory, Retirement.depth_append] at hle ⊢
      rw [hretires.machine]
      apply hbefore.next hnonneg hle
      intro hwrites htarget
      have hlast := hfree ⟨op, (c.steps n).machine⟩ (by simp [hhistory])
      simp [Retirement.writesStackPointer, hwrites, htarget] at hlast

/-- A call returns to the instruction behind it, whatever runs in between: while the bytes pushed
since the call are between 0 and 255 and nothing stores a result in the stack pointer, the stack
pointer is that far below the return address, which is still in its cell. -/
theorem call_returns (c : Computer δ) (hrun : c.machine.halted = false)
    (hcall : Opcode.ofByte? c.machine.fetch.opcode = some .call) (n : Nat)
    (hdepth : ∀ i ≤ n,
      0 ≤ depth (c.step.1.history i) ∧ depth (c.step.1.history i) ≤ 255)
    (hfree : ∀ r ∈ c.step.1.history n, r.writesStackPointer = false) :
    c.step.2 = .ok () ∧ ∀ i ≤ n,
      (c.step.1.steps i).machine.stackPointer =
          c.machine.stackPointer - 1 - UInt8.ofInt (depth (c.step.1.history i)) ∧
        (c.step.1.steps i).machine.memory.read (c.machine.stackPointer - 1) =
          c.machine.counter + 2 ∧
        (depth (c.step.1.history i) = 0 → (c.step.1.steps i).machine.halted = false →
          Opcode.ofByte? (c.step.1.steps i).machine.fetch.opcode = some .ret →
          (c.step.1.steps i).step.2 = .ok () ∧
            (c.step.1.steps i).step.1.machine.counter = c.machine.counter + 2 ∧
            (c.step.1.steps i).step.1.machine.stackPointer = c.machine.stackPointer) := by
  have hretires : c.Retires .call c.step.1 := retires_of_printed_nil hrun hcall rfl rfl
  have hstart : c.step.1.machine.Inside c.machine.stackPointer (c.machine.counter + 2) 0 := by
    rw [hretires.machine]
    exact c.machine.inside_next_call
  refine ⟨congrArg Prod.snd hretires.step, ?_⟩
  intro i hi
  have hinside := inside_steps hstart (fun j hj ↦ hdepth j (Nat.le_trans hj hi))
    (fun r hr ↦ hfree r ((c.step.1.history_prefix_history hi).subset hr))
  refine ⟨hinside.stackPointer, hinside.slot, ?_⟩
  intro hzero hrunning hret
  have hreturns := retires_of_printed_nil hrunning hret rfl rfl
  rw [hzero] at hinside
  rw [hreturns.machine]
  exact ⟨congrArg Prod.snd hreturns.step, hinside.next_ret⟩

/-- A call made with an empty stack keeps its return address in the last cell; the subroutine moves
a register through the cell below and returns. -/
theorem call_returns_of_push_pop :
    let program : List UInt8 :=
      [0b01010000, 0, 0b00000001, 0, 0b01000101, 1, 0b01000110, 2, 0b00010001]
    let c := (ofSettings {} ({} : Container)).mapMachine fun m ↦ (m.place program).setOperand 0 4
    c.step.2 = .ok () ∧ (c.step.1.steps 1).machine.stackPointer = 254 ∧
      (c.step.1.steps 1).machine.memory.read 255 = 2 ∧
      (c.step.1.steps 2).step.1.machine.counter = 2 ∧
      (c.step.1.steps 2).step.1.machine.stackPointer = 0 := by
  intro program c
  have hdepth : ∀ i ≤ 2, 0 ≤ depth (c.step.1.history i) ∧ depth (c.step.1.history i) ≤ 255 := by
    decide +kernel
  have hfree : ∀ r ∈ c.step.1.history 2, r.writesStackPointer = false := by decide +kernel
  have hempty : c.machine.stackPointer - 1 = 255 := by decide +kernel
  have hbottom : c.machine.stackPointer = 0 := by decide +kernel
  have haddress : c.machine.counter + 2 = 2 := rfl
  obtain ⟨hstep, hinside⟩ := call_returns c rfl (by decide +kernel) 2 hdepth hfree
  obtain ⟨hpointer, hslot, -⟩ := hinside 1 (by decide)
  obtain ⟨-, -, hreturn⟩ := hinside 2 (by decide)
  have hfirst : depth (c.step.1.history 1) = 1 := by decide +kernel
  have hsecond : depth (c.step.1.history 2) = 0 := by decide +kernel
  have hrunning : (c.step.1.steps 2).machine.halted = false := by decide +kernel
  have hret : Opcode.ofByte? (c.step.1.steps 2).machine.fetch.opcode = some .ret := by
    decide +kernel
  obtain ⟨-, hback, hrestored⟩ := hreturn hsecond hrunning hret
  rw [hempty, hfirst] at hpointer
  rw [hempty, haddress] at hslot
  rw [haddress] at hback
  rw [hbottom] at hrestored
  exact ⟨hstep, hpointer, hslot, hback, hrestored⟩

end Computer

end OctetMachine
