import OctetMachine.Proofs.Architecture
import OctetMachine.Proofs.History

/-!
# The last comparison

Only a comparison writes the flags, so they hold the outcome of the last one that was retired,
whatever has become of its registers since, and nothing before the first. A conditional jump asks no
more than whether that comparison found equal values, and where it is not taken it goes on behind
its own bytes.
-/

namespace OctetMachine

namespace Retirement

/-- The value of the first operand's register before the instruction. -/
def left (r : Retirement) : UInt8 := r.before.operand r.before.fetch.a

/-- The value of the second operand's register before the instruction. -/
def right (r : Retirement) : UInt8 := r.before.operand r.before.fetch.b

def lastComparison (log : List Retirement) : Option Retirement :=
  (log.filter fun r ↦ r.op == .cmp).getLast?

/-- There was a comparison, and the last one found equal values. -/
def lastFoundEqual (log : List Retirement) : Bool :=
  (lastComparison log).any fun r ↦ r.left == r.right

theorem lastComparison_append (log : List Retirement) (r : Retirement) :
    lastComparison (log ++ [r]) = if r.op = .cmp then some r else lastComparison log := by
  unfold lastComparison
  rw [List.filter_append]
  by_cases hop : r.op = .cmp
  · simp [hop]
  · simp [hop]

end Retirement

theorem Flags.compare_eq_equal_iff (a b : UInt8) : compare a b = .equal ↔ a = b := by
  unfold compare
  split
  next heq => simp [heq]
  next hne =>
    split
    · simp [hne]
    · simp [hne]

theorem Machine.nextFlags_of_ne_cmp (m : Machine) {op : Opcode} (hop : op ≠ .cmp) :
    m.nextFlags op = m.flags := by
  cases op <;> simp_all [nextFlags]

namespace Computer

open Retirement (lastComparison lastFoundEqual)

variable {δ : Type} [Device δ]

theorem flags_steps (c : Computer δ) (n : Nat) :
    (c.steps n).machine.flags =
      match lastComparison (c.history n) with
      | none => c.machine.flags
      | some r => Flags.compare r.left r.right := by
  induction n with
  | zero => rfl
  | succ n ih =>
    rcases c.steps_succ_cases n with ⟨hmachine, hhistory⟩ | ⟨op, hretires, hhistory⟩
    · rw [hmachine, hhistory, ih]
    · rw [hretires.machine, hhistory, Retirement.lastComparison_append]
      change (c.steps n).machine.nextFlags op = _
      by_cases hop : op = .cmp
      · subst hop
        rfl
      · rw [if_neg hop, ← ih]
        exact Machine.nextFlags_of_ne_cmp _ hop

theorem flags_steps_eq_equal_iff {c : Computer δ} (hclear : c.machine.flags = .clear) (n : Nat) :
    (c.steps n).machine.flags = .equal ↔ lastFoundEqual (c.history n) = true := by
  rw [flags_steps, lastFoundEqual, hclear]
  cases lastComparison (c.history n) with
  | none => simp
  | some r => simp [Flags.compare_eq_equal_iff]

/-- A conditional jump always succeeds, and its bytes are as many as it goes on by. -/
theorem step_of_conditional {c : Computer δ} {op : Opcode} (hjump : op = .jeq ∨ op = .jne)
    (hrun : c.machine.halted = false)
    (hop : Opcode.ofByte? c.machine.fetch.opcode = some op) :
    c.step.2 = .ok () ∧ c.machine.fetch.format.width = 2 ∧
      c.step.1.machine.counter = c.machine.nextCounter op := by
  have hretires : c.Retires op c.step.1 := by
    apply retires_of_printed_nil hrun hop
    · rcases hjump with rfl | rfl <;> rfl
    · rcases hjump with rfl | rfl <;> rfl
  refine ⟨congrArg Prod.snd hretires.step, ?_, ?_⟩
  · rw [Instruction.format, ← Opcode.ofByte?_eq_some_iff.1 hop]
    rcases hjump with rfl | rfl <;> rfl
  · rw [hretires.machine]
    rfl

/-- The flags hold the outcome of the last comparison since a computer was made, and the conditional
jumps go by it. -/
theorem flags_remember_lastComparison (settings : Settings) (device : δ) (memory : Memory)
    (n : Nat) :
    let start := (ofSettings settings device).mapMachine fun m ↦ { m with memory }
    let c := start.steps n
    let log := start.history n
    (c.machine.flags.bits.toNat =
      match lastComparison log with
      | none => 0
      | some r =>
        if r.left.toNat = r.right.toNat then 1 else if r.right.toNat < r.left.toNat then 2 else 4) ∧
    (c.machine.halted = false → Opcode.ofByte? c.machine.fetch.opcode = some .jeq →
      c.step.2 = .ok () ∧ c.machine.fetch.format.width = 2 ∧
        c.step.1.machine.counter =
          if lastFoundEqual log then c.machine.operand c.machine.fetch.a
          else c.machine.counter + 2) ∧
    (c.machine.halted = false → Opcode.ofByte? c.machine.fetch.opcode = some .jne →
      c.step.2 = .ok () ∧ c.machine.fetch.format.width = 2 ∧
        c.step.1.machine.counter =
          if lastFoundEqual log then c.machine.counter + 2
          else c.machine.operand c.machine.fetch.a) := by
  intro start c log
  have hequal : c.machine.flags = .equal ↔ lastFoundEqual log = true :=
    flags_steps_eq_equal_iff rfl n
  refine ⟨?_, ?_, ?_⟩
  · have hlast : c.machine.flags = match lastComparison log with
        | none => .clear
        | some r => Flags.compare r.left r.right := flags_steps start n
    rw [hlast]
    cases lastComparison log with
    | none => rfl
    | some r => exact Architecture.bits_compare r.left r.right
  · intro hrun hop
    obtain ⟨hstep, hwidth, hcounter⟩ := step_of_conditional (.inl rfl) hrun hop
    refine ⟨hstep, hwidth, ?_⟩
    rw [hcounter]
    simp only [Machine.nextCounter, hequal]
  · intro hrun hop
    obtain ⟨hstep, hwidth, hcounter⟩ := step_of_conditional (.inr rfl) hrun hop
    refine ⟨hstep, hwidth, ?_⟩
    rw [hcounter]
    simp only [Machine.nextCounter, hequal]

/-- Two equal registers are compared and one of them changes before the jump looks. -/
theorem flags_remember_lastComparison_of_increment :
    let memory := Memory.zero.load [0b10100111, 0, 1, 0b01100101, 0, 0b01010101, 0]
    let c := ((ofSettings {} ({} : Container)).mapMachine fun m ↦ { m with memory }).steps 2
    c.machine.operand 0 ≠ c.machine.operand 1 ∧ c.machine.flags.bits.toNat = 1 ∧
      c.step.1.machine.counter = c.machine.operand 0 := by
  intro memory c
  obtain ⟨hbits, hjeq, -⟩ := flags_remember_lastComparison {} ({} : Container) memory 2
  have hequal : lastFoundEqual (((ofSettings {} ({} : Container)).mapMachine
      fun m ↦ { m with memory }).history 2) = true := by decide +kernel
  have hjump : Opcode.ofByte? c.machine.fetch.opcode = some .jeq := by decide +kernel
  refine ⟨by decide +kernel, ?_, ?_⟩
  · rw [hbits]
    decide +kernel
  · rw [(hjeq (by decide +kernel) hjump).2.2, hequal, if_pos rfl]
    decide +kernel

end Computer

end OctetMachine
