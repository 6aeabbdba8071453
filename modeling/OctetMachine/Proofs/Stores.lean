import OctetMachine.Proofs.Unread

/-!
# Stores to memory

The stack is the only way into memory: a push stores the value of a register and a call its return
address, each in the cell below the stack pointer, and no other instruction stores anything. So the
memory of a computer is the one it began with, with the stores of its history on top of it. A
program that changes itself does so where its stack runs into it.
-/

namespace OctetMachine

/-- A byte put in a cell. -/
structure Store where
  address : UInt8
  value : UInt8
  deriving DecidableEq

namespace Memory

/-- The memory after stores, in their order. -/
def putAll (m : Memory) (stores : List Store) : Memory :=
  stores.foldl (fun m s ↦ m.write s.address s.value) m

@[simp] theorem putAll_cons (m : Memory) (s : Store) (stores : List Store) :
    m.putAll (s :: stores) = (m.write s.address s.value).putAll stores := rfl

theorem putAll_append (m : Memory) (stores rest : List Store) :
    m.putAll (stores ++ rest) = (m.putAll stores).putAll rest := List.foldl_append

theorem read_putAll_of_not_mem (m : Memory) {stores : List Store} {address : UInt8}
    (h : address ∉ stores.map Store.address) :
    (m.putAll stores).read address = m.read address := by
  induction stores generalizing m with
  | nil => rfl
  | cons s rest ih =>
    rw [List.map_cons, List.mem_cons, not_or] at h
    rw [putAll_cons, ih _ h.2, read_write, if_neg h.1]

end Memory

namespace Retirement

/-- What an instruction stored, if it stored something. The stack pointer and the registers are
those before the instruction, also where it is the stack pointer that is pushed. -/
def store? (r : Retirement) : Option Store :=
  match r.op with
  | .push =>
    some { address := r.before.stackPointer - 1, value := r.before.operand r.before.fetch.a }
  | .call => some { address := r.before.stackPointer - 1, value := r.before.counter + 2 }
  | _ => none

/-- What was stored. -/
def stores (log : List Retirement) : List Store := log.filterMap store?

theorem stores_append (log rest : List Retirement) :
    stores (log ++ rest) = stores log ++ stores rest := List.filterMap_append

theorem map_address_stores (log : List Retirement) :
    (stores log).map Store.address = overwritten log := by
  have hwritten : (fun r ↦ (store? r).map Store.address) = written? := by
    funext r
    obtain ⟨op, before⟩ := r
    cases op <;> rfl
  rw [stores, overwritten, List.map_filterMap, hwritten]

end Retirement

open Retirement (overwritten stores)

/-- An instruction changes memory by what it stores and in no other way. -/
theorem Machine.memory_next (m : Machine) (op : Opcode) :
    (m.next op).memory = m.memory.putAll (stores [{ op, before := m }]) := by
  cases op <;> rfl

namespace Computer

variable {δ : Type} [Device δ]

theorem memory_steps (c : Computer δ) (n : Nat) :
    (c.steps n).machine.memory = c.machine.memory.putAll (stores (c.history n)) := by
  induction n with
  | zero => rfl
  | succ n ih =>
    rcases c.steps_succ_cases n with ⟨hmachine, hhistory⟩ | ⟨op, hretires, hhistory⟩
    · rw [hmachine, hhistory, ih]
    · rw [hretires.machine, Machine.memory_next, ih, hhistory, Retirement.stores_append,
        Memory.putAll_append]

/-- The memory after any number of steps, and after any run, is the initial one with the stores of
the retired pushes and calls, in their order; the cells that these did not address are as they were.
-/
theorem memory_eq_putAll (c : Computer δ) :
    (∀ n,
      (c.steps n).machine.memory = c.machine.memory.putAll (stores (c.history n)) ∧
        ∀ a ∉ overwritten (c.history n),
          (c.steps n).machine.memory.read a = c.machine.memory.read a) ∧
      ∀ fuel c' result, c.run? fuel = some (c', result) →
        c'.machine.memory = c.machine.memory.putAll (stores (c.retirements fuel)) ∧
          ∀ a ∉ overwritten (c.retirements fuel),
            c'.machine.memory.read a = c.machine.memory.read a := by
  have hsteps (n : Nat) :
      (c.steps n).machine.memory = c.machine.memory.putAll (stores (c.history n)) ∧
        ∀ a ∉ overwritten (c.history n),
          (c.steps n).machine.memory.read a = c.machine.memory.read a := by
    refine ⟨c.memory_steps n, ?_⟩
    intro a ha
    rw [← Retirement.map_address_stores] at ha
    rw [memory_steps, Memory.read_putAll_of_not_mem _ ha]
  refine ⟨hsteps, ?_⟩
  intro fuel c' result hrun
  obtain ⟨k, -, hadvance, hhistory⟩ := c.exists_history_of_advance fuel
  rw [machine_of_run? hrun, hadvance, hhistory]
  exact hsteps k

/-- The stack of a loop runs into the program and ends it at a byte that is no instruction. -/
theorem memory_eq_putAll_of_loop :
    let program : List UInt8 := [0b01000101, 7, 0b01010000, 0]
    let c := (ofSettings { stackPointer := some 6 } ({} : Container)).mapMachine fun m ↦
      m.place program
    ∃ c', c.run? 9 = some (c', .error (.unknownOpcode 2 4)) ∧
      c'.machine.memory =
        c.machine.memory.putAll [⟨5, 6⟩, ⟨4, 4⟩, ⟨3, 4⟩, ⟨2, 4⟩, ⟨1, 2⟩] ∧
      c'.machine.memory.read 0 = 0b01000101 := by
  intro program c
  have hresult : (c.run? 9).map Prod.snd = some (.error (.unknownOpcode 2 4)) := by
    decide +kernel
  have hstores : stores (c.retirements 9) = [⟨5, 6⟩, ⟨4, 4⟩, ⟨3, 4⟩, ⟨2, 4⟩, ⟨1, 2⟩] := by
    decide +kernel
  obtain ⟨⟨c', result⟩, hrun, rfl⟩ := Option.map_eq_some_iff.1 hresult
  obtain ⟨hmemory, hkept⟩ := (memory_eq_putAll c).2 9 c' _ hrun
  refine ⟨c', hrun, ?_, ?_⟩
  · rw [hmemory, hstores]
  · apply (hkept 0 _).trans
    · decide +kernel
    · rw [← Retirement.map_address_stores, hstores]
      decide

end Computer

end OctetMachine
