import Mathlib.Data.Set.Basic
import OctetMachine.Proofs.History

/-!
# Cells that are not read

A fetch takes three bytes from memory, and a step does with them what it needs. `Machine.reads` are
the cells that it needs: the operation, the operands that its format counts, and the cell of data of
a load, a pop or a return. Two computers that differ in other cells alone take the same step, and
differ afterwards in no cell that it wrote, so a cell matters to a run only if it is read before a
push or a call has written it.
-/

namespace OctetMachine

namespace Machine

/-- The operand bytes of an operation, as many as its format counts. -/
def operandCells (m : Machine) (op : Opcode) : List UInt8 :=
  (List.range (Format.ofByte op.toByte).operandCount.toNat).map fun i ↦
    m.counter + UInt8.ofNat (i + 1)

/-- The cell of data that an operation reads. -/
def dataCells (m : Machine) : Opcode → List UInt8
  | .ld => [m.operand m.fetch.b]
  | .pop | .ret => [m.stackPointer]
  | _ => []

/-- The cells that the next step reads. -/
def reads (m : Machine) : List UInt8 :=
  if m.halted then []
  else
    m.counter ::
      match Opcode.ofByte? m.fetch.opcode with
      | none => []
      | some op => if op.isImplemented then m.operandCells op ++ m.dataCells op else []

/-- The machine with other cells. -/
def withMemory (m : Machine) (memory : Memory) : Machine := { m with memory }

section

variable (m : Machine) (cells : Memory)

@[simp] theorem registers_withMemory : (m.withMemory cells).registers = m.registers := rfl

@[simp] theorem memory_withMemory : (m.withMemory cells).memory = cells := rfl

@[simp] theorem counter_withMemory : (m.withMemory cells).counter = m.counter := rfl

@[simp] theorem flags_withMemory : (m.withMemory cells).flags = m.flags := rfl

@[simp] theorem halted_withMemory : (m.withMemory cells).halted = m.halted := rfl

@[simp] theorem operand_withMemory (b : UInt8) : (m.withMemory cells).operand b = m.operand b := rfl

@[simp] theorem stackPointer_withMemory :
    (m.withMemory cells).stackPointer = m.stackPointer := rfl

end

/-- With other cells, an operation finds the same in memory. -/
structure SameInput (m : Machine) (cells : Memory) (op : Opcode) : Prop where
  first : 0 < op.operands.length → (m.withMemory cells).fetch.a = m.fetch.a
  second : 1 < op.operands.length → (m.withMemory cells).fetch.b = m.fetch.b
  loaded : op = .ld → cells.read (m.operand m.fetch.b) = m.memory.read (m.operand m.fetch.b)
  popped : op.pops = true → (m.withMemory cells).top = m.top

theorem sameInput_of_reads {m : Machine} {cells : Memory} {op : Opcode}
    (hrun : m.halted = false) (hop : Opcode.ofByte? m.fetch.opcode = some op)
    (himp : op.isImplemented = true)
    (hreads : ∀ a ∈ m.reads, cells.read a = m.memory.read a) : m.SameInput cells op := by
  have hmem (a : UInt8) (ha : a ∈ m.operandCells op ∨ a ∈ m.dataCells op) :
      cells.read a = m.memory.read a := by
    apply hreads
    simp only [reads, hrun, hop, himp]
    simp [ha]
  have hoperand (i : Nat) (hi : i < op.operands.length) :
      cells.read (m.counter + UInt8.ofNat (i + 1)) =
        m.memory.read (m.counter + UInt8.ofNat (i + 1)) := by
    apply hmem
    rw [op.length_operands] at hi
    exact .inl (List.mem_map.2 ⟨i, List.mem_range.2 hi, rfl⟩)
  constructor
  · exact hoperand 0
  · exact hoperand 1
  · rintro rfl
    exact hmem _ (.inr List.mem_cons_self)
  · intro hpops
    apply hmem
    cases op <;> simp_all [Opcode.pops, dataCells]

namespace SameInput

variable {m : Machine} {cells : Memory} {op : Opcode}

theorem nextRegisters (h : m.SameInput cells op) :
    (m.withMemory cells).nextRegisters op = m.nextRegisters op := by
  obtain ⟨first, second, loaded, popped⟩ := h
  cases op <;> simp_all [Machine.nextRegisters, target, Opcode.operands, Opcode.pops]

theorem nextCounter (h : m.SameInput cells op) :
    (m.withMemory cells).nextCounter op = m.nextCounter op := by
  have hregisters := h.nextRegisters
  obtain ⟨first, second, loaded, popped⟩ := h
  cases op <;> simp_all [Machine.nextCounter, target, Opcode.operands, Opcode.pops]

theorem nextFlags (h : m.SameInput cells op) :
    (m.withMemory cells).nextFlags op = m.nextFlags op := by
  obtain ⟨first, second, loaded, popped⟩ := h
  cases op <;> simp_all [Machine.nextFlags, Opcode.operands]

theorem pushed (h : m.SameInput cells op) (hpushes : op.pushes = true) :
    (m.withMemory cells).pushed op = m.pushed op := by
  obtain ⟨first, second, loaded, popped⟩ := h
  cases op <;> simp_all [Machine.pushed, Opcode.operands, Opcode.pushes]

theorem printed (h : m.SameInput cells op) :
    (m.withMemory cells).printed op = m.printed op := by
  obtain ⟨first, second, loaded, popped⟩ := h
  cases op <;> simp_all [Machine.printed, Opcode.operands]

/-- All that an instruction does depends on what it finds in memory, the cells that it does not
write apart. -/
theorem next (h : m.SameInput cells op) :
    (m.withMemory cells).next op =
      (m.next op).withMemory ((m.withMemory cells).nextMemory op) := by
  have hjump : (m.withMemory cells).jumpStatistics op = m.jumpStatistics op := by cases op <;> rfl
  simp only [Machine.next, h.nextRegisters, h.nextCounter, h.nextFlags, hjump]
  rfl

theorem read_nextMemory (h : m.SameInput cells op) (address : UInt8) :
    ((m.withMemory cells).nextMemory op).read address =
      if op.pushes ∧ address = m.stackPointer - 1 then m.pushed op else cells.read address := by
  rw [Machine.read_nextMemory, stackPointer_withMemory, memory_withMemory]
  split
  next hpushed => exact h.pushed hpushed.1
  next => rfl

end SameInput

theorem counter_mem_reads {m : Machine} (hrun : m.halted = false) : m.counter ∈ m.reads := by
  simp [reads, hrun]

end Machine

namespace Retirement

/-- The cell that an instruction wrote, if it wrote one. -/
def written? (r : Retirement) : Option UInt8 :=
  if r.op.pushes then some (r.before.stackPointer - 1) else none

/-- The cells that were written. -/
def overwritten (log : List Retirement) : List UInt8 := log.filterMap written?

theorem overwritten_append (log rest : List Retirement) :
    overwritten (log ++ rest) = overwritten log ++ overwritten rest := List.filterMap_append

theorem mem_overwritten_singleton {r : Retirement} {address : UInt8} :
    address ∈ overwritten [r] ↔ r.op.pushes = true ∧ address = r.before.stackPointer - 1 := by
  rw [overwritten, List.mem_filterMap]
  cases hpushes : r.op.pushes with
  | false => simp [written?, hpushes]
  | true => simp [written?, hpushes, eq_comm (a := address)]

end Retirement

namespace Computer

open Retirement (overwritten)

variable {δ : Type}

/-- Computers that differ in cells of a set at most, and in their journals. -/
structure AgreesOff (D : Set UInt8) (c d : Computer δ) : Prop where
  machine : d.machine = c.machine.withMemory d.machine.memory
  outlet : d.outlet = c.outlet
  cells : ∀ a ∉ D, d.machine.memory.read a = c.machine.memory.read a

namespace AgreesOff

variable {D E : Set UInt8} {c d : Computer δ}

theorem mono (h : AgreesOff D c d) (hsub : D ⊆ E) : AgreesOff E c d :=
  ⟨h.machine, h.outlet, fun a ha ↦ h.cells a fun hD ↦ ha (hsub hD)⟩

theorem diff_overwritten_nil (h : AgreesOff D c d) :
    AgreesOff (D \ {a | a ∈ overwritten []}) c d :=
  h.mono fun _ ha ↦ ⟨ha, List.not_mem_nil⟩

theorem halted (h : AgreesOff D c d) : d.machine.halted = c.machine.halted := by
  rw [h.machine, Machine.halted_withMemory]

theorem counter (h : AgreesOff D c d) : d.machine.counter = c.machine.counter := by
  rw [h.machine, Machine.counter_withMemory]

theorem announce (h : AgreesOff D c d) : AgreesOff D c.announce d.announce := by
  constructor
  · rw [machine_announce, machine_announce]
    exact h.machine
  · rw [outlet_announce, outlet_announce, h.outlet]
  · rw [machine_announce, machine_announce]
    exact h.cells

theorem opcode (h : AgreesOff D c d) (hrun : c.machine.halted = false)
    (hreads : ∀ a ∈ c.machine.reads, a ∉ D) :
    d.machine.fetch.opcode = c.machine.fetch.opcode := by
  change d.machine.memory.read d.machine.counter = c.machine.memory.read c.machine.counter
  rw [h.counter]
  exact h.cells _ (hreads _ (Machine.counter_mem_reads hrun))

theorem sameInput (h : AgreesOff D c d) {op : Opcode} (hrun : c.machine.halted = false)
    (hop : Opcode.ofByte? c.machine.fetch.opcode = some op) (himp : op.isImplemented = true)
    (hreads : ∀ a ∈ c.machine.reads, a ∉ D) : c.machine.SameInput d.machine.memory op :=
  Machine.sameInput_of_reads hrun hop himp fun a ha ↦ h.cells a (hreads a ha)

/-- The cells that an instruction leaves, its own among them if it wrote one. -/
theorem read_nextMemory (h : AgreesOff D c d) {op : Opcode}
    (hinput : c.machine.SameInput d.machine.memory op) {a : UInt8}
    (ha : a ∉ D \ {a | a ∈ overwritten [⟨op, c.machine⟩]}) :
    ((c.machine.withMemory d.machine.memory).nextMemory op).read a =
      (c.machine.nextMemory op).read a := by
  rw [hinput.read_nextMemory, Machine.read_nextMemory]
  split
  next => rfl
  next hkept =>
    apply h.cells
    intro hD
    exact ha ⟨hD, mt Retirement.mem_overwritten_singleton.1 hkept⟩

variable [Device δ]

/-- Where one computer retires an instruction, so does the other, and they agree on what was
written. -/
theorem exists_retires (h : AgreesOff D c d) (hreads : ∀ a ∈ c.machine.reads, a ∉ D) {op : Opcode}
    {c' : Computer δ} (hretires : c.Retires op c') :
    ∃ d', d.Retires op d' ∧ AgreesOff (D \ {a | a ∈ overwritten [⟨op, c.machine⟩]}) c' d' := by
  have hinput : c.machine.SameInput d.machine.memory op :=
    h.sameInput hretires.running hretires.decoded hretires.implemented hreads
  have hnext : d.machine.next op =
      (c.machine.next op).withMemory ((c.machine.withMemory d.machine.memory).nextMemory op) := by
    rw [← hinput.next, ← h.machine]
  refine ⟨{ d.announce with machine := d.machine.next op, outlet := c'.outlet }, ?_, ?_⟩
  · refine ⟨?_, ?_, hretires.implemented, rfl, ?_, rfl⟩
    · rw [h.halted, hretires.running]
    · rw [h.opcode hretires.running hreads, hretires.decoded]
    · rw [h.outlet, h.machine, hinput.printed, hretires.print]
  · constructor
    · dsimp only
      rw [hnext, hretires.machine]
      rfl
    · rfl
    · intro a ha
      dsimp only
      rw [hnext, hretires.machine]
      exact h.read_nextMemory hinput ha

theorem exists_fails (h : AgreesOff D c d) (hrun : c.machine.halted = false)
    (hreads : ∀ a ∈ c.machine.reads, a ∉ D) {fault : Fault} {e : Computer δ}
    (hfails : c.Fails fault e) : ∃ e', d.Fails fault e' ∧ AgreesOff D e e' := by
  have hopcode := h.opcode hrun hreads
  cases hfails with
  | unknown decoded =>
    rw [← hopcode] at decoded ⊢
    rw [← h.counter]
    exact ⟨_, .unknown decoded, h.announce⟩
  | unimplemented decoded missing =>
    rw [← hopcode] at decoded ⊢
    exact ⟨_, .unimplemented decoded missing, h.announce⟩
  | @refused op outlet reason decoded implemented print =>
    have hinput : c.machine.SameInput d.machine.memory op :=
      h.sameInput hrun decoded implemented hreads
    rw [← hinput.printed, ← h.machine, ← h.outlet] at print
    rw [← hopcode] at decoded
    exact ⟨_, .refused decoded implemented print, h.announce.machine, rfl, h.announce.cells⟩

/-- Computers that differ in cells which are not read take the same step. -/
theorem step (h : AgreesOff D c d) (hreads : ∀ a ∈ c.machine.reads, a ∉ D) :
    d.step.2 = c.step.2 ∧
      AgreesOff (D \ {a | a ∈ overwritten c.retirement?.toList}) c.step.1 d.step.1 := by
  rcases c.step_cases with
    ⟨hhalted, hstep⟩ | ⟨op, c', hretires, hstep⟩ | ⟨fault, e, hrun, hfails, hstep⟩
  · have hstep' : d.step = (d, .ok ()) := step_of_halted (h.halted.trans hhalted)
    rw [hstep, hstep', retirement?_of_halted hhalted]
    exact ⟨rfl, h.diff_overwritten_nil⟩
  · obtain ⟨d', hretires', hagrees⟩ := h.exists_retires hreads hretires
    rw [hstep, hretires'.step, hretires.retirement?]
    exact ⟨rfl, hagrees⟩
  · obtain ⟨e', hfails', hagrees⟩ := h.exists_fails hrun hreads hfails
    rw [hstep, hfails'.step (h.halted.trans hrun), hfails.retirement? hrun]
    exact ⟨rfl, hagrees.diff_overwritten_nil⟩

/-- Agreement lasts as long as no cell of the set is read before it is written. -/
theorem steps (h : AgreesOff D c d) {n : Nat}
    (hreads : ∀ i < n, ∀ a ∈ (c.steps i).machine.reads, a ∈ D → a ∈ overwritten (c.history i)) :
    AgreesOff (D \ {a | a ∈ overwritten (c.history n)}) (c.steps n) (d.steps n) := by
  induction n with
  | zero => exact h.diff_overwritten_nil
  | succ n ih =>
    have hagrees := ih fun i hi ↦ hreads i (Nat.lt_succ_of_lt hi)
    have hunread : ∀ a ∈ (c.steps n).machine.reads, a ∉ D \ {a | a ∈ overwritten (c.history n)} :=
      fun a ha hD ↦ hD.2 (hreads n n.lt_succ_self a ha hD.1)
    rw [steps_succ, steps_succ, history_succ, Retirement.overwritten_append]
    apply (hagrees.step hunread).2.mono
    rintro a ⟨⟨hD, hold⟩, hnew⟩
    exact ⟨hD, fun ha ↦ (List.mem_append.1 ha).elim hold hnew⟩

end AgreesOff

variable [Device δ]

/-- What stands in cells that are not read before a push or a call writes them has no part in a run:
the steps come to the same results, and all of the machine but these cells, and the output, stay the
same. -/
theorem steps_withMemory_of_unread (c : Computer δ) (D : Set UInt8) (cells : Memory)
    (journal : Journal) (k : Nat) (hcells : ∀ a ∉ D, cells.read a = c.machine.memory.read a)
    (hreads : ∀ i < k, ∀ a ∈ (c.steps i).machine.reads, a ∈ D → a ∈ overwritten (c.history i)) :
    let d : Computer δ := { c with machine := c.machine.withMemory cells, journal }
    (∀ i < k, (d.steps i).step.2 = (c.steps i).step.2) ∧
      ∀ i ≤ k,
        (d.steps i).outlet = (c.steps i).outlet ∧
        (d.steps i).machine = (c.steps i).machine.withMemory (d.steps i).machine.memory ∧
        ∀ a, a ∉ D ∨ a ∈ overwritten (c.history i) →
          (d.steps i).machine.memory.read a = (c.steps i).machine.memory.read a := by
  intro d
  have hstart : AgreesOff D c d := ⟨rfl, rfl, hcells⟩
  have hagrees (i : Nat) (hi : i ≤ k) :
      AgreesOff (D \ {a | a ∈ overwritten (c.history i)}) (c.steps i) (d.steps i) :=
    hstart.steps fun j hj ↦ hreads j (Nat.lt_of_lt_of_le hj hi)
  constructor
  · intro i hi
    exact ((hagrees i hi.le).step fun a ha hD ↦ hD.2 (hreads i hi a ha hD.1)).1
  · intro i hi
    refine ⟨(hagrees i hi).outlet, (hagrees i hi).machine, ?_⟩
    intro a ha
    apply (hagrees i hi).cells
    rintro ⟨hD, hold⟩
    exact ha.elim (fun h ↦ h hD) hold

/-- A pushed byte is popped into another register and printed. What lies behind the program differs,
the cell of the stack included. -/
theorem steps_withMemory_of_unread_of_push_pop :
    let program : List UInt8 :=
      [0b10000010, 0, 7, 0b01000101, 0, 0b01000110, 1, 0b01000111, 1, 1]
    let memory := Memory.zero.load program
    let cells := ({ cells := Vector.replicate 256 255 } : Memory).load program
    let c := (ofSettings {} ({} : Container)).mapMachine fun m ↦ { m with memory }
    let d : Computer Container := { c with machine := c.machine.withMemory cells }
    c.machine.memory.read 255 = 0 ∧ d.machine.memory.read 255 = 255 ∧
      (d.steps 3).step.2 = .ok () ∧ (d.steps 5).machine.registers.get 1 = 7 ∧
      (d.steps 5).machine.halted = true ∧ (d.steps 5).outlet = (c.steps 5).outlet ∧
      (d.steps 5).machine.memory.read 255 = 7 := by
  intro program memory cells c d
  have hcells : ∀ a ∉ {a : UInt8 | 10 ≤ a}, cells.read a = c.machine.memory.read a := by
    intro a ha
    have hlt : a.toNat < program.length := by simpa [UInt8.lt_iff_toNat_lt, program] using ha
    change cells.read a = (Memory.zero.load program).read a
    rw [Memory.read_load, Memory.read_load, List.getElem?_eq_getElem hlt]
    rfl
  -- Only the run of `c` is evaluated, and only once; what `d` does follows from it.
  have hrun : (∀ i < 5, ∀ a ∈ (c.steps i).machine.reads, 10 ≤ a → a ∈ overwritten (c.history i)) ∧
      255 ∈ overwritten (c.history 5) ∧ (c.steps 3).step.2 = .ok () ∧
      (c.steps 5).machine.registers.get 1 = 7 ∧ (c.steps 5).machine.halted = true ∧
      (c.steps 5).machine.memory.read 255 = 7 := by
    decide +kernel
  obtain ⟨hreads, hpushed, hresult, hregister, hhalted, hcell⟩ := hrun
  obtain ⟨hresults, hcourse⟩ :=
    steps_withMemory_of_unread c {a : UInt8 | 10 ≤ a} cells c.journal 5 hcells hreads
  obtain ⟨houtlet, hmachine, hmemory⟩ := hcourse 5 (Nat.le_refl 5)
  refine ⟨?_, ?_, ?_, ?_, ?_, houtlet, ?_⟩
  · change (Memory.zero.load program).read 255 = 0
    simp [program]
  · change cells.read 255 = 255
    rw [Memory.read_load]
    simp [program, Memory.read]
  · rw [hresults 3 (by decide), hresult]
  · rw [hmachine, Machine.registers_withMemory, hregister]
  · rw [hmachine, Machine.halted_withMemory, hhalted]
  · rw [hmemory 255 (.inr hpushed), hcell]

end Computer

end OctetMachine
