import OctetMachine.Proofs.Step

/-!
# Effects of one operation

An operation may be executed on any window, also on one that another byte heads. It writes
registers, memory, flags and jump counters itself, each of them only for a few operations, and
answers what is left to the cycle. The program counter and all else that the cycle cares for are
never its own to write, and one that fails has written nothing.
-/

namespace OctetMachine

namespace Opcode

/-- The operations that store a value in the register of their first operand by themselves. -/
def storing : List Opcode := [.ldi, .ld, .pop]

/-- The operations that move the stack pointer. -/
def stacking : List Opcode := [.push, .pop, .call, .ret]

/-- The operations whose result the cycle stores. -/
def calculating : List Opcode := [.add, .mul, .inc, .dec]

/-- The operations that say where to continue. -/
def jumping : List Opcode := [.call, .ret, .jmp, .jeq, .jne]

end Opcode

/-- What an operation may leave to the cycle. -/
inductive Effect.Suits : Effect → Opcode → Prop where
  | writeBack {op : Opcode} (result : UInt16) (calculates : op ∈ Opcode.calculating) :
      Suits (.writeBack result) op
  | jump {op : Opcode} (target : UInt8) (jumps : op ∈ Opcode.jumping) : Suits (.jump target) op
  | halt : Suits .halt .hlt
  | next {op : Opcode} (calculates : op ∉ Opcode.calculating) (jumps : op ∉ Opcode.jumping)
      (halts : op ≠ .hlt) : Suits .next op

namespace Machine

/-- `m'` is what an operation on a window may make of `m`. -/
structure Effects (m : Machine) (op : Opcode) (i : Instruction) (m' : Machine) : Prop where
  counter : m'.counter = m.counter
  halted : m'.halted = m.halted
  tracing : m'.tracing = m.tracing
  budget : m'.budget = m.budget
  retired : m'.statistics.retired = m.statistics.retired
  count : ∀ kind, m'.statistics.count kind = m.statistics.count kind
  register : ∀ r ≠ Register.stackPointer, (op ∈ Opcode.storing → r ≠ Register.ofByte i.a) →
    m'.registers.get r = m.registers.get r
  pointer : (op ∈ Opcode.storing → Register.ofByte i.a ≠ Register.stackPointer) →
    op ∉ Opcode.stacking → m'.stackPointer = m.stackPointer
  cell : ∀ address, (op = .push ∨ op = .call → address ≠ m.stackPointer - 1) →
    m'.memory.read address = m.memory.read address
  flags : op ≠ .cmp → m'.flags = m.flags
  jumps : op ≠ .jeq → op ≠ .jne → m'.statistics = m.statistics
  oneJump : op = .jeq ∨ op = .jne →
    m'.statistics.taken = m.statistics.taken + 1 ∧
        m'.statistics.notTaken = m.statistics.notTaken ∨
      m'.statistics.taken = m.statistics.taken ∧
        m'.statistics.notTaken = m.statistics.notTaken + 1

section

variable {m : Machine} {op : Opcode}

theorem jumpStatistics_eq (hjeq : op ≠ .jeq) (hjne : op ≠ .jne) :
    m.jumpStatistics op = m.statistics := by
  unfold jumpStatistics
  split <;> simp_all

theorem jumpStatistics_of_conditional (hop : op = .jeq ∨ op = .jne) :
    (m.jumpStatistics op).taken = m.statistics.taken + 1 ∧
        (m.jumpStatistics op).notTaken = m.statistics.notTaken ∨
      (m.jumpStatistics op).taken = m.statistics.taken ∧
        (m.jumpStatistics op).notTaken = m.statistics.notTaken + 1 := by
  have hcount (taken : Bool) :
      (m.statistics.countJump taken).taken = m.statistics.taken + 1 ∧
          (m.statistics.countJump taken).notTaken = m.statistics.notTaken ∨
        (m.statistics.countJump taken).taken = m.statistics.taken ∧
          (m.statistics.countJump taken).notTaken = m.statistics.notTaken + 1 := by
    cases taken
    · exact .inr ⟨rfl, rfl⟩
    · exact .inl ⟨rfl, rfl⟩
  rcases hop with rfl | rfl
  · exact hcount _
  · exact hcount _

end

/-- An operation that leaves the machine as it is. -/
theorem Effects.refl (m : Machine) {op : Opcode} (hjeq : op ≠ .jeq) (hjne : op ≠ .jne)
    (i : Instruction) : m.Effects op i m where
  counter := rfl
  halted := rfl
  tracing := rfl
  budget := rfl
  retired := rfl
  count _ := rfl
  register _ _ _ := rfl
  pointer _ _ := rfl
  cell _ _ := rfl
  flags _ := rfl
  jumps _ _ := rfl
  oneJump h := (h.elim hjeq hjne).elim

end Machine

namespace Computer

variable {δ : Type} [Device δ]

/-! ## Components of what is executed -/

section

variable {c c' : Computer δ} {op : Opcode} {i : Instruction} {effect : Effect}

theorem memory_execute (h : c.execute op i = (c', .ok effect)) (address : UInt8)
    (haddress : op = .push ∨ op = .call → address ≠ c.machine.stackPointer - 1) :
    c'.machine.memory.read address = c.machine.memory.read address := by
  cases op
  case prn | pra => rw [(eq_of_print_eq_ok h).1]
  all_goals cases h
  case push => exact (Memory.read_write _ _ _ _).trans (if_neg (haddress (.inl rfl)))
  case call => exact (Memory.read_write _ _ _ _).trans (if_neg (haddress (.inr rfl)))
  all_goals rfl

theorem registers_execute (h : c.execute op i = (c', .ok effect)) (r : Register)
    (hstored : op ∈ Opcode.storing → r ≠ Register.ofByte i.a)
    (hmoved : op ∈ Opcode.stacking → r ≠ Register.stackPointer) :
    c'.machine.registers.get r = c.machine.registers.get r := by
  have hkept (r' : Registers) {s : Register} (v : UInt8) (hr : r ≠ s) :
      (r'.set s v).get r = r'.get r :=
    (Registers.get_set _ _ _ _).trans (if_neg hr)
  cases op
  case prn | pra => rw [(eq_of_print_eq_ok h).1]
  all_goals cases h
  case ldi | ld => exact hkept _ _ (hstored (by decide))
  case pop => exact (hkept _ _ (hstored (by decide))).trans (hkept _ _ (hmoved (by decide)))
  case push | call | ret => exact hkept _ _ (hmoved (by decide))
  all_goals rfl

theorem statistics_execute (h : c.execute op i = (c', .ok effect)) :
    c'.machine.statistics = c.machine.jumpStatistics op := by
  cases op
  case prn | pra =>
    rw [(eq_of_print_eq_ok h).1]
    rfl
  all_goals cases h
  all_goals rfl

theorem flags_execute (h : c.execute op i = (c', .ok effect)) (hop : op ≠ .cmp) :
    c'.machine.flags = c.machine.flags := by
  cases op
  case prn | pra => rw [(eq_of_print_eq_ok h).1]
  case cmp => exact absurd rfl hop
  all_goals cases h
  all_goals rfl

/-- What belongs to the cycle. -/
theorem execute_keeps (h : c.execute op i = (c', .ok effect)) :
    c'.machine.counter = c.machine.counter ∧ c'.machine.halted = c.machine.halted ∧
      c'.machine.tracing = c.machine.tracing ∧ c'.machine.budget = c.machine.budget := by
  cases op
  case prn | pra =>
    rw [(eq_of_print_eq_ok h).1]
    exact ⟨rfl, rfl, rfl, rfl⟩
  all_goals cases h
  all_goals exact ⟨rfl, rfl, rfl, rfl⟩

theorem registers_eq_of_calculating (h : c.execute op i = (c', .ok effect))
    (hop : op ∈ Opcode.calculating) : c'.machine.registers = c.machine.registers := by
  cases op
  case add | mul | inc | dec =>
    cases h
    rfl
  all_goals exact absurd hop (by decide)

theorem suits_execute (h : c.execute op i = (c', .ok effect)) : effect.Suits op := by
  cases op
  case prn | pra =>
    rw [(eq_of_print_eq_ok h).2]
    exact .next (by decide) (by decide) (by decide)
  all_goals cases h
  case hlt => exact .halt
  case add | mul | inc | dec => exact .writeBack _ (by decide)
  case call | ret | jmp | jeq | jne => exact .jump _ (by decide)
  all_goals exact .next (by decide) (by decide) (by decide)

end

theorem effects_execute {c c' : Computer δ} {op : Opcode} {i : Instruction} {effect : Effect}
    (h : c.execute op i = (c', .ok effect)) : c.machine.Effects op i c'.machine := by
  obtain ⟨hcounter, hhalted, htracing, hbudget⟩ := execute_keeps h
  have hstatistics := statistics_execute h
  constructor
  case counter => exact hcounter
  case halted => exact hhalted
  case tracing => exact htracing
  case budget => exact hbudget
  case retired => rw [hstatistics, Machine.retired_jumpStatistics]
  case count => exact fun kind ↦ by rw [hstatistics, Machine.count_jumpStatistics]
  case register => exact fun r hr hstored ↦ registers_execute h r hstored fun _ ↦ hr
  case pointer =>
    intro hstored hmoved
    exact registers_execute h _ (fun hop ↦ (hstored hop).symm) fun hop ↦ absurd hop hmoved
  case cell => exact memory_execute h
  case flags => exact flags_execute h
  case jumps => exact fun hjeq hjne ↦ by rw [hstatistics, Machine.jumpStatistics_eq hjeq hjne]
  case oneJump =>
    intro hop
    rw [hstatistics]
    exact Machine.jumpStatistics_of_conditional hop

/-! ## What operations may do -/

/-- An operation writes only what is its own to write, whatever window it is executed on, and
answers what suits it. If it fails, it has written nothing but a part of its text. -/
theorem execute_effects (c : Computer δ) (op : Opcode) (i : Instruction) :
    c.machine.Effects op i (c.execute op i).1.machine ∧
      (op ≠ .prn → op ≠ .pra → (c.execute op i).1.outlet = c.outlet) ∧
      (c.execute op i).1.journal = c.journal ∧
      (∀ effect, (c.execute op i).2 = .ok effect → effect.Suits op) ∧
      (∀ result, (c.execute op i).2 = .ok (.writeBack result) →
        (c.execute op i).1.machine.registers = c.machine.registers) ∧
      ∀ fault, (c.execute op i).2 = .error fault → (c.execute op i).1.machine = c.machine := by
  rcases c.execute_cases op i with ⟨himplemented, hexecute⟩ |
    ⟨outlet, reason, hprints, -, hexecute⟩ | ⟨outlet, m, effect, -, hprint, hexecute⟩
  · have hjeq : op ≠ .jeq := by
      rintro rfl
      cases himplemented
    have hjne : op ≠ .jne := by
      rintro rfl
      cases himplemented
    rw [hexecute]
    exact ⟨.refl _ hjeq hjne i, fun _ _ ↦ rfl, rfl, fun _ h ↦ (nomatch h), fun _ h ↦ (nomatch h),
      fun _ _ ↦ rfl⟩
  · have hjeq : op ≠ .jeq := by rcases hprints with rfl | rfl <;> decide
    have hjne : op ≠ .jne := by rcases hprints with rfl | rfl <;> decide
    rw [hexecute]
    refine ⟨.refl _ hjeq hjne i, ?_, rfl, fun _ h ↦ (nomatch h), fun _ h ↦ (nomatch h),
      fun _ _ ↦ rfl⟩
    exact fun hprn hpra ↦ (hprints.elim hprn hpra).elim
  · have hsuits := suits_execute hexecute
    have heffects := effects_execute hexecute
    rw [hexecute]
    refine ⟨heffects, ?_, rfl, ?_, ?_, fun _ h ↦ nomatch h⟩
    · intro hprn hpra
      rw [Machine.text_eq_nil _ hprn hpra, Outlet.print_nil] at hprint
      exact (congrArg Prod.fst hprint).symm
    · rintro effect ⟨⟩
      exact hsuits
    · rintro result ⟨⟩
      cases hsuits with
      | writeBack _ hcalculates => exact registers_eq_of_calculating hexecute hcalculates

end Computer

end OctetMachine
