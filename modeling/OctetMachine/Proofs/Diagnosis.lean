import Mathlib.Control.Monad.Basic
import OctetMachine.Proofs.Atomicity

/-!
# What a fault says

Three tables have a say in whether an instruction can be executed: the bytes of the operations, the
list of those that are implemented, and the operations themselves. They agree, so a step fails for
exactly one of three reasons, each of which can be told beforehand from the byte at the program
counter and from the device. A fault of the first two kinds names the instruction that the machine
still stands at when it is reported, however the program has changed since it was loaded, and so
does the dump of that machine.
-/

namespace OctetMachine

namespace Machine

/-- The machine stands at an address that holds a byte, and its dump shows that address and, as the
next instruction, a text. -/
structure StandsAt (m : Machine) (address opcode : UInt8) (text : String) : Prop where
  counter : m.counter = address
  byte : m.memory.read address = opcode
  dump : m.dump = "PC = 0x" ++ Numeral.hex address ++ "  FL = 0b" ++ Numeral.binary m.flags.bits ++
    "  next: " ++ text ++ "\n" ++ m.registers.dump

/-- The machine stands at the instruction that a fault is about, if it is about one. -/
def Explains (m : Machine) : Fault → Prop
  | .unknownOpcode address opcode =>
    Opcode.ofByte? opcode = none ∧ m.StandsAt address opcode ("??? 0b" ++ Numeral.binary opcode)
  | .unimplementedOpcode opcode =>
    ∃ op, Opcode.ofByte? opcode = some op ∧ op.isImplemented = false ∧
      m.StandsAt m.counter opcode
        (op.mnemonic ++ Instruction.listed (List.zipWith Operand.text op.operands
          [m.memory.read (m.counter + 1), m.memory.read (m.counter + 2)]))
  | .instructionLimit _ => True
  | .output _ => True

theorem standsAt_fetch (m : Machine) : m.StandsAt m.counter m.fetch.opcode m.fetch.text :=
  ⟨rfl, rfl, rfl⟩

theorem explains_unknownOpcode {m : Machine} (h : Opcode.ofByte? m.fetch.opcode = none) :
    m.Explains (.unknownOpcode m.counter m.fetch.opcode) := by
  refine ⟨h, ?_⟩
  have htext : m.fetch.text = "??? 0b" ++ Numeral.binary m.fetch.opcode := by
    rw [Instruction.text, h]
  rw [← htext]
  exact m.standsAt_fetch

theorem explains_unimplementedOpcode {m : Machine} {op : Opcode}
    (h : Opcode.ofByte? m.fetch.opcode = some op) (hop : op.isImplemented = false) :
    m.Explains (.unimplementedOpcode m.fetch.opcode) := by
  refine ⟨op, h, hop, ?_⟩
  have htext : m.fetch.text =
      op.mnemonic ++ Instruction.listed (List.zipWith Operand.text op.operands
        [m.memory.read (m.counter + 1), m.memory.read (m.counter + 2)]) := by
    rw [Instruction.text, h]
    rfl
  rw [← htext]
  exact m.standsAt_fetch

end Machine

namespace Computer

variable {δ : Type} [Device δ]

/-- A step or a run ends on a computer with a fault. -/
def EndsWith (c e : Computer δ) (fault : Fault) : Prop :=
  c.step = (e, .error fault) ∨ ∃ fuel, c.run? fuel = some (e, .error fault)

theorem Fails.explains {c e : Computer δ} {fault : Fault} (h : c.Fails fault e) :
    e.machine.Explains fault := by
  rw [h.machine_eq]
  cases h with
  | unknown decoded => exact Machine.explains_unknownOpcode decoded
  | unimplemented decoded missing => exact Machine.explains_unimplementedOpcode decoded missing
  | refused => trivial

theorem Ends.explains {c e : Computer δ} {fault : Fault} (h : c.Ends e (.error fault)) :
    e.machine.Explains fault := by
  cases h with
  | spent => trivial
  | failed _ _ fails => exact fails.explains

theorem EndsWith.explains {c e : Computer δ} {fault : Fault} (h : c.EndsWith e fault) :
    e.machine.Explains fault := by
  rcases h with hstep | ⟨fuel, hrun⟩
  · exact (step_eq_error_iff.1 hstep).2.explains
  · obtain ⟨k, -, e', ending, -, hend, hfinish⟩ := exists_ends_of_run? hrun
    have hmachine : e.machine = e'.machine := (congrArg (fun p ↦ p.1.machine) hfinish).symm
    have hresult : (e'.finish ending).2 = .error fault := congrArg Prod.snd hfinish
    rw [hmachine]
    by_cases hdevice : ∃ reason, fault = .output reason
    · obtain ⟨reason, rfl⟩ := hdevice
      trivial
    · obtain rfl : ending = .error fault :=
        eq_error_of_finish hresult fun reason hfault ↦ hdevice ⟨reason, hfault⟩
      exact hend.explains

/-! ## When a step fails -/

theorem exists_fails_of_error {c : Computer δ} {fault : Fault} (h : c.step.2 = .error fault) :
    ∃ e, c.Fails fault e :=
  ⟨c.step.1, (step_eq_error_iff.1 (Prod.ext rfl h)).2⟩

section

variable {c : Computer δ} (hrun : c.machine.halted = false)

include hrun

theorem step_unknownOpcode_iff {address opcode : UInt8} :
    c.step.2 = .error (.unknownOpcode address opcode) ↔
      Opcode.ofByte? c.machine.fetch.opcode = none ∧ address = c.machine.counter ∧
        opcode = c.machine.fetch.opcode := by
  constructor
  · intro h
    obtain ⟨e, hfails⟩ := exists_fails_of_error h
    cases hfails with
    | unknown decoded => exact ⟨decoded, rfl, rfl⟩
  · rintro ⟨decoded, rfl, rfl⟩
    exact congrArg Prod.snd ((Fails.unknown decoded).step hrun)

theorem step_unimplementedOpcode_iff {opcode : UInt8} :
    c.step.2 = .error (.unimplementedOpcode opcode) ↔
      (∃ op, Opcode.ofByte? c.machine.fetch.opcode = some op ∧ op.isImplemented = false) ∧
        opcode = c.machine.fetch.opcode := by
  constructor
  · intro h
    obtain ⟨e, hfails⟩ := exists_fails_of_error h
    cases hfails with
    | unimplemented decoded missing => exact ⟨⟨_, decoded, missing⟩, rfl⟩
  · rintro ⟨⟨op, decoded, missing⟩, rfl⟩
    exact congrArg Prod.snd ((Fails.unimplemented decoded missing).step hrun)

theorem step_output_iff {reason : String} :
    c.step.2 = .error (.output reason) ↔
      ∃ op, Opcode.ofByte? c.machine.fetch.opcode = some op ∧ (op = .prn ∨ op = .pra) ∧
        (c.outlet.print (c.machine.printed op)).2 = some reason := by
  constructor
  · intro h
    obtain ⟨e, hfails⟩ := exists_fails_of_error h
    cases hfails with
    | refused decoded _ print =>
      have hrefused := congrArg Prod.snd print
      exact ⟨_, decoded, prints_of_refused hrefused, hrefused⟩
  · rintro ⟨op, decoded, hprints, hrefused⟩
    have himplemented : op.isImplemented = true := by rcases hprints with rfl | rfl <;> rfl
    have hfails := Fails.refused decoded himplemented (Prod.ext rfl hrefused)
    exact congrArg Prod.snd (hfails.step hrun)

theorem step_ok_iff :
    c.step.2 = .ok () ↔
      ∃ op, Opcode.ofByte? c.machine.fetch.opcode = some op ∧ op.isImplemented = true ∧
        (op = .prn ∨ op = .pra → (c.outlet.print (c.machine.printed op)).2 = none) := by
  constructor
  · intro h
    obtain ⟨op, hretires⟩ := (step_eq_ok_iff hrun).1 (Prod.ext rfl h)
    exact ⟨op, hretires.decoded, hretires.implemented, fun _ ↦ congrArg Prod.snd hretires.print⟩
  · rintro ⟨op, hop, himplemented, haccepted⟩
    rcases exists_retires_or_fails hrun with ⟨op', c', hretires⟩ | ⟨fault, e, hfails⟩
    · exact congrArg Prod.snd hretires.step
    · exfalso
      cases hfails with
      | unknown decoded => cases decoded.symm.trans hop
      | unimplemented decoded missing =>
        cases decoded.symm.trans hop
        cases missing.symm.trans himplemented
      | refused decoded _ print =>
        cases decoded.symm.trans hop
        have hrefused := congrArg Prod.snd print
        cases hrefused.symm.trans (haccepted (prints_of_refused hrefused))

end

theorem execute_unimplementedOpcode_iff (c : Computer δ) (op : Opcode) (i : Instruction)
    (opcode : UInt8) :
    (c.execute op i).2 = .error (.unimplementedOpcode opcode) ↔
      op.isImplemented = false ∧ opcode = i.opcode := by
  rcases c.execute_cases op i with ⟨himplemented, hexecute⟩ |
    ⟨outlet, reason, hprints, -, hexecute⟩ | ⟨outlet, m, effect, himplemented, -, hexecute⟩
  · simp [hexecute, himplemented, eq_comm]
  · have himplemented : op.isImplemented = true := by rcases hprints with rfl | rfl <;> rfl
    simp [hexecute, himplemented]
  · simp [hexecute, himplemented]

/-- A step of a running computer fails for three reasons only: the byte at the program counter is no
operation, or one that is not implemented, or the device refuses what a print instruction prints.
Executing an operation fails as not implemented if and only if it is not, on every window. When a
step or a run ends with a fault of the first two kinds, the machine stands at the instruction that
the fault names, and its dump shows it. -/
theorem step_fails_iff (c : Computer δ) :
    (c.machine.halted = false →
      let byte := c.machine.memory.read c.machine.counter
      (∀ address opcode, c.step.2 = .error (.unknownOpcode address opcode) ↔
        Opcode.ofByte? byte = none ∧ address = c.machine.counter ∧ opcode = byte) ∧
      (∀ opcode, c.step.2 = .error (.unimplementedOpcode opcode) ↔
        (∃ op, Opcode.ofByte? byte = some op ∧ op.isImplemented = false) ∧ opcode = byte) ∧
      (∀ reason, c.step.2 = .error (.output reason) ↔
        ∃ op, Opcode.ofByte? byte = some op ∧ (op = .prn ∨ op = .pra) ∧
          (c.outlet.print (c.machine.printed op)).2 = some reason) ∧
      (c.step.2 = .ok () ↔
        ∃ op, Opcode.ofByte? byte = some op ∧ op.isImplemented = true ∧
          (op = .prn ∨ op = .pra → (c.outlet.print (c.machine.printed op)).2 = none))) ∧
    (∀ op i opcode, (c.execute op i).2 = .error (.unimplementedOpcode opcode) ↔
      op.isImplemented = false ∧ opcode = i.opcode) ∧
    ∀ e fault, c.EndsWith e fault → e.machine.Explains fault := by
  refine ⟨?_, c.execute_unimplementedOpcode_iff, fun e fault ↦ EndsWith.explains⟩
  intro hrun byte
  refine ⟨?_, ?_, ?_, step_ok_iff hrun⟩
  · exact fun address opcode ↦ step_unknownOpcode_iff hrun
  · exact fun opcode ↦ step_unimplementedOpcode_iff hrun
  · exact fun reason ↦ step_output_iff hrun

/-- A number is loaded, and the operation behind it is one that is not implemented. -/
theorem step_fails_iff_of_mod :
    let c := (ofSettings {} ({} : Container)).mapMachine
      fun m ↦ m.place [0b10000010, 0, 200, 0b10100100, 0, 1]
    c.machine.halted = false ∧ c.step.2 = .ok () ∧
      ∃ e, c.run? 9 = some (e, .error (.unimplementedOpcode 0b10100100)) ∧
        e.machine.counter = 3 ∧ e.machine.memory.read 3 = 0b10100100 ∧
        e.machine.dump = "PC = 0x03  FL = 0b00000000  next: MOD R0, R1\n" ++
          e.machine.registers.dump := by
  intro c
  have hldi : Opcode.ofByte? (c.machine.memory.read c.machine.counter) = some .ldi := by
    decide +kernel
  obtain ⟨hsteps, -, hends⟩ := step_fails_iff c
  obtain ⟨-, -, -, hok⟩ := hsteps rfl
  have hrun : (c.run? 9).map (fun p ↦ (p.2, p.1.machine.counter, p.1.machine.flags,
      p.1.machine.memory.read 4, p.1.machine.memory.read 5)) =
      some (.error (.unimplementedOpcode 0b10100100), 3, .clear, 0, 1) := by
    decide +kernel
  obtain ⟨⟨e, result⟩, hend, hstate⟩ := Option.map_eq_some_iff.1 hrun
  simp only [Prod.mk.injEq] at hstate
  obtain ⟨rfl, hcounter, hflags, hfirst, hsecond⟩ := hstate
  obtain ⟨op, hop, -, hstands⟩ := hends e _ (.inr ⟨9, hend⟩)
  obtain rfl : op = .mod := Option.some.inj (hop.symm.trans (by decide))
  refine ⟨rfl, hok.2 ⟨.ldi, hldi, rfl, by simp⟩, e, hend, hcounter, ?_, ?_⟩
  · rw [← hcounter]
    exact hstands.byte
  · have hbehind : (3 : UInt8) + 1 = 4 ∧ (3 : UInt8) + 2 = 5 := by decide
    rw [hstands.dump, hcounter, hflags, hbehind.1, hbehind.2, hfirst, hsecond]
    exact congrArg (· ++ e.machine.registers.dump) (by decide +kernel)

end Computer

end OctetMachine
