import OctetMachine.Computer.Cycle
import OctetMachine.Proofs.Successor

/-!
# What a step can do

A step of a running computer retires the operation at the program counter, or fails in one of three
ways. `Retires` and `Fails` list all that such a step finds and leaves; the two equivalences say
that nothing else happens. No step takes anything back: that one that fails leaves the machine as it
was is due to the operations, of which none writes to the machine before it can fail. A step of a
halted computer changes nothing.
-/

namespace OctetMachine.Computer

variable {δ : Type}

/-- The computer when the journal has seen all that it gets to see before an instruction. -/
def announce (c : Computer δ) : Computer δ :=
  match Opcode.ofByte? c.machine.fetch.opcode with
  | none => c.trace
  | some _ => c.trace.log (.instruction c.machine.counter c.machine.fetch)

@[simp] theorem machine_trace (c : Computer δ) : c.trace.machine = c.machine := rfl

@[simp] theorem machine_announce (c : Computer δ) : c.announce.machine = c.machine := by
  rw [announce]
  split <;> rfl

@[simp] theorem outlet_announce (c : Computer δ) : c.announce.outlet = c.outlet := by
  rw [announce]
  split <;> rfl

variable [Device δ]

/-- The announcement has no part in what the operation at the program counter prints. -/
theorem print_announce (c : Computer δ) (op : Opcode) :
    c.announce.outlet.print (c.announce.machine.text op c.machine.fetch) =
      c.outlet.print (c.machine.printed op) := by
  rw [machine_announce, outlet_announce, Machine.text_fetch]

/-! ## Operations -/

theorem print_of_accepted {c : Computer δ} {text : List Char} {outlet : Outlet δ}
    (h : c.outlet.print text = (outlet, none)) : c.print text = ({ c with outlet }, .ok .next) := by
  rw [print, h]

theorem print_of_refused {c : Computer δ} {text : List Char} {outlet : Outlet δ} {reason : String}
    (h : c.outlet.print text = (outlet, some reason)) :
    c.print text = ({ c with outlet }, .error (.output reason)) := by
  rw [print, h]

theorem eq_of_print_eq_ok {c c' : Computer δ} {text : List Char} {effect : Effect}
    (h : c.print text = (c', .ok effect)) : c'.machine = c.machine ∧ effect = .next := by
  rw [print] at h
  split at h
  · cases h
    exact ⟨rfl, rfl⟩
  · cases h

theorem execute_of_not_implemented {op : Opcode} (himp : op.isImplemented = false) (c : Computer δ)
    (i : Instruction) : c.execute op i = (c, .error (.unimplementedOpcode i.opcode)) := by
  cases op <;> simp only [Opcode.isImplemented, Bool.true_eq_false] at himp <;> rfl

/-- The operations that print do nothing else. -/
theorem execute_eq_print {op : Opcode} (hop : op = .prn ∨ op = .pra) (c : Computer δ)
    (i : Instruction) : c.execute op i = c.print (c.machine.text op i) := by
  rcases hop with rfl | rfl
  · rfl
  · rfl

/-- The operations that write to the machine cannot fail. -/
theorem execute_of_quiet {op : Opcode} (himp : op.isImplemented = true) (hprn : op ≠ .prn)
    (hpra : op ≠ .pra) (c : Computer δ) (i : Instruction) :
    ∃ m effect, c.execute op i = ({ c with machine := m }, .ok effect) := by
  cases op <;> simp only [Opcode.isImplemented, Bool.false_eq_true] at himp
  case prn => exact absurd rfl hprn
  case pra => exact absurd rfl hpra
  all_goals exact ⟨_, _, rfl⟩

/-- All outcomes of an operation on a window. Nothing is written to the machine before a failure. -/
theorem execute_cases (c : Computer δ) (op : Opcode) (i : Instruction) :
    (op.isImplemented = false ∧
        c.execute op i = (c, .error (.unimplementedOpcode i.opcode))) ∨
      (∃ outlet reason, (op = .prn ∨ op = .pra) ∧
        c.outlet.print (c.machine.text op i) = (outlet, some reason) ∧
        c.execute op i = ({ c with outlet }, .error (.output reason))) ∨
      ∃ outlet m effect, op.isImplemented = true ∧
        c.outlet.print (c.machine.text op i) = (outlet, none) ∧
        c.execute op i = ({ c with machine := m, outlet }, .ok effect) := by
  cases himp : op.isImplemented with
  | false => exact .inl ⟨rfl, execute_of_not_implemented himp c i⟩
  | true =>
    by_cases hprints : op = .prn ∨ op = .pra
    · rw [execute_eq_print hprints]
      cases hprint : c.outlet.print (c.machine.text op i) with
      | mk outlet failure =>
        cases failure with
        | none => exact .inr (.inr ⟨outlet, c.machine, .next, rfl, rfl, print_of_accepted hprint⟩)
        | some reason => exact .inr (.inl ⟨outlet, reason, hprints, rfl, print_of_refused hprint⟩)
    · rw [not_or] at hprints
      obtain ⟨m, effect, hexecute⟩ := execute_of_quiet himp hprints.1 hprints.2 c i
      refine .inr (.inr ⟨c.outlet, m, effect, rfl, ?_, hexecute⟩)
      rw [Machine.text_eq_nil _ hprints.1 hprints.2, Outlet.print_nil]

/-- On the window that it heads, an operation leaves what the cycle settles to the successor: the
format bits, the operation, its effect and the advance of the counter agree. -/
theorem settled_execute {c c' : Computer δ} {op : Opcode} {effect : Effect}
    (hop : Opcode.ofByte? c.machine.fetch.opcode = some op)
    (h : c.execute op c.machine.fetch = (c', .ok effect)) :
    c'.machine.settle op c.machine.fetch effect = c.machine.next op := by
  have hformat : c.machine.fetch.format = Format.ofByte op.toByte := by
    rw [Instruction.format, Opcode.ofByte?_eq_some_iff.1 hop]
  cases op
  case prn | pra =>
    obtain ⟨hmachine, rfl⟩ := eq_of_print_eq_ok h
    simp only [hmachine, Machine.settle, Machine.complete, Machine.advance, Machine.following,
      hformat]
    rfl
  all_goals cases h
  all_goals
    simp only [mapMachine, Machine.calculate, Machine.settle, Machine.complete, Machine.advance,
      Machine.following, hformat, Arithmetic.narrow_wide, Condition.next_equal,
      Condition.next_notEqual]
    rfl

/-- A step that retires an operation. -/
structure Retires (c : Computer δ) (op : Opcode) (c' : Computer δ) : Prop where
  running : c.machine.halted = false
  decoded : Opcode.ofByte? c.machine.fetch.opcode = some op
  implemented : op.isImplemented = true
  machine : c'.machine = c.machine.next op
  print : c.outlet.print (c.machine.printed op) = (c'.outlet, none)
  journal : c'.journal = c.announce.journal

/-- A step that fails. Nothing is left of it but the announcement and what the device took. -/
inductive Fails (c : Computer δ) : Fault → Computer δ → Prop where
  | unknown (decoded : Opcode.ofByte? c.machine.fetch.opcode = none) :
      Fails c (.unknownOpcode c.machine.counter c.machine.fetch.opcode) c.announce
  | unimplemented {op : Opcode} (decoded : Opcode.ofByte? c.machine.fetch.opcode = some op)
      (missing : op.isImplemented = false) :
      Fails c (.unimplementedOpcode c.machine.fetch.opcode) c.announce
  | refused {op : Opcode} {outlet : Outlet δ} {reason : String}
      (decoded : Opcode.ofByte? c.machine.fetch.opcode = some op)
      (implemented : op.isImplemented = true)
      (print : c.outlet.print (c.machine.printed op) = (outlet, some reason)) :
      Fails c (.output reason) { c.announce with outlet }

theorem Fails.machine_eq {c e : Computer δ} {fault : Fault} (h : c.Fails fault e) :
    e.machine = c.machine := by
  cases h <;> exact machine_announce c

theorem step_of_halted {c : Computer δ} (hhalted : c.machine.halted = true) :
    c.step = (c, .ok ()) := by
  rw [step, if_pos hhalted]

theorem step_of_running {c : Computer δ} (hrun : c.machine.halted = false) :
    c.step =
      match Opcode.ofByte? c.machine.fetch.opcode with
      | none =>
        (c.announce, .error (.unknownOpcode c.machine.counter c.machine.fetch.opcode))
      | some op =>
        match c.announce.execute op c.machine.fetch with
        | (c', .error fault) => (c', .error fault)
        | (c', .ok effect) =>
          (c'.mapMachine fun m ↦ m.settle op c.machine.fetch effect, .ok ()) := by
  simp only [step, hrun, announce, machine_trace, Bool.false_eq_true, if_false]
  cases Opcode.ofByte? c.machine.fetch.opcode with
  | none => rfl
  | some op => rfl

theorem Retires.step {c c' : Computer δ} {op : Opcode} (h : c.Retires op c') :
    c.step = (c', .ok ()) := by
  rw [step_of_running h.running, h.decoded]
  have hop : Opcode.ofByte? c.announce.machine.fetch.opcode = some op := by
    rw [machine_announce, h.decoded]
  have hprint := (c.print_announce op).trans h.print
  rcases c.announce.execute_cases op c.machine.fetch with
    ⟨hmissing, -⟩ | ⟨outlet, reason, -, hrefused, -⟩ | ⟨outlet, m, effect, -, haccepted, hexecute⟩
  · cases hmissing.symm.trans h.implemented
  · cases hrefused.symm.trans hprint
  · cases haccepted.symm.trans hprint
    have hsettled := settled_execute hop (by rwa [machine_announce])
    rw [machine_announce] at hsettled
    obtain ⟨machine, outlet, journal⟩ := c'
    simp only [hexecute, mapMachine, hsettled, ← h.machine, ← h.journal]

/-- A step that retires an operation appends all that it prints. -/
theorem Retires.received {c c' : Computer δ} {op : Opcode} (h : c.Retires op c') :
    c'.outlet.received.toList =
      c.outlet.received.toList ++ (c.machine.printed op).flatMap String.utf8EncodeChar := by
  have hwrite : c.outlet.write ((c.machine.printed op).flatMap String.utf8EncodeChar) =
      (c'.outlet, none) := h.print
  have hreceived := Outlet.received_write (congrArg Prod.snd hwrite)
  rwa [hwrite] at hreceived

theorem Fails.step {c c' : Computer δ} {fault : Fault} (h : c.Fails fault c')
    (hrun : c.machine.halted = false) : c.step = (c', .error fault) := by
  rw [step_of_running hrun]
  cases h with
  | unknown decoded => rw [decoded]
  | unimplemented decoded missing => simp only [decoded, execute_of_not_implemented missing]
  | @refused op outlet reason decoded implemented print =>
    have hprint := (c.print_announce op).trans print
    rcases c.announce.execute_cases op c.machine.fetch with ⟨hmissing, -⟩ |
      ⟨outlet', reason', -, hrefused, hexecute⟩ | ⟨outlet', m, effect, -, haccepted, -⟩
    · cases hmissing.symm.trans implemented
    · cases hrefused.symm.trans hprint
      simp only [decoded, hexecute]
    · cases haccepted.symm.trans hprint

/-- A running computer takes one of the two kinds of steps. -/
theorem exists_retires_or_fails {c : Computer δ} (hrun : c.machine.halted = false) :
    (∃ op c', c.Retires op c') ∨ ∃ fault c', c.Fails fault c' := by
  cases decoded : Opcode.ofByte? c.machine.fetch.opcode with
  | none => exact .inr ⟨_, _, .unknown decoded⟩
  | some op =>
    cases himp : op.isImplemented with
    | false => exact .inr ⟨_, _, .unimplemented decoded himp⟩
    | true =>
      cases hprint : c.outlet.print (c.machine.printed op) with
      | mk outlet failure =>
        cases failure with
        | none =>
          exact .inl ⟨op, { c.announce with machine := c.machine.next op, outlet },
            hrun, decoded, himp, rfl, hprint, rfl⟩
        | some reason => exact .inr ⟨_, _, .refused decoded himp hprint⟩

/-- An operation that prints nothing cannot be refused by the device. -/
theorem retires_of_printed_nil {c : Computer δ} {op : Opcode} (hrun : c.machine.halted = false)
    (hop : Opcode.ofByte? c.machine.fetch.opcode = some op) (himp : op.isImplemented = true)
    (hnil : c.machine.printed op = []) : c.Retires op c.step.1 := by
  have hretires : c.Retires op { c.announce with machine := c.machine.next op } :=
    ⟨hrun, hop, himp, rfl, by rw [hnil, Outlet.print_nil, outlet_announce], rfl⟩
  rw [hretires.step]
  exact hretires

theorem step_eq_ok_iff {c c' : Computer δ} (hrun : c.machine.halted = false) :
    c.step = (c', .ok ()) ↔ ∃ op, c.Retires op c' := by
  constructor
  · intro hstep
    rcases exists_retires_or_fails hrun with ⟨op, c'', h⟩ | ⟨fault, c'', h⟩
    · have heq : c'' = c' := congrArg Prod.fst (h.step.symm.trans hstep)
      exact ⟨op, heq ▸ h⟩
    · cases (h.step hrun).symm.trans hstep
  · rintro ⟨op, h⟩
    exact h.step

theorem step_eq_error_iff {c c' : Computer δ} {fault : Fault} :
    c.step = (c', .error fault) ↔ c.machine.halted = false ∧ c.Fails fault c' := by
  constructor
  · intro hstep
    have hrun : c.machine.halted = false := by
      rw [← Bool.not_eq_true]
      intro hhalted
      cases (step_of_halted hhalted).symm.trans hstep
    rcases exists_retires_or_fails hrun with ⟨op, c'', h⟩ | ⟨fault', c'', h⟩
    · cases h.step.symm.trans hstep
    · cases (h.step hrun).symm.trans hstep
      exact ⟨hrun, h⟩
  · rintro ⟨hrun, h⟩
    exact h.step hrun

/-- All outcomes of a step. -/
theorem step_cases (c : Computer δ) :
    c.machine.halted = true ∧ c.step = (c, .ok ()) ∨
      (∃ op c', c.Retires op c' ∧ c.step = (c', .ok ())) ∨
      ∃ fault e, c.machine.halted = false ∧ c.Fails fault e ∧ c.step = (e, .error fault) := by
  cases hrun : c.machine.halted with
  | true => exact .inl ⟨rfl, step_of_halted hrun⟩
  | false =>
    rcases exists_retires_or_fails hrun with ⟨op, c', h⟩ | ⟨fault, e, h⟩
    · exact .inr (.inl ⟨op, c', h, h.step⟩)
    · exact .inr (.inr ⟨fault, e, rfl, h, h.step hrun⟩)

/-- All that a step does to the output is to print one text, wholly or in part. -/
theorem exists_outlet_step (c : Computer δ) :
    ∃ text, c.step.1.outlet = (c.outlet.print text).1 := by
  rcases c.step_cases with ⟨-, hstep⟩ | ⟨op, c', hretires, hstep⟩ | ⟨fault, e, -, hfails, hstep⟩
  · exact ⟨[], by rw [hstep, Outlet.print_nil]⟩
  · exact ⟨c.machine.printed op, by rw [hstep, hretires.print]⟩
  · rw [hstep]
    cases hfails with
    | unknown => exact ⟨[], by rw [outlet_announce, Outlet.print_nil]⟩
    | unimplemented => exact ⟨[], by rw [outlet_announce, Outlet.print_nil]⟩
    | refused decoded implemented print => exact ⟨_, (congrArg Prod.fst print).symm⟩

/-- A step never alters what was received before. -/
theorem received_prefix_step (c : Computer δ) :
    c.outlet.received.toList <+: c.step.1.outlet.received.toList := by
  obtain ⟨text, htext⟩ := c.exists_outlet_step
  obtain ⟨n, hn⟩ := Outlet.exists_received_write c.outlet (text.flatMap String.utf8EncodeChar)
  rw [htext]
  exact ⟨_, hn.symm⟩

theorem size_received_step (c : Computer δ) :
    c.outlet.received.size ≤ c.step.1.outlet.received.size := by
  simpa using c.received_prefix_step.length_le

end OctetMachine.Computer
