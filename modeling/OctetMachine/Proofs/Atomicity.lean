import OctetMachine.Proofs.Course

/-!
# Failed steps

A step that fails leaves the machine as it was, and all that a device can show of it is a leading
part of what one print instruction offers. The fault is read off the machine alone unless the device
caused it, so an execution that ended with such a fault, or at the end of its budget, ends there
again.
-/

namespace OctetMachine.Computer

variable {δ : Type} [Device δ]

/-! ## One step -/

/-- Only the device can fail after bytes were offered to it. -/
theorem Fails.outlet_eq {c e : Computer δ} {fault : Fault} (h : c.Fails fault e)
    (hfault : ∀ reason, fault ≠ .output reason) : e.outlet = c.outlet := by
  cases h with
  | unknown => exact outlet_announce c
  | unimplemented => exact outlet_announce c
  | refused => exact absurd rfl (hfault _)

/-- A device can refuse only what an operation prints. -/
theorem prints_of_refused {c : Computer δ} {op : Opcode} {reason : String}
    (h : (c.outlet.print (c.machine.printed op)).2 = some reason) : op = .prn ∨ op = .pra := by
  by_contra hother
  rw [not_or] at hother
  rw [← Machine.text_fetch, Machine.text_eq_nil _ hother.1 hother.2, Outlet.print_nil] at h
  cases h

theorem Fails.exists_received {c e : Computer δ} {reason : String}
    (h : c.Fails (.output reason) e) :
    ∃ op n, Opcode.ofByte? c.machine.fetch.opcode = some op ∧ (op = .prn ∨ op = .pra) ∧
      e.outlet.received.toList = c.outlet.received.toList ++
        ((c.machine.printed op).flatMap String.utf8EncodeChar).take n := by
  cases h with
  | @refused op outlet _ decoded implemented print =>
    have hprints : op = .prn ∨ op = .pra := prints_of_refused (congrArg Prod.snd print)
    obtain ⟨n, hn⟩ := Outlet.exists_received_write c.outlet
      ((c.machine.printed op).flatMap String.utf8EncodeChar)
    have houtlet : (c.outlet.write
        ((c.machine.printed op).flatMap String.utf8EncodeChar)).1 = outlet :=
      congrArg Prod.fst print
    exact ⟨op, n, decoded, hprints, houtlet ▸ hn⟩

/-- The state of the output after a fault, by the cause of the fault. -/
theorem Fails.outlet_cases {c e : Computer δ} {fault : Fault} (h : c.Fails fault e) :
    (fault = .unknownOpcode c.machine.counter c.machine.fetch.opcode ∨
        fault = .unimplementedOpcode c.machine.fetch.opcode) ∧ e.outlet = c.outlet ∨
      ∃ reason op n, fault = .output reason ∧
        Opcode.ofByte? c.machine.fetch.opcode = some op ∧ (op = .prn ∨ op = .pra) ∧
        e.outlet.received.toList = c.outlet.received.toList ++
          ((c.machine.printed op).flatMap String.utf8EncodeChar).take n := by
  have hkeeps := h.outlet_eq
  cases h with
  | unknown => exact .inl ⟨.inl rfl, hkeeps (by simp)⟩
  | unimplemented => exact .inl ⟨.inr rfl, hkeeps (by simp)⟩
  | refused decoded implemented print =>
    obtain ⟨op, n, hop, hprints, hreceived⟩ :=
      Fails.exists_received (.refused decoded implemented print)
    exact .inr ⟨_, op, n, rfl, hop, hprints, hreceived⟩

/-! ## Runs -/

/-- A fault that the device has no part in is found again in every computer with this machine. -/
theorem Fails.again {ε : Type} [Device ε] {c e : Computer δ} {d : Computer ε} {fault : Fault}
    (h : c.Fails fault e) (hfault : ∀ reason, fault ≠ .output reason)
    (hd : d.machine = c.machine) : d.Fails fault d.announce := by
  cases h with
  | unknown decoded =>
    rw [← hd] at decoded ⊢
    exact .unknown decoded
  | unimplemented decoded missing =>
    rw [← hd] at decoded ⊢
    exact .unimplemented decoded missing
  | refused => exact absurd rfl (hfault _)

theorem Ends.again {ε : Type} [Device ε] {c e : Computer δ} {d : Computer ε} {fault : Fault}
    (h : c.Ends e (.error fault)) (hfault : ∀ reason, fault ≠ .output reason)
    (hd : d.machine = e.machine) :
    ∃ d', d.Ends d' (.error fault) ∧ d'.machine = d.machine ∧ d'.outlet = d.outlet := by
  cases h with
  | spent running spent => exact ⟨d, .spent (hd ▸ running) (hd ▸ spent), rfl, rfl⟩
  | failed running allowed fails =>
    rw [fails.machine_eq] at hd
    exact ⟨d.announce, .failed (hd ▸ running) (hd ▸ allowed) (fails.again hfault hd),
      machine_announce d, outlet_announce d⟩

/-- A run whose fault the device has no part in left a machine on which every run, with fuel for its
first look, fails in the same way and changes nothing. -/
theorem run?_again {c c' d : Computer δ} {fuel : Nat} {fault : Fault}
    (h : c.run? fuel = some (c', .error fault)) (hfault : ∀ reason, fault ≠ .output reason)
    (hd : d.machine = c'.machine) (n : Nat) :
    ∃ d', d.run? (n + 1) = some (d', .error fault) ∧ d'.machine = d.machine ∧
      d'.outlet = d.outlet.flush.1 := by
  obtain ⟨k, -, e, ending, -, hend, hfinish⟩ := exists_ends_of_run? h
  have hfailed : ending = .error fault :=
    eq_error_of_finish (congrArg Prod.snd hfinish) hfault
  have hmachine : c'.machine = e.machine :=
    (congrArg (fun p ↦ p.1.machine) hfinish).symm
  rw [hfailed] at hend
  obtain ⟨d', hend', hsame, hout⟩ := hend.again hfault (hd.trans hmachine)
  refine ⟨(d'.finish (.error fault)).1, ?_, ?_, ?_⟩
  · rw [run?_of_ends hend']
    rfl
  · rw [machine_finish, hsame]
  · rw [outlet_finish, hout]

/-- A failed step changes nothing but the output, and that only by a leading part of one print; a
failed run that the device has no part in fails again and changes nothing at all. -/
theorem failure_keeps_machine (c : Computer δ) :
    (∀ e fault, c.step = (e, .error fault) →
      e.machine = c.machine ∧
        ((fault = .unknownOpcode c.machine.counter c.machine.fetch.opcode ∨
            fault = .unimplementedOpcode c.machine.fetch.opcode) ∧ e.outlet = c.outlet ∨
          ∃ reason op n, fault = .output reason ∧
            Opcode.ofByte? c.machine.fetch.opcode = some op ∧ (op = .prn ∨ op = .pra) ∧
            e.outlet.received.toList = c.outlet.received.toList ++
              ((c.machine.printed op).flatMap String.utf8EncodeChar).take n)) ∧
    ∀ fuel c' fault, c.run? fuel = some (c', .error fault) →
      (∀ reason, fault ≠ .output reason) →
      ∀ d : Computer δ, d.machine = c'.machine → ∀ n,
        ∃ d', d.run? (n + 1) = some (d', .error fault) ∧ d'.machine = d.machine ∧
          d'.outlet = d.outlet.flush.1 ∧ d'.outlet.received = d.outlet.received := by
  constructor
  · intro e fault hstep
    have hfails : c.Fails fault e := (step_eq_error_iff.1 hstep).2
    exact ⟨hfails.machine_eq, hfails.outlet_cases⟩
  · intro fuel c' fault hrun hfault d hd n
    obtain ⟨d', hrun', hmachine, hout⟩ := run?_again hrun hfault hd n
    exact ⟨d', hrun', hmachine, hout, hout ▸ rfl⟩

/-- A character of two bytes cut after the first, and a run that fails twice at a byte outside the
set. -/
theorem failure_keeps_machine_of_cut_character :
    (let c := (ofSettings { stackPointer := some 200 } ({ room := some 1 } : Container)).mapMachine
        fun m ↦ m.place [0b01001000, 7]
      ∃ e, c.step = (e, .error (.output "sink full")) ∧ e.outlet.received = #[195] ∧
        e.machine = c.machine) ∧
    (let c := (ofSettings {} ({} : Container)).mapMachine fun m ↦ m.place [0b00000010]
      ∃ c', c.run? 1 = some (c', .error (.unknownOpcode 0 0b00000010)) ∧
        ∃ d', c'.run? 1 = some (d', .error (.unknownOpcode 0 0b00000010)) ∧
          d'.machine = c'.machine) := by
  constructor
  · intro c
    have hprinted : (c.machine.printed .pra).flatMap String.utf8EncodeChar = [195, 136] := by
      decide +kernel
    have hprint : c.outlet.print (c.machine.printed .pra) =
        ({ device := { room := some 0 }, received := #[195] }, some "sink full") := by
      rw [Outlet.print, hprinted]
      simp [c, Outlet.write, Device.offer, Container.offer, ofSettings, mapMachine]
    have hfails : c.Fails (.output "sink full") _ := .refused (by decide +kernel) rfl hprint
    have hstep := hfails.step rfl
    exact ⟨_, hstep, rfl, ((failure_keeps_machine c).1 _ _ hstep).1⟩
  · intro c
    have hrunning : c.machine.halted = false := rfl
    have hallowed : c.machine.spentBudget? = none := rfl
    have hopcode : c.machine.fetch.opcode = 0b00000010 := by decide +kernel
    have hcounter : c.machine.counter = 0 := rfl
    have hdecoded : Opcode.ofByte? c.machine.fetch.opcode = none := by decide +kernel
    clear_value c
    have hfails : c.Fails (.unknownOpcode 0 0b00000010) c.announce := by
      rw [← hopcode, ← hcounter]
      exact .unknown hdecoded
    have hrun := run?_of_ends (.failed hrunning hallowed hfails) 0
    obtain ⟨d', hagain, hmachine, -⟩ :=
      (failure_keeps_machine c).2 1 _ _ hrun (by simp) _ rfl 0
    exact ⟨_, hrun, d', hagain, hmachine⟩

end OctetMachine.Computer
