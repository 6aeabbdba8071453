import OctetMachine.Proofs.Course

/-!
# Silent computers

Traces and log events go to the journal, which nothing reads. So a computer may be silenced, by
turning its tracing off and taking its journal away, before or after a step or a run: the results
and what else it comes to are the same.
-/

namespace OctetMachine.Computer

variable {δ : Type}

/-- The computer without tracing, and with a journal that takes no events. -/
def silent (c : Computer δ) : Computer δ where
  machine := { c.machine with tracing := false }
  outlet := c.outlet

@[simp] theorem silent_log (c : Computer δ) (e : Event) : (c.log e).silent = c.silent := rfl

theorem announce_silent (c : Computer δ) : c.silent.announce = c.silent := by
  have htracing : c.silent.machine.tracing = false := rfl
  cases hop : Opcode.ofByte? c.silent.machine.fetch.opcode with
  | none => simp only [announce, trace, hop, htracing]; rfl
  | some op => simp only [announce, trace, hop, htracing]; rfl

@[simp] theorem silent_announce (c : Computer δ) : c.announce.silent = c.silent := by
  simp only [silent, machine_announce, outlet_announce]

variable [Device δ]

theorem Retires.silent {c c' : Computer δ} {op : Opcode} (h : c.Retires op c') :
    c.silent.Retires op c'.silent := by
  refine ⟨h.running, h.decoded, h.implemented, ?_, h.print, ?_⟩
  · change { c'.machine with tracing := false } = _
    rw [h.machine]
    rfl
  · rw [announce_silent]
    rfl

theorem Fails.silent {c e : Computer δ} {fault : Fault} (h : c.Fails fault e) :
    c.silent.Fails fault e.silent := by
  cases h with
  | unknown decoded =>
    rw [silent_announce]
    have hunknown : c.silent.Fails _ c.silent.announce := .unknown decoded
    rwa [announce_silent] at hunknown
  | unimplemented decoded missing =>
    rw [silent_announce]
    have hmissing : c.silent.Fails _ c.silent.announce := .unimplemented decoded missing
    rwa [announce_silent] at hmissing
  | @refused op outlet reason decoded implemented print =>
    have hrefused : c.silent.Fails (.output reason) { c.silent.announce with outlet } :=
      .refused decoded implemented print
    rw [announce_silent] at hrefused
    have houtlet : Computer.silent { c.announce with outlet } = { c.silent with outlet } := by
      simp only [Computer.silent, machine_announce]
    rwa [houtlet]

theorem step_silent (c : Computer δ) : c.silent.step = (c.step.1.silent, c.step.2) := by
  rcases c.step_cases with
    ⟨hhalted, hstep⟩ | ⟨op, c', hretires, hstep⟩ | ⟨fault, e, hrun, hfails, hstep⟩
  · rw [hstep]
    exact step_of_halted hhalted
  · rw [hstep, hretires.silent.step]
  · rw [hstep, hfails.silent.step hrun]

theorem advance_silent (c : Computer δ) (fuel : Nat) :
    c.silent.advance fuel = ((c.advance fuel).1.silent, (c.advance fuel).2) := by
  induction fuel generalizing c with
  | zero => rfl
  | succ fuel ih =>
    have hhalted : c.silent.machine.halted = c.machine.halted := rfl
    have hspent : c.silent.machine.spentBudget? = c.machine.spentBudget? := rfl
    simp only [advance, hhalted, hspent, step_silent]
    split
    · rfl
    · split
      · rfl
      · generalize c.step = next
        obtain ⟨d, result⟩ := next
        cases result with
        | ok => exact ih d
        | error => rfl

/-- A run of a silenced computer is the run of the computer, silenced. -/
theorem run?_silent (c : Computer δ) (fuel : Nat) :
    c.silent.run? fuel = (c.run? fuel).map fun (c, result) ↦ (c.silent, result) := by
  rw [run?_eq_map, run?_eq_map, advance_silent, Option.map_map]
  rfl

end OctetMachine.Computer
