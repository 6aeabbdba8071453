import Mathlib.Logic.Function.Iterate
import OctetMachine.Proofs.Step

/-!
# The course of an execution

`steps` is the sequence of computers that single steps go through. An execution follows it as long
as the computer proceeds, and ends at the first computer that does not: at a halt, at the end of the
budget or at a step that fails. Fuel beyond that point is never looked at.
-/

namespace OctetMachine.Computer

variable {δ : Type} [Device δ]

/-- The computer after a number of steps, whether they succeed or not. -/
def steps (c : Computer δ) (n : Nat) : Computer δ := (fun c ↦ c.step.1)^[n] c

@[simp] theorem steps_zero (c : Computer δ) : c.steps 0 = c := rfl

theorem steps_succ (c : Computer δ) (n : Nat) : c.steps (n + 1) = (c.steps n).step.1 :=
  Function.iterate_succ_apply' _ n c

theorem steps_step (c : Computer δ) (n : Nat) : c.step.1.steps n = c.steps (n + 1) :=
  (Function.iterate_succ_apply _ n c).symm

/-- An execution goes on: the next step is allowed, begins on a running computer and succeeds. -/
structure Proceeds (c : Computer δ) : Prop where
  running : c.machine.halted = false
  allowed : c.machine.spentBudget? = none
  succeeds : c.step.2 = .ok ()

/-- An execution that has come to `c` ends at `e`. -/
inductive Ends (c : Computer δ) : Computer δ → Except Fault Unit → Prop where
  | halted (halted : c.machine.halted = true) : Ends c c (.ok ())
  | spent {limit : UInt64} (running : c.machine.halted = false)
      (spent : c.machine.spentBudget? = some limit) :
      Ends c c (.error (.instructionLimit limit))
  | failed {e : Computer δ} {fault : Fault} (running : c.machine.halted = false)
      (allowed : c.machine.spentBudget? = none) (fails : c.Fails fault e) :
      Ends c e (.error fault)

theorem Ends.machine_eq {c e : Computer δ} {result : Except Fault Unit} (h : c.Ends e result) :
    e.machine = c.machine := by
  cases h with
  | halted => rfl
  | spent => rfl
  | failed _ _ fails => exact fails.machine_eq

theorem proceeds_or_ends (c : Computer δ) : c.Proceeds ∨ ∃ e result, c.Ends e result := by
  rcases c.step_cases with ⟨hhalted, -⟩ | ⟨op, c', hretires, hstep⟩ | ⟨fault, e, hrun, hfails, -⟩
  · exact .inr ⟨c, _, .halted hhalted⟩
  · cases hspent : c.machine.spentBudget? with
    | some limit => exact .inr ⟨c, _, .spent hretires.running hspent⟩
    | none => exact .inl ⟨hretires.running, hspent, congrArg Prod.snd hstep⟩
  · cases hspent : c.machine.spentBudget? with
    | some limit => exact .inr ⟨c, _, .spent hrun hspent⟩
    | none => exact .inr ⟨e, _, .failed hrun hspent hfails⟩

theorem Ends.not_proceeds {c e : Computer δ} {ending : Except Fault Unit} (h : c.Ends e ending) :
    ¬ c.Proceeds := by
  intro hgo
  cases h with
  | halted halted => cases hgo.running.symm.trans halted
  | spent _ spent => cases hgo.allowed.symm.trans spent
  | failed running _ fails =>
    have hsucceeds := hgo.succeeds
    rw [fails.step running] at hsucceeds
    cases hsucceeds

theorem advance_of_proceeds {c : Computer δ} (h : c.Proceeds) (fuel : Nat) :
    c.advance (fuel + 1) = c.step.1.advance fuel := by
  have hstep : c.step = (c.step.1, .ok ()) := Prod.ext rfl h.succeeds
  rw [advance, if_neg (by simp [h.running]), h.allowed, hstep]

theorem advance_of_ends {c e : Computer δ} {result : Except Fault Unit} (h : c.Ends e result)
    (fuel : Nat) : c.advance (fuel + 1) = (e, some result) := by
  cases h with
  | halted halted => rw [advance, if_pos halted]
  | spent running spent => rw [advance, if_neg (by simp [running]), spent]
  | failed running allowed fails =>
    rw [advance, if_neg (by simp [running]), allowed, fails.step running]

theorem advance_steps {c : Computer δ} {k : Nat} (h : ∀ i < k, (c.steps i).Proceeds)
    (fuel : Nat) : c.advance (k + fuel) = (c.steps k).advance fuel := by
  induction k generalizing c with
  | zero => rw [Nat.zero_add, steps_zero]
  | succ k ih =>
    have hfirst : c.Proceeds := h 0 k.succ_pos
    have hrest : ∀ i < k, (c.step.1.steps i).Proceeds := by
      intro i hi
      rw [steps_step]
      exact h (i + 1) (Nat.succ_lt_succ hi)
    rw [Nat.succ_add_eq_add_succ, Nat.add_succ, advance_of_proceeds hfirst, ih hrest, steps_step]

/-- What an execution comes to, for any amount of fuel. -/
theorem advance_eq {c e : Computer δ} {k : Nat} {result : Except Fault Unit}
    (h : ∀ i < k, (c.steps i).Proceeds) (hend : (c.steps k).Ends e result) (fuel : Nat) :
    c.advance fuel = if fuel ≤ k then (c.steps fuel, none) else (e, some result) := by
  split
  next hle =>
    rw [← Nat.add_zero fuel, advance_steps fun i hi ↦ h i (Nat.lt_of_lt_of_le hi hle), advance,
      Nat.add_zero]
  next hlt =>
    obtain ⟨rest, rfl⟩ := Nat.exists_eq_add_of_lt (Nat.lt_of_not_le hlt)
    rw [Nat.add_assoc, advance_steps h, advance_of_ends hend]

/-- An execution that has come to an end did so at some point of its course. -/
theorem exists_ends_of_advance {c e : Computer δ} {fuel : Nat} {result : Except Fault Unit}
    (h : c.advance fuel = (e, some result)) :
    ∃ k < fuel, (∀ i < k, (c.steps i).Proceeds) ∧ (c.steps k).Ends e result := by
  induction fuel generalizing c with
  | zero => cases h
  | succ fuel ih =>
    rcases c.proceeds_or_ends with hgo | ⟨e', result', hend⟩
    · rw [advance_of_proceeds hgo] at h
      obtain ⟨k, hk, hcourse, hend⟩ := ih h
      refine ⟨k + 1, Nat.succ_lt_succ hk, ?_, steps_step c k ▸ hend⟩
      rintro (_ | i) hi
      · exact hgo
      · exact steps_step c i ▸ hcourse i (Nat.lt_of_succ_lt_succ hi)
    · cases (advance_of_ends hend fuel).symm.trans h
      exact ⟨0, fuel.succ_pos, fun i hi ↦ absurd hi i.not_lt_zero, hend⟩

/-! ## Runs -/

@[simp] theorem machine_finish (c : Computer δ) (result : Except Fault Unit) :
    (c.finish result).1.machine = c.machine := rfl

@[simp] theorem outlet_finish (c : Computer δ) (result : Except Fault Unit) :
    (c.finish result).1.outlet = c.outlet.flush.1 := rfl

theorem finish_error (c : Computer δ) (fault : Fault) :
    (c.finish (.error fault)).2 = .error fault := rfl

theorem finish_ok (c : Computer δ) :
    (c.finish (.ok ())).2 =
      match c.outlet.flush.2 with
      | none => .ok ()
      | some reason => .error (.output reason) := by
  simp only [finish]
  cases c.outlet.flush.2 <;> rfl

/-- A flush can only turn a success into a fault of the device. -/
theorem eq_error_of_finish {c : Computer δ} {result : Except Fault Unit} {fault : Fault}
    (h : (c.finish result).2 = .error fault) (hfault : ∀ reason, fault ≠ .output reason) :
    result = .error fault := by
  cases result with
  | error fault' => exact h
  | ok =>
    rw [finish_ok] at h
    cases hflush : c.outlet.flush.2 with
    | none => simp [hflush] at h
    | some reason =>
      rw [hflush] at h
      cases h
      exact absurd rfl (hfault reason)

theorem run?_eq_map (c : Computer δ) (fuel : Nat) :
    c.run? fuel = (c.advance fuel).2.map (c.advance fuel).1.finish := by
  unfold run?
  split <;> simp_all

theorem run?_eq {c e : Computer δ} {k : Nat} {result : Except Fault Unit}
    (h : ∀ i < k, (c.steps i).Proceeds) (hend : (c.steps k).Ends e result) (fuel : Nat) :
    c.run? fuel = if fuel ≤ k then none else some (e.finish result) := by
  rw [run?, advance_eq h hend]
  by_cases hle : fuel ≤ k
  · rw [if_pos hle, if_pos hle]
  · rw [if_neg hle, if_neg hle]

theorem run?_of_ends {c e : Computer δ} {result : Except Fault Unit} (h : c.Ends e result)
    (fuel : Nat) : c.run? (fuel + 1) = some (e.finish result) := by
  rw [run?, advance_of_ends h]

theorem exists_ends_of_run? {c c' : Computer δ} {fuel : Nat} {result : Except Fault Unit}
    (h : c.run? fuel = some (c', result)) :
    ∃ k < fuel, ∃ e ending, (∀ i < k, (c.steps i).Proceeds) ∧ (c.steps k).Ends e ending ∧
      e.finish ending = (c', result) := by
  unfold run? at h
  split at h
  next => cases h
  next e ending hadvance =>
    obtain ⟨k, hk, hcourse, hend⟩ := exists_ends_of_advance hadvance
    exact ⟨k, hk, e, ending, hcourse, hend, Option.some.inj h⟩

theorem exists_finish_of_run? {c c' : Computer δ} {fuel : Nat} {result : Except Fault Unit}
    (h : c.run? fuel = some (c', result)) :
    ∃ ending, (c.advance fuel).1.finish ending = (c', result) := by
  rw [run?_eq_map] at h
  obtain ⟨ending, -, hfinish⟩ := Option.map_eq_some_iff.1 h
  exact ⟨ending, hfinish⟩

theorem machine_of_run? {c c' : Computer δ} {fuel : Nat} {result : Except Fault Unit}
    (h : c.run? fuel = some (c', result)) : c'.machine = (c.advance fuel).1.machine := by
  obtain ⟨ending, hfinish⟩ := exists_finish_of_run? h
  rw [← machine_finish (c.advance fuel).1 ending, hfinish]

theorem received_of_run? {c c' : Computer δ} {fuel : Nat} {result : Except Fault Unit}
    (h : c.run? fuel = some (c', result)) :
    c'.outlet.received = (c.advance fuel).1.outlet.received := by
  obtain ⟨ending, hfinish⟩ := exists_finish_of_run? h
  have houtlet := outlet_finish (c.advance fuel).1 ending
  rw [hfinish] at houtlet
  rw [houtlet, Outlet.received_flush]

end OctetMachine.Computer
