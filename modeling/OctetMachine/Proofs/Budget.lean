import Mathlib.Order.Nat
import OctetMachine.Proofs.Flushing

/-!
# Runs with a budget

A budget limits the instructions retired in all, those before the run included. Every step that an
execution takes retires one, so it comes to a step where it stops: where the machine is halted, the
count has reached the limit, or the step fails. The first such step is where it ends. A halt is
looked for before the budget, and the budget before the next instruction.
-/

namespace OctetMachine

namespace Computer

variable {δ : Type}

/-- The number of instructions that a computer has retired since it was made. -/
def retired (c : Computer δ) : Nat := c.machine.statistics.retired.toNat

theorem spentBudget?_eq {c : Computer δ} {limit : UInt64}
    (hbudget : c.machine.budget = some limit) :
    c.machine.spentBudget? = if limit.toNat ≤ c.retired then some limit else none := by
  rw [Machine.spentBudget?, hbudget]
  rfl

variable [Device δ]

/-- An execution with this limit does not go beyond step `i`. -/
def StopsAt (c : Computer δ) (limit : UInt64) (i : Nat) : Prop :=
  (c.steps i).machine.halted = true ∨
    limit.toNat ≤ c.retired + i ∨
    ∃ fault, (c.steps i).step.2 = .error fault

/-- An execution with this limit ends at step `k` on the computer `e`. -/
structure EndsWithin (c : Computer δ) (limit : UInt64) (k : Nat) (e : Computer δ)
    (ending : Except Fault Unit) : Prop where
  machine_eq : e.machine = (c.steps k).machine
  retired_eq : e.retired = c.retired + k
  ok_iff : ending = .ok () ↔ (c.steps k).machine.halted = true
  limit_iff : (c.steps k).machine.halted = false →
    (ending = .error (.instructionLimit limit) ↔ limit.toNat ≤ c.retired + k)
  before_step : (c.steps k).machine.halted = true ∨ limit.toNat ≤ c.retired + k → e = c.steps k
  step_eq : (c.steps k).machine.halted = false → c.retired + k < limit.toNat →
    (c.steps k).step = (e, ending)

/-! ## The account along an execution -/

theorem Proceeds.exists_retires {c : Computer δ} (h : c.Proceeds) :
    ∃ op, c.Retires op c.step.1 :=
  (step_eq_ok_iff h.running).1 (Prod.ext rfl h.succeeds)

theorem Proceeds.budget_step {c : Computer δ} (h : c.Proceeds) :
    c.step.1.machine.budget = c.machine.budget := by
  obtain ⟨op, hretires⟩ := h.exists_retires
  rw [hretires.machine, Machine.budget_next]

theorem Proceeds.retired_lt {c : Computer δ} (h : c.Proceeds) {limit : UInt64}
    (hbudget : c.machine.budget = some limit) : c.retired < limit.toNat := by
  have hallowed := h.allowed
  rw [spentBudget?_eq hbudget] at hallowed
  by_contra hspent
  rw [if_pos (Nat.le_of_not_lt hspent)] at hallowed
  cases hallowed

/-- The count is below a limit of 64 bits, so one more does not wrap. -/
theorem Proceeds.retired_step {c : Computer δ} (h : c.Proceeds) {limit : UInt64}
    (hbudget : c.machine.budget = some limit) : c.step.1.retired = c.retired + 1 := by
  obtain ⟨op, hretires⟩ := h.exists_retires
  have hlt : c.machine.statistics.retired.toNat < limit.toNat := h.retired_lt hbudget
  have hlimit : limit.toNat < 18446744073709551616 := limit.toNat_lt
  rw [retired, hretires.machine, Machine.retired_next, UInt64.toNat_add, UInt64.toNat_one, retired]
  omega

theorem budget_steps {c : Computer δ} {k : Nat} (h : ∀ i < k, (c.steps i).Proceeds) :
    (c.steps k).machine.budget = c.machine.budget := by
  induction k with
  | zero => rfl
  | succ k ih =>
    rw [steps_succ, (h k k.lt_succ_self).budget_step]
    exact ih fun i hi ↦ h i (Nat.lt_succ_of_lt hi)

theorem retired_steps {c : Computer δ} {k : Nat} (h : ∀ i < k, (c.steps i).Proceeds)
    {limit : UInt64} (hbudget : c.machine.budget = some limit) :
    (c.steps k).retired = c.retired + k := by
  induction k with
  | zero => rfl
  | succ k ih =>
    have hbefore : ∀ i < k, (c.steps i).Proceeds := fun i hi ↦ h i (Nat.lt_succ_of_lt hi)
    have hlast : (c.steps k).machine.budget = some limit := (budget_steps hbefore).trans hbudget
    calc
      (c.steps (k + 1)).retired = (c.steps k).step.1.retired := by rw [steps_succ]
      _ = (c.steps k).retired + 1 := (h k k.lt_succ_self).retired_step hlast
      _ = c.retired + (k + 1) := by rw [ih hbefore, Nat.add_assoc]

theorem spentBudget?_steps {c : Computer δ} {k : Nat} (h : ∀ i < k, (c.steps i).Proceeds)
    {limit : UInt64} (hbudget : c.machine.budget = some limit) :
    (c.steps k).machine.spentBudget? =
      if limit.toNat ≤ c.retired + k then some limit else none := by
  rw [spentBudget?_eq ((budget_steps h).trans hbudget), retired_steps h hbudget]

/-! ## The end of an execution -/

theorem exists_isLeast_stopsAt (c : Computer δ) (limit : UInt64) :
    ∃ k, IsLeast {i | c.StopsAt limit i} k := by
  classical
  have hstop : ∃ i, c.StopsAt limit i := ⟨limit.toNat, .inr (.inl (Nat.le_add_left _ _))⟩
  exact ⟨_, Nat.isLeast_find hstop⟩

/-- Steps that succeed, on running computers and within the budget, are the course of an
execution. -/
theorem proceeds_of_succeeds {c : Computer δ} {k : Nat}
    (hrunning : ∀ i < k, (c.steps i).machine.halted = false)
    (hallowed : ∀ limit, c.machine.budget = some limit → ∀ i < k, c.retired + i < limit.toNat)
    (hsucceeds : ∀ i < k, (c.steps i).step.2 = .ok ()) : ∀ i < k, (c.steps i).Proceeds := by
  intro i
  induction i using Nat.strongRecOn with
  | ind i ih =>
    intro hi
    have hbefore : ∀ j < i, (c.steps j).Proceeds := fun j hj ↦ ih j hj (Nat.lt_trans hj hi)
    refine ⟨hrunning i hi, ?_, hsucceeds i hi⟩
    cases hbudget : c.machine.budget with
    | none => rw [Machine.spentBudget?, budget_steps hbefore, hbudget]
    | some limit =>
      rw [spentBudget?_steps hbefore hbudget, if_neg]
      exact Nat.not_le_of_lt (hallowed limit hbudget i hi)

/-- Before the first step where it stops, an execution proceeds. -/
theorem proceeds_of_not_stopsAt {c : Computer δ} {limit : UInt64}
    (hbudget : c.machine.budget = some limit) {k : Nat} (h : ∀ i < k, ¬ c.StopsAt limit i) :
    ∀ i < k, (c.steps i).Proceeds := by
  apply proceeds_of_succeeds
  · intro i hi
    rw [← Bool.not_eq_true]
    exact fun hhalted ↦ h i hi (.inl hhalted)
  · intro limit' hlimit i hi
    cases hlimit.symm.trans hbudget
    exact Nat.lt_of_not_le fun hspent ↦ h i hi (.inr (.inl hspent))
  · intro i hi
    cases hresult : (c.steps i).step.2 with
    | ok => rfl
    | error fault => exact absurd (.inr (.inr ⟨fault, hresult⟩)) (h i hi)

theorem StopsAt.exists_ends {c : Computer δ} {limit : UInt64} {k : Nat} (h : c.StopsAt limit k)
    (hbudget : c.machine.budget = some limit) (hcourse : ∀ i < k, (c.steps i).Proceeds) :
    ∃ e ending, (c.steps k).Ends e ending := by
  have hspent := spentBudget?_steps hcourse hbudget
  apply (c.steps k).proceeds_or_ends.resolve_left
  intro hgo
  rcases h with hhalted | hle | ⟨fault, hfault⟩
  · cases hgo.running.symm.trans hhalted
  · rw [if_pos hle] at hspent
    cases hgo.allowed.symm.trans hspent
  · cases hgo.succeeds.symm.trans hfault

/-- An execution with a budget comes to an end. -/
theorem exists_ends_of_budget {c : Computer δ} {limit : UInt64}
    (hbudget : c.machine.budget = some limit) :
    ∃ k e ending, k ≤ limit.toNat ∧ (∀ i < k, (c.steps i).Proceeds) ∧
      (c.steps k).Ends e ending := by
  obtain ⟨k, hleast⟩ := c.exists_isLeast_stopsAt limit
  have hcourse : ∀ i < k, (c.steps i).Proceeds := by
    apply proceeds_of_not_stopsAt hbudget
    intro i hi hstop
    exact absurd (hleast.2 hstop) (Nat.not_le_of_lt hi)
  obtain ⟨e, ending, hend⟩ := hleast.1.exists_ends hbudget hcourse
  exact ⟨k, e, ending, hleast.2 (.inr (.inl (Nat.le_add_left _ _))), hcourse, hend⟩

/-- An execution ends in the order of its questions: a halt, the budget, the next step. -/
theorem Ends.endsWithin {c e : Computer δ} {ending : Except Fault Unit} {k : Nat}
    (h : (c.steps k).Ends e ending) {limit : UInt64} (hbudget : c.machine.budget = some limit)
    (hcourse : ∀ i < k, (c.steps i).Proceeds) : c.EndsWithin limit k e ending := by
  have hmachine : e.machine = (c.steps k).machine := h.machine_eq
  have hretired : e.retired = c.retired + k := by
    rw [← retired_steps hcourse hbudget, retired, hmachine, retired]
  have hspent := spentBudget?_steps hcourse hbudget
  cases h with
  | halted hhalted =>
    exact ⟨hmachine, hretired, by simp [hhalted], by simp [hhalted], fun _ ↦ rfl,
      by simp [hhalted]⟩
  | spent hrunning hlimit =>
    rw [hspent] at hlimit
    split at hlimit
    next hle =>
      cases hlimit
      refine ⟨hmachine, hretired, by simp [hrunning], by simp [hle], fun _ ↦ rfl, ?_⟩
      exact fun _ hlt ↦ absurd hle (Nat.not_le_of_lt hlt)
    next => cases hlimit
  | failed hrunning hallowed hfails =>
    have hle : ¬ limit.toNat ≤ c.retired + k := by
      intro hle
      rw [hspent, if_pos hle] at hallowed
      cases hallowed
    refine ⟨hmachine, hretired, by simp [hrunning], ?_, by simp [hrunning, hle], ?_⟩
    · cases hfails <;> simp [hle]
    · exact fun _ _ ↦ hfails.step hrunning

/-- A run with a budget comes to an end, at the first step where it has to: well if the machine is
halted there, else at the budget if that is used up, else with the fault of the next step. It
retires no more than the budget allows, and flushes its device once, which can turn a good end into
a fault of the device and changes nothing else of the machine. -/
theorem run?_of_budget (c : Computer δ) (limit : UInt64)
    (hbudget : c.machine.budget = some limit) :
    ∃ k e ending c' result,
      IsLeast {i | c.StopsAt limit i} k ∧
      k ≤ limit.toNat - c.retired ∧
      c.retired + k ≤ max c.retired limit.toNat ∧
      (∀ i < k, (c.steps i).step.2 = .ok ()) ∧
      (∀ fuel, c.advance fuel = if fuel ≤ k then (c.steps fuel, none) else (e, some ending)) ∧
      c.EndsWithin limit k e ending ∧
      (∀ fuel, c.run? fuel = if fuel ≤ k then none else some (c', result)) ∧
      c'.machine = (c.steps k).machine ∧
      c'.outlet = e.outlet.flush.1 ∧
      (∀ f : FlushCount δ, f.count c'.outlet.device = f.count c.outlet.device + 1) ∧
      (∀ fault, ending = .error fault → result = .error fault) ∧
      (ending = .ok () → result =
        match e.outlet.flush.2 with
        | none => .ok ()
        | some reason => .error (.output reason)) := by
  obtain ⟨k, hleast⟩ := c.exists_isLeast_stopsAt limit
  have hcourse : ∀ i < k, (c.steps i).Proceeds := by
    apply proceeds_of_not_stopsAt hbudget
    intro i hi hstop
    exact absurd (hleast.2 hstop) (Nat.not_le_of_lt hi)
  obtain ⟨e, ending, hend⟩ := hleast.1.exists_ends hbudget hcourse
  have hwithin : c.EndsWithin limit k e ending := hend.endsWithin hbudget hcourse
  have hk : k ≤ limit.toNat - c.retired := by
    apply hleast.2
    exact .inr (.inl (by omega))
  have hrun : ∀ fuel, c.run? fuel = if fuel ≤ k then none else some (e.finish ending) :=
    run?_eq hcourse hend
  refine ⟨k, e, ending, (e.finish ending).1, (e.finish ending).2, hleast, hk, ?_,
    fun i hi ↦ (hcourse i hi).succeeds, advance_eq hcourse hend, hwithin, hrun,
    (machine_finish e ending).trans hwithin.machine_eq, outlet_finish e ending, ?_, ?_, ?_⟩
  · omega
  · intro f
    exact f.count_of_run? ((hrun (k + 1)).trans (if_neg (Nat.not_succ_le_self k)))
  · intro fault hfault
    rw [hfault, finish_error]
  · intro hok
    rw [hok]
    exact finish_ok e

/-- A jump to itself exhausts its budget on a device that cannot be flushed. -/
theorem run?_of_budget_of_loop :
    let c := (ofSettings { budget := some 2 } ({ device := { flushes := false } } :
      Metered Container)).mapMachine fun m ↦ m.place [0b01010100, 0]
    ∃ c', c.run? 3 = some (c', .error (.instructionLimit 2)) ∧ c'.retired ≤ 2 ∧
      c'.outlet.device.flushes = 1 := by
  intro c
  have hbudget : c.machine.budget = some 2 := rfl
  have hretired : c.retired = 0 := rfl
  have hunflushed : c.outlet.device.flushes = 0 := rfl
  have hlimit : (c.run? 3).map Prod.snd = some (.error (.instructionLimit 2)) := by
    decide +kernel
  clear_value c
  obtain ⟨k, e, ending, c', result, -, hk, hle, -, -, hwithin, hrun, hmachine, -, hflush, -, -⟩ :=
    run?_of_budget c 2 hbudget
  have hend : c.run? 3 = some (c', result) := by
    rw [hrun, if_neg]
    exact Nat.not_le_of_lt (Nat.lt_succ_of_le (Nat.le_trans hk (Nat.sub_le _ _)))
  rw [hend] at hlimit
  cases hlimit
  refine ⟨c', hend, ?_, ?_⟩
  · calc
      c'.retired = e.retired := by rw [retired, hmachine, ← hwithin.machine_eq, retired]
      _ = c.retired + k := hwithin.retired_eq
      _ ≤ max c.retired (2 : UInt64).toNat := hle
      _ = 2 := by rw [hretired]; rfl
  · have hone : c'.outlet.device.flushes = c.outlet.device.flushes + 1 := hflush Metered.flushCount
    rw [hone, hunflushed]

end Computer

end OctetMachine
