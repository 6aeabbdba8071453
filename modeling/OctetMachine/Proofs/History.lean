import OctetMachine.Proofs.Course

/-!
# What the steps of a run retire

The history of a run is the list of the instructions that its steps retired, in their order, each
with the machine that it began on. A step that fails and a step of a halted computer retire nothing
and leave the machine as it was, so the history says all that happens to the machine.
-/

namespace OctetMachine

/-- An instruction that was retired, and the machine before it. -/
structure Retirement where
  op : Opcode
  before : Machine
  deriving DecidableEq

namespace Computer

variable {δ : Type} [Device δ]

/-- The instruction that the next step retires, if it retires one. -/
def retirement? (c : Computer δ) : Option Retirement :=
  if c.machine.halted then none
  else
    match c.step.2 with
    | .error _ => none
    | .ok () => (Opcode.ofByte? c.machine.fetch.opcode).map fun op ↦ { op, before := c.machine }

/-- What the first `n` steps retire. -/
def history (c : Computer δ) : Nat → List Retirement
  | 0 => []
  | n + 1 => c.history n ++ (c.steps n).retirement?.toList

@[simp] theorem history_zero (c : Computer δ) : c.history 0 = [] := rfl

theorem history_succ (c : Computer δ) (n : Nat) :
    c.history (n + 1) = c.history n ++ (c.steps n).retirement?.toList := rfl

theorem Retires.retirement? {c c' : Computer δ} {op : Opcode} (h : c.Retires op c') :
    c.retirement? = some { op, before := c.machine } := by
  rw [Computer.retirement?, if_neg (by simp [h.running]), h.step, h.decoded]
  rfl

theorem Fails.retirement? {c e : Computer δ} {fault : Fault} (h : c.Fails fault e)
    (hrun : c.machine.halted = false) : c.retirement? = none := by
  rw [Computer.retirement?, if_neg (by simp [hrun]), h.step hrun]

theorem retirement?_of_halted {c : Computer δ} (hhalted : c.machine.halted = true) :
    c.retirement? = none := if_pos hhalted

theorem retirement?_eq_some_iff {c : Computer δ} {r : Retirement} :
    c.retirement? = some r ↔ c.Retires r.op c.step.1 ∧ r.before = c.machine := by
  constructor
  · intro h
    rcases c.step_cases with ⟨hhalted, -⟩ | ⟨op, c', hretires, hstep⟩ | ⟨fault, e, hrun, hfails, -⟩
    · cases h.symm.trans (retirement?_of_halted hhalted)
    · have hr : r = { op, before := c.machine } :=
        Option.some.inj (h.symm.trans hretires.retirement?)
      rw [hr, hstep]
      exact ⟨hretires, rfl⟩
    · cases h.symm.trans (hfails.retirement? hrun)
  · rintro ⟨hretires, hbefore⟩
    rw [hretires.retirement?, ← hbefore]

/-- The machine is changed by what a step retires and by nothing else. -/
theorem machine_step (c : Computer δ) :
    c.step.1.machine = (c.retirement?.map fun r ↦ r.before.next r.op).getD c.machine := by
  rcases c.step_cases with
    ⟨hhalted, hstep⟩ | ⟨op, c', hretires, hstep⟩ | ⟨fault, e, hrun, hfails, hstep⟩
  · rw [hstep, retirement?_of_halted hhalted, Option.map_none, Option.getD_none]
  · rw [hstep, hretires.retirement?]
    exact hretires.machine
  · rw [hstep, hfails.retirement? hrun, Option.map_none, Option.getD_none]
    exact hfails.machine_eq

/-- One more step retires nothing and keeps the machine, or adds one instruction to the history. -/
theorem steps_succ_cases (c : Computer δ) (n : Nat) :
    (c.steps (n + 1)).machine = (c.steps n).machine ∧ c.history (n + 1) = c.history n ∨
      ∃ op, (c.steps n).Retires op (c.steps (n + 1)) ∧
        c.history (n + 1) = c.history n ++ [{ op, before := (c.steps n).machine }] := by
  rw [steps_succ, history_succ, machine_step]
  cases hretirement : (c.steps n).retirement? with
  | none => exact .inl ⟨rfl, List.append_nil _⟩
  | some r =>
    obtain ⟨hretires, hbefore⟩ := retirement?_eq_some_iff.1 hretirement
    refine .inr ⟨r.op, hretires, ?_⟩
    rw [← hbefore]
    rfl

theorem history_prefix_history (c : Computer δ) {i n : Nat} (h : i ≤ n) :
    c.history i <+: c.history n := by
  induction h with
  | refl => exact List.prefix_refl _
  | step _ ih => exact ih.trans (List.prefix_append _ _)

/-- What one step retires, and what the steps behind it do. -/
theorem history_step (c : Computer δ) (n : Nat) :
    c.retirement?.toList ++ c.step.1.history n = c.history (n + 1) := by
  induction n with
  | zero => rw [history_zero, List.append_nil, history_succ, history_zero, List.nil_append,
      steps_zero]
  | succ n ih => rw [history_succ, ← List.append_assoc, ih, steps_step, ← history_succ]

/-! ## Executions -/

/-- The computers on which an execution begins its steps. -/
def attempts : Nat → Computer δ → List (Computer δ)
  | 0, _ => []
  | fuel + 1, c =>
    if c.machine.halted then []
    else
      match c.machine.spentBudget? with
      | some _ => []
      | none =>
        c :: match c.step with
          | (_, .error _) => []
          | (c, .ok ()) => attempts fuel c

/-- What an execution retires. -/
def retirements (c : Computer δ) (fuel : Nat) : List Retirement :=
  (c.attempts fuel).filterMap retirement?

theorem attempts_of_proceeds {c : Computer δ} (h : c.Proceeds) (fuel : Nat) :
    c.attempts (fuel + 1) = c :: c.step.1.attempts fuel := by
  have hstep : c.step = (c.step.1, .ok ()) := Prod.ext rfl h.succeeds
  rw [attempts, if_neg (by simp [h.running]), h.allowed, hstep]

theorem retirements_of_proceeds {c : Computer δ} (h : c.Proceeds) (fuel : Nat) :
    c.retirements (fuel + 1) = c.retirement?.toList ++ c.step.1.retirements fuel := by
  rw [retirements, attempts_of_proceeds h, List.filterMap_cons, retirements]
  cases c.retirement? <;> rfl

/-- An execution that does not go on retires nothing. -/
theorem retirements_of_ends {c e : Computer δ} {result : Except Fault Unit}
    (h : c.Ends e result) (fuel : Nat) : c.retirements fuel = [] := by
  cases fuel with
  | zero => rfl
  | succ fuel =>
    unfold retirements
    cases h with
    | halted halted => rw [attempts, if_pos halted, List.filterMap_nil]
    | spent running spent =>
      rw [attempts, if_neg (by simp [running]), spent]
      rfl
    | failed running allowed fails =>
      rw [attempts, if_neg (by simp [running]), allowed, fails.step running]
      exact List.filterMap_cons_none (fails.retirement? running)

/-- An execution does not leave the sequence of steps; one that fails goes as far as the step that
failed. -/
theorem exists_history_of_advance (c : Computer δ) (fuel : Nat) :
    ∃ k ≤ fuel, (c.advance fuel).1 = c.steps k ∧ c.retirements fuel = c.history k := by
  induction fuel generalizing c with
  | zero => exact ⟨0, Nat.le_refl 0, rfl, rfl⟩
  | succ fuel ih =>
    rcases c.proceeds_or_ends with hgo | ⟨e, result, hend⟩
    · obtain ⟨k, hk, hsteps, hhistory⟩ := ih c.step.1
      rw [advance_of_proceeds hgo, retirements_of_proceeds hgo, hsteps, hhistory, steps_step,
        history_step]
      exact ⟨k + 1, Nat.succ_le_succ hk, rfl, rfl⟩
    · rw [advance_of_ends hend, retirements_of_ends hend]
      cases hend with
      | halted => exact ⟨0, Nat.zero_le _, rfl, rfl⟩
      | spent => exact ⟨0, Nat.zero_le _, rfl, rfl⟩
      -- The step that failed was taken, but it retired nothing.
      | failed running _ fails =>
        refine ⟨1, Nat.succ_le_succ (Nat.zero_le _), (congrArg Prod.fst (fails.step running)).symm,
          ?_⟩
        rw [history_succ, history_zero, steps_zero, fails.retirement? running]
        rfl

end Computer

end OctetMachine
