import OctetMachine.Proofs.Budget
import OctetMachine.Proofs.Truncation

/-!
# Runs that are resumed

A budget only says how far a run may go. A run that was stopped by a smaller budget stands where a
run with the larger one passes, so it can be taken up there; and a run that had come to its end
comes to the same end again. That needs a device which takes all that is printed, and can be flushed
in between.
-/

namespace OctetMachine.Computer

open Device (Flushes HasRoom)

variable {δ : Type}

/-- The computer with another budget. -/
def withBudget (c : Computer δ) (limit : UInt64) : Computer δ :=
  c.mapMachine fun m ↦ { m with budget := some limit }

theorem announce_withBudget (c : Computer δ) (limit : UInt64) :
    (c.withBudget limit).announce = c.announce.withBudget limit := by
  have hfetch : (c.withBudget limit).machine.fetch = c.machine.fetch := rfl
  cases hop : Opcode.ofByte? c.machine.fetch.opcode <;>
    simp only [announce, hfetch, hop] <;> rfl

variable [Device δ]

/-- The budget has no part in a step. -/
theorem step_withBudget (c : Computer δ) (limit : UInt64) :
    (c.withBudget limit).step = (c.step.1.withBudget limit, c.step.2) := by
  rcases c.step_cases with
    ⟨hhalted, hstep⟩ | ⟨op, c', hretires, hstep⟩ | ⟨fault, e, hrun, hfails, hstep⟩
  · rw [hstep]
    exact step_of_halted hhalted
  · have hretires' : (c.withBudget limit).Retires op (c'.withBudget limit) := by
      refine ⟨hretires.running, hretires.decoded, hretires.implemented, ?_, hretires.print, ?_⟩
      · change { c'.machine with budget := some limit } = _
        rw [hretires.machine]
        rfl
      · rw [announce_withBudget]
        exact hretires.journal
    rw [hstep, hretires'.step]
  · have hfails' : (c.withBudget limit).Fails fault (e.withBudget limit) := by
      cases hfails with
      | unknown decoded =>
        rw [← announce_withBudget]
        exact .unknown decoded
      | unimplemented decoded missing =>
        rw [← announce_withBudget]
        exact .unimplemented decoded missing
      | @refused op outlet reason decoded implemented print =>
        have hrefused : (c.withBudget limit).Fails (.output reason)
            { (c.withBudget limit).announce with outlet } := .refused decoded implemented print
        rwa [announce_withBudget] at hrefused
    rw [hstep, hfails'.step hrun]

theorem steps_withBudget (c : Computer δ) (limit : UInt64) (n : Nat) :
    (c.withBudget limit).steps n = (c.steps n).withBudget limit := by
  induction n with
  | zero => rfl
  | succ n ih => rw [steps_succ, steps_succ, ih, step_withBudget]

/-- What goes on within a budget goes on within a larger one. -/
theorem Proceeds.withBudget_mono {c : Computer δ} {l₁ l₂ : UInt64} (h : (c.withBudget l₁).Proceeds)
    (hle : l₁ ≤ l₂) : (c.withBudget l₂).Proceeds := by
  have hlt : c.retired < l₂.toNat :=
    Nat.lt_of_lt_of_le (h.retired_lt rfl) (UInt64.le_iff_toNat_le.1 hle)
  have hallowed : (c.withBudget l₂).machine.spentBudget? = none := by
    have hbudget : (c.withBudget l₂).machine.budget = some l₂ := rfl
    rw [spentBudget?_eq hbudget]
    exact if_neg (Nat.not_le_of_lt hlt)
  have hsucceeds := h.succeeds
  rw [step_withBudget] at hsucceeds
  refine ⟨h.running, hallowed, ?_⟩
  rw [step_withBudget]
  exact hsucceeds

theorem Ends.outlet_eq {c e : Computer δ} {ending : Except Fault Unit} (h : c.Ends e ending)
    (hfree : c.outlet.Holds ⊤) : e.outlet = c.outlet := by
  cases h with
  | halted => rfl
  | spent => rfl
  | failed _ _ fails => exact fails.outlet_eq (fails.ne_output hfree)

/-- How an execution with a budget can end if its device takes everything. -/
theorem Ends.ending_cases {c e : Computer δ} {ending : Except Fault Unit} (h : c.Ends e ending)
    (hfree : c.outlet.Holds ⊤) {limit : UInt64} (hbudget : c.machine.budget = some limit) :
    ending = .ok () ∨ ending = .error (.instructionLimit limit) ∨
      (∃ counter opcode, ending = .error (.unknownOpcode counter opcode)) ∨
      ∃ opcode, ending = .error (.unimplementedOpcode opcode) := by
  cases h with
  | halted => exact .inl rfl
  | spent _ spent =>
    rw [spentBudget?_eq hbudget] at spent
    split at spent
    next =>
      cases spent
      exact .inr (.inl rfl)
    next => cases spent
  | failed _ _ fails =>
    have hfault := fails.ne_output hfree
    cases fails with
    | unknown => exact .inr (.inr (.inl ⟨_, _, rfl⟩))
    | unimplemented => exact .inr (.inr (.inr ⟨_, rfl⟩))
    | refused => exact absurd rfl (hfault _)

/-- A run with a budget has one outcome, for all fuel beyond the budget. -/
theorem exists_ends_withBudget (c : Computer δ) (limit : UInt64) :
    ∃ k e ending, (∀ i < k, ((c.steps i).withBudget limit).Proceeds) ∧
      ((c.steps k).withBudget limit).Ends e ending ∧
      ∀ fuel, limit.toNat < fuel → (c.withBudget limit).run? fuel = some (e.finish ending) := by
  obtain ⟨k, e, ending, hk, hcourse, hend⟩ := exists_ends_of_budget (c := c.withBudget limit) rfl
  have hrun := run?_eq hcourse hend
  simp only [steps_withBudget] at hcourse hend
  refine ⟨k, e, ending, hcourse, hend, ?_⟩
  intro fuel hfuel
  rw [hrun, if_neg (Nat.not_le_of_lt (Nat.lt_of_le_of_lt hk hfuel))]

/-- A run that has come to an end, and the computer where a run with another budget passes there. -/
theorem Ends.mirrors {c e : Computer δ} {ending : Except Fault Unit} {l₁ : UInt64}
    (h : (c.withBudget l₁).Ends e ending) (hfree : c.outlet.Holds ⊤) (l₂ : UInt64) :
    Mirrors ⊤ (c.withBudget l₂) ((e.finish ending).1.withBudget l₂) := by
  have houtlet : e.outlet = c.outlet := h.outlet_eq hfree
  refine ⟨?_, ?_, hfree, ?_⟩
  · change { e.machine with budget := some l₂ } = _
    rw [h.machine_eq]
    rfl
  · change e.outlet.received = c.outlet.received
    rw [houtlet]
  · change e.outlet.flush.1.Holds ⊤
    rw [houtlet]
    exact hfree.flush

/-- A run passes where a run with a smaller budget has come to. -/
theorem run?_withBudget_add {c : Computer δ} {l₁ l₂ : UInt64} {k : Nat}
    (hcourse : ∀ i < k, ((c.steps i).withBudget l₁).Proceeds) (hle : l₁ ≤ l₂) (fuel : Nat) :
    (c.withBudget l₂).run? (k + fuel) = ((c.steps k).withBudget l₂).run? fuel := by
  have hpass : ∀ i < k, ((c.withBudget l₂).steps i).Proceeds := by
    intro i hi
    rw [steps_withBudget]
    exact (hcourse i hi).withBudget_mono hle
  rw [run?_eq_map, run?_eq_map, advance_steps hpass, steps_withBudget]

/-- A run that begins at a halt changes nothing. -/
theorem shown_of_halted {c : Computer δ} (hhalted : c.machine.halted = true)
    (hflushes : Flushes c.outlet.device) {fuel : Nat} {p : Computer δ × Except Fault Unit}
    (hrun : c.run? (fuel + 1) = some p) : shown p = shown (c, .ok ()) := by
  rw [run?_of_ends (.halted hhalted)] at hrun
  rw [← Option.some.inj hrun, shown, finish_of_flushes hflushes]
  rfl

/-- A run with a budget, taken up again with a larger one, comes to the same as a single run with
that, wherever the first one ended. If it ended with a halt, so do all runs with larger budgets, on
the same machine and with the same output. -/
theorem run?_resume (c : Computer δ) (l₁ l₂ : UInt64) (hle : l₁ ≤ l₂)
    (hroom : HasRoom c.outlet.device ⊤) (hflushes : Flushes c.outlet.device) :
    ∃ first second single : Computer δ × Except Fault Unit,
      (∀ fuel, l₁.toNat < fuel → (c.withBudget l₁).run? fuel = some first) ∧
      (∀ fuel, l₂.toNat < fuel → (first.1.withBudget l₂).run? fuel = some second) ∧
      (∀ fuel, l₂.toNat < fuel → (c.withBudget l₂).run? fuel = some single) ∧
      (first.2 = .ok () ∨ first.2 = .error (.instructionLimit l₁) ∨
        (∃ counter opcode, first.2 = .error (.unknownOpcode counter opcode)) ∨
        ∃ opcode, first.2 = .error (.unimplementedOpcode opcode)) ∧
      shown second = shown single ∧
      (first.2 = .ok () → shown single = shown (first.1.withBudget l₂, .ok ())) := by
  have hfree : c.outlet.Holds ⊤ := Outlet.holds_top_iff.2 hroom
  obtain ⟨k, e, ending, hcourse, hend, hfirst⟩ := c.exists_ends_withBudget l₁
  obtain ⟨-, e₂, ending₂, -, -, hsecond⟩ := (e.finish ending).1.exists_ends_withBudget l₂
  obtain ⟨-, e₃, ending₃, -, -, hsingle⟩ := c.exists_ends_withBudget l₂
  have hlast := hsecond (l₂.toNat + 1) (Nat.lt_succ_self _)
  have hfreek : (c.steps k).outlet.Holds ⊤ := holds_top_steps hfree k
  have hflushesk : Flushes (c.steps k).outlet.device := flushes_steps hflushes k
  have hflushese : Flushes e.outlet.device := by
    rw [hend.outlet_eq hfreek]
    exact hflushesk
  have hending : (e.finish ending).2 = ending := finish_of_flushes hflushese ending
  -- The single run passes the computer where the first run ended, before that was flushed.
  have hshown : shown (e₂.finish ending₂) = shown (e₃.finish ending₃) := by
    have hmirrors := hend.mirrors hfreek l₂
    have hsame := hmirrors.shown_run?_of_fits (l₂.toNat + 1) le_top hflushesk
      (hflushese.after [.flush])
    rw [hlast, ← run?_withBudget_add hcourse hle, hsingle _ (by omega)] at hsame
    exact Option.some.inj hsame
  refine ⟨_, _, _, hfirst, hsecond, hsingle, ?_, hshown, ?_⟩
  · rw [hending]
    exact hend.ending_cases hfreek rfl
  · intro hok
    rw [hending] at hok
    subst hok
    have hhalted : ((e.finish (.ok ())).1.withBudget l₂).machine.halted = true := by
      change e.machine.halted = true
      cases hend with
      | halted halted => exact halted
    rw [← hshown]
    exact shown_of_halted hhalted (hflushese.after [.flush]) hlast

/-- A run is stopped between two prints and taken up again. -/
theorem run?_resume_of_two_prints :
    let program : List UInt8 :=
      [0b10000010, 0, 7, 0b01000111, 0, 0b01000111, 0, 0b00000001]
    let c := (ofSettings {} ({} : Container)).mapMachine fun m ↦ m.place program
    ∃ first second : Computer Container × Except Fault Unit,
      (c.withBudget 2).run? 3 = some first ∧ first.2 = .error (.instructionLimit 2) ∧
        (first.1.withBudget 9).run? 10 = some second ∧ second.2 = .ok () ∧
        second.1.outlet.received = #[55, 55] := by
  intro program c
  have hshort : ((c.withBudget 2).run? 3).map Prod.snd = some (.error (.instructionLimit 2)) := by
    decide +kernel
  have hlong : ((c.withBudget 9).run? 10).map (fun p ↦ (p.1.outlet.received, p.2)) =
      some (#[55, 55], .ok ()) := by
    decide +kernel
  obtain ⟨first, second, single, hfirst, hsecond, hsingle, -, hshown, -⟩ :=
    run?_resume c 2 9 (by decide) (Container.hasRoom_left {}) (Container.device_flushes rfl)
  rw [hfirst 3 (by decide)] at hshort
  rw [hsingle 10 (by decide)] at hlong
  have hreceived : second.1.outlet.received = single.1.outlet.received :=
    congrArg (fun p ↦ p.2.1) hshown
  have hresult : second.2 = single.2 := congrArg (fun p ↦ p.2.2) hshown
  obtain ⟨houtput, hend⟩ := Prod.mk.inj (Option.some.inj hlong)
  refine ⟨first, second, hfirst 3 (by decide), Option.some.inj hshort, hsecond 10 (by decide), ?_,
    ?_⟩
  · rw [hresult, hend]
  · rw [hreceived, houtput]

end OctetMachine.Computer
