import OctetMachine.Proofs.Account

/-!
# Halting

A computer that was made and then stepped, run and loaded is halted if and only if a halt
instruction was retired. That one is then the last instruction retired, and the program counter
stands behind it. From then on steps and runs do nothing: a step succeeds, a run flushes the device,
and loading another program does not wake the machine.
-/

namespace OctetMachine

/-- Whether an action is a call of the computer, not a change to its machine from outside. -/
def Action.isCall : Action → Bool
  | .edit _ => false
  | _ => true

/-- A halted machine has retired a halt, as its last instruction, and stands behind it. -/
structure Machine.HaltsAfter (m : Machine) (log : List Retirement) : Prop where
  running : m.halted = false → ∀ r ∈ log, r.op ≠ .hlt
  halted : m.halted = true → ∃ before last, log = before ++ [last] ∧
    (∀ r ∈ before, r.op ≠ .hlt) ∧ last.op = .hlt ∧ m.counter = last.before.counter + 1

namespace Machine.HaltsAfter

variable {m : Machine} {log : List Retirement}

theorem of_running (hrun : m.halted = false) : m.HaltsAfter [] := by
  refine ⟨fun _ ↦ List.forall_mem_nil _, ?_⟩
  intro hhalted
  cases hrun.symm.trans hhalted

theorem next (h : m.HaltsAfter log) (hrun : m.halted = false) (op : Opcode) :
    (m.next op).HaltsAfter (log ++ [{ op, before := m }]) := by
  have hnone : ∀ r ∈ log, r.op ≠ .hlt := h.running hrun
  have hhalted : (m.next op).halted = (op == .hlt) := by
    change (op == .hlt || m.halted) = (op == .hlt)
    rw [hrun, Bool.or_false]
  constructor
  · intro hnext r hr
    rw [hhalted] at hnext
    rcases List.mem_append.1 hr with hr | hr
    · exact hnone r hr
    · rw [List.mem_singleton.1 hr]
      exact beq_eq_false_iff_ne.1 hnext
  · intro hnext
    rw [hhalted] at hnext
    obtain rfl : op = .hlt := eq_of_beq hnext
    exact ⟨log, _, rfl, hnone, rfl, rfl⟩

theorem iff_mem (h : m.HaltsAfter log) : m.halted = true ↔ ∃ r ∈ log, r.op = .hlt := by
  constructor
  · intro hhalted
    obtain ⟨before, last, rfl, -, hlast, -⟩ := h.halted hhalted
    exact ⟨last, by simp, hlast⟩
  · rintro ⟨r, hr, hop⟩
    rw [← Bool.not_eq_false]
    exact fun hrun ↦ h.running hrun r hr hop

theorem countP_eq_one (h : m.HaltsAfter log) (hhalted : m.halted = true) :
    (log.countP fun r ↦ r.op == .hlt) = 1 := by
  obtain ⟨before, last, rfl, hnone, hlast, -⟩ := h.halted hhalted
  have hbefore : (before.countP fun r ↦ r.op == .hlt) = 0 := by
    rw [List.countP_eq_zero]
    exact fun r hr ↦ by simpa using hnone r hr
  rw [List.countP_append, List.countP_singleton, hbefore, hlast]
  rfl

end Machine.HaltsAfter

namespace Computer

variable {δ : Type}

/-- One computer is another one but for its memory, the events in its journal and the state of its
device. -/
structure Rests (c d : Computer δ) : Prop where
  machine : d.machine = { c.machine with memory := d.machine.memory }
  received : d.outlet.received = c.outlet.received
  traceLines : d.journal.traceLines = c.journal.traceLines

theorem Rests.refl (c : Computer δ) : c.Rests c := ⟨rfl, rfl, rfl⟩

theorem Rests.trans {c d e : Computer δ} (h : c.Rests d) (h' : d.Rests e) : c.Rests e := by
  refine ⟨?_, h'.received.trans h.received, h'.traceLines.trans h.traceLines⟩
  rw [h'.machine, h.machine]

theorem Rests.halted {c d : Computer δ} (h : c.Rests d) :
    d.machine.halted = c.machine.halted := by
  rw [h.machine]

theorem Places.rests {c d : Computer δ} (h : c.Places d) : c.Rests d :=
  ⟨h.machine_eq, congrArg Outlet.received h.outlet, h.traceLines⟩

variable [Device δ]

theorem rests_finish (c : Computer δ) (result : Except Fault Unit) :
    c.Rests (c.finish result).1 :=
  ⟨rfl, rfl, Journal.traceLines_log _ _⟩

theorem haltsAfter_steps {c : Computer δ} {log : List Retirement}
    (h : c.machine.HaltsAfter log) (n : Nat) :
    (c.steps n).machine.HaltsAfter (log ++ c.history n) := by
  induction n with
  | zero => rwa [history_zero, List.append_nil]
  | succ n ih =>
    rcases c.steps_succ_cases n with ⟨hmachine, hhistory⟩ | ⟨op, hretires, hhistory⟩
    · rwa [hmachine, hhistory]
    · rw [hretires.machine, hhistory, ← List.append_assoc]
      exact ih.next hretires.running op

theorem steps_of_halted {c : Computer δ} (hhalted : c.machine.halted = true) (n : Nat) :
    c.steps n = c := by
  induction n with
  | zero => rfl
  | succ n ih => rw [steps_succ, ih, step_of_halted hhalted]

theorem history_of_halted {c : Computer δ} (hhalted : c.machine.halted = true) (n : Nat) :
    c.history n = [] := by
  induction n with
  | zero => rfl
  | succ n ih =>
    rw [history_succ, ih, steps_of_halted hhalted, retirement?_of_halted hhalted]
    rfl

end Computer

namespace Session

variable {δ : Type} [Device δ] {s s' : Session δ} {action : Action}

/-- A call takes some steps and leaves the rest alone, but for memory when it loads. -/
theorem exists_steps_of_act? (h : s.act? action = some s') (hcall : action.isCall = true) :
    ∃ k, (s.computer.steps k).Rests s'.computer ∧
      s'.retirements = s.retirements ++ s.computer.history k := by
  cases action with
  | step =>
    cases h
    exact ⟨1, .refl _, retirements_concat _ s⟩
  | run fuel =>
    obtain ⟨⟨c, result⟩, hrun, rfl⟩ := Option.map_eq_some_iff.1 h
    obtain ⟨k, -, hadvance, hhistory⟩ := s.computer.exists_history_of_advance fuel
    obtain ⟨ending, hfinish⟩ := Computer.exists_finish_of_run? hrun
    have hrests := (s.computer.advance fuel).1.rests_finish ending
    rw [hfinish, hadvance] at hrests
    refine ⟨k, hrests, ?_⟩
    rw [retirements_append, ← hhistory, Computer.retirements]
  | loadImage image =>
    cases h
    exact ⟨0, (s.computer.places_loadImage image).rests, (List.append_nil _).symm⟩
  | loadText text =>
    cases h
    exact ⟨0, (s.computer.places_loadText text).rests, (List.append_nil _).symm⟩
  | loadFile path text =>
    cases h
    exact ⟨0, (s.computer.places_loadFile path text).rests, (List.append_nil _).symm⟩
  | edit => cases hcall

theorem haltsAfter_acts? {actions : List Action} (h : s.acts? actions = some s')
    (hcalls : ∀ action ∈ actions, action.isCall = true)
    (hstart : s.computer.machine.HaltsAfter s.retirements) :
    s'.computer.machine.HaltsAfter s'.retirements := by
  induction actions generalizing s with
  | nil =>
    cases h
    exact hstart
  | cons action rest ih =>
    obtain ⟨next, hnext, hrest⟩ := Option.bind_eq_some_iff.1 h
    obtain ⟨k, hrests, hlog⟩ := exists_steps_of_act? hnext (hcalls action (List.mem_cons_self))
    apply ih hrest fun a ha ↦ hcalls a (List.mem_cons_of_mem _ ha)
    have hsteps := Computer.haltsAfter_steps hstart k
    rw [hlog, hrests.machine]
    exact ⟨hsteps.running, hsteps.halted⟩

/-- No call wakes a halted computer. -/
theorem rests_of_halted {actions : List Action} (h : s.acts? actions = some s')
    (hcalls : ∀ action ∈ actions, action.isCall = true)
    (hhalted : s.computer.machine.halted = true) :
    s.computer.Rests s'.computer ∧ s'.retirements = s.retirements := by
  induction actions generalizing s with
  | nil =>
    cases h
    exact ⟨.refl _, rfl⟩
  | cons action rest ih =>
    obtain ⟨next, hnext, hrest⟩ := Option.bind_eq_some_iff.1 h
    obtain ⟨k, hrests, hlog⟩ := exists_steps_of_act? hnext (hcalls action (List.mem_cons_self))
    rw [Computer.steps_of_halted hhalted] at hrests
    rw [Computer.history_of_halted hhalted, List.append_nil] at hlog
    obtain ⟨hlater, hlogs⟩ := ih hrest (fun a ha ↦ hcalls a (List.mem_cons_of_mem _ ha))
      (hrests.halted.trans hhalted)
    exact ⟨hrests.trans hlater, hlogs.trans hlog⟩

/-- A computer that was made and then stepped, run and loaded in any order is halted if and only if
a halt was retired. Then one was, it was the last instruction retired, and the program counter
stands behind it. Whatever is called from then on, nothing changes but memory by loads; a step
succeeds, and a run ends well unless the flush fails, whatever the budget. -/
theorem halted_iff_retired_halt (settings : Settings) (device : δ) (journal : Journal)
    (actions : List Action) (s : Session δ)
    (hcalls : ∀ action ∈ actions, action.isCall = true)
    (hactions : acts? { computer := { Computer.ofSettings settings device with journal } } actions =
      some s) :
    let m := s.computer.machine
    (m.halted = true ↔ ∃ r ∈ s.retirements, r.op = .hlt) ∧
    (m.halted = true →
      (s.retirements.countP fun r ↦ r.op == .hlt) = 1 ∧
      (∃ last, s.retirements.getLast? = some last ∧ last.op = .hlt ∧
        m.counter = last.before.counter + 1) ∧
      ∀ more s', (∀ action ∈ more, action.isCall = true) → s.acts? more = some s' →
        let c := s'.computer
        c.machine = { m with memory := c.machine.memory } ∧
        s'.retirements = s.retirements ∧
        c.outlet.received = s.computer.outlet.received ∧
        c.journal.traceLines = s.computer.journal.traceLines ∧
        c.step = (c, .ok ()) ∧
        ∀ fuel, ∃ c',
          c.run? (fuel + 1) = some (c', match c.outlet.flush.2 with
            | none => .ok ()
            | some reason => .error (.output reason)) ∧
          c'.machine = c.machine ∧
          c'.outlet = c.outlet.flush.1 ∧
          c'.outlet.received = c.outlet.received ∧
          c'.journal.traceLines = c.journal.traceLines) := by
  intro m
  have hlog : m.HaltsAfter s.retirements := haltsAfter_acts? hactions hcalls (.of_running rfl)
  refine ⟨hlog.iff_mem, ?_⟩
  intro hhalted
  refine ⟨hlog.countP_eq_one hhalted, ?_, ?_⟩
  · obtain ⟨before, last, hsplit, -, hop, hcounter⟩ := hlog.halted hhalted
    refine ⟨last, ?_, hop, hcounter⟩
    rw [hsplit, List.getLast?_concat]
  · intro more s' hmore hacts c
    obtain ⟨hrests, hkept⟩ := rests_of_halted hacts hmore hhalted
    have hstill : c.machine.halted = true := hrests.halted.trans hhalted
    refine ⟨hrests.machine, hkept, hrests.received, hrests.traceLines,
      Computer.step_of_halted hstill, ?_⟩
    intro fuel
    refine ⟨(c.finish (.ok ())).1, ?_, rfl, rfl, rfl, (c.rests_finish (.ok ())).traceLines⟩
    rw [Computer.run?_of_ends (.halted hstill)]
    exact congrArg some (Prod.ext rfl c.finish_ok)

/-- A traced machine halts on the last instruction of its budget, and does not run the program that
is loaded then. -/
theorem halted_iff_retired_halt_of_reload :
    let start : Session Container :=
      { computer := { Computer.ofSettings { tracing := true, budget := some 2 } {} with
          journal := {} } }
    ∃ s s', start.acts? [.loadImage [0, 1, 0], .run 9] = some s ∧
      s.acts? [.loadImage [2], .step, .run 9] = some s' ∧
      (s.retirements.countP fun r ↦ r.op == .hlt) = 1 ∧
      s'.computer.machine.halted = true ∧ s'.computer.machine.memory.read 0 = 2 ∧
      s'.computer.machine.counter = 2 ∧
      s'.computer.journal.traceLines = s.computer.journal.traceLines ∧
      s'.computer.step = (s'.computer, .ok ()) := by
  intro start
  have hcalls : ∀ action ∈ [Action.loadImage [0, 1, 0], .run 9], action.isCall = true := by
    simp [Action.isCall]
  have hmore : ∀ action ∈ [Action.loadImage [2], .step, .run 9], action.isCall = true := by
    simp [Action.isCall]
  have hacts : (start.acts? [.loadImage [0, 1, 0], .run 9]).map
      (fun s ↦ (s.computer.machine.halted, s.computer.machine.counter,
        (s.acts? [.loadImage [2], .step, .run 9]).map (·.computer.machine.memory.read 0))) =
      some (true, 2, some 2) := by
    decide +kernel
  obtain ⟨s, hs, hstate⟩ := Option.map_eq_some_iff.1 hacts
  simp only [Prod.mk.injEq] at hstate
  obtain ⟨hhalted, hcounter, hlast⟩ := hstate
  obtain ⟨s', hs', hmemory⟩ := Option.map_eq_some_iff.1 hlast
  obtain ⟨-, hhalt⟩ := halted_iff_retired_halt _ _ _ _ s hcalls hs
  obtain ⟨hone, -, hlater⟩ := hhalt hhalted
  obtain ⟨hmachine, -, -, htrace, hstep, -⟩ := hlater _ s' hmore hs'
  refine ⟨s, s', hs, hs', hone, ?_, hmemory, ?_, htrace, hstep⟩
  · rw [hmachine, hhalted]
  · rw [hmachine, hcounter]

end Session

end OctetMachine
