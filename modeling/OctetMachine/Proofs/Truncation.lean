import OctetMachine.Proofs.Atomicity
import OctetMachine.Proofs.History
import OctetMachine.Proofs.Room

/-!
# Truncated output

Two computers with the same machine and the same output take the same steps as long as the devices
of both take what is printed. The first step that prints more than the device of one of them has
room for fails there, leaves its machine as it was, and leaves exactly the part of the output that
fits.
-/

namespace OctetMachine.Computer

open Device (Flushes)

variable {δ ε : Type} [Device δ] [Device ε]

/-! ## Output along a course -/

theorem received_prefix_steps (c : Computer δ) (n : Nat) :
    c.outlet.received.toList <+: (c.steps n).outlet.received.toList := by
  induction n with
  | zero => exact List.prefix_refl _
  | succ n ih =>
    rw [steps_succ]
    exact ih.trans (received_prefix_step _)

theorem received_prefix_advance (c : Computer δ) (fuel : Nat) :
    c.outlet.received.toList <+: (c.advance fuel).1.outlet.received.toList := by
  obtain ⟨k, -, hsteps, -⟩ := c.exists_history_of_advance fuel
  rw [hsteps]
  exact c.received_prefix_steps k

theorem size_received_steps_mono (c : Computer δ) {i n : Nat} (h : i ≤ n) :
    (c.steps i).outlet.received.size ≤ (c.steps n).outlet.received.size := by
  induction h with
  | refl => exact Nat.le_refl _
  | step _ ih =>
    rw [steps_succ]
    exact ih.trans (size_received_step _)

/-- The device of a computer gets on by requests. -/
theorem exists_after_steps (c : Computer δ) (n : Nat) :
    ∃ past, (c.steps n).outlet.device = Device.after c.outlet.device past := by
  induction n with
  | zero => exact ⟨[], rfl⟩
  | succ n ih =>
    obtain ⟨past, hpast⟩ := ih
    obtain ⟨text, htext⟩ := (c.steps n).exists_outlet_step
    obtain ⟨more, hmore⟩ :=
      (c.steps n).outlet.exists_after_write (text.flatMap String.utf8EncodeChar)
    refine ⟨past ++ more, ?_⟩
    rw [steps_succ, htext, Outlet.print, hmore, hpast, Device.after, Device.after, Device.after,
      List.foldl_append]

theorem flushes_steps {c : Computer δ} (h : Flushes c.outlet.device) (n : Nat) :
    Flushes (c.steps n).outlet.device := by
  obtain ⟨past, hpast⟩ := c.exists_after_steps n
  rw [hpast]
  exact h.after past

theorem flushes_advance {c : Computer δ} (h : Flushes c.outlet.device) (fuel : Nat) :
    Flushes (c.advance fuel).1.outlet.device := by
  obtain ⟨k, -, hsteps, -⟩ := c.exists_history_of_advance fuel
  exact hsteps ▸ flushes_steps h k

theorem holds_top_steps {c : Computer δ} (h : c.outlet.Holds ⊤) (n : Nat) :
    (c.steps n).outlet.Holds ⊤ := by
  obtain ⟨past, hpast⟩ := c.exists_after_steps n
  rw [Outlet.holds_top_iff] at h ⊢
  rw [hpast, ← ENat.top_sub_natCast (Device.load c.outlet.device past)]
  exact h.after past

theorem finish_of_flushes {c : Computer δ} (h : Flushes c.outlet.device)
    (result : Except Fault Unit) : (c.finish result).2 = result := by
  have hflush : c.outlet.flush.2 = none := h []
  cases result with
  | error fault => exact finish_error c fault
  | ok => rw [finish_ok, hflush]

/-! ## Computers with different devices -/

/-- The computers have the same machine and the same output, all that `c` prints is taken, and what
`d` prints up to `capacity` bytes of output in all. -/
structure Mirrors (capacity : ℕ∞) (c : Computer δ) (d : Computer ε) : Prop where
  machine : d.machine = c.machine
  received : d.outlet.received = c.outlet.received
  free : c.outlet.Holds ⊤
  limited : d.outlet.Holds capacity

/-- The output of a computer fits into a capacity. -/
def Fits (c : Computer δ) (capacity : ℕ∞) : Prop := (c.outlet.received.size : ℕ∞) ≤ capacity

theorem Fails.ne_output {c e : Computer δ} {fault : Fault} (h : c.Fails fault e)
    (hfree : c.outlet.Holds ⊤) (reason : String) : fault ≠ .output reason := by
  rintro rfl
  cases h with
  | @refused op outlet _ decoded implemented print =>
    have hnone := (hfree.print_of_le (c.machine.printed op) le_top).1
    rw [print] at hnone
    cases hnone

theorem Retires.size_received {c c' : Computer δ} {op : Opcode} (h : c.Retires op c') :
    c'.outlet.received.size = c.outlet.received.size +
      ((c.machine.printed op).flatMap String.utf8EncodeChar).length := by
  rw [← Array.length_toList, h.received, List.length_append, Array.length_toList]

/-- What a run shows of its computer, and its result. -/
def shown (p : Computer δ × Except Fault Unit) : Machine × Array UInt8 × Except Fault Unit :=
  (p.1.machine, p.1.outlet.received, p.2)

namespace Mirrors

section

variable {capacity : ℕ∞} {c : Computer δ} {d : Computer ε}

theorem fits (h : Mirrors capacity c d) : c.Fits capacity := by
  rw [Fits, ← h.received]
  exact h.limited.size_le

theorem proceeds (h : Mirrors capacity c d) (hresult : d.step.2 = c.step.2) (hgo : c.Proceeds) :
    d.Proceeds :=
  ⟨h.machine ▸ hgo.running, h.machine ▸ hgo.allowed, hresult.trans hgo.succeeds⟩

theorem of_retires (h : Mirrors capacity c d) {c' : Computer δ} {op : Opcode}
    (hretires : c.Retires op c') (hfits : c'.Fits capacity) :
    ∃ d', d.Retires op d' ∧ Mirrors capacity c' d' := by
  have hfree : c'.outlet.Holds ⊤ := by
    have hprint := (h.free.print_of_le (c.machine.printed op) le_top).2
    rwa [hretires.print] at hprint
  have hroom : (d.outlet.received.size : ℕ∞) +
      ((c.machine.printed op).flatMap String.utf8EncodeChar).length ≤ capacity := by
    rw [h.received, ← Nat.cast_add, ← hretires.size_received]
    exact hfits
  obtain ⟨hprint, hlimited⟩ := h.limited.print_of_le _ hroom
  have hretires' : d.Retires op { d.announce with
      machine := d.machine.next op
      outlet := (d.outlet.print (c.machine.printed op)).1 } := by
    refine ⟨?_, ?_, hretires.implemented, rfl, ?_, rfl⟩
    · rw [h.machine, hretires.running]
    · rw [h.machine, hretires.decoded]
    · rw [h.machine]
      exact Prod.ext rfl hprint
  refine ⟨_, hretires', ?_, ?_, hfree, hlimited⟩
  · rw [hretires'.machine, hretires.machine, h.machine]
  · rw [← Array.toList_inj, hretires'.received, hretires.received, h.machine, h.received]

theorem of_fails (h : Mirrors capacity c d) {e : Computer δ} {fault : Fault}
    (hfails : c.Fails fault e) : d.Fails fault d.announce ∧ Mirrors capacity e d.announce := by
  have hfault := hfails.ne_output h.free
  refine ⟨hfails.again hfault h.machine, ?_, ?_, ?_, ?_⟩
  · rw [machine_announce, hfails.machine_eq, h.machine]
  · rw [outlet_announce, hfails.outlet_eq hfault, h.received]
  · rw [hfails.outlet_eq hfault]
    exact h.free
  · rw [outlet_announce]
    exact h.limited

/-- A step whose output fits is the same for both. -/
theorem step_of_fits (h : Mirrors capacity c d) (hfits : c.step.1.Fits capacity) :
    d.step.2 = c.step.2 ∧ Mirrors capacity c.step.1 d.step.1 := by
  rcases c.step_cases with
    ⟨hhalted, hstep⟩ | ⟨op, c', hretires, hstep⟩ | ⟨fault, e, hrun, hfails, hstep⟩
  · rw [hstep, step_of_halted (h.machine ▸ hhalted)]
    exact ⟨rfl, h⟩
  · rw [hstep] at hfits ⊢
    obtain ⟨d', hretires', hmirrors⟩ := h.of_retires hretires hfits
    rw [hretires'.step]
    exact ⟨rfl, hmirrors⟩
  · obtain ⟨hfails', hmirrors⟩ := h.of_fails hfails
    rw [hstep, hfails'.step (h.machine ▸ hrun)]
    exact ⟨rfl, hmirrors⟩

theorem steps (h : Mirrors capacity c d) {k : Nat} (hfits : (c.steps k).Fits capacity) :
    Mirrors capacity (c.steps k) (d.steps k) := by
  induction k with
  | zero => exact h
  | succ k ih =>
    have hbefore : (c.steps k).Fits capacity :=
      (Nat.cast_le.2 (c.size_received_steps_mono k.le_succ)).trans hfits
    rw [steps_succ] at hfits ⊢
    rw [steps_succ]
    exact ((ih hbefore).step_of_fits hfits).2

theorem of_ends (h : Mirrors capacity c d) {e : Computer δ} {result : Except Fault Unit}
    (hend : c.Ends e result) : ∃ e', d.Ends e' result ∧ Mirrors capacity e e' := by
  cases hend with
  | halted halted => exact ⟨d, .halted (h.machine ▸ halted), h⟩
  | spent running spent => exact ⟨d, .spent (h.machine ▸ running) (h.machine ▸ spent), h⟩
  | failed running allowed fails =>
    obtain ⟨hfails, hmirrors⟩ := h.of_fails fails
    exact ⟨_, .failed (h.machine ▸ running) (h.machine ▸ allowed) hfails, hmirrors⟩

/-- An execution whose output fits is the same for both. -/
theorem advance_of_fits (h : Mirrors capacity c d) {fuel : Nat}
    (hfits : (c.advance fuel).1.Fits capacity) :
    (d.advance fuel).2 = (c.advance fuel).2 ∧
      Mirrors capacity (c.advance fuel).1 (d.advance fuel).1 := by
  induction fuel generalizing c d with
  | zero => exact ⟨rfl, h⟩
  | succ fuel ih =>
    rcases c.proceeds_or_ends with hgo | ⟨e, result, hend⟩
    · rw [advance_of_proceeds hgo] at hfits ⊢
      have hstep : c.step.1.Fits capacity :=
        (Nat.cast_le.2 (c.step.1.received_prefix_advance fuel).length_le).trans hfits
      obtain ⟨hresult, hmirrors⟩ := h.step_of_fits hstep
      rw [advance_of_proceeds (h.proceeds hresult hgo)]
      exact ih hmirrors hfits
    · obtain ⟨e', hend', hmirrors⟩ := h.of_ends hend
      rw [advance_of_ends hend, advance_of_ends hend']
      exact ⟨rfl, hmirrors⟩

/-- A run whose output fits is the same for both, if the devices can be flushed. -/
theorem shown_run?_of_fits (h : Mirrors capacity c d) (fuel : Nat)
    (hfits : (c.advance fuel).1.Fits capacity) (hflushes : Flushes c.outlet.device)
    (hflushes' : Flushes d.outlet.device) : (d.run? fuel).map shown = (c.run? fuel).map shown := by
  obtain ⟨hresult, hend⟩ := h.advance_of_fits hfits
  have hfinish (result : Except Fault Unit) :
      shown ((d.advance fuel).1.finish result) = shown ((c.advance fuel).1.finish result) := by
    simp only [shown, machine_finish, outlet_finish, Outlet.received_flush, hend.machine,
      hend.received, finish_of_flushes (flushes_advance hflushes fuel),
      finish_of_flushes (flushes_advance hflushes' fuel)]
  rw [run?_eq_map, run?_eq_map, hresult, Option.map_map, Option.map_map]
  exact Option.map_congr fun result _ ↦ hfinish result

end

section

variable {capacity : ℕ} {c : Computer δ} {d : Computer ε}

/-- A step that prints more than fits is refused where it does not fit. -/
theorem step_of_overflow (h : Mirrors capacity c d)
    (hover : capacity < c.step.1.outlet.received.size) :
    ∃ reason e, d.machine.halted = false ∧ d.Fails (.output reason) e ∧
      e.outlet.received.toList = c.step.1.outlet.received.toList.take capacity := by
  have hfits : c.outlet.received.size ≤ capacity := Nat.cast_le.1 h.fits
  -- Only a step that retires something adds to the output.
  rcases c.step_cases with ⟨-, hstep⟩ | ⟨op, c', hretires, hstep⟩ | ⟨fault, e, -, hfails, hstep⟩
  · rw [hstep] at hover
    exact absurd hfits (Nat.not_le_of_lt hover)
  · rw [hstep] at hover ⊢
    rw [hretires.size_received, ← h.received] at hover
    obtain ⟨reason, hreason, hreceived⟩ := h.limited.print_of_lt _ hover
    refine ⟨reason, { d.announce with outlet := (d.outlet.print (c.machine.printed op)).1 }, ?_,
      .refused ?_ hretires.implemented ?_, ?_⟩
    · rw [h.machine, hretires.running]
    · rw [h.machine, hretires.decoded]
    · rw [h.machine]
      exact Prod.ext rfl hreason
    · rw [hreceived, hretires.received, h.received]
  · rw [hstep, hfails.outlet_eq (hfails.ne_output h.free)] at hover
    exact absurd hfits (Nat.not_le_of_lt hover)

/-- An execution that prints more than fits is refused where it does not fit. -/
theorem advance_of_overflow (h : Mirrors capacity c d) {fuel : Nat}
    (hover : capacity < (c.advance fuel).1.outlet.received.size) :
    ∃ reason, (d.advance fuel).2 = some (.error (.output reason)) ∧
      (d.advance fuel).1.outlet.received.toList =
        (c.advance fuel).1.outlet.received.toList.take capacity := by
  induction fuel generalizing c d with
  | zero => exact absurd (Nat.cast_le.1 h.fits) (Nat.not_le_of_lt hover)
  | succ fuel ih =>
    rcases c.proceeds_or_ends with hgo | ⟨e, result, hend⟩
    · rw [advance_of_proceeds hgo] at hover ⊢
      by_cases hfits : c.step.1.Fits capacity
      · obtain ⟨hresult, hmirrors⟩ := h.step_of_fits hfits
        rw [advance_of_proceeds (h.proceeds hresult hgo)]
        exact ih hmirrors hover
      · have hstep : capacity < c.step.1.outlet.received.size :=
          Nat.lt_of_not_le fun hle ↦ hfits (Nat.cast_le.2 hle)
        obtain ⟨reason, e, hrun, hfails, hreceived⟩ := h.step_of_overflow hstep
        have hend : d.Ends e (.error (.output reason)) :=
          .failed hrun (h.machine ▸ hgo.allowed) hfails
        obtain ⟨rest, hrest⟩ := c.step.1.received_prefix_advance fuel
        rw [advance_of_ends hend]
        refine ⟨reason, rfl, ?_⟩
        rw [hreceived, ← hrest, List.take_append_of_le_length]
        exact hstep.le
    · obtain ⟨e', -, hmirrors⟩ := h.of_ends hend
      rw [advance_of_ends hend] at hover
      exact absurd (Nat.cast_le.1 hmirrors.fits) (Nat.not_le_of_lt hover)

end

end Mirrors

/-! ## Truncation -/

/-- A device that takes everything beside one that holds `capacity` bytes in all: while the output
fits, the steps and their results are the same. The step that prints more than fits fails on the
second device, which then holds the leading part of the output. So a run there comes to the same end
if its output fits and the devices can be flushed, and else fails for the device. -/
theorem steps_of_capacity (c : Computer δ) (d : Computer ε) (capacity : ℕ)
    (hmachine : d.machine = c.machine) (hreceived : d.outlet.received = c.outlet.received)
    (hfree : c.outlet.Holds ⊤) (hlimited : d.outlet.Holds capacity) :
    (∀ k, (c.steps k).outlet.received.size ≤ capacity →
      (∀ i < k, (d.steps i).step.2 = (c.steps i).step.2) ∧
        (d.steps k).machine = (c.steps k).machine ∧
        (d.steps k).outlet.received = (c.steps k).outlet.received) ∧
    (∀ k, (c.steps k).outlet.received.size ≤ capacity →
      capacity < (c.steps (k + 1)).outlet.received.size →
        ∃ reason, (d.steps k).step.2 = .error (.output reason) ∧
          (d.steps (k + 1)).machine = (c.steps k).machine ∧
          (d.steps (k + 1)).outlet.received.toList =
            (c.steps (k + 1)).outlet.received.toList.take capacity) ∧
    ∀ fuel,
      ((c.advance fuel).1.outlet.received.size ≤ capacity →
        (Flushes c.outlet.device → Flushes d.outlet.device →
          (d.run? fuel).map shown = (c.run? fuel).map shown) ∧
        ∀ reason, (c.advance fuel).2 = some (.ok ()) →
          (d.advance fuel).1.outlet.flush.2 = some reason →
            ∃ d', d.run? fuel = some (d', .error (.output reason))) ∧
      (capacity < (c.advance fuel).1.outlet.received.size →
        ∃ d' reason, d.run? fuel = some (d', .error (.output reason)) ∧
          d'.outlet.received.toList =
            (c.advance fuel).1.outlet.received.toList.take capacity) := by
  have hmirrors : Mirrors capacity c d := ⟨hmachine, hreceived, hfree, hlimited⟩
  have hsteps (k : ℕ) (hk : (c.steps k).outlet.received.size ≤ capacity) :
      Mirrors capacity (c.steps k) (d.steps k) := hmirrors.steps (Nat.cast_le.2 hk)
  refine ⟨?_, ?_, ?_⟩
  · intro k hk
    refine ⟨?_, (hsteps k hk).machine, (hsteps k hk).received⟩
    intro i hi
    have hnext : (c.steps (i + 1)).outlet.received.size ≤ capacity :=
      (c.size_received_steps_mono hi).trans hk
    have hbefore : (c.steps i).outlet.received.size ≤ capacity :=
      (c.size_received_steps_mono i.le_succ).trans hnext
    rw [steps_succ] at hnext
    exact ((hsteps i hbefore).step_of_fits (Nat.cast_le.2 hnext)).1
  · intro k hk hover
    rw [steps_succ] at hover ⊢
    obtain ⟨reason, e, hrun, hfails, htaken⟩ := (hsteps k hk).step_of_overflow hover
    rw [steps_succ, hfails.step hrun]
    exact ⟨reason, rfl, hfails.machine_eq.trans (hsteps k hk).machine, htaken⟩
  · intro fuel
    constructor
    · intro hfits
      constructor
      · exact hmirrors.shown_run?_of_fits fuel (Nat.cast_le.2 hfits)
      · intro reason hok hflush
        obtain ⟨hresult, -⟩ := hmirrors.advance_of_fits (Nat.cast_le.2 hfits)
        refine ⟨((d.advance fuel).1.finish (.ok ())).1, ?_⟩
        rw [run?_eq_map, hresult, hok, Option.map_some]
        exact congrArg some (Prod.ext rfl (by rw [finish_ok, hflush]))
    · intro hover
      obtain ⟨reason, hresult, htaken⟩ := hmirrors.advance_of_overflow hover
      refine ⟨((d.advance fuel).1.finish (.error (.output reason))).1, reason, ?_, htaken⟩
      rw [run?_eq_map, hresult]
      rfl

/-- A device with room for four bytes takes a number of three digits and the first byte of a
character of two. -/
theorem steps_of_capacity_of_cut_character :
    let program : List UInt8 :=
      [0b10000010, 0, 200, 0b01000111, 0, 0b01001000, 0, 0b00000001]
    let machine := (Machine.ofSettings {}).place program
    let c : Computer Container := { machine, outlet := { device := {} } }
    let d : Computer Container := { machine, outlet := { device := { room := some 4 } } }
    (d.steps 1).step.2 = .ok () ∧ (d.steps 2).outlet.received = #[50, 48, 48] ∧
      (∃ reason, (d.steps 2).step.2 = .error (.output reason)) ∧
      (d.steps 3).machine = (c.steps 2).machine ∧
      (d.steps 3).outlet.received.toList = [50, 48, 48, 195] ∧
      (∃ d' reason, d.run? 9 = some (d', .error (.output reason))) ∧
      (d.run? 2).map shown = (c.run? 2).map shown := by
  intro program machine c d
  have hfree : c.outlet.Holds ⊤ := Container.holds_left {}
  have hlimited : d.outlet.Holds 4 := Container.holds_left { room := some 4 }
  have hrun : (c.steps 1).step.2 = .ok () ∧ (c.steps 2).outlet.received = #[50, 48, 48] ∧
      (c.steps 3).outlet.received = #[50, 48, 48, 195, 136] ∧
      (c.advance 2).1.outlet.received.size = 3 ∧ (c.advance 9).1.outlet.received.size = 5 := by
    decide +kernel
  obtain ⟨hprints, hnumber, hcharacter, hshort, hlong⟩ := hrun
  obtain ⟨hsame, hcut, hruns⟩ := steps_of_capacity c d 4 rfl rfl hfree hlimited
  obtain ⟨hresults, -, hreceived⟩ := hsame 2 (by rw [hnumber]; decide)
  obtain ⟨reason, hrefused, hkept, htaken⟩ :=
    hcut 2 (by rw [hnumber]; decide) (by rw [hcharacter]; decide)
  obtain ⟨d', reason', hfails, -⟩ := (hruns 9).2 (by rw [hlong]; decide)
  refine ⟨?_, ?_, ⟨reason, hrefused⟩, hkept, ?_, ⟨d', reason', hfails⟩, ?_⟩
  · rw [hresults 1 (by decide), hprints]
  · rw [hreceived, hnumber]
  · rw [htaken, hcharacter]
    rfl
  · apply ((hruns 2).1 (by rw [hshort]; decide)).1
    · exact Container.device_flushes rfl
    · exact Container.device_flushes rfl

end OctetMachine.Computer
