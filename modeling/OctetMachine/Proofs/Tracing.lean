import OctetMachine.Proofs.Atomicity
import OctetMachine.Proofs.Budget
import OctetMachine.Proofs.History

/-!
# Trace lines

A tracing machine writes a line for every cycle that it begins, before it looks at the operation and
after it was found to be neither halted nor out of budget. So the lines of a run are those of the
computers on which its cycles began, one for each instruction that it retired and one more if it
ended in the middle of a cycle. All numerals in a line have full width, so the line determines what
it shows.
-/

namespace OctetMachine

/-! ## What a line shows -/

namespace Numeral

theorem hexValue?_toUpper_digitChar {d : Nat} (h : d < 16) :
    hexValue? (Nat.digitChar d).toUpper = some d := by
  decide +revert

theorem toList_upperHex (b : UInt8) :
    (upperHex b).toList =
      [(Nat.digitChar (b.toNat / 16)).toUpper, (Nat.digitChar (b.toNat % 16)).toUpper] := by
  have hhigh : b.toNat / 16 % 16 = b.toNat / 16 := by
    have hlt := b.toNat_lt
    omega
  rw [upperHex, String.toList_ofList]
  simp only [fixedDigits, List.nil_append, List.cons_append, List.map_cons, List.map_nil, hhigh]

/-- The two digits are read back as the halves of the byte. -/
theorem upperHex_inj {a b : UInt8} : upperHex a = upperHex b ↔ a = b := by
  constructor
  · intro h
    have hread (c : UInt8) : (upperHex c).toList.map hexValue? =
        [some (c.toNat / 16), some (c.toNat % 16)] := by
      have hlt := c.toNat_lt
      rw [toList_upperHex, List.map_cons, List.map_singleton,
        hexValue?_toUpper_digitChar (by omega), hexValue?_toUpper_digitChar (by omega)]
    have hhalves := hread a
    rw [h, hread b] at hhalves
    simp only [List.cons.injEq, Option.some.injEq, and_true] at hhalves
    apply UInt8.toNat_inj.1
    omega
  · exact congrArg upperHex

theorem upperHex_append_inj {a b : UInt8} {s t : String} :
    upperHex a ++ s = upperHex b ++ t ↔ a = b ∧ s = t := by
  constructor
  · intro h
    rw [← String.toList_inj, String.toList_append, String.toList_append] at h
    obtain ⟨hdigits, hrest⟩ := List.append_inj h (by rw [toList_upperHex, toList_upperHex]; rfl)
    exact ⟨upperHex_inj.1 (String.toList_inj.1 hdigits), String.toList_inj.1 hrest⟩
  · rintro ⟨rfl, rfl⟩
    rfl

theorem join_upperHex_inj {l l' : List UInt8} (h : l.length = l'.length) :
    String.join (l.map fun v ↦ " " ++ upperHex v) =
      String.join (l'.map fun v ↦ " " ++ upperHex v) ↔ l = l' := by
  induction l generalizing l' with
  | nil => simp [List.eq_nil_of_length_eq_zero h.symm]
  | cons v l ih =>
    obtain ⟨v', l', rfl⟩ := List.exists_cons_of_length_eq_add_one h.symm
    simp only [List.map_cons, String.join_cons, String.append_assoc, String.append_right_inj,
      upperHex_append_inj, ih (Nat.succ.inj h), List.cons.injEq]

end Numeral

theorem Registers.toList_inj {r s : Registers} : r.toList = s.toList ↔ r = s := by
  constructor
  · intro h
    obtain ⟨cells⟩ := r
    obtain ⟨cells'⟩ := s
    rw [show cells = cells' from Vector.toList_inj.1 h]
  · exact congrArg toList

namespace Machine

/-- A line shows the program counter, the window there and the registers, and nothing else. -/
theorem traceLine_inj {m m' : Machine} :
    m.traceLine = m'.traceLine ↔
      m.counter = m'.counter ∧ m.fetch = m'.fetch ∧ m.registers = m'.registers := by
  have hlength : m.registers.toList.length = m'.registers.toList.length := by
    rw [Registers.toList, Registers.toList, Vector.length_toList, Vector.length_toList]
  have hwindow {i j : Instruction} : i = j ↔ i.opcode = j.opcode ∧ i.a = j.a ∧ i.b = j.b := by
    rw [Instruction.mk.injEq]
  -- The definition is unfolded in place: its equation takes long to derive for so many appends.
  delta traceLine
  simp only [String.append_assoc]
  rw [String.append_right_inj, Numeral.upperHex_append_inj, String.append_right_inj,
    Numeral.upperHex_append_inj, String.append_right_inj, Numeral.upperHex_append_inj,
    String.append_right_inj, Numeral.upperHex_append_inj, String.append_right_inj,
    Numeral.join_upperHex_inj hlength, Registers.toList_inj, hwindow, and_assoc, and_assoc]

end Machine

/-! ## Lines of a run -/

namespace Computer

variable {δ : Type}

theorem traceLines_announce (c : Computer δ) :
    c.announce.journal.traceLines =
      c.journal.traceLines ++ if c.machine.tracing then [c.machine.traceLine] else [] := by
  have htrace : (c.journal.trace c.machine.traceLine).traceLines =
      c.journal.traceLines ++ [c.machine.traceLine] := by
    simp [Journal.trace, Journal.traceLines]
  have hannounce : c.announce.journal.traceLines =
      (if c.machine.tracing then c.journal.trace c.machine.traceLine
        else c.journal).traceLines := by
    simp only [announce]
    split
    · rfl
    · exact Journal.traceLines_log _ _
  rw [hannounce]
  split
  · exact htrace
  · exact (List.append_nil _).symm

variable [Device δ]

theorem Fails.journal {c e : Computer δ} {fault : Fault} (h : c.Fails fault e) :
    e.journal = c.announce.journal := by
  cases h <;> rfl

theorem tracing_step (c : Computer δ) : c.step.1.machine.tracing = c.machine.tracing := by
  rcases c.step_cases with ⟨-, hstep⟩ | ⟨op, c', hretires, hstep⟩ | ⟨fault, e, -, hfails, hstep⟩
  · rw [hstep]
  · rw [hstep, hretires.machine, Machine.next]
  · rw [hstep, hfails.machine_eq]

/-- One cycle writes one line, whether it comes to its end or not. -/
theorem traceLines_step {c : Computer δ} (hrun : c.machine.halted = false)
    (htracing : c.machine.tracing = true) :
    c.step.1.journal.traceLines = c.journal.traceLines ++ [c.machine.traceLine] := by
  have hannounce := c.traceLines_announce
  rw [if_pos htracing] at hannounce
  rcases exists_retires_or_fails hrun with ⟨op, c', hretires⟩ | ⟨fault, e, hfails⟩
  · rw [hretires.step, hretires.journal, hannounce]
  · rw [hfails.step hrun, hfails.journal, hannounce]

/-- What the first `n` steps write if none of them begins on a halted computer. -/
def linesOfSteps (c : Computer δ) (n : Nat) : List String :=
  (List.range n).map fun i ↦ (c.steps i).machine.traceLine

theorem linesOfSteps_succ (c : Computer δ) (n : Nat) :
    c.linesOfSteps (n + 1) = c.linesOfSteps n ++ [(c.steps n).machine.traceLine] := by
  rw [linesOfSteps, List.range_succ, List.map_append, linesOfSteps, List.map_singleton]

theorem tracing_steps (c : Computer δ) (n : Nat) :
    (c.steps n).machine.tracing = c.machine.tracing := by
  induction n with
  | zero => rfl
  | succ n ih => rw [steps_succ, tracing_step, ih]

theorem traceLines_steps {c : Computer δ} (htracing : c.machine.tracing = true) {n : Nat}
    (hrun : ∀ i < n, (c.steps i).machine.halted = false) :
    (c.steps n).journal.traceLines = c.journal.traceLines ++ c.linesOfSteps n := by
  induction n with
  | zero => exact (List.append_nil _).symm
  | succ n ih =>
    rw [steps_succ,
      traceLines_step (hrun n n.lt_succ_self) ((c.tracing_steps n).trans htracing),
      ih fun i hi ↦ hrun i (Nat.lt_succ_of_lt hi), List.append_assoc, ← linesOfSteps_succ]

/-! ## Cycles that a run begins -/

/-- A run with this result, which has come to `c`, ended in the cycle that it began there: at a byte
that is no operation, at an operation that cannot be executed, or at a print that the device
refused. -/
inductive BreaksOff (c : Computer δ) : Except Fault Unit → Prop where
  | unknown (counter opcode : UInt8) : BreaksOff c (.error (.unknownOpcode counter opcode))
  | unimplemented (opcode : UInt8) : BreaksOff c (.error (.unimplementedOpcode opcode))
  | refused {op : Opcode} {reason : String} (running : c.machine.halted = false)
      (decoded : Opcode.ofByte? c.machine.fetch.opcode = some op) (prints : op = .prn ∨ op = .pra)
      (refuses : (c.outlet.print (c.machine.printed op)).2 = some reason) :
      BreaksOff c (.error (.output reason))

theorem Fails.breaksOff {c e : Computer δ} {fault : Fault} (h : c.Fails fault e)
    (hrun : c.machine.halted = false) : c.BreaksOff (.error fault) := by
  cases h with
  | unknown => exact .unknown _ _
  | unimplemented => exact .unimplemented _
  | refused decoded _ print =>
    have hrefuses := congrArg Prod.snd print
    exact .refused hrun decoded (prints_of_refused hrefuses) hrefuses

/-- A fault of the flush at a halt is no end in the middle of a cycle. -/
theorem not_breaksOff_finish_of_halted {c : Computer δ} (hhalted : c.machine.halted = true) :
    ¬ c.BreaksOff (c.finish (.ok ())).2 := by
  rw [finish_ok]
  intro hbreaks
  cases hflush : c.outlet.flush.2 with
  | none =>
    rw [hflush] at hbreaks
    cases hbreaks
  | some reason =>
    rw [hflush] at hbreaks
    cases hbreaks with
    | refused running => cases running.symm.trans hhalted

theorem traceLines_finish (c : Computer δ) (result : Except Fault Unit) :
    (c.finish result).1.journal.traceLines = c.journal.traceLines :=
  Journal.traceLines_log _ _

/-- Where an execution ends, a cycle is begun if it is broken off, and none otherwise. -/
theorem Ends.breaksOff_or {c e : Computer δ} {ending : Except Fault Unit} (h : c.Ends e ending)
    (htracing : c.machine.tracing = true) (fuel : Nat) :
    c.BreaksOff (e.finish ending).2 ∧ c.attempts (fuel + 1) = [c] ∧
        e.journal.traceLines = c.journal.traceLines ++ [c.machine.traceLine] ∨
      ¬ c.BreaksOff (e.finish ending).2 ∧ c.attempts (fuel + 1) = [] ∧
        e.journal.traceLines = c.journal.traceLines := by
  cases h with
  | halted halted =>
    exact .inr ⟨not_breaksOff_finish_of_halted halted, by rw [attempts, if_pos halted], rfl⟩
  | spent running spent =>
    refine .inr ⟨?_, ?_, rfl⟩
    · rw [finish_error]
      intro hbreaks
      cases hbreaks
    · rw [attempts, if_neg (by simp [running]), spent]
  | failed running allowed fails =>
    refine .inl ⟨?_, ?_, ?_⟩
    · rw [finish_error]
      exact fails.breaksOff running
    · rw [attempts, if_neg (by simp [running]), allowed, fails.step running]
    · have hline := traceLines_step running htracing
      rwa [fails.step running] at hline

/-- An execution goes on as long as its fuel lasts, or comes to an end before. -/
theorem proceeds_or_exists_ends (c : Computer δ) (fuel : Nat) :
    (∀ i < fuel, (c.steps i).Proceeds) ∨
      ∃ k < fuel, (∀ i < k, (c.steps i).Proceeds) ∧ ∃ e ending, (c.steps k).Ends e ending := by
  induction fuel with
  | zero => exact .inl fun i hi ↦ absurd hi i.not_lt_zero
  | succ fuel ih =>
    rcases ih with hcourse | ⟨k, hk, hends⟩
    · rcases (c.steps fuel).proceeds_or_ends with hgo | hend
      · exact .inl (Nat.forall_lt_succ_right.2 ⟨hcourse, hgo⟩)
      · exact .inr ⟨fuel, fuel.lt_succ_self, hcourse, hend⟩
    · exact .inr ⟨k, Nat.lt_succ_of_lt hk, hends⟩

theorem attempts_add {c : Computer δ} {k : Nat} (h : ∀ i < k, (c.steps i).Proceeds)
    (fuel : Nat) :
    c.attempts (k + fuel) = (List.range k).map c.steps ++ (c.steps k).attempts fuel := by
  induction k generalizing fuel with
  | zero => rw [Nat.zero_add]; rfl
  | succ k ih =>
    have hlast : (c.steps k).Proceeds := h k k.lt_succ_self
    rw [Nat.succ_add_eq_add_succ, ih (fun i hi ↦ h i (Nat.lt_succ_of_lt hi)),
      attempts_of_proceeds hlast, List.range_succ, List.map_append, List.append_assoc, steps_succ]
    rfl

/-- Every cycle that an execution goes on after retires one instruction. -/
theorem length_retirements_add {c : Computer δ} {k : Nat} (h : ∀ i < k, (c.steps i).Proceeds)
    (fuel : Nat) :
    (c.retirements (k + fuel)).length = k + ((c.steps k).retirements fuel).length := by
  induction k generalizing fuel with
  | zero => rw [Nat.zero_add, Nat.zero_add, steps_zero]
  | succ k ih =>
    have hlast : (c.steps k).Proceeds := h k k.lt_succ_self
    obtain ⟨op, hretires⟩ := hlast.exists_retires
    rw [Nat.succ_add_eq_add_succ, ih fun i hi ↦ h i (Nat.lt_succ_of_lt hi),
      retirements_of_proceeds hlast, hretires.retirement?, steps_succ, Nat.succ_add_eq_add_succ]
    rfl

theorem statistics_retired_steps {c : Computer δ} {k : Nat} (h : ∀ i < k, (c.steps i).Proceeds) :
    (c.steps k).machine.statistics.retired = c.machine.statistics.retired + UInt64.ofNat k := by
  induction k with
  | zero => exact (UInt64.add_zero _).symm
  | succ k ih =>
    obtain ⟨op, hretires⟩ := (h k k.lt_succ_self).exists_retires
    rw [steps_succ, hretires.machine, Machine.retired_next,
      ih fun i hi ↦ h i (Nat.lt_succ_of_lt hi), UInt64.add_assoc, UInt64.ofNat_add]
    rfl

/-- The first `n` cycles of an execution were begun and wrote their lines, and as many instructions
were retired as its record has. -/
structure TracesCycles (c : Computer δ) (fuel n : Nat) : Prop where
  attempts : c.attempts fuel = (List.range n).map c.steps
  traceLines : (c.advance fuel).1.journal.traceLines = c.journal.traceLines ++ c.linesOfSteps n
  retired : (c.advance fuel).1.machine.statistics.retired =
    c.machine.statistics.retired + UInt64.ofNat (c.retirements fuel).length

/-- An execution whose fuel is used up. -/
theorem tracesCycles_of_proceeds {c : Computer δ} (htracing : c.machine.tracing = true) {fuel : Nat}
    (h : ∀ i < fuel, (c.steps i).Proceeds) :
    c.TracesCycles fuel fuel ∧ (c.retirements fuel).length = fuel := by
  have hadvance : c.advance fuel = (c.steps fuel, none) := advance_steps h 0
  have hlength : (c.retirements fuel).length = fuel := length_retirements_add h 0
  refine ⟨⟨?_, ?_, ?_⟩, hlength⟩
  · rw [← Nat.add_zero fuel, attempts_add h, Computer.attempts, List.append_nil, Nat.add_zero]
  · rw [hadvance]
    exact traceLines_steps htracing fun i hi ↦ (h i hi).running
  · rw [hadvance, hlength]
    exact statistics_retired_steps h

/-- An execution that comes to its end. -/
theorem exists_tracesCycles_of_ends {c e : Computer δ} {ending : Except Fault Unit} {k : Nat}
    (htracing : c.machine.tracing = true) (h : ∀ i < k, (c.steps i).Proceeds)
    (hend : (c.steps k).Ends e ending) {fuel : Nat} (hfuel : k < fuel) :
    ∃ n, c.TracesCycles fuel n ∧ (c.retirements fuel).length = k ∧
      ((c.steps k).BreaksOff (e.finish ending).2 ∧ n = k + 1 ∨
        ¬ (c.steps k).BreaksOff (e.finish ending).2 ∧ n = k) := by
  obtain ⟨rest, rfl⟩ := Nat.exists_eq_add_of_lt hfuel
  have hlines := traceLines_steps htracing fun i hi ↦ (h i hi).running
  have hadvance : c.advance (k + rest + 1) = (e, some ending) := by
    rw [advance_eq h hend, if_neg (Nat.not_le_of_lt hfuel)]
  have hlength : (c.retirements (k + rest + 1)).length = k := by
    rw [Nat.add_assoc, length_retirements_add h, retirements_of_ends hend]
    rfl
  have hretired : (c.advance (k + rest + 1)).1.machine.statistics.retired =
      c.machine.statistics.retired + UInt64.ofNat (c.retirements (k + rest + 1)).length := by
    rw [hadvance, hlength, hend.machine_eq, statistics_retired_steps h]
  rcases hend.breaksOff_or ((c.tracing_steps k).trans htracing) rest with
    ⟨hbreaks, hattempts, hline⟩ | ⟨hbreaks, hattempts, hline⟩
  · refine ⟨k + 1, ⟨?_, ?_, hretired⟩, hlength, .inl ⟨hbreaks, rfl⟩⟩
    · rw [Nat.add_assoc, attempts_add h, hattempts, List.range_succ, List.map_append,
        List.map_singleton]
    · rw [hadvance, hline, hlines, linesOfSteps_succ, List.append_assoc]
  · refine ⟨k, ⟨?_, ?_, hretired⟩, hlength, .inr ⟨hbreaks, rfl⟩⟩
    · rw [Nat.add_assoc, attempts_add h, hattempts, List.append_nil]
    · rw [hadvance, hline, hlines]

/-- A tracing computer writes one line for each cycle that it begins, in their order, that of the
machine before the cycle. A run writes as many lines as it retires instructions, and one more if it
ends in the middle of a cycle. Two machines have the same line if and only if they agree in all that
it shows. -/
theorem traceLines_of_run (c : Computer δ) (htracing : c.machine.tracing = true) :
    (∀ fuel, ∃ n, c.TracesCycles fuel n ∧
      ((c.advance fuel).2 = none → n = (c.retirements fuel).length) ∧
      ∀ c' result, c.run? fuel = some (c', result) →
        c'.journal.traceLines = c.journal.traceLines ++ c.linesOfSteps n ∧
        c'.machine.statistics.retired =
          c.machine.statistics.retired + UInt64.ofNat (c.retirements fuel).length ∧
        ((c.steps (c.retirements fuel).length).BreaksOff result →
          n = (c.retirements fuel).length + 1) ∧
        (¬ (c.steps (c.retirements fuel).length).BreaksOff result →
          n = (c.retirements fuel).length)) ∧
    ∀ m m' : Machine, m.traceLine = m'.traceLine ↔
      m.counter = m'.counter ∧
      m.memory.read m.counter = m'.memory.read m'.counter ∧
      m.memory.read (m.counter + 1) = m'.memory.read (m'.counter + 1) ∧
      m.memory.read (m.counter + 2) = m'.memory.read (m'.counter + 2) ∧
      ∀ i : Register, m.registers.get i = m'.registers.get i := by
  constructor
  · intro fuel
    rcases c.proceeds_or_exists_ends fuel with hcourse | ⟨k, hk, hcourse, e, ending, hend⟩
    · obtain ⟨htraces, hlength⟩ := tracesCycles_of_proceeds htracing hcourse
      refine ⟨fuel, htraces, fun _ ↦ hlength.symm, ?_⟩
      intro c' result hrun
      rw [run?, show c.advance fuel = (c.steps fuel, none) from advance_steps hcourse 0] at hrun
      cases hrun
    · obtain ⟨n, htraces, hlength, hcount⟩ := exists_tracesCycles_of_ends htracing hcourse hend hk
      have hadvance : c.advance fuel = (e, some ending) := by
        rw [advance_eq hcourse hend, if_neg (Nat.not_le_of_lt hk)]
      refine ⟨n, htraces, ?_, ?_⟩
      · intro hnone
        rw [hadvance] at hnone
        cases hnone
      · intro c' result hrun
        have hfinish : e.finish ending = (c', result) := by
          rw [run?_eq hcourse hend, if_neg (Nat.not_le_of_lt hk)] at hrun
          exact Option.some.inj hrun
        have hlines := htraces.traceLines
        have hretired := htraces.retired
        rw [hadvance, ← traceLines_finish e ending, hfinish] at hlines
        rw [hadvance, ← machine_finish e ending, hfinish] at hretired
        rw [hfinish] at hcount
        rw [hlength] at hretired ⊢
        refine ⟨hlines, hretired, ?_, ?_⟩
        · rintro hbreaks
          exact (hcount.resolve_right fun h ↦ h.1 hbreaks).2
        · intro hbreaks
          exact (hcount.resolve_left fun h ↦ hbreaks h.1).2
  · intro m m'
    rw [Machine.traceLine_inj, Machine.fetch, Machine.fetch, Instruction.mk.injEq, and_assoc,
      and_assoc]
    have hregisters : m.registers = m'.registers ↔
        ∀ i : Register, m.registers.get i = m'.registers.get i :=
      ⟨fun h i ↦ by rw [h], Registers.ext_get⟩
    rw [hregisters]

/-- One instruction is retired, and then a print finds the device full. -/
theorem traceLines_of_run_of_full_device :
    let c := (ofSettings { tracing := true } ({ room := some 0 } : Container)).mapMachine
      fun m ↦ m.place [0b00000000, 0b01000111, 2]
    ∃ c', c.run? 3 = some (c', .error (.output "sink full")) ∧
      c'.machine.statistics.retired = 1 ∧
      c'.journal.traceLines =
        ["TRACE: 00 | 00 47 02 | 00 00 00 00 00 00 00 00",
          "TRACE: 01 | 47 02 00 | 00 00 00 00 00 00 00 00"] := by
  intro c
  have htracing : c.machine.tracing = true := rfl
  have hunwritten : c.journal.traceLines = [] := rfl
  have hfresh : c.machine.statistics.retired = 0 := rfl
  have hretirements : (c.retirements 3).length = 1 := by decide +kernel
  have hresult : (c.run? 3).map Prod.snd = some (.error (.output "sink full")) := by
    decide +kernel
  have hprint : Opcode.ofByte? (c.steps 1).machine.fetch.opcode = some .prn := by decide +kernel
  have hbreaks : (c.steps 1).BreaksOff (.error (.output "sink full")) :=
    .refused (by decide +kernel) hprint (.inl rfl) (by decide +kernel)
  have hlines : c.linesOfSteps 2 =
      ["TRACE: 00 | 00 47 02 | 00 00 00 00 00 00 00 00",
        "TRACE: 01 | 47 02 00 | 00 00 00 00 00 00 00 00"] := by
    decide +kernel
  clear_value c
  obtain ⟨⟨c', result⟩, hrun, rfl⟩ := Option.map_eq_some_iff.1 hresult
  obtain ⟨n, -, -, hends⟩ := (traceLines_of_run c htracing).1 3
  obtain ⟨hwritten, hretired, hcount, -⟩ := hends c' _ hrun
  rw [hretirements] at hretired hcount
  refine ⟨c', hrun, ?_, ?_⟩
  · rw [hretired, hfresh]
    rfl
  · rw [hwritten, hcount hbreaks, hunwritten, hlines]
    rfl

end Computer

end OctetMachine
