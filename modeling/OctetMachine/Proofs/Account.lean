import OctetMachine.Proofs.History
import OctetMachine.Proofs.Placement

/-!
# The account of a session

A session is all that is done to a computer from outside since it was made: single steps, runs,
loads, and edits of anything in its machine but the counters. Its record keeps the computers on
which steps were begun, those inside runs among them, so the instructions that were retired are
known without the counters. Every way of going on keeps the counters equal to the counts of the
record.
-/

namespace OctetMachine

/-- The operations that count as of a kind when they retire. -/
def OpcodeKind.members : OpcodeKind → List Opcode
  | .alu => [.add, .mul, .inc, .dec, .cmp]
  | .load => [.ldi, .ld]
  | .stack => [.push, .pop]
  | .branch => [.call, .ret, .jmp, .jeq, .jne]
  | .io => [.prn, .pra]
  | .other => [.nop, .hlt]

/-- Operations that cannot be executed have a kind, but are no members of it. -/
theorem Opcode.mem_members_iff {op : Opcode} (himp : op.isImplemented = true) (kind : OpcodeKind) :
    op ∈ kind.members ↔ op.kind = kind := by
  cases op <;> cases himp <;> cases kind <;> decide

namespace Machine

/-- A change from outside to anything but the counters. -/
inductive Edit where
  | register (i : Register) (v : UInt8)
  | cell (address v : UInt8)
  | push (v : UInt8)
  | pop
  | counter (address : UInt8)
  | flags (flags : Flags)
  | halted (halted : Bool)
  | tracing (tracing : Bool)
  | budget (budget : Option UInt64)

def edit (m : Machine) : Edit → Machine
  | .register i v => { m with registers := m.registers.set i v }
  | .cell address v => { m with memory := m.memory.write address v }
  | .push v => m.push v
  | .pop => m.drop
  | .counter counter => { m with counter }
  | .flags flags => { m with flags }
  | .halted halted => { m with halted }
  | .tracing tracing => { m with tracing }
  | .budget budget => { m with budget }

@[simp] theorem statistics_edit (m : Machine) (e : Edit) :
    (m.edit e).statistics = m.statistics := by
  cases e <;> rfl

end Machine

/-- What can be done to a computer from outside. -/
inductive Action where
  | step
  /-- A run that ends before this fuel does. -/
  | run (fuel : Nat)
  | loadImage (image : List UInt8)
  | loadText (text : String)
  | loadFile (path : String) (text : Except String String)
  | edit (e : Machine.Edit)

namespace Retirement

/-- Whether a conditional jump goes to its target. -/
def taken? (r : Retirement) : Option Bool :=
  match r.op with
  | .jeq => some (r.before.flags == .equal)
  | .jne => some (r.before.flags != .equal)
  | _ => none

theorem isSome_taken? (r : Retirement) :
    r.taken?.isSome = decide (r.op ∈ [Opcode.jeq, Opcode.jne]) := by
  unfold taken?
  cases r.op <;> simp

/-- Every conditional jump was taken or not. -/
theorem countP_taken_add_countP_notTaken (log : List Retirement) :
    (log.countP fun r ↦ r.taken? == some true) + (log.countP fun r ↦ r.taken? == some false) =
      log.countP fun r ↦ r.op ∈ [.jeq, .jne] := by
  simp only [← isSome_taken?]
  induction log with
  | nil => rfl
  | cons r rest ih =>
    simp only [List.countP_cons, ← ih]
    rcases r.taken? with _ | _ | _ <;> simp <;> omega

/-- Every operation is of one kind. -/
theorem length_eq_sum_countP (log : List Retirement) :
    log.length = (log.countP fun r ↦ r.op.kind == .alu) + (log.countP fun r ↦ r.op.kind == .load) +
      (log.countP fun r ↦ r.op.kind == .stack) + (log.countP fun r ↦ r.op.kind == .branch) +
      (log.countP fun r ↦ r.op.kind == .io) + (log.countP fun r ↦ r.op.kind == .other) := by
  induction log with
  | nil => rfl
  | cons r rest ih =>
    simp only [List.countP_cons, List.length_cons, ih]
    cases r.op.kind <;> simp <;> omega

/-- The conditional jumps are branches. -/
theorem countP_conditional_le_countP_branch (log : List Retirement) :
    (log.countP fun r ↦ r.op ∈ [.jeq, .jne]) ≤
      log.countP fun r ↦ r.op ∈ OpcodeKind.branch.members := by
  apply List.countP_mono_left
  intro r _ hr
  have hop : r.op = .jeq ∨ r.op = .jne := by simpa using hr
  rcases hop with hop | hop <;> simp [hop, OpcodeKind.members]

end Retirement

/-! ## Counters and what they count -/

namespace Statistics

/-- The counters are the counts of what was retired, modulo their size. -/
structure Counts (s : Statistics) (log : List Retirement) : Prop where
  retired : s.retired = UInt64.ofNat log.length
  kinds : ∀ kind, s.count kind = UInt64.ofNat (log.countP fun r ↦ r.op.kind == kind)
  taken : s.taken = UInt64.ofNat (log.countP fun r ↦ r.taken? == some true)
  notTaken : s.notTaken = UInt64.ofNat (log.countP fun r ↦ r.taken? == some false)

theorem counts_nil : Counts {} [] := ⟨rfl, fun kind ↦ by cases kind <;> rfl, rfl, rfl⟩

theorem ofNat_countP_append {α : Type} (p : α → Bool) (log : List α) (a : α) :
    UInt64.ofNat ((log ++ [a]).countP p) =
      UInt64.ofNat (log.countP p) + if p a then 1 else 0 := by
  rw [List.countP_append, List.countP_singleton, UInt64.ofNat_add]
  split <;> rfl

/-- An instruction adds one to each counter it belongs to. -/
theorem Counts.next {m : Machine} {log : List Retirement} (h : m.statistics.Counts log)
    (op : Opcode) : (m.next op).statistics.Counts (log ++ [{ op, before := m }]) := by
  have hstatistics : (m.next op).statistics = (m.jumpStatistics op).retire op := rfl
  constructor
  · rw [Machine.retired_next, h.retired, List.length_append, UInt64.ofNat_add]
    rfl
  · intro kind
    rw [hstatistics, count_retire, Machine.count_jumpStatistics, h.kinds, ofNat_countP_append]
    simp only [beq_iff_eq, eq_comm (a := kind)]
  · rw [hstatistics, taken_retire, ofNat_countP_append, ← h.taken]
    cases op <;> cases hflags : m.flags <;>
      simp [Machine.jumpStatistics, countJump, Retirement.taken?, hflags]
  · rw [hstatistics, notTaken_retire, ofNat_countP_append, ← h.notTaken]
    cases op <;> cases hflags : m.flags <;>
      simp [Machine.jumpStatistics, countJump, Retirement.taken?, hflags]

/-! ### Counts below the size of a counter -/

section

variable {s : Statistics} {log : List Retirement} (h : s.Counts log)
  (hsize : log.length < UInt64.size)

theorem toNat_ofNat_countP (hsize : log.length < UInt64.size) (p : Retirement → Bool) :
    (UInt64.ofNat (log.countP p)).toNat = log.countP p :=
  UInt64.toNat_ofNat_of_lt' (Nat.lt_of_le_of_lt List.countP_le_length hsize)

include h hsize

theorem Counts.toNat_retired : s.retired.toNat = log.length := by
  rw [h.retired, UInt64.toNat_ofNat_of_lt' hsize]

theorem Counts.toNat_count (kind : OpcodeKind) :
    (s.count kind).toNat = log.countP fun r ↦ r.op.kind == kind := by
  rw [h.kinds, toNat_ofNat_countP hsize]

theorem Counts.toNat_taken : s.taken.toNat = log.countP fun r ↦ r.taken? == some true := by
  rw [h.taken, toNat_ofNat_countP hsize]

theorem Counts.toNat_notTaken :
    s.notTaken.toNat = log.countP fun r ↦ r.taken? == some false := by
  rw [h.notTaken, toNat_ofNat_countP hsize]

/-- The counters of the kinds sum to the counter of all instructions. -/
theorem Counts.toNat_retired_eq_sum :
    s.retired.toNat = s.alu.toNat + s.load.toNat + s.stack.toNat + s.branch.toNat + s.io.toNat +
      s.other.toNat := by
  rw [h.toNat_retired hsize, Retirement.length_eq_sum_countP]
  simp only [← h.toNat_count hsize]
  rfl

theorem Counts.toNat_taken_add_toNat_notTaken :
    s.taken.toNat + s.notTaken.toNat = log.countP fun r ↦ r.op ∈ [.jeq, .jne] := by
  rw [h.toNat_taken hsize, h.toNat_notTaken hsize, Retirement.countP_taken_add_countP_notTaken]

end

end Statistics

namespace Computer

variable {δ : Type}

/-- The counters of a computer are the counts of what was retired. -/
def Counts (c : Computer δ) (log : List Retirement) : Prop := c.machine.statistics.Counts log

theorem Places.statistics {c d : Computer δ} (h : c.Places d) :
    d.machine.statistics = c.machine.statistics := by
  rw [h.machine_eq]

variable [Device δ]

theorem Counts.step {c : Computer δ} {log : List Retirement} (h : c.Counts log) :
    c.step.1.Counts (log ++ c.retirement?.toList) := by
  unfold Counts
  rw [machine_step]
  cases hretirement : c.retirement? with
  | none => rwa [Option.toList_none, List.append_nil]
  | some r =>
    have hbefore : r.before = c.machine := (retirement?_eq_some_iff.1 hretirement).2
    rw [Option.toList_some, ← hbefore]
    exact Statistics.Counts.next (hbefore ▸ h) r.op

theorem Counts.advance {c : Computer δ} {log : List Retirement} (h : c.Counts log) (fuel : Nat) :
    (c.advance fuel).1.Counts (log ++ c.retirements fuel) := by
  induction fuel generalizing c log with
  | zero => rwa [retirements, attempts, List.filterMap_nil, List.append_nil]
  | succ fuel ih =>
    rcases c.proceeds_or_ends with hgo | ⟨e, result, hend⟩
    · rw [advance_of_proceeds hgo, retirements_of_proceeds hgo, ← List.append_assoc]
      exact ih h.step
    · rw [advance_of_ends hend, retirements_of_ends hend, List.append_nil]
      unfold Counts
      rwa [hend.machine_eq]

theorem isSome_retirement? (c : Computer δ) :
    c.retirement?.isSome = (!c.machine.halted && c.step.2.isOk) := by
  rcases c.step_cases with
    ⟨hhalted, -⟩ | ⟨op, c', hretires, hstep⟩ | ⟨fault, e, hrun, hfails, hstep⟩
  · rw [retirement?_of_halted hhalted, hhalted]
    rfl
  · rw [hretires.retirement?, hretires.running, hstep]
    rfl
  · rw [hfails.retirement? hrun, hrun, hstep]
    rfl

/-- A conditional jump that is taken goes to the value of its register, and another one behind its
own bytes. -/
theorem counter_step_of_taken? {c : Computer δ} {r : Retirement} (h : c.retirement? = some r) :
    (r.taken? = some true → c.step.1.machine.counter = r.before.operand r.before.fetch.a) ∧
      (r.taken? = some false → c.step.1.machine.counter = r.before.counter + 2) := by
  obtain ⟨hretires, hbefore⟩ := retirement?_eq_some_iff.1 h
  rw [hretires.machine, ← hbefore]
  change (_ → r.before.nextCounter r.op = _) ∧ (_ → r.before.nextCounter r.op = _)
  unfold Retirement.taken?
  cases r.op <;> simp [Machine.nextCounter] <;> simp_all

/-- A step that fails, or that a halted computer takes, leaves the machine as it was. -/
theorem machine_step_of_not_retired {c : Computer δ}
    (h : (!c.machine.halted && c.step.2.isOk) = false) : c.step.1.machine = c.machine := by
  have hnone : c.retirement? = none := by
    rw [← Option.not_isSome_iff_eq_none, isSome_retirement?, h]
    exact Bool.false_ne_true
  rw [machine_step, hnone, Option.map_none, Option.getD_none]

end Computer

/-! ## Sessions -/

/-- A computer and the computers on which steps were begun, in their order. -/
structure Session (δ : Type) where
  computer : Computer δ
  begun : List (Computer δ) := []

namespace Session

variable {δ : Type} [Device δ]

/-- What the steps of a session retired. -/
def retirements (s : Session δ) : List Retirement := s.begun.filterMap Computer.retirement?

/-- The session after an action; a run that does not end leaves none. -/
def act? (s : Session δ) : Action → Option (Session δ)
  | .step => some { computer := s.computer.step.1, begun := s.begun ++ [s.computer] }
  | .run fuel =>
    (s.computer.run? fuel).map fun (c, _) ↦
      { computer := c, begun := s.begun ++ s.computer.attempts fuel }
  | .loadImage image => some { s with computer := (s.computer.loadImage image).1 }
  | .loadText text => some { s with computer := (s.computer.loadText text).1 }
  | .loadFile path text => some { s with computer := (s.computer.loadFile path text).1 }
  | .edit e => some { s with computer := s.computer.mapMachine fun m ↦ m.edit e }

def acts? : Session δ → List Action → Option (Session δ)
  | s, [] => some s
  | s, action :: rest => (s.act? action).bind fun s ↦ s.acts? rest

/-- The counters are the counts of the record. -/
def Accounted (s : Session δ) : Prop := s.computer.Counts s.retirements

theorem Accounted.of_statistics {s : Session δ} (h : s.Accounted) {c : Computer δ}
    (hc : c.machine.statistics = s.computer.machine.statistics) :
    Accounted { s with computer := c } := by
  change c.machine.statistics.Counts s.retirements
  rw [hc]
  exact h

theorem retirements_append (c : Computer δ) (s : Session δ) (begun : List (Computer δ)) :
    retirements { computer := c, begun := s.begun ++ begun } =
      s.retirements ++ begun.filterMap Computer.retirement? :=
  List.filterMap_append

theorem retirements_concat (c : Computer δ) (s : Session δ) :
    retirements { computer := c, begun := s.begun ++ [s.computer] } =
      s.retirements ++ s.computer.retirement?.toList := by
  rw [retirements_append]
  cases hretirement : s.computer.retirement? <;> simp [hretirement]

theorem Accounted.act? {s s' : Session δ} {action : Action} (h : s.Accounted)
    (haction : s.act? action = some s') : s'.Accounted := by
  cases action with
  | step =>
    cases haction
    unfold Accounted
    rw [retirements_concat]
    exact Computer.Counts.step h
  | run fuel =>
    obtain ⟨⟨c, result⟩, hrun, rfl⟩ := Option.map_eq_some_iff.1 haction
    unfold Accounted Computer.Counts
    rw [retirements_append, Computer.machine_of_run? hrun]
    exact Computer.Counts.advance h fuel
  | loadImage image =>
    cases haction
    exact h.of_statistics (s.computer.places_loadImage image).statistics
  | loadText text =>
    cases haction
    exact h.of_statistics (s.computer.places_loadText text).statistics
  | loadFile path text =>
    cases haction
    exact h.of_statistics (s.computer.places_loadFile path text).statistics
  | edit e =>
    cases haction
    exact h.of_statistics (s.computer.machine.statistics_edit e)

theorem Accounted.acts? {s s' : Session δ} {actions : List Action} (h : s.Accounted)
    (hactions : s.acts? actions = some s') : s'.Accounted := by
  induction actions generalizing s with
  | nil =>
    cases hactions
    exact h
  | cons action rest ih =>
    obtain ⟨next, hnext, hrest⟩ := Option.bind_eq_some_iff.1 hactions
    exact ih (h.act? hnext) hrest

/-- A session with a computer that was just made. -/
def ofSettings (settings : Settings) (device : δ) : Session δ where
  computer := .ofSettings settings device

theorem accounted_ofSettings (settings : Settings) (device : δ) :
    (ofSettings settings device).Accounted :=
  Statistics.counts_nil

theorem retires_of_mem {s : Session δ} {r : Retirement} (h : r ∈ s.retirements) :
    ∃ c ∈ s.begun, c.Retires r.op c.step.1 ∧ r.before = c.machine := by
  obtain ⟨c, hc, hr⟩ := List.mem_filterMap.1 h
  exact ⟨c, hc, Computer.retirement?_eq_some_iff.1 hr⟩

theorem length_retirements (s : Session δ) :
    s.retirements.length = s.begun.countP fun c ↦ !c.machine.halted && c.step.2.isOk := by
  rw [retirements, List.length_filterMap_eq_countP]
  simp only [Computer.isSome_retirement?]

theorem countP_kind (s : Session δ) (kind : OpcodeKind) :
    (s.retirements.countP fun r ↦ r.op.kind == kind) =
      s.retirements.countP fun r ↦ r.op ∈ kind.members := by
  apply List.countP_congr
  intro r hr
  obtain ⟨c, -, hretires, -⟩ := retires_of_mem hr
  simp [Opcode.mem_members_iff hretires.implemented]

/-- The counters of a computer are an exact account of all that was done to it since it was made:
they count the steps that began on a running machine and succeeded, by the kinds of their operations
and, for conditional jumps, by whether they were taken. Other steps do not touch them. -/
theorem statistics_eq_counts (settings : Settings) (device : δ) (actions : List Action)
    (s : Session δ) (hactions : (ofSettings settings device).acts? actions = some s)
    (hsize : s.retirements.length < UInt64.size) :
    let counters := s.computer.machine.statistics
    counters.retired.toNat = (s.begun.countP fun c ↦ !c.machine.halted && c.step.2.isOk) ∧
      (∀ kind, (counters.count kind).toNat =
        s.retirements.countP fun r ↦ r.op ∈ kind.members) ∧
      counters.retired.toNat = counters.alu.toNat + counters.load.toNat + counters.stack.toNat +
        counters.branch.toNat + counters.io.toNat + counters.other.toNat ∧
      (counters.taken.toNat + counters.notTaken.toNat =
        s.retirements.countP fun r ↦ r.op ∈ [.jeq, .jne]) ∧
      counters.taken.toNat + counters.notTaken.toNat ≤ counters.branch.toNat ∧
      (counters.taken.toNat = s.retirements.countP fun r ↦ r.taken? == some true) ∧
      (∀ c ∈ s.begun, ∀ r, c.retirement? = some r →
        (r.taken? = some true → c.step.1.machine.counter = r.before.operand r.before.fetch.a) ∧
          (r.taken? = some false → c.step.1.machine.counter = r.before.counter + 2)) ∧
      ∀ c ∈ s.begun, (!c.machine.halted && c.step.2.isOk) = false →
        c.step.1.machine.statistics = c.machine.statistics := by
  intro counters
  have hcounts : counters.Counts s.retirements :=
    (accounted_ofSettings settings device).acts? hactions
  have hkinds (kind : OpcodeKind) :
      (counters.count kind).toNat = s.retirements.countP fun r ↦ r.op ∈ kind.members := by
    rw [hcounts.toNat_count hsize, countP_kind]
  have hjumps : counters.taken.toNat + counters.notTaken.toNat =
      s.retirements.countP fun r ↦ r.op ∈ [.jeq, .jne] :=
    hcounts.toNat_taken_add_toNat_notTaken hsize
  refine ⟨?_, hkinds, hcounts.toNat_retired_eq_sum hsize, hjumps, ?_, hcounts.toNat_taken hsize,
    ?_, ?_⟩
  · rw [hcounts.toNat_retired hsize, length_retirements]
  · calc
      counters.taken.toNat + counters.notTaken.toNat =
          s.retirements.countP fun r ↦ r.op ∈ [.jeq, .jne] := hjumps
      _ ≤ s.retirements.countP fun r ↦ r.op ∈ OpcodeKind.branch.members :=
          Retirement.countP_conditional_le_countP_branch _
      _ = counters.branch.toNat := (hkinds .branch).symm
  · exact fun c _ r hr ↦ Computer.counter_step_of_taken? hr
  · intro c _ hfailed
    rw [Computer.machine_step_of_not_retired hfailed]

/-- A comparison and two jumps, a print that finds the device full, a halt after an edit, and a step
that does nothing. -/
theorem statistics_eq_counts_of_full_device :
    let program : List UInt8 :=
      [0b10100111, 0, 1, 0b01010101, 2, 0, 0, 0b01010110, 2, 0b01000111, 2, 0b01000111, 2, 1]
    let actions : List Action := [.loadImage program, .edit (.register 2 7), .step, .run 9,
      .edit (.counter 13), .run 9, .step]
    ∃ s, (ofSettings {} ({ room := some 1 } : Container)).acts? actions = some s ∧
      s.begun.length = 7 ∧
      s.computer.machine.statistics.retired.toNat = 5 ∧
      s.computer.machine.statistics.alu.toNat = 1 ∧
      s.computer.machine.statistics.other.toNat = 1 ∧
      s.computer.machine.statistics.taken.toNat + s.computer.machine.statistics.notTaken.toNat = 2 ∧
      s.computer.machine.statistics.taken.toNat = 1 := by
  intro program actions
  obtain ⟨s, hs⟩ : ∃ s, (ofSettings {} ({ room := some 1 } : Container)).acts? actions = some s :=
    Option.isSome_iff_exists.1 (by decide +kernel)
  have hrecord : ((ofSettings {} ({ room := some 1 } : Container)).acts? actions).map
      (fun s ↦ (s.begun.length, s.retirements.map fun r ↦ (r.op, r.taken?))) =
      some (7, [(.cmp, none), (.jeq, some true), (.jne, some false), (.prn, none),
        (.hlt, none)]) := by
    decide +kernel
  rw [hs] at hrecord
  obtain ⟨hbegun, hlog⟩ := Prod.mk.inj (Option.some.inj hrecord)
  have hlength : s.retirements.length = 5 := by simpa using congrArg List.length hlog
  have hcount (p : Opcode × Option Bool → Bool) :
      (s.retirements.countP fun r ↦ p (r.op, r.taken?)) =
        List.countP p [(.cmp, none), (.jeq, some true), (.jne, some false), (.prn, none),
          (.hlt, none)] := by
    rw [← hlog, List.countP_map]
    rfl
  obtain ⟨hretired, hkinds, -, hjumps, -, htaken, -, -⟩ :=
    statistics_eq_counts {} _ actions s hs (by rw [hlength]; decide)
  refine ⟨s, hs, hbegun, ?_, ?_, ?_, ?_, ?_⟩
  · rw [hretired, ← length_retirements, hlength]
  · exact (hkinds .alu).trans (hcount fun e ↦ e.1 ∈ OpcodeKind.alu.members)
  · exact (hkinds .other).trans (hcount fun e ↦ e.1 ∈ OpcodeKind.other.members)
  · exact hjumps.trans (hcount fun e ↦ e.1 ∈ [.jeq, .jne])
  · exact htaken.trans (hcount fun e ↦ e.2 == some true)

end Session

end OctetMachine
