import OctetMachine.Computer.Execution
import OctetMachine.Machine.Listing

/-!
# The instruction cycle

A step fetches the window at the program counter, executes its operation, and does what the
operation left to be done. `advance` takes steps while there is fuel; more fuel never changes an
answer, and a run is an `advance` that came to an end, followed by a flush of the device.
-/

namespace OctetMachine.Computer

variable {δ : Type}

/-- Writes the state before an instruction to the journal of a computer that traces. -/
def trace (c : Computer δ) : Computer δ :=
  { c with
    journal := if c.machine.tracing then c.journal.trace c.machine.traceLine else c.journal }

variable [Device δ]

/-- One instruction; a halted machine does nothing. Only operations are logged. -/
def step (c : Computer δ) : Computer δ × Except Fault Unit :=
  if c.machine.halted then (c, .ok ())
  else
    let i := c.machine.fetch
    let c := c.trace
    match Opcode.ofByte? i.opcode with
    | none => (c, .error (.unknownOpcode c.machine.counter i.opcode))
    | some op =>
      match (c.log (.instruction c.machine.counter i)).execute op i with
      | (c, .error fault) => (c, .error fault)
      | (c, .ok effect) => (c.mapMachine fun m ↦ m.settle op i effect, .ok ())

/-- Takes at most `fuel` steps. The answer is how the execution ended, if it did: well at a halt,
else at the end of the budget or with the fault of a step. -/
def advance : Nat → Computer δ → Computer δ × Option (Except Fault Unit)
  | 0, c => (c, none)
  | fuel + 1, c =>
    if c.machine.halted then (c, some (.ok ()))
    else
      match c.machine.spentBudget? with
      | some limit => (c, some (.error (.instructionLimit limit)))
      | none =>
        match c.step with
        | (c, .error fault) => (c, some (.error fault))
        | (c, .ok ()) => advance fuel c

/-- Flushes the device at the end of an execution. A fault of the execution outranks one of the
flush. -/
def finish (c : Computer δ) (result : Except Fault Unit) : Computer δ × Except Fault Unit :=
  let (outlet, failure) := c.outlet.flush
  let result : Except Fault Unit := match result, failure with
    | .error fault, _ => .error fault
    | .ok (), some reason => .error (.output reason)
    | .ok (), none => .ok ()
  let event := match result with
    | .ok () => Event.halted c.machine.statistics.retired
    | .error fault => Event.aborted c.machine.counter fault
  ({ c with outlet }.log event, result)

/-- A run that ends before its fuel does. -/
def run? (fuel : Nat) (c : Computer δ) : Option (Computer δ × Except Fault Unit) :=
  match c.advance fuel with
  | (_, none) => none
  | (c, some result) => some (c.finish result)

theorem advance_add (m n : Nat) (c : Computer δ) :
    c.advance (m + n) =
      match c.advance m with
      | (c, none) => c.advance n
      | ended => ended := by
  induction m generalizing c with
  | zero => simp [advance]
  | succ m ih =>
    rw [Nat.succ_add_eq_add_succ, Nat.add_succ]
    simp only [advance]
    split
    · rfl
    · split
      · rfl
      · split
        · rfl
        · exact ih _

end OctetMachine.Computer
