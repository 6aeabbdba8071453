import OctetMachine.Fault
import OctetMachine.Instruction
import OctetMachine.Program

/-!
# The journal

A run writes trace lines, when the machine traces, and log events, when the filter of the journal
admits them. Both go to one place, in the order in which they arise. No entry is ever read back.
-/

namespace OctetMachine

namespace Journal

/-- How closely an event follows what the machine does. -/
inductive Severity where
  | debug
  | trace
  deriving DecidableEq

def Severity.label : Severity → String
  | .debug => "DEBUG"
  | .trace => "TRACE"

/-- What a filter gets to see of an event. -/
structure Profile where
  /-- The name of the part of the program in which the event arises. -/
  source : String
  severity : Severity
  /-- The names of the particulars. -/
  particulars : List String
  deriving DecidableEq

/-- Which events are logged. -/
abbrev Filter := Profile → Bool

end Journal

/-- Something worth logging. -/
inductive Event where
  /-- The instruction at an address is about to be executed. -/
  | instruction (counter : UInt8) (i : Instruction)
  /-- A program file was read and holds an image of this length. -/
  | programRead (path : String) (length : Nat)
  /-- An image of this length was placed in memory. -/
  | imagePlaced (length : Nat)
  | loadFailed (path : String) (error : Program.LoadError)
  | halted (retired : UInt64)
  | aborted (counter : UInt8) (fault : Fault)
  deriving DecidableEq

namespace Event

def severity : Event → Journal.Severity
  | .instruction _ _ => .trace
  | _ => .debug

/-- The part of the program in which an event arises. -/
def source : Event → String
  | .instruction _ _ | .halted _ | .aborted _ _ => "ls8_core::core::cpu::execution"
  | .programRead _ _ => "ls8_core::sim::loader"
  | .imagePlaced _ => "ls8_core::core::cpu"
  | .loadFailed _ _ => "ls8"

/-- The names of what is told of an event; what happened has the name `message`. -/
def particulars : Event → List String
  | .instruction _ _ => ["message", "pc", "opcode"]
  | .programRead _ _ => ["message", "path", "bytes"]
  | .imagePlaced _ => ["message", "bytes"]
  | .loadFailed _ _ => ["message", "program", "e"]
  | .halted _ => ["message", "instructions"]
  | .aborted _ _ => ["message", "pc", "err"]

def profile (e : Event) : Journal.Profile :=
  { source := e.source, severity := e.severity, particulars := e.particulars }

/-- What happened, and the particulars. -/
def text : Event → String
  | .instruction counter i =>
    i.text ++ " pc=" ++ Numeral.decimal counter.toNat ++ " opcode=" ++
      Numeral.decimal i.opcode.toNat
  | .programRead path length =>
    "program parsed path=" ++ path ++ " bytes=" ++ Numeral.decimal length
  | .imagePlaced length => "program image loaded bytes=" ++ Numeral.decimal length
  | .loadFailed path error => "load failed program=" ++ path ++ " e=" ++ error.message
  | .halted retired => "machine halted instructions=" ++ Numeral.decimal retired.toNat
  | .aborted counter fault =>
    "execution aborted pc=" ++ Numeral.decimal counter.toNat ++ " err=" ++ fault.message

end Event

namespace Journal

inductive Entry where
  | trace (line : String)
  | event (e : Event)
  deriving DecidableEq

def Entry.line : Entry → String
  | .trace line => line
  | .event e => e.severity.label ++ " " ++ e.text

end Journal

structure Journal where
  filter : Journal.Filter := fun _ ↦ false
  entries : Array Journal.Entry := #[]

namespace Journal

def trace (j : Journal) (line : String) : Journal :=
  { j with entries := j.entries.push (.trace line) }

/-- Logs an event if the filter admits it. -/
def log (j : Journal) (e : Event) : Journal :=
  if j.filter e.profile then { j with entries := j.entries.push (.event e) } else j

/-- The trace lines, in order. -/
def traceLines (j : Journal) : List String :=
  j.entries.toList.filterMap fun
    | .trace line => some line
    | .event _ => none

@[simp] theorem traceLines_log (j : Journal) (e : Event) :
    (j.log e).traceLines = j.traceLines := by
  unfold log
  split
  · simp [traceLines]
  · rfl

/-- All entries, one a line. -/
def text (j : Journal) : String :=
  j.entries.foldl (fun lines entry ↦ lines ++ entry.line ++ "\n") ""

end Journal

end OctetMachine
