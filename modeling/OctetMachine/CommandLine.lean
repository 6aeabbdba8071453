import OctetMachine.Computer.Cycle
import OctetMachine.Statistics.Report

/-!
# The command line

A command builds a computer from settings and a program file, runs it, and reports: an exit code,
the output of the program and a text of messages. How arguments, log filters and settings are
written is the business of libraries, which a command takes as given; their arguments and paths may
be of any kind. Files come in as a function from a path to a text or to the reason why there is
none.
-/

namespace OctetMachine.CommandLine

/-- What a command leaves behind. -/
structure Report where
  code : UInt8
  output : List UInt8 := []
  messages : String := ""
  deriving DecidableEq

/-- What arguments ask for, when they ask for a run. -/
structure Invocation (π : Type) where
  program : π
  settingsFile : Option π := none
  tracing : Bool := false
  statistics : Bool := false
  logFilter : String := "warn"
  deriving DecidableEq

/-- What a command takes as given, for arguments `α` and paths `π`. -/
structure Libraries (α π : Type) where
  /-- Reads arguments, or reports why there is nothing to run. -/
  readArguments : List α → Except Report (Invocation π)
  /-- Reads a log filter, if its text is one. There is no answer if the reading breaks down. -/
  readFilter : String → Option (Option Journal.Filter)
  /-- The log filter that is called `warn`. -/
  warnings : Journal.Filter
  /-- Reads settings, or says why they cannot be used. -/
  readSettings : String → Except String Settings
  /-- A path as messages show it. -/
  pathText : π → String

/-- The line for a failure that ends a command. -/
def fatal (message : String) : String := "[!] FATAL: " ++ message ++ "\n"

/-- The report on a run that ended with a result and took the given time, in seconds. -/
def conclude {π : Type} (i : Invocation π) (seconds : String) (c : Computer Container)
    (result : Except Fault Unit) : Report where
  code := match result with
    | .ok () => 0
    | .error _ => 1
  output := c.outlet.received.toList
  messages :=
    c.journal.text ++ (if i.statistics then c.machine.statistics.report seconds else "") ++
      match result with
      | .ok () => ""
      | .error fault => "\n" ++ fatal fault.message ++ c.machine.dump

namespace Libraries

variable {α π : Type} (l : Libraries α π)

/-- The log filter of a text, which is `warn` if the text is none. -/
def filter? (text : String) : Option Journal.Filter :=
  (l.readFilter text).map fun filter ↦ filter.getD l.warnings

/-- The settings that an invocation asks for. -/
def settingsOf (i : Invocation π) (read : π → Except String String) :
    Except Settings.ReadError Settings :=
  match i.settingsFile with
  | none => .ok { tracing := i.tracing }
  | some path =>
    (Settings.ofFile l.readSettings (l.pathText path) (read path)).map fun s ↦
      { s with tracing := s.tracing || i.tracing }

/-- The computer that an invocation asks for, with its program in memory, or the report on why there
is none. Settings are read first. -/
def launch (filter : Journal.Filter) (i : Invocation π) (read : π → Except String String) :
    Except Report (Computer Container) :=
  match l.settingsOf i read with
  | .error e => .error { code := 1, messages := fatal e.message }
  | .ok settings =>
    let fresh : Computer Container :=
      { Computer.ofSettings settings {} with journal := { filter } }
    let path := l.pathText i.program
    match fresh.loadFile path (read i.program) with
    | (c, .ok ()) => .ok c
    | (c, .error e) => .error
        { code := 1
          messages := (c.log (.loadFailed path e)).journal.text ++ fatal e.message }

/-- The whole command, if its run ends before the fuel does. The log filter is read before anything
else that an invocation asks for. -/
def execute? (fuel : Nat) (seconds : String) (arguments : List α)
    (read : π → Except String String) : Option Report :=
  match l.readArguments arguments with
  | .error report => some report
  | .ok i =>
    match l.filter? i.logFilter with
    | none => none
    | some filter =>
      match l.launch filter i read with
      | .error report => some report
      | .ok c => (c.run? fuel).map fun (c, result) ↦ conclude i seconds c result

end Libraries

end OctetMachine.CommandLine
