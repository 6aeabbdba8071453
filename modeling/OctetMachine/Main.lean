import OctetMachine.CommandLine
import OctetMachine.Directory

/-!
# The program

Reads the files that the arguments name, runs the computer in stretches, and passes on what it
printed and wrote to its journal after each stretch. The libraries are those of whoever runs it.
-/

namespace OctetMachine.CommandLine

/-- The reason that an error of the operating system gives. -/
def reasonOf : IO.Error → String
  | .alreadyExists _ code details | .otherError code details | .resourceBusy code details
  | .resourceVanished code details | .unsupportedOperation code details
  | .hardwareFault code details | .unsatisfiedConstraints code details
  | .illegalOperation code details | .protocolError code details | .timeExpired code details
  | .interrupted _ code details | .noFileOrDirectory _ code details
  | .invalidArgument _ code details | .permissionDenied _ code details
  | .resourceExhausted _ code details | .inappropriateType _ code details
  | .noSuchThing _ code details =>
    details ++ " (os error " ++ Numeral.decimal code.toNat ++ ")"
  | .unexpectedEof => "end of file"
  | .userError message => message

def readText (path : String) : IO (Except String String) := do
  try
    return textOfBytes (← IO.FS.withFile path .read fun file ↦ file.readBinToEnd)
  catch e => return .error (reasonOf e)

/-- The files that an invocation names, read ahead. -/
def readFiles (i : Invocation String) : IO (String → Except String String) := do
  let program ← readText i.program
  match i.settingsFile with
  | none => return fun _ ↦ program
  | some path =>
    let settings ← readText path
    return fun p ↦ if p = path then settings else program

/-- Seconds with four places, for a time in nanoseconds. -/
def secondsText (nanoseconds : Nat) : String :=
  let n := (nanoseconds + 50000) / 100000
  Numeral.decimal (n / 10000) ++ "." ++ String.ofList (Numeral.fixedDigits 10 4 (n % 10000))

/-- Passes output on; the answer is the reason if that failed. -/
def deliver (bytes : Array UInt8) : IO (Option String) := do
  try
    let output ← IO.getStdout
    output.write (ByteArray.mk bytes)
    output.flush
    return none
  catch e => return some (reasonOf e)

/-- Passes a report on. -/
def emit (report : Report) : IO UInt32 := do
  IO.eprint report.messages
  let _ ← deliver report.output.toArray
  return report.code.toUInt32

/-- Runs a computer to its end, in stretches of the given fuel. -/
partial def runOn (i : Invocation String) (started fuel : Nat) (c : Computer Container) :
    IO UInt32 := do
  let (c, ending) := c.advance fuel
  let failure ← deliver c.outlet.received
  let c := { c with outlet := { c.outlet with received := #[] } }
  let result? := match failure with
    | some reason => some (.error (.output reason))
    | none => ending
  match result? with
  | some result =>
    let (c, result) := c.finish result
    let time := (← IO.monoNanosNow) - started
    emit (conclude i (secondsText time) c result)
  | none =>
    IO.eprint c.journal.text
    runOn i started fuel { c with journal := { c.journal with entries := #[] } }

/-- Runs a command with some libraries. -/
def run (l : Libraries String String) (arguments : List String) : IO UInt32 := do
  match l.readArguments arguments with
  | .error report => emit report
  | .ok i =>
    let started ← IO.monoNanosNow
    match l.filter? i.logFilter with
    | none => throw (.userError "the log filter was not read")
    | some filter =>
      match l.launch filter i (← readFiles i) with
      | .error report => emit report
      | .ok c => runOn i started 4096 c

end OctetMachine.CommandLine
