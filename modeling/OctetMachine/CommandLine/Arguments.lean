import OctetMachine.CommandLine
import OctetMachine.Settings.Reader

/-!
# Arguments that are texts

Arguments are read from left to right. One of them names the program file, the others are options by
long name or in groups of one-letter names; an option that takes a value finds it behind its name or
in the next argument. The first problem, or the first request for help or the version, decides.
-/

namespace OctetMachine.CommandLine

/-- Why the reading of arguments ends before the last. -/
inductive Stop where
  | version
  | help
  | invalid
  deriving DecidableEq

/-- An option that takes no value. -/
inductive Switch where
  | tracing
  | statistics
  | version
  | help

/-- An option that takes a value. -/
inductive Setting where
  | settingsFile
  | logFilter

inductive Name where
  | switch (s : Switch)
  | setting (s : Setting)

def Name.ofLong? : List Char → Option Name
  | ['t', 'r', 'a', 'c', 'e'] => some (.switch .tracing)
  | ['s', 't', 'a', 't', 's'] => some (.switch .statistics)
  | ['v', 'e', 'r', 's', 'i', 'o', 'n'] => some (.switch .version)
  | ['h', 'e', 'l', 'p'] => some (.switch .help)
  | ['c', 'o', 'n', 'f', 'i', 'g'] => some (.setting .settingsFile)
  | ['l', 'o', 'g', '-', 'l', 'e', 'v', 'e', 'l'] => some (.setting .logFilter)
  | _ => none

def Name.ofShort? : Char → Option Name
  | 't' => some (.switch .tracing)
  | 's' => some (.switch .statistics)
  | 'V' => some (.switch .version)
  | 'h' => some (.switch .help)
  | 'c' => some (.setting .settingsFile)
  | _ => none

/-- What the arguments read so far have given. -/
structure Draft where
  program : Option String := none
  settingsFile : Option String := none
  tracing : Bool := false
  statistics : Bool := false
  logFilter : Option String := none

namespace Draft

/-- Takes an argument that is no option: the path of the program, which is not empty. -/
def addProgram (d : Draft) (path : String) : Except Stop Draft :=
  if d.program.isSome || path.isEmpty then .error .invalid
  else .ok { d with program := some path }

/-- Turns a switch on, which can be done once. -/
def turnOn (d : Draft) : Switch → Except Stop Draft
  | .tracing => if d.tracing then .error .invalid else .ok { d with tracing := true }
  | .statistics => if d.statistics then .error .invalid else .ok { d with statistics := true }
  | .version => .error .version
  | .help => .error .help

/-- Gives a setting its value, which can be done once; a path is not empty. -/
def give (d : Draft) (value : List Char) : Setting → Except Stop Draft
  | .settingsFile =>
    if d.settingsFile.isSome || value.isEmpty then .error .invalid
    else .ok { d with settingsFile := some (String.ofList value) }
  | .logFilter =>
    if d.logFilter.isSome then .error .invalid
    else .ok { d with logFilter := some (String.ofList value) }

/-- The invocation, if a program was named. -/
def invocation (d : Draft) : Except Stop (Invocation String) :=
  match d.program with
  | none => .error .invalid
  | some program => .ok
      { program
        settingsFile := d.settingsFile
        tracing := d.tracing
        statistics := d.statistics
        logFilter := d.logFilter.getD "warn" }

/-- Takes a group of one-letter names; the answer may be a setting whose value is still to come. -/
def takeGroup (d : Draft) : List Char → Except Stop (Draft × Option Setting)
  | [] => .ok (d, none)
  | c :: rest =>
    match Name.ofShort? c with
    | none => .error .invalid
    | some (.switch s) =>
      match d.turnOn s with
      | .error stop => .error stop
      | .ok d => d.takeGroup rest
    | some (.setting s) =>
      match rest with
      | [] => .ok (d, some s)
      | '=' :: value => (d.give value s).map fun d ↦ (d, none)
      | value => (d.give value s).map fun d ↦ (d, none)

/-- Takes a long name with the value behind its equals sign, if there is one. -/
def takeLong (d : Draft) (text : List Char) : Except Stop (Draft × Option Setting) :=
  let value := text.dropWhile (· ≠ '=')
  match Name.ofLong? (text.takeWhile (· ≠ '=')), value with
  | none, _ => .error .invalid
  | some (.switch s), [] => (d.turnOn s).map fun d ↦ (d, none)
  | some (.switch _), _ :: _ => .error .invalid
  | some (.setting s), [] => .ok (d, some s)
  | some (.setting s), _ :: value => (d.give value s).map fun d ↦ (d, none)

end Draft

/-- Whether an argument is written like an option; it is never the value of one. -/
def isOption : List Char → Bool
  | '-' :: _ :: _ => true
  | _ => false

/-- Reads arguments. Behind `--` each of them is a path. -/
def readArguments (d : Draft) : List String → Except Stop Draft
  | [] => .ok d
  | argument :: rest =>
    if argument == "--" then rest.foldlM Draft.addProgram d
    else if isOption argument.toList then
      let taken := match argument.toList with
        | '-' :: '-' :: text => d.takeLong text
        | text => d.takeGroup (text.drop 1)
      match taken with
      | .error stop => .error stop
      | .ok (d, none) => readArguments d rest
      | .ok (d, some s) =>
        match rest with
        | [] => .error .invalid
        | value :: rest =>
          if isOption value.toList then .error .invalid
          else
            match d.give value.toList s with
            | .error stop => .error stop
            | .ok d => readArguments d rest
    else
      match d.addProgram argument with
      | .error stop => .error stop
      | .ok d => readArguments d rest

/-- The invocation that the arguments ask for. -/
def invocationOf (arguments : List String) : Except Stop (Invocation String) :=
  readArguments {} arguments >>= Draft.invocation

/-- Libraries for arguments and paths that are texts. Log filters are left to others, and so is what
is reported when there is nothing to run and what is said of settings that cannot be used. -/
def Libraries.ofTexts (report : Stop → Report) (describe : JsonText.Problem → String)
    (readFilter : String → Option (Option Journal.Filter)) (warnings : Journal.Filter) :
    Libraries String String where
  readArguments arguments := (invocationOf arguments).mapError report
  readFilter := readFilter
  warnings := warnings
  readSettings text := (Settings.ofText text).mapError describe
  pathText := id

end OctetMachine.CommandLine
