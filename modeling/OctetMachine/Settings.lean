/-!
# Settings

What a machine is built with: whether it traces, where its stack pointer starts and how many
instructions it may retire. The defaults are those of a bare machine. Settings may come from a file,
through a reader of their texts that says why a text holds none.
-/

namespace OctetMachine

structure Settings where
  tracing : Bool := false
  /-- The first value of the stack pointer; without one it is zero. -/
  stackPointer : Option UInt8 := none
  /-- The instructions that may retire before a halt; without one there is no limit. -/
  budget : Option UInt64 := none
  deriving DecidableEq

namespace Settings

/-- Why a settings file gave no settings. -/
inductive ReadError where
  | unreadable (path reason : String)
  | invalid (reason : String)
  deriving DecidableEq

def ReadError.message : ReadError → String
  | .unreadable path reason => "could not read config file '" ++ path ++ "': " ++ reason
  | .invalid reason => "invalid config: " ++ reason

/-- The settings of a file, of which the text or the reason why it has none is known. -/
def ofFile (readSettings : String → Except String Settings) (path : String)
    (text : Except String String) : Except ReadError Settings :=
  match text with
  | .error reason => .error (.unreadable path reason)
  | .ok text => (readSettings text).mapError .invalid

end Settings

theorem mapError_eq_ok_iff {ε ε' α : Type} {x : Except ε α} {f : ε → ε'} {a : α} :
    x.mapError f = .ok a ↔ x = .ok a := by
  cases x with
  | error e => exact ⟨nofun, nofun⟩
  | ok b => exact ⟨fun h ↦ congrArg _ (Except.ok.inj h), fun h ↦ congrArg _ (Except.ok.inj h)⟩

end OctetMachine
