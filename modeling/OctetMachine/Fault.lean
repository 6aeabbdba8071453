import OctetMachine.Numeral

/-!
# Faults

The conditions that end a run before its halt.
-/

namespace OctetMachine

inductive Fault where
  /-- The byte at the program counter is no operation. -/
  | unknownOpcode (counter opcode : UInt8)
  /-- The operation is in the set but cannot be executed. -/
  | unimplementedOpcode (opcode : UInt8)
  /-- The budget is used up. -/
  | instructionLimit (limit : UInt64)
  /-- The output device refused a write or a flush. -/
  | output (reason : String)
  deriving DecidableEq

def Fault.message : Fault → String
  | .unknownOpcode counter opcode =>
    "Invalid opcode at " ++ Numeral.hex counter ++ ": " ++ Numeral.binary opcode
  | .unimplementedOpcode opcode => "Unimplemented opcode " ++ Numeral.binary opcode
  | .instructionLimit limit =>
    "instruction limit of " ++ Numeral.decimal limit.toNat ++ " reached without halting"
  | .output reason => "failed to write program output: " ++ reason

end OctetMachine
