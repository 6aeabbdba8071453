/-!
# Arithmetic

Results have sixteen bits, wide enough for every sum and product of two bytes; the predecessor of
zero wraps to all ones. A register takes the low byte of a result.
-/

namespace OctetMachine

/-- An arithmetic operation; the last two ignore their second operand. -/
inductive Arithmetic where
  | add
  | mul
  | inc
  | dec
  deriving DecidableEq

namespace Arithmetic

def wide (a b : UInt8) : Arithmetic → UInt16
  | .add => a.toUInt16 + b.toUInt16
  | .mul => a.toUInt16 * b.toUInt16
  | .inc => a.toUInt16 + 1
  | .dec => a.toUInt16 - 1

/-- The low byte of a result. -/
def narrow (result : UInt16) : UInt8 := result.toUInt8

end Arithmetic

end OctetMachine
