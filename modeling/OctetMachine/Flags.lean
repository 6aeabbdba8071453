/-!
# Comparison flags

The flags keep the outcome of the last comparison. A comparison sets exactly one of three bits, and
no other operation writes them, so besides the cleared state there are three values.
-/

namespace OctetMachine

/-- The outcome of the last comparison, or `clear` before the first. -/
inductive Flags where
  | clear
  | equal
  | greater
  | less
  deriving DecidableEq

namespace Flags

/-- The outcome of comparing `a` with `b` as unsigned numbers. -/
def compare (a b : UInt8) : Flags :=
  if a = b then .equal else if b < a then .greater else .less

def bits : Flags → UInt8
  | .clear => 0b000
  | .equal => 0b001
  | .greater => 0b010
  | .less => 0b100

end Flags

/-- The condition under which a jump leaves the sequence of instructions. -/
inductive Condition where
  | always
  | equal
  | notEqual
  deriving DecidableEq

namespace Condition

def holds (flags : Flags) : Condition → Bool
  | .always => true
  | .equal => flags == .equal
  | .notEqual => flags != .equal

/-- The bytes of a jump: its operation and its register. -/
def jumpWidth : UInt8 := 2

/-- Where a jump at `counter` leads: to its target if the condition holds, else past its own bytes.
-/
def next (flags : Flags) (counter target : UInt8) (condition : Condition) : UInt8 :=
  if condition.holds flags then target else counter + jumpWidth

end Condition

end OctetMachine
