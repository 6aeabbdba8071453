import OctetMachine.Numeral

/-!
# Registers

Eight byte registers. Operand bytes of any value name a register, by their remainder modulo eight.
Register seven serves as the stack pointer, though every instruction may use it.
-/

namespace OctetMachine

abbrev Register := Fin 8

namespace Register

/-- The register that a number names. -/
def ofNat (n : Nat) : Register := ⟨n % 8, Nat.mod_lt n (by decide)⟩

def ofByte (b : UInt8) : Register := ofNat b.toNat

def stackPointer : Register := 7

end Register

structure Registers where
  cells : Vector UInt8 8
  deriving DecidableEq

namespace Registers

def zero : Registers := { cells := Vector.replicate 8 0 }

def get (r : Registers) (i : Register) : UInt8 := r.cells[i]

def set (r : Registers) (i : Register) (v : UInt8) : Registers := { cells := r.cells.set i v }

/-- The values in the order of the registers. -/
def toList (r : Registers) : List UInt8 := r.cells.toList

def stackPointer (r : Registers) : UInt8 := r.get Register.stackPointer

def setStackPointer (r : Registers) (v : UInt8) : Registers := r.set Register.stackPointer v

@[simp] theorem get_set (r : Registers) (i j : Register) (v : UInt8) :
    (r.set i v).get j = if j = i then v else r.get j := by
  simp only [get, set, Fin.getElem_fin, Vector.getElem_set]
  by_cases h : j = i
  · simp [h]
  · simp [h, Ne.symm (Fin.val_ne_of_ne h)]

/-- Registers that hold the same values are the same. -/
theorem ext_get {r s : Registers} (h : ∀ i, r.get i = s.get i) : r = s := by
  obtain ⟨cells⟩ := r
  obtain ⟨cells'⟩ := s
  congr
  exact Vector.ext fun i hi ↦ h ⟨i, hi⟩

/-- One line of a dump for the registers `2 * i` and `2 * i + 1`. -/
def dumpLine (r : Registers) (i : Nat) : String :=
  "R" ++ Numeral.decimal (2 * i) ++ " = 0x" ++ Numeral.hex (r.get (Register.ofNat (2 * i))) ++
    "  R" ++ Numeral.decimal (2 * i + 1) ++ " = 0x" ++
    Numeral.hex (r.get (Register.ofNat (2 * i + 1))) ++ "\n"

/-- All registers, two a line. -/
def dump (r : Registers) : String := String.join ((List.range 4).map r.dumpLine)

end Registers

end OctetMachine
