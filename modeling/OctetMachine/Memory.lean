/-!
# Memory

Program, data and stack share 256 cells. An address is a byte, so every address is a cell and
address arithmetic wraps. What `write` and `load` do to the cells is said through `read`.
-/

namespace OctetMachine

structure Memory where
  cells : Vector UInt8 256
  deriving DecidableEq

namespace Memory

/-- The number of cells. -/
def size : Nat := 256

def zero : Memory := { cells := Vector.replicate 256 0 }

def read (m : Memory) (address : UInt8) : UInt8 :=
  have : address.toNat < 256 := address.toNat_lt
  m.cells[address.toNat]

def write (m : Memory) (address v : UInt8) : Memory :=
  { cells := m.cells.set address.toNat v address.toNat_lt }

/-- Bytes laid out from address zero on; bytes beyond the last cell are dropped. -/
def load (m : Memory) (bytes : List UInt8) : Memory :=
  { cells := Vector.ofFn fun i ↦ bytes[i.val]?.getD m.cells[i] }

/-- The cells in the order of their addresses. -/
def toList (m : Memory) : List UInt8 := m.cells.toList

@[simp] theorem read_zero (address : UInt8) : zero.read address = 0 := by simp [read, zero]

@[simp] theorem read_write (m : Memory) (a b v : UInt8) :
    (m.write a v).read b = if b = a then v else m.read b := by
  simp only [read, write, Vector.getElem_set, UInt8.toNat_inj]
  by_cases h : b = a
  · simp [h]
  · simp [h, Ne.symm h]

@[simp] theorem read_load (m : Memory) (bytes : List UInt8) (address : UInt8) :
    (m.load bytes).read address = bytes[address.toNat]?.getD (m.read address) := by
  simp [read, load]

end Memory

end OctetMachine
