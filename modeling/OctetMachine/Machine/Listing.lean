import OctetMachine.Machine

/-!
# Showing a machine

The trace line shows the program counter, the window there and all registers in full-width digits,
so it determines them. The dump adds the flags and the next instruction in words.
-/

namespace OctetMachine.Machine

/-- The line that a tracing machine writes before an instruction. -/
def traceLine (m : Machine) : String :=
  let i := m.fetch
  "TRACE: " ++ Numeral.upperHex m.counter ++ " | " ++ Numeral.upperHex i.opcode ++ " " ++
    Numeral.upperHex i.a ++ " " ++ Numeral.upperHex i.b ++ " |" ++
    String.join (m.registers.toList.map fun v ↦ " " ++ Numeral.upperHex v)

/-- The state that is shown after a fault. -/
def dump (m : Machine) : String :=
  "PC = 0x" ++ Numeral.hex m.counter ++ "  FL = 0b" ++ Numeral.binary m.flags.bits ++ "  next: " ++
    m.fetch.text ++ "\n" ++ m.registers.dump

end OctetMachine.Machine
