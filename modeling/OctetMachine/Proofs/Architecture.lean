import Mathlib.Logic.Function.Basic
import OctetMachine.Proofs.Step

/-!
# The architecture

What a programmer sees of a computer, in numbers: eight registers, 256 cells, a counter, the flag
bits and the bytes that were printed. `Architecture.next` is the instruction set in these terms, a
clause for each byte that can be executed, written without reference to formats, effects or cycles.
A step of a computer whose device takes what is printed is the step of its architecture.
-/

namespace OctetMachine

structure Architecture where
  register : Fin 8 → Nat
  cell : Fin 256 → Nat
  counter : Nat
  flags : Nat
  halted : Bool
  output : List Nat

namespace Architecture

/-! ## The instruction set -/

/-- The content of a cell; addresses count modulo 256. -/
def content (s : Architecture) (address : Nat) : Nat := s.cell (Fin.ofNat 256 address)

/-- The register of the first operand byte, which counts modulo eight. -/
def first (s : Architecture) : Fin 8 :=
  ⟨s.content (s.counter + 1) % 8, Nat.mod_lt _ (Nat.succ_pos 7)⟩

/-- The register of the second operand byte, which counts modulo eight. -/
def second (s : Architecture) : Fin 8 :=
  ⟨s.content (s.counter + 2) % 8, Nat.mod_lt _ (Nat.succ_pos 7)⟩

/-- Register seven, the stack pointer. -/
def pointer : Fin 8 := Fin.last 7

def put (s : Architecture) (i : Fin 8) (v : Nat) : Architecture :=
  { s with register := Function.update s.register i (v % 256) }

def store (s : Architecture) (address v : Nat) : Architecture :=
  { s with cell := Function.update s.cell (Fin.ofNat 256 address) (v % 256) }

def goto (s : Architecture) (address : Nat) : Architecture := { s with counter := address % 256 }

/-- Stores a value below the stack pointer, which moves there. -/
def stack (s : Architecture) (v : Nat) : Architecture :=
  (s.store (s.register pointer + 255) v).put pointer (s.register pointer + 255)

/-- The digits of a byte in decimal, as ASCII codes. -/
def digits (v : Nat) : List Nat :=
  if v < 10 then [48 + v]
  else if v < 100 then [48 + v / 10, 48 + v % 10]
  else [48 + v / 100, 48 + v / 10 % 10, 48 + v % 10]

/-- The code point of a byte, encoded in UTF-8. -/
def encoded (v : Nat) : List Nat := if v < 128 then [v] else [192 + v / 64, 128 + v % 64]

/-- The bytes that the instruction at the counter prints. -/
def printed (s : Architecture) : List Nat :=
  match s.content s.counter with
  | 0b01000111 => digits (s.register s.first)
  | 0b01001000 => encoded (s.register s.first)
  | _ => []

/-- The state after the instruction at the counter, if its byte can be executed. -/
def next (s : Architecture) : Option Architecture :=
  let a := s.register s.first
  let b := s.register s.second
  let sp := s.register pointer
  match s.content s.counter with
  | 0b00000000 => some (s.goto (s.counter + 1)) -- NOP
  | 0b00000001 => some { s.goto (s.counter + 1) with halted := true } -- HLT
  | 0b00010001 => some ((s.put pointer (sp + 1)).goto (s.content sp)) -- RET
  -- PUSH stores the value from before the stack pointer moves.
  | 0b01000101 => some ((s.stack a).goto (s.counter + 2))
  -- POP moves the stack pointer first, so a pop into it keeps the popped byte.
  | 0b01000110 => some (((s.put pointer (sp + 1)).put s.first (s.content sp)).goto (s.counter + 2))
  | 0b01000111 | 0b01001000 => -- PRN, PRA
    some { s.goto (s.counter + 2) with output := s.output ++ s.printed }
  -- CALL reads its register after the stack pointer has moved.
  | 0b01010000 =>
    let called := s.stack (s.counter + 2)
    some (called.goto (called.register s.first))
  | 0b01010100 => some (s.goto a) -- JMP
  | 0b01010101 => some (s.goto (if s.flags % 2 = 1 then a else s.counter + 2)) -- JEQ
  | 0b01010110 => some (s.goto (if s.flags % 2 = 1 then s.counter + 2 else a)) -- JNE
  | 0b01100101 => some ((s.put s.first (a + 1)).goto (s.counter + 2)) -- INC
  | 0b01100110 => some ((s.put s.first (a + 255)).goto (s.counter + 2)) -- DEC
  | 0b10000010 => some ((s.put s.first (s.content (s.counter + 2))).goto (s.counter + 3)) -- LDI
  | 0b10000011 => some ((s.put s.first (s.content b)).goto (s.counter + 3)) -- LD
  | 0b10100000 => some ((s.put s.first (a + b)).goto (s.counter + 3)) -- ADD
  | 0b10100010 => some ((s.put s.first (a * b)).goto (s.counter + 3)) -- MUL
  | 0b10100111 => -- CMP
    some { s.goto (s.counter + 3) with flags := if a = b then 1 else if b < a then 2 else 4 }
  | _ => none

/-! ## What a computer shows -/

def ofMachine (m : Machine) (output : List UInt8) : Architecture where
  register i := (m.registers.get i).toNat
  cell i := (m.memory.read (UInt8.ofNat i)).toNat
  counter := m.counter.toNat
  flags := m.flags.bits.toNat
  halted := m.halted
  output := output.map UInt8.toNat

def ofComputer {δ : Type} (c : Computer δ) : Architecture :=
  ofMachine c.machine c.outlet.received.toList

section

variable (m : Machine) (output : List UInt8)

theorem register_target_ofMachine :
    (ofMachine m output).register m.target = (m.operand m.fetch.a).toNat := rfl

theorem register_ofByte_ofMachine (b : UInt8) :
    (ofMachine m output).register (Register.ofByte b) = (m.operand b).toNat := rfl

theorem register_pointer_ofMachine :
    (ofMachine m output).register pointer = m.stackPointer.toNat := rfl

theorem toNat_add_255 (v : UInt8) : (v.toNat + 255) % 256 = (v - 1).toNat := by
  rw [UInt8.toNat_sub, Nat.add_comm]
  rfl

theorem counter_add_ofMachine (k : Nat) :
    ((ofMachine m output).counter + k) % 256 = (m.counter + UInt8.ofNat k).toNat := by
  simp [ofMachine]

theorem content_ofMachine {address : Nat} {v : UInt8} (h : address % 256 = v.toNat) :
    (ofMachine m output).content address = (m.memory.read v).toNat := by
  simp only [content, ofMachine, Fin.ofNat, h, UInt8.ofNat_toNat]

theorem first_ofMachine : (ofMachine m output).first = m.target := by
  simp only [first, content_ofMachine m output (counter_add_ofMachine m output 1)]
  rfl

theorem second_ofMachine : (ofMachine m output).second = Register.ofByte m.fetch.b := by
  simp only [second, content_ofMachine m output (counter_add_ofMachine m output 2)]
  rfl

theorem content_counter_ofMachine {op : Opcode}
    (hop : Opcode.ofByte? m.fetch.opcode = some op) :
    (ofMachine m output).content (ofMachine m output).counter = op.toByte.toNat := by
  rw [Opcode.ofByte?_eq_some_iff.1 hop]
  exact content_ofMachine m output (Nat.mod_eq_of_lt m.counter.toNat_lt)

theorem put_ofMachine (i : Register) {n : Nat} {v : UInt8} (h : n % 256 = v.toNat) :
    (ofMachine m output).put i n =
      ofMachine { m with registers := m.registers.set i v } output := by
  simp only [put, ofMachine, h]
  congr 1
  funext j
  by_cases hj : j = i
  · simp [hj]
  · simp [hj]

theorem store_ofMachine {address n : Nat} {v w : UInt8} (h : address % 256 = v.toNat)
    (hw : n % 256 = w.toNat) :
    (ofMachine m output).store address n =
      ofMachine { m with memory := m.memory.write v w } output := by
  simp only [store, ofMachine, hw]
  congr 1
  funext i
  have hi : i = Fin.ofNat 256 address ↔ UInt8.ofNat i = v := by
    rw [Fin.ext_iff, ← UInt8.toNat_inj, Fin.val_ofNat, h, UInt8.toNat_ofNat',
      Nat.mod_eq_of_lt i.isLt]
  by_cases hj : i = Fin.ofNat 256 address
  · rw [hj, Function.update_self, ← hj, Memory.read_write, if_pos (hi.1 hj)]
  · rw [Function.update_of_ne hj, Memory.read_write, if_neg (hj ∘ hi.2)]

theorem put_pointer_ofMachine :
    (ofMachine m output).put pointer (m.stackPointer.toNat + 1) = ofMachine m.drop output :=
  put_ofMachine m output pointer (UInt8.toNat_add m.stackPointer 1).symm

theorem goto_ofMachine {address : Nat} {v : UInt8} (h : address % 256 = v.toNat) :
    (ofMachine m output).goto address = ofMachine { m with counter := v } output := by
  simp only [goto, ofMachine, h]

theorem stack_ofMachine {n : Nat} {v : UInt8} (h : n % 256 = v.toNat) :
    (ofMachine m output).stack n = ofMachine (m.push v) output := by
  have hbelow : ((ofMachine m output).register pointer + 255) % 256 =
      (m.stackPointer - 1).toNat := by
    rw [register_pointer_ofMachine, toNat_add_255]
  rw [stack, store_ofMachine m output hbelow h, put_ofMachine _ output pointer hbelow]
  rfl

theorem put_goto_ofMachine (k : Nat) {n : Nat} {v : UInt8} (h : n % 256 = v.toNat) :
    ((ofMachine m output).put m.target n).goto ((ofMachine m output).counter + k) =
      ofMachine { m with
        registers := m.registers.set m.target v
        counter := m.counter + UInt8.ofNat k } output := by
  rw [put_ofMachine m output m.target h, goto_ofMachine _ output (counter_add_ofMachine m output k)]

end

theorem digits_eq (v : UInt8) :
    digits v.toNat =
      ((Numeral.decimalDigits v.toNat).flatMap String.utf8EncodeChar).map UInt8.toNat := by
  have h : ∀ n < 256,
      digits n = ((Numeral.decimalDigits n).flatMap String.utf8EncodeChar).map UInt8.toNat := by
    decide +kernel
  exact h v.toNat v.toNat_lt

theorem encoded_eq (v : UInt8) :
    encoded v.toNat = (String.utf8EncodeChar (Char.ofNat v.toNat)).map UInt8.toNat := by
  have h : ∀ n < 256, encoded n = (String.utf8EncodeChar (Char.ofNat n)).map UInt8.toNat := by
    decide +kernel
  exact h v.toNat v.toNat_lt

theorem bits_compare (a b : UInt8) :
    (Flags.compare a b).bits.toNat =
      if a.toNat = b.toNat then 1 else if b.toNat < a.toNat then 2 else 4 := by
  simp only [Flags.compare, UInt8.toNat_inj, ← UInt8.lt_iff_toNat_lt]
  split
  · rfl
  · split <;> rfl

theorem bits_mod_two (flags : Flags) : flags.bits.toNat % 2 = 1 ↔ flags = .equal := by
  cases flags <;> decide

section

variable {m : Machine} {op : Opcode} (output : List UInt8)

theorem ite_flags_ofMachine {a b : Nat} {v w : UInt8} (hv : a % 256 = v.toNat)
    (hw : b % 256 = w.toNat) :
    (if (ofMachine m output).flags % 2 = 1 then a else b) % 256 =
      (if m.flags = .equal then v else w).toNat := by
  have hflags : (ofMachine m output).flags % 2 = 1 ↔ m.flags = .equal := bits_mod_two m.flags
  by_cases h : m.flags = .equal
  · rw [if_pos h, if_pos (hflags.2 h), hv]
  · rw [if_neg h, if_neg (mt hflags.1 h), hw]

theorem printed_ofMachine (hop : Opcode.ofByte? m.fetch.opcode = some op) :
    (ofMachine m output).printed =
      ((m.printed op).flatMap String.utf8EncodeChar).map UInt8.toNat := by
  unfold printed
  rw [content_counter_ofMachine m output hop, first_ofMachine]
  cases op with
  | prn => exact digits_eq (m.operand m.fetch.a)
  | pra =>
    rw [Machine.printed, List.flatMap_singleton]
    exact encoded_eq (m.operand m.fetch.a)
  | _ => rfl

theorem next_ofMachine (hop : Opcode.ofByte? m.fetch.opcode = some op)
    (himp : op.isImplemented = true) :
    (ofMachine m output).next =
      some (ofMachine (m.next op)
        (output ++ (m.printed op).flatMap String.utf8EncodeChar)) := by
  have hlt (v : UInt8) : v.toNat % 256 = v.toNat := Nat.mod_eq_of_lt v.toNat_lt
  have hprinted := printed_ofMachine output hop
  unfold next
  simp only [content_counter_ofMachine m output hop, first_ofMachine, second_ofMachine,
    register_target_ofMachine, register_ofByte_ofMachine, register_pointer_ofMachine]
  cases op <;> simp only [Opcode.isImplemented, Bool.false_eq_true] at himp
  all_goals refine congrArg some ?_
  case prn | pra =>
    rw [goto_ofMachine m output (counter_add_ofMachine m output 2), hprinted]
    simp only [ofMachine, List.map_append]
    rfl
  all_goals simp only [Machine.printed, List.flatMap_nil, List.append_nil]
  case nop => exact goto_ofMachine m output (counter_add_ofMachine m output 1)
  case hlt =>
    rw [goto_ofMachine m output (counter_add_ofMachine m output 1)]
    rfl
  case ret =>
    rw [put_pointer_ofMachine, content_ofMachine m output (hlt m.stackPointer)]
    exact goto_ofMachine _ output (hlt _)
  case push =>
    rw [stack_ofMachine m output (hlt _)]
    exact goto_ofMachine _ output (counter_add_ofMachine m output 2)
  case pop =>
    rw [put_pointer_ofMachine, content_ofMachine m output (hlt m.stackPointer)]
    exact put_goto_ofMachine _ output 2 (hlt m.top)
  case call =>
    rw [stack_ofMachine m output (counter_add_ofMachine m output 2)]
    exact goto_ofMachine _ output (hlt _)
  case jmp => exact goto_ofMachine m output (hlt _)
  case jeq =>
    exact goto_ofMachine m output
      (ite_flags_ofMachine output (hlt _) (counter_add_ofMachine m output 2))
  case jne =>
    exact goto_ofMachine m output
      (ite_flags_ofMachine output (counter_add_ofMachine m output 2) (hlt _))
  case inc => exact put_goto_ofMachine m output 2 (UInt8.toNat_add _ 1).symm
  case dec => exact put_goto_ofMachine m output 2 (toNat_add_255 _)
  case ldi =>
    rw [content_ofMachine m output (counter_add_ofMachine m output 2)]
    exact put_goto_ofMachine m output 3 (hlt m.fetch.b)
  case ld =>
    rw [content_ofMachine m output (hlt _)]
    exact put_goto_ofMachine m output 3 (hlt _)
  case add => exact put_goto_ofMachine m output 3 (UInt8.toNat_add _ _).symm
  case mul => exact put_goto_ofMachine m output 3 (UInt8.toNat_mul _ _).symm
  case cmp =>
    rw [goto_ofMachine m output (counter_add_ofMachine m output 3), ← bits_compare]
    rfl

end

/-! ## Steps -/

/-- A step of a running computer at an operation that can be executed, whose device takes what is
printed, is the step of the architecture; the rest of the machine only counts. -/
theorem step_eq_next {δ : Type} [Device δ] (c : Computer δ) (op : Opcode)
    (hrun : c.machine.halted = false)
    (hop : Opcode.ofByte? (c.machine.memory.read c.machine.counter) = some op)
    (himp : op.isImplemented = true)
    (haccept : (c.outlet.write ((ofComputer c).printed.map UInt8.ofNat)).2 = none) :
    c.step.2 = .ok () ∧
      (ofComputer c).next = some (ofComputer c.step.1) ∧
      c.step.1.machine.tracing = c.machine.tracing ∧
      c.step.1.machine.budget = c.machine.budget ∧
      c.step.1.machine.statistics = (c.machine.jumpStatistics op).retire op := by
  have hbytes : (ofComputer c).printed.map UInt8.ofNat =
      (c.machine.printed op).flatMap String.utf8EncodeChar := by
    rw [ofComputer, printed_ofMachine _ hop, List.map_map]
    simp [Function.comp_def]
  have hprint : c.outlet.print (c.machine.printed op) =
      ((c.outlet.print (c.machine.printed op)).1, none) := by
    rw [hbytes] at haccept
    exact Prod.ext rfl haccept
  have hstep : c.Retires op { c.announce with
      machine := c.machine.next op
      outlet := (c.outlet.print (c.machine.printed op)).1 } :=
    ⟨hrun, hop, himp, rfl, hprint, rfl⟩
  rw [hstep.step]
  refine ⟨rfl, ?_, rfl, rfl, rfl⟩
  have hreceived := Outlet.received_write (congrArg Prod.snd hprint)
  rw [ofComputer, next_ofMachine _ hop himp, ← hreceived]
  rfl

/-- Two bytes for one character fill a device that has room for two. -/
theorem step_eq_next_of_two_bytes :
    let c := (Computer.ofSettings { stackPointer := some 200 }
      ({ room := some 2 } : Container)).mapMachine fun m ↦ m.place [0b01001000, 7]
    c.machine.halted = false ∧ (ofComputer c).printed = [195, 136] ∧
      (ofComputer c).next = some (ofComputer c.step.1) := by
  intro c
  have hop : Opcode.ofByte? (c.machine.memory.read c.machine.counter) = some .pra := by
    decide +kernel
  have hprinted : (ofComputer c).printed = [195, 136] := by decide +kernel
  have haccept : (c.outlet.write ((ofComputer c).printed.map UInt8.ofNat)).2 = none := by
    rw [hprinted]
    simp [c, Outlet.write, Device.offer, Container.offer, Computer.ofSettings, Computer.mapMachine]
  exact ⟨rfl, hprinted, (step_eq_next c .pra rfl hop rfl haccept).2.1⟩

end Architecture

end OctetMachine
