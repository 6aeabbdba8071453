import Mathlib.Data.UInt
import OctetMachine.Machine

/-!
# The stack of a machine

The cells from the stack pointer on, around the end of memory where need be, are the stack. It
answers pushes and pops as a list does that grows and shrinks at its head, as long as no more is
popped than was pushed and no more than 256 bytes are on it, which is all of memory. Nothing but the
stack pointer and the cells that the stack reached is changed. One byte more than 256 takes the
place of the one pushed first.
-/

namespace OctetMachine

/-- What can be asked of a stack. -/
inductive StackRequest where
  | push (v : UInt8)
  | pop
  deriving DecidableEq

namespace StackRequest

def isPush : StackRequest → Bool
  | .push _ => true
  | .pop => false

/-- The number of bytes pushed less the number of bytes popped. -/
def depth (requests : List StackRequest) : Int :=
  requests.countP isPush - requests.countP (! ·.isPush)

/-- A list that serves requests at its head, and the bytes that were popped; nothing can be popped
off the empty list. -/
def serveList? (stack : List UInt8) : List StackRequest → Option (List UInt8 × List UInt8)
  | [] => some (stack, [])
  | .push v :: rest => serveList? (v :: stack) rest
  | .pop :: rest =>
    match stack with
    | [] => none
    | v :: stack => (serveList? stack rest).map fun (stack, popped) ↦ (stack, v :: popped)

@[simp] theorem depth_nil : depth [] = 0 := rfl

@[simp] theorem depth_push (v : UInt8) (rest : List StackRequest) :
    depth (.push v :: rest) = depth rest + 1 := by
  rw [depth, depth, List.countP_cons_of_pos rfl, List.countP_cons_of_neg (by simp [isPush])]
  omega

@[simp] theorem depth_pop (rest : List StackRequest) : depth (.pop :: rest) = depth rest - 1 := by
  rw [depth, depth, List.countP_cons_of_neg (by simp [isPush]), List.countP_cons_of_pos rfl]
  omega

/-- Served by a stack of some size, the requests leave between 0 and `bound` bytes on it, one after
the other. -/
def StaysWithin (bound size : Nat) (requests : List StackRequest) : Prop :=
  ∀ k ≤ requests.length,
    0 ≤ size + depth (requests.take k) ∧ size + depth (requests.take k) ≤ bound

theorem StaysWithin.of_push {bound size : Nat} {v : UInt8} {rest : List StackRequest}
    (h : StaysWithin bound size (.push v :: rest)) :
    size < bound ∧ StaysWithin bound (size + 1) rest := by
  constructor
  · have hfirst := (h 1 (Nat.succ_pos _)).2
    rw [List.take_succ_cons, depth_push, List.take_zero, depth_nil] at hfirst
    omega
  · intro k hk
    have hnext := h (k + 1) (Nat.succ_le_succ hk)
    rw [List.take_succ_cons, depth_push] at hnext
    omega

theorem StaysWithin.of_pop {bound size : Nat} {rest : List StackRequest}
    (h : StaysWithin bound size (.pop :: rest)) :
    ∃ below, size = below + 1 ∧ StaysWithin bound below rest := by
  have hfirst := (h 1 (Nat.succ_pos _)).1
  rw [List.take_succ_cons, depth_pop, List.take_zero, depth_nil] at hfirst
  refine ⟨size - 1, by omega, ?_⟩
  intro k hk
  have hnext := h (k + 1) (Nat.succ_le_succ hk)
  rw [List.take_succ_cons, depth_pop] at hnext
  omega

end StackRequest

/-! ## Bytes in a row -/

namespace Memory

/-- The bytes in a number of cells from an address on. -/
def bytesFrom (m : Memory) (address : UInt8) : Nat → List UInt8
  | 0 => []
  | n + 1 => m.read address :: m.bytesFrom (address + 1) n

@[simp] theorem length_bytesFrom (m : Memory) (address : UInt8) (n : Nat) :
    (m.bytesFrom address n).length = n := by
  induction n generalizing address with
  | zero => rfl
  | succ n ih => rw [bytesFrom, List.length_cons, ih]

theorem bytesFrom_succ (m : Memory) (address : UInt8) (n : Nat) :
    m.bytesFrom address (n + 1) =
      m.bytesFrom address n ++ [m.read (address + UInt8.ofNat n)] := by
  induction n generalizing address with
  | zero => simp [bytesFrom]
  | succ n ih =>
    rw [bytesFrom, ih, bytesFrom, List.cons_append, UInt8.ofNat_add, add_comm (UInt8.ofNat n),
      ← add_assoc]
    rfl

theorem bytesFrom_write_of_ne (m : Memory) {a address : UInt8} (v : UInt8) {n : Nat}
    (h : ∀ i < n, address + UInt8.ofNat i ≠ a) :
    (m.write a v).bytesFrom address n = m.bytesFrom address n := by
  induction n with
  | zero => rfl
  | succ n ih =>
    rw [bytesFrom_succ, bytesFrom_succ, read_write, if_neg (h n n.lt_succ_self)]
    rw [ih fun i hi ↦ h i (Nat.lt_succ_of_lt hi)]

/-- It takes 256 cells to come round to the same one. -/
theorem ofNat_ne_of_lt {i j : Nat} (hlt : i < j) (hj : j < i + 256) :
    UInt8.ofNat i ≠ UInt8.ofNat j := by
  intro h
  have hnat : (UInt8.ofNat i).toNat = (UInt8.ofNat j).toNat := congrArg UInt8.toNat h
  simp only [UInt8.toNat_ofNat'] at hnat
  omega

end Memory

namespace Registers

theorem set_get_self (r : Registers) (i : Register) : r.set i (r.get i) = r := by
  apply ext_get
  intro j
  rw [get_set]
  split
  next h => rw [h]
  next => rfl

theorem setStackPointer_self (r : Registers) : r.setStackPointer r.stackPointer = r :=
  r.set_get_self Register.stackPointer

theorem setStackPointer_setStackPointer (r : Registers) (v w : UInt8) :
    (r.setStackPointer v).setStackPointer w = r.setStackPointer w := by
  apply ext_get
  intro i
  simp only [setStackPointer, get_set]
  split <;> rfl

end Registers

namespace Machine

open StackRequest (depth serveList? StaysWithin)

/-- The machine after requests to its stack, and the bytes that were popped. -/
def serveStack (m : Machine) : List StackRequest → Machine × List UInt8
  | [] => (m, [])
  | .push v :: rest => (m.push v).serveStack rest
  | .pop :: rest =>
    let (m', popped) := m.drop.serveStack rest
    (m', m.top :: popped)

/-- The upper `n` bytes of the stack, the one pushed last at the head. -/
def stack (m : Machine) (n : Nat) : List UInt8 := m.memory.bytesFrom m.stackPointer n

@[simp] theorem stackPointer_push (m : Machine) (v : UInt8) :
    (m.push v).stackPointer = m.stackPointer - 1 := by
  simp [push, stackPointer, Registers.stackPointer, Registers.setStackPointer]

@[simp] theorem stackPointer_drop (m : Machine) : m.drop.stackPointer = m.stackPointer + 1 := by
  simp [drop, stackPointer, Registers.stackPointer, Registers.setStackPointer]

/-- Less than a round above the stack pointer, no cell is the one below it. -/
theorem stack_push (m : Machine) (v : UInt8) {n : Nat} (hn : n < 256) :
    (m.push v).stack (n + 1) = v :: m.stack n := by
  have hcell : (m.push v).memory = m.memory.write (m.stackPointer - 1) v := rfl
  rw [stack, stackPointer_push, Memory.bytesFrom, hcell, Memory.read_write, if_pos rfl,
    sub_add_cancel, Memory.bytesFrom_write_of_ne, stack]
  intro i hi hround
  apply Memory.ofNat_ne_of_lt (i := 0) (j := i + 1) i.succ_pos (by omega)
  rw [UInt8.ofNat_add, ← add_sub_cancel_left m.stackPointer (UInt8.ofNat i), hround]
  simp

theorem stack_succ (m : Machine) (n : Nat) : m.stack (n + 1) = m.top :: m.drop.stack n := by
  rw [stack, stack, stackPointer_drop]
  rfl

theorem stack_concat (m : Machine) (n : Nat) :
    m.stack (n + 1) = m.stack n ++ [m.memory.read (m.stackPointer + UInt8.ofNat n)] :=
  m.memory.bytesFrom_succ m.stackPointer n

/-- The machine `m` is `start` with some bytes on its stack that has never held more than `bound` of
them, the one pushed last at the head. -/
structure StacksOn (start m : Machine) (bound : Nat) (stack : List UInt8) : Prop where
  stackPointer : m.stackPointer = start.stackPointer - UInt8.ofNat stack.length
  stack : m.stack stack.length = stack
  others : m = { start with
    registers := start.registers.setStackPointer m.stackPointer
    memory := m.memory }
  memory : ∀ address,
    (∀ j, 1 ≤ j → j ≤ bound → address ≠ start.stackPointer - UInt8.ofNat j) →
      m.memory.read address = start.memory.read address

namespace StacksOn

variable {start m : Machine} {bound : Nat} {stack : List UInt8} {v : UInt8}

theorem refl (m : Machine) (bound : Nat) : m.StacksOn m bound [] := by
  have hself : m.registers.setStackPointer m.stackPointer = m.registers :=
    m.registers.setStackPointer_self
  exact ⟨(sub_zero _).symm, rfl, by rw [hself], fun _ _ ↦ rfl⟩

theorem others_move {sp sp' : UInt8} {memory memory' : Memory}
    (h : m = { start with registers := start.registers.setStackPointer sp, memory }) :
    { m with registers := m.registers.setStackPointer sp', memory := memory' } =
      { start with registers := start.registers.setStackPointer sp', memory := memory' } := by
  subst h
  rw [Registers.setStackPointer_setStackPointer]

theorem push (h : start.StacksOn m bound stack) (hlt : stack.length < bound)
    (hbound : bound ≤ 256) (v : UInt8) : start.StacksOn (m.push v) bound (v :: stack) := by
  have hpointer : m.stackPointer - 1 = start.stackPointer - UInt8.ofNat (stack.length + 1) := by
    rw [h.stackPointer, UInt8.ofNat_add, sub_sub]
    rfl
  refine ⟨?_, ?_, ?_, ?_⟩
  · rw [stackPointer_push, hpointer, List.length_cons]
  · rw [List.length_cons, stack_push m v (Nat.lt_of_lt_of_le hlt hbound), h.stack]
  · rw [stackPointer_push]
    exact others_move h.others
  · intro address haddress
    have hcell : address ≠ m.stackPointer - 1 := by
      rw [hpointer]
      exact haddress _ (Nat.succ_pos _) hlt
    change (m.memory.write (m.stackPointer - 1) v).read address = _
    rw [Memory.read_write, if_neg hcell, h.memory address haddress]

theorem drop (h : start.StacksOn m bound (v :: stack)) :
    m.top = v ∧ start.StacksOn m.drop bound stack := by
  have hstack := h.stack
  rw [List.length_cons, stack_succ, List.cons.injEq] at hstack
  refine ⟨hstack.1, ?_, hstack.2, ?_, h.memory⟩
  · rw [stackPointer_drop, h.stackPointer, List.length_cons, UInt8.ofNat_add, ← sub_sub]
    exact sub_add_cancel _ 1
  · rw [stackPointer_drop]
    exact others_move h.others

/-- Requests that stay within the bound are served as by the list. -/
theorem serveStack (h : start.StacksOn m bound stack) (hbound : bound ≤ 256)
    {requests : List StackRequest} (hwithin : StaysWithin bound stack.length requests) :
    ∃ stack', serveList? stack requests = some (stack', (m.serveStack requests).2) ∧
      (stack'.length : Int) = stack.length + depth requests ∧
      start.StacksOn (m.serveStack requests).1 bound stack' := by
  induction requests generalizing m stack with
  | nil => exact ⟨stack, rfl, by simp, h⟩
  | cons request rest ih =>
    cases request with
    | push v =>
      obtain ⟨hlt, hrest⟩ := hwithin.of_push
      obtain ⟨stack', hlist, hlength, hend⟩ := ih (h.push hlt hbound v) hrest
      refine ⟨stack', hlist, ?_, hend⟩
      rw [hlength, StackRequest.depth_push, List.length_cons]
      omega
    | pop =>
      obtain ⟨below, hsize, hrest⟩ := hwithin.of_pop
      obtain ⟨v, stack, rfl⟩ := List.exists_cons_of_length_eq_add_one hsize
      obtain rfl : stack.length = below := Nat.succ.inj hsize
      obtain ⟨htop, hdrop⟩ := h.drop
      obtain ⟨stack', hlist, hlength, hend⟩ := ih hdrop hrest
      refine ⟨stack', ?_, ?_, hend⟩
      · rw [serveList?, hlist, ← htop]
        rfl
      · rw [hlength, StackRequest.depth_pop, List.length_cons]
        omega

end StacksOn

/-! ## The stack against a list -/

/-- Popping reads the stack from its head on. -/
theorem serveStack_replicate_pop (m : Machine) (n : Nat) :
    (m.serveStack (List.replicate n .pop)).2 = m.stack n := by
  induction n generalizing m with
  | zero => rfl
  | succ n ih =>
    rw [stack_succ, ← ih]
    rfl

/-- The byte that is pushed on 256 others is read twice, the second time in place of the lowest. -/
theorem stack_push_of_full (m : Machine) (v : UInt8) :
    (m.push v).stack 257 = v :: m.stack 255 ++ [v] := by
  have hround : UInt8.ofNat 256 = 0 := rfl
  have hlast : (m.push v).memory.read (m.stackPointer - 1) = v := by
    change (m.memory.write (m.stackPointer - 1) v).read (m.stackPointer - 1) = v
    rw [Memory.read_write, if_pos rfl]
  calc
    (m.push v).stack 257 = (m.push v).stack (255 + 1) ++ [v] := by
      rw [stack_concat, stackPointer_push, hround, UInt8.add_zero, hlast]
    _ = v :: m.stack 255 ++ [v] := by rw [stack_push m v (by decide)]

/-- The stack of a machine serves pushes and pops as a list does, while between 0 and `bound` bytes
are on it, for a bound of at most 256. The stack pointer is then as far below its start as there are
bytes, and only the `bound` cells there and the stack pointer itself can have changed. At 256 bytes
the capacity is reached: one more byte replaces the one at the bottom and is popped in its place. -/
theorem serveStack_eq_serveList (m : Machine) (requests : List StackRequest) (bound : Nat)
    (hbound : bound ≤ 256)
    (hdepth : ∀ k ≤ requests.length,
      0 ≤ depth (requests.take k) ∧ depth (requests.take k) ≤ bound) :
    (∀ k ≤ requests.length,
      let m' := (m.serveStack (requests.take k)).1
      (∃ stack, serveList? [] (requests.take k) =
        some (stack, (m.serveStack (requests.take k)).2)) ∧
      m'.stackPointer = m.stackPointer - UInt8.ofNat (depth (requests.take k)).toNat ∧
      m' = { m with
        registers := m.registers.setStackPointer m'.stackPointer
        memory := m'.memory } ∧
      ∀ address, (∀ j, 1 ≤ j → j ≤ bound → address ≠ m.stackPointer - UInt8.ofNat j) →
        m'.memory.read address = m.memory.read address) ∧
    (depth requests = 256 →
      let full := (m.serveStack requests).1
      ∃ stack bottom, serveList? [] requests =
          some (stack ++ [bottom], (m.serveStack requests).2) ∧
        full.memory.read (m.stackPointer - 1) = bottom ∧
        ∀ v, (full.push v).memory.read (m.stackPointer - 1) = v ∧
          ((full.push v).serveStack (List.replicate 257 .pop)).2 = v :: stack ++ [v]) := by
  have hserve (k : Nat) : ∃ stack,
      serveList? [] (requests.take k) = some (stack, (m.serveStack (requests.take k)).2) ∧
        (stack.length : Int) = depth (requests.take k) ∧
        m.StacksOn (m.serveStack (requests.take k)).1 bound stack := by
    have hwithin : StaysWithin bound ([] : List UInt8).length (requests.take k) := by
      intro j hj
      rw [List.length_take] at hj
      rw [List.take_take, List.length_nil, Nat.cast_zero, zero_add]
      exact hdepth (min j k) (by omega)
    obtain ⟨stack, hlist, hlength, hstacks⟩ :=
      (StacksOn.refl m bound).serveStack hbound hwithin
    rw [List.length_nil, Nat.cast_zero, zero_add] at hlength
    exact ⟨stack, hlist, hlength, hstacks⟩
  constructor
  · intro k _ m'
    obtain ⟨stack, hlist, hlength, hstacks⟩ := hserve k
    refine ⟨⟨stack, hlist⟩, ?_, hstacks.others, hstacks.memory⟩
    rw [← hlength]
    exact hstacks.stackPointer
  · intro hfull full
    obtain ⟨stack, hlist, hlength, hstacks⟩ := hserve requests.length
    rw [List.take_length] at hlist hlength hstacks
    have hsize : stack.length = 255 + 1 := by omega
    have hround : full.stackPointer = m.stackPointer := by
      rw [hstacks.stackPointer, hsize]
      exact sub_zero _
    have hlowest : m.stackPointer + UInt8.ofNat 255 = m.stackPointer - 1 := by
      rw [sub_eq_add_neg]
      rfl
    have hcells : stack = full.stack 255 ++ [full.memory.read (m.stackPointer - 1)] := by
      calc
        stack = full.stack stack.length := hstacks.stack.symm
        _ = full.stack 255 ++ [full.memory.read (full.stackPointer + UInt8.ofNat 255)] := by
          rw [hsize, stack_concat]
        _ = full.stack 255 ++ [full.memory.read (m.stackPointer - 1)] := by
          rw [hround, hlowest]
    refine ⟨full.stack 255, full.memory.read (m.stackPointer - 1), hcells ▸ hlist, rfl, ?_⟩
    intro v
    constructor
    · change (full.memory.write (full.stackPointer - 1) v).read _ = v
      rw [hround, Memory.read_write, if_pos rfl]
    · rw [serveStack_replicate_pop, stack_push_of_full]

/-- A stack that grows through address zero, and one that is filled and overrun. -/
theorem serveStack_eq_serveList_of_wrap :
    let m := ofSettings { stackPointer := some 1 }
    let requests : List StackRequest := [.push 7, .push 8, .pop, .push 9, .pop, .pop]
    let full := (m.serveStack (List.replicate 256 (.push 5))).1
    (m.serveStack requests).2 = [8, 9, 7] ∧
      (m.serveStack (requests.take 2)).1.stackPointer = 255 ∧
      (m.serveStack requests).1.memory.read 254 = m.memory.read 254 ∧
      full.memory.read 0 = 5 ∧
      (full.push 6).memory.read 0 = 6 ∧
      ((full.push 6).serveStack (List.replicate 257 .pop)).2.getLast? = some 6 := by
  intro m requests full
  have hpointer : m.stackPointer = 1 := by decide +kernel
  obtain ⟨hserves, -⟩ := serveStack_eq_serveList m requests 2 (by decide) (by decide +kernel)
  obtain ⟨⟨stack, hlist⟩, -, -, hkept⟩ := hserves 6 (by decide)
  obtain ⟨-, hmoved, -⟩ := hserves 2 (by decide)
  have hpopped : serveList? [] requests = some ([], [8, 9, 7]) := by decide +kernel
  have hdepth (n : Nat) : depth (List.replicate n (.push 5)) = n := by
    induction n with
    | zero => rfl
    | succ n ih => rw [List.replicate_succ, StackRequest.depth_push, ih, Nat.cast_succ]
  have hfilled : ∀ k ≤ (List.replicate 256 (StackRequest.push 5)).length,
      0 ≤ depth ((List.replicate 256 (StackRequest.push 5)).take k) ∧
        depth ((List.replicate 256 (StackRequest.push 5)).take k) ≤ (256 : Nat) := by
    intro k hk
    rw [List.length_replicate] at hk
    rw [List.take_replicate, Nat.min_eq_left hk, hdepth]
    exact ⟨Int.natCast_nonneg k, Int.ofNat_le.2 hk⟩
  obtain ⟨-, hoverrun⟩ := serveStack_eq_serveList m _ 256 (Nat.le_refl _) hfilled
  obtain ⟨below, bottom, hbytes, hbottom, hpushed⟩ := hoverrun (hdepth 256)
  obtain ⟨hread, hpops⟩ := hpushed 6
  have hfives : (serveList? [] (List.replicate 256 (.push 5))).map (·.1.getLast?) =
      some (some 5) := by
    decide +kernel
  rw [hbytes, Option.map_some, List.getLast?_concat] at hfives
  have hlowest : bottom = 5 := Option.some.inj (Option.some.inj hfives)
  rw [hpointer] at hmoved hkept hbottom hread
  refine ⟨?_, hmoved, hkept 254 (by decide), hbottom.trans hlowest, hread, ?_⟩
  · have hboth := Option.some.inj (hlist.symm.trans hpopped)
    exact congrArg Prod.snd hboth
  · rw [hpops]
    exact List.getLast?_concat

end Machine

end OctetMachine
