/-!
# Output devices

A device is offered bytes and takes a leading part of them, or refuses. Writing offers what is left
until nothing is; it stops at a refusal, and a device that takes nothing counts as one that refuses.
An outlet remembers what its device has taken, so all that is known of any device is said through
`received`: writing appends some leading part of the bytes, and all of them if it succeeds.
-/

namespace OctetMachine

/-- A device's answer to an offer. -/
inductive Acceptance where
  /-- The device took this many bytes, or all if there were fewer. -/
  | took (count : Nat)
  | refused (reason : String)

class Device (δ : Type) where
  /-- The device after an offer of bytes, and its answer. -/
  offer : δ → List UInt8 → δ × Acceptance
  /-- The device after a flush, and the reason if that failed. -/
  flush : δ → δ × Option String

/-- A device together with the bytes it has taken. -/
structure Outlet (δ : Type) where
  device : δ
  received : Array UInt8 := #[]

namespace Outlet

variable {δ : Type} [Device δ]

/-- Offers bytes until all are taken; the answer is the reason if they were not. -/
def write (o : Outlet δ) (bytes : List UInt8) : Outlet δ × Option String :=
  match bytes with
  | [] => (o, none)
  | b :: rest =>
    match Device.offer o.device (b :: rest) with
    | (device, .refused reason) => ({ o with device }, some reason)
    | (device, .took 0) => ({ o with device }, some "failed to write whole buffer")
    | (device, .took (n + 1)) =>
      write { device, received := o.received ++ (b :: rest.take n).toArray } (rest.drop n)
termination_by bytes.length
decreasing_by
  simp only [List.length_drop, List.length_cons]
  omega

/-- Writes a text in UTF-8. -/
def print (o : Outlet δ) (text : List Char) : Outlet δ × Option String :=
  o.write (text.flatMap String.utf8EncodeChar)

def flush (o : Outlet δ) : Outlet δ × Option String :=
  let (device, failure) := Device.flush o.device
  ({ o with device }, failure)

@[simp] theorem received_flush (o : Outlet δ) : o.flush.1.received = o.received := rfl

@[simp] theorem write_nil (o : Outlet δ) : o.write [] = (o, none) := by rw [write]

@[simp] theorem print_nil (o : Outlet δ) : o.print [] = (o, none) := write_nil o

/-- Whatever the device does, a write appends a leading part of the bytes. -/
theorem exists_received_write (o : Outlet δ) (bytes : List UInt8) :
    ∃ n, (o.write bytes).1.received.toList = o.received.toList ++ bytes.take n := by
  fun_induction write o bytes with
  | case1 o => exact ⟨0, by simp⟩
  | case2 o b rest device reason h => exact ⟨0, by simp⟩
  | case3 o b rest device h => exact ⟨0, by simp⟩
  | case4 o b rest device n h ih =>
    obtain ⟨k, hk⟩ := ih
    refine ⟨n + 1 + k, ?_⟩
    rw [hk, show n + 1 + k = n + k + 1 by omega]
    simp [List.take_add]

/-- A write that succeeds appends all its bytes. -/
theorem received_write {o : Outlet δ} {bytes : List UInt8} (h : (o.write bytes).2 = none) :
    (o.write bytes).1.received.toList = o.received.toList ++ bytes := by
  fun_induction write o bytes with
  | case1 o => simp
  | case2 => simp at h
  | case3 => simp at h
  | case4 o b rest device n _ ih => simp [ih h]

end Outlet

/-! ## Devices of limited room -/

/-- A device with room for a number of bytes, or without limit. -/
structure Container where
  room : Option Nat := none
  /-- Whether a full device refuses an offer; else it takes nothing. -/
  refusesWhenFull : Bool := true
  flushes : Bool := true
  deriving DecidableEq

namespace Container

def offer (c : Container) (bytes : List UInt8) : Container × Acceptance :=
  match c.room with
  | none => (c, .took bytes.length)
  | some 0 => (c, if c.refusesWhenFull then .refused "sink full" else .took 0)
  | some room =>
    ({ c with room := some (room - bytes.length) }, .took (min room bytes.length))

instance : Device Container where
  offer := offer
  flush c := (c, if c.flushes then none else some "pipe closed")

end Container

end OctetMachine
