import Mathlib.Data.ENat.Lattice
import OctetMachine.Output

/-!
# The room of a device

A device has room for a number of bytes, or without end, if it takes some part of every offer while
there is room and nothing afterwards. How it cuts what it is offered is its own affair, so a write
to it is told by the room alone: it succeeds if all of its bytes fit, and else fails after those
that do.
-/

namespace OctetMachine

namespace Device

/-- What can be asked of a device. -/
inductive Request where
  | offer (bytes : List UInt8)
  | flush

variable {δ : Type} [Device δ]

/-- The number of bytes that a device takes of an offer. -/
def accepted (d : δ) (bytes : List UInt8) : Nat :=
  match (offer d bytes).2 with
  | .took count => min count bytes.length
  | .refused _ => 0

def serve (d : δ) : Request → δ
  | .offer bytes => (offer d bytes).1
  | .flush => (flush d).1

def taken (d : δ) : Request → Nat
  | .offer bytes => accepted d bytes
  | .flush => 0

/-- The device after a series of requests. -/
def after (d : δ) (past : List Request) : δ := past.foldl serve d

/-- The number of bytes that a device takes in a series of requests. -/
def load (d : δ) : List Request → Nat
  | [] => 0
  | request :: rest => taken d request + load (serve d request) rest

/-- Whatever was asked of the device, it then takes no more than the room that is left, and some
part of every offer if any is left. -/
def HasRoom (d : δ) (room : ℕ∞) : Prop :=
  ∀ (past : List Request) (bytes : List UInt8), bytes ≠ [] →
    accepted (after d past) bytes ≤ room - load d past ∧
      (room - load d past ≠ 0 → accepted (after d past) bytes ≠ 0)

/-- Whatever was asked of the device, flushing it succeeds. -/
def Flushes (d : δ) : Prop := ∀ past : List Request, (flush (after d past)).2 = none

section

variable {d : δ} {room : ℕ∞}

theorem HasRoom.serve (h : HasRoom d room) (request : Request) :
    HasRoom (serve d request) (room - taken d request) := by
  intro past bytes hbytes
  have hpast := h (request :: past) bytes hbytes
  rw [load, Nat.cast_add, ← tsub_tsub] at hpast
  exact hpast

theorem HasRoom.accepted_le (h : HasRoom d room) {bytes : List UInt8} (hbytes : bytes ≠ []) :
    accepted d bytes ≤ room := by
  simpa [load, after] using (h [] bytes hbytes).1

theorem HasRoom.of_offer (h : HasRoom d room) {device : δ} {bytes : List UInt8}
    {answer : Acceptance} (hoffer : offer d bytes = (device, answer)) :
    HasRoom device (room - accepted d bytes) := by
  have hdevice : Device.serve d (.offer bytes) = device := congrArg Prod.fst hoffer
  exact hdevice ▸ h.serve (.offer bytes)

theorem HasRoom.after (h : HasRoom d room) (past : List Request) :
    HasRoom (after d past) (room - load d past) := by
  induction past generalizing d room with
  | nil => simpa [Device.after, load] using h
  | cons request rest ih =>
    rw [load, Nat.cast_add, ← tsub_tsub]
    exact ih (h.serve request)

/-- Only a full device takes nothing. -/
theorem HasRoom.eq_zero (h : HasRoom d room) {bytes : List UInt8} (hbytes : bytes ≠ [])
    (hnone : accepted d bytes = 0) : room = 0 := by
  by_contra hroom
  have hleft : room - (load d [] : ℕ) ≠ 0 := by simpa [load] using hroom
  exact (h [] bytes hbytes).2 hleft hnone

theorem Flushes.after (h : Flushes d) (past : List Request) : Flushes (after d past) := by
  intro more
  have hmore := h (past ++ more)
  rwa [Device.after, List.foldl_append] at hmore

/-- A measure of what is left that goes by what the device takes is its room. -/
theorem hasRoom_of_measure (left : δ → ℕ∞)
    (hserve : ∀ d request, left (Device.serve d request) = left d - taken d request)
    (hle : ∀ d bytes, accepted d bytes ≤ left d)
    (hpos : ∀ d (bytes : List UInt8), bytes ≠ [] → left d ≠ 0 → accepted d bytes ≠ 0) (d : δ) :
    HasRoom d (left d) := by
  intro past bytes hbytes
  have hleft : left (Device.after d past) = left d - load d past := by
    induction past generalizing d with
    | nil => simp [Device.after, load]
    | cons request rest ih =>
      rw [load, Nat.cast_add, ← tsub_tsub, ← hserve]
      exact ih (Device.serve d request)
  rw [← hleft]
  exact ⟨hle _ bytes, hpos _ bytes hbytes⟩

end

end Device

namespace Outlet

open Device (HasRoom Request accepted)

variable {δ : Type} [Device δ]

theorem accepted_of_took {d device : δ} {bytes : List UInt8} {count : Nat}
    (h : Device.offer d bytes = (device, .took count)) :
    accepted d bytes = min count bytes.length := by
  rw [accepted, h]

theorem accepted_of_refused {d device : δ} {bytes : List UInt8} {reason : String}
    (h : Device.offer d bytes = (device, .refused reason)) : accepted d bytes = 0 := by
  rw [accepted, h]

/-- A write of bytes that fit succeeds. -/
theorem write_of_le {o : Outlet δ} {bytes : List UInt8} {room : ℕ∞} (h : HasRoom o.device room)
    (hle : (bytes.length : ℕ∞) ≤ room) :
    (o.write bytes).2 = none ∧ HasRoom (o.write bytes).1.device (room - bytes.length) := by
  fun_induction write o bytes generalizing room with
  | case1 o => simpa using h
  | case2 o b rest device reason hoffer =>
    have hfull : room = 0 := h.eq_zero (List.cons_ne_nil b rest) (accepted_of_refused hoffer)
    simp [hfull] at hle
  | case3 o b rest device hoffer =>
    have hfull : room = 0 := h.eq_zero (List.cons_ne_nil b rest) (accepted_of_took hoffer)
    simp [hfull] at hle
  | case4 o b rest device n hoffer ih =>
    have haccepted : accepted o.device (b :: rest) = min (n + 1) (b :: rest).length :=
      accepted_of_took hoffer
    have hlength : (b :: rest).length = accepted o.device (b :: rest) + (rest.drop n).length := by
      rw [haccepted, List.length_drop, List.length_cons]
      omega
    rw [hlength, Nat.cast_add] at hle ⊢
    -- The rest fits into the room that is left behind what was taken.
    rw [← tsub_tsub]
    exact ih (h.of_offer hoffer) (ENat.le_sub_of_add_le_left (ENat.natCast_ne_top _) hle)

/-- Of a write of more bytes than fit, the device takes those that do. -/
theorem write_of_lt {o : Outlet δ} {bytes : List UInt8} {room : ℕ} (h : HasRoom o.device room)
    (hlt : room < bytes.length) :
    ∃ reason, (o.write bytes).2 = some reason ∧
      (o.write bytes).1.received.toList = o.received.toList ++ bytes.take room := by
  fun_induction write o bytes generalizing room with
  | case1 o => simp at hlt
  | case2 o b rest device reason hoffer =>
    have hfull : (room : ℕ∞) = 0 := h.eq_zero (List.cons_ne_nil b rest) (accepted_of_refused hoffer)
    exact ⟨reason, rfl, by simp [Nat.cast_eq_zero.1 hfull]⟩
  | case3 o b rest device hoffer =>
    have hfull : (room : ℕ∞) = 0 := h.eq_zero (List.cons_ne_nil b rest) (accepted_of_took hoffer)
    exact ⟨_, rfl, by simp [Nat.cast_eq_zero.1 hfull]⟩
  | case4 o b rest device n hoffer ih =>
    -- There is no room for all of the offer, so the device took as much as it said.
    have haccepted : accepted o.device (b :: rest) = n + 1 := by
      have hle : accepted o.device (b :: rest) ≤ room :=
        Nat.cast_le.1 (h.accepted_le (List.cons_ne_nil b rest))
      rw [accepted_of_took hoffer] at hle ⊢
      omega
    obtain ⟨left, rfl⟩ : ∃ left, room = n + 1 + left := by
      apply Nat.exists_eq_add_of_le
      rw [← haccepted]
      exact Nat.cast_le.1 (h.accepted_le (List.cons_ne_nil b rest))
    have hdevice : HasRoom device left := by
      have hserve := h.of_offer hoffer
      rwa [haccepted, ← ENat.natCast_sub, Nat.add_sub_cancel_left] at hserve
    have hleft : left < (rest.drop n).length := by
      rw [List.length_cons] at hlt
      rw [List.length_drop]
      omega
    obtain ⟨reason, hreason, hreceived⟩ := ih hdevice hleft
    refine ⟨reason, hreason, ?_⟩
    rw [hreceived, Nat.add_right_comm, List.take_succ_cons, List.take_add]
    simp

/-- The device after a write got there by requests. -/
theorem exists_after_write (o : Outlet δ) (bytes : List UInt8) :
    ∃ past : List Request, (o.write bytes).1.device = Device.after o.device past := by
  fun_induction write o bytes with
  | case1 o => exact ⟨[], rfl⟩
  | case2 o b rest device reason hoffer =>
    exact ⟨[.offer (b :: rest)], (congrArg Prod.fst hoffer).symm⟩
  | case3 o b rest device hoffer =>
    exact ⟨[.offer (b :: rest)], (congrArg Prod.fst hoffer).symm⟩
  | case4 o b rest device n hoffer ih =>
    obtain ⟨past, hpast⟩ := ih
    have hdevice : Device.serve o.device (.offer (b :: rest)) = device := congrArg Prod.fst hoffer
    exact ⟨.offer (b :: rest) :: past, by rw [hpast, ← hdevice]; rfl⟩

/-! ## Capacity -/

/-- The outlet has received no more than `capacity` bytes, and its device takes what is missing to
that. -/
structure Holds (o : Outlet δ) (capacity : ℕ∞) : Prop where
  size_le : o.received.size ≤ capacity
  room : HasRoom o.device (capacity - o.received.size)

theorem holds_top_iff {o : Outlet δ} : o.Holds ⊤ ↔ HasRoom o.device ⊤ := by
  constructor
  · intro h
    simpa using h.room
  · intro h
    exact ⟨le_top, by simpa using h⟩

theorem Holds.flush {o : Outlet δ} {capacity : ℕ∞} (h : o.Holds capacity) :
    o.flush.1.Holds capacity := by
  have hroom := h.room.serve .flush
  rw [Device.taken, Nat.cast_zero, tsub_zero] at hroom
  exact ⟨h.size_le, hroom⟩

theorem Holds.print_of_le {o : Outlet δ} {capacity : ℕ∞} (h : o.Holds capacity)
    (text : List Char)
    (hle : (o.received.size : ℕ∞) + (text.flatMap String.utf8EncodeChar).length ≤ capacity) :
    (o.print text).2 = none ∧ (o.print text).1.Holds capacity := by
  have hfits := ENat.le_sub_of_add_le_left (ENat.natCast_ne_top _) hle
  obtain ⟨hnone, hroom⟩ := write_of_le h.room hfits
  have hsize : (o.print text).1.received.size =
      o.received.size + (text.flatMap String.utf8EncodeChar).length := by
    rw [← Array.length_toList, print, received_write hnone, List.length_append,
      Array.length_toList]
  refine ⟨hnone, ?_, ?_⟩
  · rwa [hsize, Nat.cast_add]
  · rw [hsize, Nat.cast_add, ← tsub_tsub]
    exact hroom

theorem Holds.print_of_lt {o : Outlet δ} {capacity : ℕ} (h : o.Holds capacity)
    (text : List Char)
    (hlt : capacity < o.received.size + (text.flatMap String.utf8EncodeChar).length) :
    ∃ reason, (o.print text).2 = some reason ∧
      (o.print text).1.received.toList =
        (o.received.toList ++ text.flatMap String.utf8EncodeChar).take capacity := by
  have hle : o.received.size ≤ capacity := Nat.cast_le.1 h.size_le
  have hroom : HasRoom o.device ((capacity - o.received.size : ℕ) : ℕ∞) := by
    rw [ENat.natCast_sub]
    exact h.room
  have hover : capacity - o.received.size < (text.flatMap String.utf8EncodeChar).length := by omega
  obtain ⟨reason, hreason, hreceived⟩ := write_of_lt hroom hover
  refine ⟨reason, hreason, hreceived.trans ?_⟩
  have hkept : o.received.toList.take capacity = o.received.toList :=
    List.take_of_length_le (by rwa [Array.length_toList])
  rw [List.take_append, Array.length_toList, hkept]

end Outlet

namespace Container

open Device (HasRoom accepted)

def left (c : Container) : ℕ∞ :=
  match c.room with
  | none => ⊤
  | some room => room

theorem left_offer (c : Container) (bytes : List UInt8) :
    (c.offer bytes).1.left = c.left - bytes.length := by
  obtain ⟨room, refuses, flushes⟩ := c
  rcases room with _ | _ | room <;> simp [offer, left]

theorem accepted_eq (c : Container) (bytes : List UInt8) :
    (accepted c bytes : ℕ∞) = min c.left bytes.length := by
  obtain ⟨room, refuses, flushes⟩ := c
  rcases room with _ | _ | room
  · simp [accepted, Device.offer, offer, left]
  · cases refuses <;> simp [accepted, Device.offer, offer, left]
  · simp [accepted, Device.offer, offer, left, Nat.mono_cast.map_min]

/-- What a container takes is as much as fits. -/
theorem hasRoom_left (c : Container) : HasRoom c c.left := by
  apply Device.hasRoom_of_measure
  · rintro c (bytes | _)
    · change (c.offer bytes).1.left = c.left - accepted c bytes
      rw [left_offer, accepted_eq, tsub_min]
    · exact (tsub_zero c.left).symm
  · intro c bytes
    rw [accepted_eq]
    exact min_le_left _ _
  · intro c bytes hbytes hleft hnone
    have hpos : 0 < min c.left (bytes.length : ℕ∞) :=
      lt_min (pos_iff_ne_zero.2 hleft) (by simpa using List.length_pos_iff.2 hbytes)
    rw [← accepted_eq, hnone, Nat.cast_zero] at hpos
    exact lt_irrefl 0 hpos

theorem holds_left (c : Container) : ({ device := c } : Outlet Container).Holds c.left :=
  ⟨by simp, by simpa using c.hasRoom_left⟩

theorem flushes_serve (c : Container) (request : Device.Request) :
    (Device.serve c request).flushes = c.flushes := by
  obtain ⟨room, refuses, flushes⟩ := c
  cases request
  · rcases room with _ | _ | room <;> rfl
  · rfl

theorem device_flushes {c : Container} (h : c.flushes = true) : Device.Flushes c := by
  intro past
  induction past generalizing c with
  | nil => exact if_pos h
  | cons request rest ih => exact ih ((c.flushes_serve request).trans h)

end Container

end OctetMachine
