import OctetMachine.Proofs.Course

/-!
# Flushes

A run flushes its device once, at its end, and steps never do. Devices need not show how often they
were flushed, so this is said about every count that they may keep of it.
-/

namespace OctetMachine

/-- A count that a device keeps of its flushes. -/
structure FlushCount (δ : Type) [Device δ] where
  count : δ → Nat
  count_offer (d : δ) (bytes : List UInt8) : count (Device.offer d bytes).1 = count d
  count_flush (d : δ) : count (Device.flush d).1 = count d + 1

/-- A device with a counter beside it. -/
structure Metered (δ : Type) where
  device : δ
  flushes : Nat := 0

namespace Metered

variable {δ : Type} [Device δ]

instance : Device (Metered δ) where
  offer d bytes := ({ d with device := (Device.offer d.device bytes).1 },
    (Device.offer d.device bytes).2)
  flush d := ({ device := (Device.flush d.device).1, flushes := d.flushes + 1 },
    (Device.flush d.device).2)

def flushCount : FlushCount (Metered δ) where
  count := flushes
  count_offer _ _ := rfl
  count_flush _ := rfl

end Metered

namespace FlushCount

variable {δ : Type} [Device δ] (f : FlushCount δ)

theorem count_write (o : Outlet δ) (bytes : List UInt8) :
    f.count (o.write bytes).1.device = f.count o.device := by
  fun_induction Outlet.write o bytes with
  | case1 o => rfl
  | case2 o b rest device reason h => rw [← f.count_offer o.device (b :: rest), h]
  | case3 o b rest device h => rw [← f.count_offer o.device (b :: rest), h]
  | case4 o b rest device n h ih => rw [ih, ← f.count_offer o.device (b :: rest), h]

theorem count_step (c : Computer δ) :
    f.count c.step.1.outlet.device = f.count c.outlet.device := by
  obtain ⟨text, htext⟩ := c.exists_outlet_step
  rw [htext]
  exact f.count_write _ _

theorem count_steps (c : Computer δ) (n : Nat) :
    f.count (c.steps n).outlet.device = f.count c.outlet.device := by
  induction n with
  | zero => rfl
  | succ n ih => rw [Computer.steps_succ, count_step, ih]

theorem count_of_ends {c e : Computer δ} {result : Except Fault Unit} (h : c.Ends e result) :
    f.count e.outlet.device = f.count c.outlet.device := by
  cases h with
  | halted => rfl
  | spent => rfl
  | failed running _ fails => rw [← f.count_step c, fails.step running]

theorem count_of_run? {c c' : Computer δ} {fuel : Nat} {result : Except Fault Unit}
    (h : c.run? fuel = some (c', result)) :
    f.count c'.outlet.device = f.count c.outlet.device + 1 := by
  obtain ⟨k, -, e, ending, -, hend, hfinish⟩ := Computer.exists_ends_of_run? h
  have hlast : c'.outlet = e.outlet.flush.1 :=
    (congrArg (fun p ↦ p.1.outlet) hfinish).symm
  calc
    f.count c'.outlet.device = f.count (Device.flush e.outlet.device).1 := by rw [hlast]; rfl
    _ = f.count e.outlet.device + 1 := f.count_flush _
    _ = f.count (c.steps k).outlet.device + 1 := by rw [f.count_of_ends hend]
    _ = f.count c.outlet.device + 1 := by rw [f.count_steps]

end FlushCount

end OctetMachine
