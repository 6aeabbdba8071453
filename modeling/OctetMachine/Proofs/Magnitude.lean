import Mathlib.Data.Nat.Digits.Defs
import OctetMachine.JsonText.Number

/-!
# Naturals among the numbers

Rounding a natural gives a natural of at most twice its size. So a number of digits alone that fits
in a 64-bit word is far from the end of the floating-point range. Nothing is said of numbers with a
fraction or an exponent.
-/

namespace OctetMachine

namespace Binary64

theorem nearestNat_one (n : Nat) : nearestNat n 1 = n := by
  simp [nearestNat, Nat.mod_one]

theorem nearestNat_le (num den : Nat) : nearestNat num den ≤ num / den + 1 := by
  have hparity := Nat.mod_lt (num / den) Nat.two_pos
  dsimp only [nearestNat]
  split
  · omega
  · split
    · omega
    · omega

theorem log2Ratio_one {n : Nat} (h : n ≠ 0) : log2Ratio n 1 = n.log2 := by
  have hlog : Nat.log2 1 = 0 := by decide
  simp [log2Ratio, hlog, Nat.one_shiftLeft, Nat.log2_self_le h]

theorem mkRat_one_natCast (n : Nat) : mkRat n 1 = n := Rat.mkRat_self n

theorem mkRat_mul_natCast (n : Nat) {d : Nat} (h : d ≠ 0) : mkRat (n * d : Nat) d = n := by
  have hcancel : mkRat ((n : Int) * d) (1 * d) = mkRat n 1 := Rat.mkRat_mul_right h
  rw [Nat.one_mul] at hcancel
  rw [Int.natCast_mul, hcancel, mkRat_one_natCast]

/-- A natural is scaled until its digits fill the format or, if they exceed it, are dropped. -/
theorem ofNat_eq {n : Nat} (h : n ≠ 0) :
    ofNat n =
      mkRat ((nearestNat (n * 2 ^ (52 - n.log2)) (2 ^ (n.log2 - 52)) * 2 ^ (n.log2 - 52) : Nat))
        (2 ^ (52 - n.log2)) := by
  have hpos : ¬ (n : Rat).num ≤ 0 := by
    rw [Rat.num_natCast]
    omega
  have hup : ((52 : Int) - n.log2).toNat = 52 - n.log2 := by omega
  have hdown : (-((52 : Int) - n.log2)).toNat = n.log2 - 52 := by omega
  rw [ofNat, round, if_neg hpos]
  simp only [Rat.num_natCast, Rat.den_natCast, Int.toNat_natCast, log2Ratio_one h, hup, hdown,
    Nat.shiftLeft_eq, Nat.one_mul, Int.natCast_mul, Int.natCast_pow]

theorem exists_ofNat_eq (n : Nat) : ∃ m : Nat, m ≤ 2 * n ∧ ofNat n = m := by
  by_cases hn : n = 0
  · subst hn
    exact ⟨0, Nat.le_refl _, by decide⟩
  by_cases hlog : n.log2 ≤ 52
  · -- The digits fit, so the natural is scaled and scaled back.
    refine ⟨n, by omega, ?_⟩
    rw [ofNat_eq hn, Nat.sub_eq_zero_of_le hlog, Nat.pow_zero, nearestNat_one, Nat.mul_one,
      mkRat_mul_natCast n (by simp)]
  · -- The last bits are dropped; rounding adds at most their unit.
    have hfill : 52 - n.log2 = 0 := by omega
    refine ⟨nearestNat n (2 ^ (n.log2 - 52)) * 2 ^ (n.log2 - 52), ?_, ?_⟩
    · have hunit : 2 ^ (n.log2 - 52) ≤ n :=
        Nat.le_trans (Nat.pow_le_pow_right Nat.two_pos (by omega)) (Nat.log2_self_le hn)
      calc
        _ ≤ (n / 2 ^ (n.log2 - 52) + 1) * 2 ^ (n.log2 - 52) :=
          Nat.mul_le_mul_right _ (nearestNat_le _ _)
        _ = n / 2 ^ (n.log2 - 52) * 2 ^ (n.log2 - 52) + 2 ^ (n.log2 - 52) := Nat.succ_mul _ _
        _ ≤ n + n := Nat.add_le_add (Nat.div_mul_le_self _ _) hunit
        _ = 2 * n := (Nat.two_mul n).symm
    · rw [ofNat_eq hn, hfill, Nat.pow_zero, Nat.mul_one, mkRat_one_natCast]

theorem natCast_lt_overflow {n : Nat} (h : n < 2 ^ 1024) : ¬ overflow ≤ n := by
  have hoverflow : overflow = (2 ^ 1024 : Nat) := by decide +kernel
  rw [hoverflow, Rat.natCast_le_natCast]
  exact Nat.not_le_of_lt h

theorem mul_ofNat_one_lt_overflow {n : Nat} (h : n < UInt64.size) :
    ¬ overflow ≤ mul (ofNat n) (ofNat 1) := by
  have hone : ofNat 1 = 1 := by decide +kernel
  obtain ⟨m, hm, heq⟩ := exists_ofNat_eq n
  obtain ⟨k, hk, hproduct⟩ := exists_ofNat_eq m
  rw [hone, heq, mul, Rat.mul_one, ← ofNat, hproduct]
  have hsize : 4 * UInt64.size < 2 ^ 1024 := by decide +kernel
  exact natCast_lt_overflow (by omega)

end Binary64

namespace JsonText.Number

theorem le_ofDigitChars (digits : List Char) (n : Nat) : n ≤ Nat.ofDigitChars 10 digits n := by
  induction digits generalizing n with
  | nil => exact Nat.le_refl n
  | cons d digits ih =>
    rw [Nat.ofDigitChars_cons]
    exact Nat.le_trans (by omega) (ih _)

theorem takeWhole_eq (digits : List Char) (s : Scaled)
    (h : Nat.ofDigitChars 10 digits s.significand < UInt64.size) :
    s.takeWhole digits = { s with significand := Nat.ofDigitChars 10 digits s.significand } := by
  induction digits generalizing s with
  | nil => rfl
  | cons d digits ih =>
    rw [Nat.ofDigitChars_cons] at h ⊢
    have hnext := Nat.lt_of_le_of_lt (le_ofDigitChars digits _) h
    rw [Scaled.takeWhole, digitValue, if_pos hnext, ih _ h]

/-- A natural that fits in a word is in the floating-point range. -/
theorem isTooLarge_of_natural? {x : Number} {n : Nat} (hx : x.natural? = some n)
    (hn : n < UInt64.size) : x.isTooLarge = false := by
  obtain ⟨negative, whole, fraction, exponent⟩ := x
  obtain ⟨⟨⟨rfl, rfl⟩, rfl⟩, rfl⟩ :
      ((negative = false ∧ fraction = none) ∧ exponent = none) ∧
        Nat.ofDigitChars 10 whole 0 = n := by
    simpa [natural?] using hx
  have hscaled : scaled { negative := false, whole, fraction := none, exponent := none } =
      { significand := Nat.ofDigitChars 10 whole 0, scale := 0 } := by
    simp [scaled, takeWhole_eq whole {} hn, Scaled.takeFraction]
  have hmul := Binary64.mul_ofNat_one_lt_overflow hn
  simp [isTooLarge, hscaled, hmul]

end JsonText.Number

end OctetMachine
