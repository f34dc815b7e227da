import Mathlib

/-!
This module contains the rounding of numbers to double precision: how a mantissa is shifted to the
place where 53 bits of it are left, and what is done about the bits that are lost.
-/

namespace ReadProgress

namespace Double

open Float.Model Float.Model.UnpackedFloat

/--
A mantissa after a shift to the right, rounded to the nearest number.
-/
def rounded (m : Nat) (accuracy : Accuracy) (shift : Nat) : Nat :=
  (ExtendedMantissa.ofMantissaAndAccuracy m accuracy >>> shift).roundedMantissa

/--
The exponent that belongs to a mantissa once at most 53 bits of it are left.
-/
def gridExponent (m : Nat) (e : Int) : Int :=
  max e (max ((m.log2 : Int) + e - 52) (-1074))

/--
The number `r * 2 ^ e`, where `r` has at most 53 bits or is the first number with more.
-/
def settled (s : Sign) (r : Nat) (e : Int) : UnpackedFloat :=
  if h : r = 0 then .zero s
  else if r = 9007199254740992 then .finite s 4503599627370496 (e + 1) (by decide)
  else .finite s r e (Nat.pos_of_ne_zero h)

theorem mantissa_shift (m shift : Nat) (accuracy : Accuracy) :
    (ExtendedMantissa.ofMantissaAndAccuracy m accuracy >>> shift).mantissa = m / 2 ^ shift := by
  show (Nat.repeat ExtendedMantissa.shiftRightOne shift _).mantissa = _
  induction shift with
  | zero =>
    rcases accuracy with _ | (_ | _ | _)
    all_goals simp [Nat.repeat, ExtendedMantissa.ofMantissaAndAccuracy]
  | succ shift ih =>
    simp only [Nat.repeat, ExtendedMantissa.shiftRightOne, ih]
    rw [Nat.div_div_eq_div_mul, Nat.pow_succ]

theorem exact_shift_succ (m shift : Nat) :
    ExtendedMantissa.ofMantissaAndAccuracy m .exact >>> (shift + 1) =
      ⟨m / 2 ^ (shift + 1), m / 2 ^ shift % 2 != 0, m % 2 ^ shift != 0⟩ := by
  show Nat.repeat ExtendedMantissa.shiftRightOne (shift + 1) _ = _
  induction shift with
  | zero =>
    simp [Nat.repeat, ExtendedMantissa.ofMantissaAndAccuracy, ExtendedMantissa.shiftRightOne,
      Nat.mod_one]
  | succ shift ih =>
    have hhalf : m / 2 ^ (shift + 1) / 2 = m / 2 ^ (shift + 1 + 1) := by
      rw [Nat.div_div_eq_div_mul, ← Nat.pow_succ]
    have hsticky : (m / 2 ^ shift % 2 != 0 || m % 2 ^ shift != 0) = (m % 2 ^ (shift + 1) != 0) := by
      rw [Nat.mod_pow_succ]
      have := Nat.two_pow_pos shift
      rcases Nat.mod_two_eq_zero_or_one (m / 2 ^ shift) with h | h <;> simp [h]
    rw [Nat.repeat, ih]
    simp only [ExtendedMantissa.shiftRightOne, hhalf, hsticky]

theorem rounded_bounds (m : Nat) (accuracy : Accuracy) (shift : Nat) :
    m / 2 ^ shift ≤ rounded m accuracy shift ∧
      rounded m accuracy shift ≤ m / 2 ^ shift + 1 := by
  unfold rounded ExtendedMantissa.roundedMantissa
  rw [← mantissa_shift m shift accuracy]
  generalize ExtendedMantissa.ofMantissaAndAccuracy m accuracy >>> shift = extended
  rcases extended.accuracy with _ | (_ | _ | _)
  all_goals
    simp only [Accuracy.roundToNearestEven]
    omega

@[simp]
theorem rounded_exact_zero (m : Nat) : rounded m .exact 0 = m := rfl

theorem roundedMantissa_le (q : Nat) (round sticky : Bool) :
    (ExtendedMantissa.mk q round sticky).roundedMantissa ≤ q + round.toNat := by
  cases round <;> cases sticky
  all_goals
    simp only [ExtendedMantissa.roundedMantissa, ExtendedMantissa.accuracy,
      Accuracy.roundToNearestEven, Bool.toNat_true, Bool.toNat_false]
    omega

theorem two_mul_rounded_le (m shift : Nat) :
    2 * (rounded m .exact shift * 2 ^ shift) ≤ 2 * m + 2 ^ shift := by
  cases shift with
  | zero => simp
  | succ shift =>
    have hround : rounded m .exact (shift + 1) ≤ m / 2 ^ shift / 2 + m / 2 ^ shift % 2 := by
      have hbit : (m / 2 ^ shift % 2 != 0).toNat = m / 2 ^ shift % 2 := by
        rcases Nat.mod_two_eq_zero_or_one (m / 2 ^ shift) with h | h <;> simp [h]
      have := roundedMantissa_le (m / 2 ^ (shift + 1)) (m / 2 ^ shift % 2 != 0) (m % 2 ^ shift != 0)
      rw [hbit] at this
      rwa [rounded, exact_shift_succ, Nat.div_div_eq_div_mul, ← Nat.pow_succ]
    have htwice : 2 * rounded m .exact (shift + 1) ≤ m / 2 ^ shift + 1 := by omega
    calc 2 * (rounded m .exact (shift + 1) * 2 ^ (shift + 1))
        = 2 * (2 * rounded m .exact (shift + 1) * 2 ^ shift) := by rw [Nat.pow_succ]; ac_rfl
      _ ≤ 2 * ((m / 2 ^ shift + 1) * 2 ^ shift) :=
        Nat.mul_le_mul_left 2 (Nat.mul_le_mul_right _ htwice)
      _ = 2 * (m / 2 ^ shift * 2 ^ shift) + 2 ^ (shift + 1) := by rw [Nat.pow_succ, Nat.add_mul]; omega
      _ ≤ 2 * m + 2 ^ (shift + 1) := by
        have := Nat.div_mul_le_self m (2 ^ shift)
        omega

theorem log2_le_of_lt {n k : Nat} (h : n < 2 ^ (k + 1)) : n.log2 ≤ k := by
  by_cases h0 : n = 0
  . simp [h0]
  . exact Nat.le_of_lt_succ ((Nat.log2_lt h0).2 h)

theorem neg_1074_le_gridExponent (m : Nat) (e : Int) : -1074 ≤ gridExponent m e := by
  unfold gridExponent
  omega

theorem rounded_le (m : Nat) (e : Int) (accuracy : Accuracy) :
    rounded m accuracy (gridExponent m e - e).toNat ≤ 9007199254740992 := by
  have hfloor : m / 2 ^ (gridExponent m e - e).toNat < 9007199254740992 := by
    rw [Nat.div_lt_iff_lt_mul (Nat.two_pow_pos _), show 9007199254740992 = 2 ^ 53 from rfl,
      ← Nat.pow_add]
    apply Nat.lt_of_lt_of_le Nat.lt_log2_self
    apply Nat.pow_le_pow_right (by decide)
    unfold gridExponent
    omega
  have := (rounded_bounds m accuracy (gridExponent m e - e).toNat).2
  omega

theorem shiftToTargetExponent_eq (m : Nat) (e : Int) (accuracy : Accuracy) :
    shiftToTargetExponent .binary64 m e accuracy =
      (ExtendedMantissa.ofMantissaAndAccuracy m accuracy >>> (gridExponent m e - e).toNat,
        gridExponent m e) := by
  have hbits : (Format.binary64.mantissaBits : Int) = 53 := rfl
  have hmin : Format.binary64.minExponent = -1074 := by decide
  have hshift : (Format.binary64.targetExponent (totalExponent m e) - e).toNat =
      (gridExponent m e - e).toNat := by
    simp only [Format.targetExponent, totalExponent, gridExponent, hbits, hmin]
    omega
  have hsum : e + ((gridExponent m e - e).toNat : Int) = gridExponent m e := by
    unfold gridExponent
    omega
  simp only [shiftToTargetExponent, shiftToExponent, hshift, hsum]

def finished (s : Sign) (result : ExtendedMantissa × Int) : UnpackedFloat :=
  if h : result.1.mantissa = 0 then .zero s
  else .finite s result.1.mantissa result.2 (Nat.pos_of_ne_zero h)

/-
Of the second shift that follows the rounding, there is something to do only where the rounding has
carried over into a further bit.
-/
theorem finished_exact {s : Sign} {r : Nat} {e : Int} (hr : r ≤ 9007199254740992)
    (he : -1074 ≤ e) :
    finished s (shiftToTargetExponent .binary64 r e .exact) = settled s r e := by
  rw [shiftToTargetExponent_eq]
  by_cases hfull : r = 9007199254740992
  . subst hfull
    have hgrid : gridExponent 9007199254740992 e = e + 1 := by
      have hlog : Nat.log2 9007199254740992 = 53 := by decide +kernel
      unfold gridExponent
      rw [hlog]
      omega
    have hone : (e + 1 - e).toNat = 1 := by omega
    rw [hgrid, hone]
    simp [finished, settled, mantissa_shift]
  . have hgrid : gridExponent r e = e := by
      have hlog : r.log2 ≤ 52 := log2_le_of_lt (show r < 2 ^ 53 by omega)
      unfold gridExponent
      omega
    have hzero : (e - e).toNat = 0 := by omega
    rw [hgrid, hzero]
    simp [finished, settled, mantissa_shift, hfull]

theorem roundWithAccuracy_eq_finished (s : Sign) (m : Nat) (e : Int) (accuracy : Accuracy) :
    roundWithAccuracy .binary64 s m e accuracy =
      finished s (shiftToTargetExponent .binary64
        (shiftToTargetExponent .binary64 m e accuracy).1.roundedMantissa
        (shiftToTargetExponent .binary64 m e accuracy).2 .exact) := rfl

theorem roundWithAccuracy_eq (s : Sign) (m : Nat) (e : Int) (accuracy : Accuracy) :
    roundWithAccuracy .binary64 s m e accuracy =
      settled s (rounded m accuracy (gridExponent m e - e).toNat) (gridExponent m e) := by
  have hfinished := finished_exact (s := s) (rounded_le m e accuracy) (neg_1074_le_gridExponent m e)
  rw [← hfinished, roundWithAccuracy_eq_finished, shiftToTargetExponent_eq m e accuracy]
  rfl

end Double

end ReadProgress
