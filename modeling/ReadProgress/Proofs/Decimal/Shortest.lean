import ReadProgress.Decimal.Shortest
import ReadProgress.Proofs.Double.Arithmetic

/-!
This module contains bounds for the shortest decimal forms of numbers in double precision: none of
them lies beyond the middle between the two largest numbers, but for that of the largest one.
-/

namespace ReadProgress

namespace Decimal

open Double (storedExponent lastMiddle)

/--
A number `n * 10 ^ k` that does not lie beyond the last middle.
-/
def Fits (n : Nat) (k : Int) : Prop :=
  n * 10 ^ k.toNat ≤ lastMiddle * 10 ^ (-k).toNat

theorem covers_bounds {x : Binary} {n scale : Nat} (h : x.covers n scale = true) :
    x.low * scale ≤ n ∧ n ≤ x.high * scale := by
  unfold Binary.covers at h
  split at h
  all_goals
    simp only [Bool.and_eq_true, decide_eq_true_eq] at h
    omega

theorem gridPoint?_bounds {x : Binary} {k : Int} {n : Nat} (h : x.gridPoint? k = some n) :
    x.low * (10 ^ (-k).toNat * 2 ^ x.exponent.toNat) ≤ n * (10 ^ k.toNat * 2 ^ (-x.exponent).toNat) ∧
      n * (10 ^ k.toNat * 2 ^ (-x.exponent).toNat) ≤
        x.high * (10 ^ (-k).toNat * 2 ^ x.exponent.toNat) := by
  simp only [Binary.gridPoint?] at h
  split at h
  . next hboth =>
    simp only [Bool.and_eq_true] at hboth
    have hn := Option.some.inj h
    split at hn
    . rw [← hn]
      exact covers_bounds hboth.1
    . rw [← hn]
      exact covers_bounds hboth.2
  . split at h
    . next hbelow =>
      rw [← Option.some.inj h]
      exact covers_bounds hbelow
    . split at h
      . next habove =>
        rw [← Option.some.inj h]
        exact covers_bounds habove
      . contradiction

theorem firstGridPoint_cases (x : Binary) (k : Int) (fuel : Nat) :
    x.firstGridPoint k fuel = (0, k - fuel) ∨
      ∃ n k', x.firstGridPoint k fuel = (n, k') ∧ x.gridPoint? k' = some n ∧ k' ≤ k ∧
        k - fuel < k' := by
  induction fuel generalizing k with
  | zero => exact .inl (by simp [Binary.firstGridPoint])
  | succ fuel ih =>
    simp only [Binary.firstGridPoint]
    split
    . next n hn => exact .inr ⟨n, k, rfl, hn, Int.le_refl _, by omega⟩
    . rcases ih (k - 1) with hnone | ⟨n, k', heq, hn, hle, hlt⟩
      . exact .inl (by rw [hnone]; congr 1; omega)
      . exact .inr ⟨n, k', heq, hn, by omega, by omega⟩

theorem le_lastMiddle {n e : Nat} (hn : n ≤ 2 ^ 55) (he : e ≤ 968) : n * 2 ^ e ≤ lastMiddle := by
  have hpow : 2 ^ 55 * 2 ^ 968 ≤ lastMiddle := by decide +kernel
  generalize 968 = largest at he hpow
  exact Nat.le_trans (Nat.mul_le_mul hn (Nat.pow_le_pow_right (by decide) he)) hpow

/-
What is left out are the bits of the largest number, whose interval ends where numbers begin to be
too large.
-/
theorem high_le {bits : UInt64} (hfinite : storedExponent bits < 2047)
    (hlargest : bits.toNat % 9223372036854775808 ≠ 9218868437227405311) :
    (Binary.ofBits bits).high * 2 ^ (Binary.ofBits bits).exponent.toNat ≤
      lastMiddle * 2 ^ (-(Binary.ofBits bits).exponent).toNat := by
  have hfraction : bits.toNat % 4503599627370496 < 4503599627370496 := Nat.mod_lt _ (by decide)
  have hone : ∀ e : Nat, lastMiddle ≤ lastMiddle * 2 ^ e := fun e =>
    Nat.le_mul_of_pos_right _ (Nat.two_pow_pos e)
  unfold storedExponent at hfinite
  simp only [Binary.ofBits]
  split
  . have h := le_lastMiddle (n := 4 * (bits.toNat % 4503599627370496) + 2) (e := 0) (by omega)
      (by omega)
    exact Nat.le_trans h (hone _)
  . next hstored =>
    simp only [Binary.high]
    have hstored' : Int.ofNat (bits.toNat / 4503599627370496 % 2048) =
        ((bits.toNat / 4503599627370496 % 2048 : Nat) : Int) := rfl
    rw [hstored']
    by_cases htop : bits.toNat / 4503599627370496 % 2048 = 2046
    . have hmantissa : 4 * (bits.toNat % 4503599627370496 + 4503599627370496) + 2 ≤
          36028797018963962 := by
        omega
      have hpow : 36028797018963962 * 2 ^ 969 ≤ lastMiddle := by decide +kernel
      have hexponent : (((2046 : Nat) : Int) - 1077).toNat = 969 := rfl
      rw [htop, hexponent]
      generalize (2 : Nat) ^ 969 = p at hpow ⊢
      exact Nat.le_trans (Nat.le_trans (Nat.mul_le_mul_right p hmantissa) hpow) (hone _)
    . exact Nat.le_trans (le_lastMiddle (by omega) (by omega)) (hone _)

theorem ofBits_largest {bits : UInt64}
    (hlargest : bits.toNat % 9223372036854775808 = 9218868437227405311) :
    Binary.ofBits bits = ⟨9007199254740991, 969, false⟩ := by
  have hfraction : bits.toNat % 4503599627370496 = 4503599627370495 := by omega
  have hstored : bits.toNat / 4503599627370496 % 2048 = 2046 := by omega
  simp only [Binary.ofBits, hfraction, hstored]
  rfl

/-
That of the largest number is found by counting down from the coarsest grid.
-/
theorem shortest_largest {bits : UInt64}
    (hlargest : bits.toNat % 9223372036854775808 = 9218868437227405311) :
    shortest bits = (17976931348623157, 292) := by
  rw [shortest, ofBits_largest hlargest]
  decide +kernel

theorem fits_of_gridPoint? {bits : UInt64} (hfinite : storedExponent bits < 2047)
    (hlargest : bits.toNat % 9223372036854775808 ≠ 9218868437227405311) {k : Int} {n : Nat}
    (h : (Binary.ofBits bits).gridPoint? k = some n) : Fits n k := by
  have hhigh := (gridPoint?_bounds h).2
  have hbound := high_le hfinite hlargest
  generalize Binary.ofBits bits = x at *
  have hpos := Nat.two_pow_pos (-x.exponent).toNat
  apply Nat.le_of_mul_le_mul_right _ hpos
  calc n * 10 ^ k.toNat * 2 ^ (-x.exponent).toNat
      = n * (10 ^ k.toNat * 2 ^ (-x.exponent).toNat) := Nat.mul_assoc ..
    _ ≤ x.high * (10 ^ (-k).toNat * 2 ^ x.exponent.toNat) := hhigh
    _ = x.high * 2 ^ x.exponent.toNat * 10 ^ (-k).toNat := by ac_rfl
    _ ≤ lastMiddle * 2 ^ (-x.exponent).toNat * 10 ^ (-k).toNat := Nat.mul_le_mul_right _ hbound
    _ = lastMiddle * 10 ^ (-k).toNat * 2 ^ (-x.exponent).toNat := Nat.mul_right_comm ..

theorem ne_zero_of_gridPoint? {x : Binary} (hx : x.mantissa ≠ 0) {k : Int} {n : Nat}
    (h : x.gridPoint? k = some n) : n ≠ 0 := by
  intro h0
  have hlow := (gridPoint?_bounds h).1
  rw [h0, Nat.zero_mul] at hlow
  have hscale : 0 < 10 ^ (-k).toNat * 2 ^ x.exponent.toNat :=
    Nat.mul_pos (Nat.pow_pos (by decide)) (Nat.two_pow_pos _)
  have hpos : 0 < x.low := by
    unfold Binary.low
    split <;> omega
  have := Nat.mul_pos hpos hscale
  omega

theorem mantissa_ofBits_ne_zero {bits : UInt64} (h : bits.toNat % 9223372036854775808 ≠ 0) :
    (Binary.ofBits bits).mantissa ≠ 0 := by
  simp only [Binary.ofBits]
  split
  . next hstored =>
    simp only
    omega
  . simp only
    omega

/--
The shortest form of a finite number other than zero. Where no grid has a point of its interval it
would be zero, with an exponent that says so.
-/
theorem shortest_cases {bits : UInt64} (hfinite : storedExponent bits < 2047)
    (hne : bits.toNat % 9223372036854775808 ≠ 0) {n : Nat} {k : Int} (h : shortest bits = (n, k)) :
    (n = 0 ∧ k = -342) ∨ (n = 17976931348623157 ∧ k = 292) ∨
      (n ≠ 0 ∧ -342 < k ∧ k ≤ 308 ∧ Fits n k) := by
  by_cases hlargest : bits.toNat % 9223372036854775808 = 9218868437227405311
  . rw [shortest_largest hlargest] at h
    cases h
    exact .inr (.inl ⟨rfl, rfl⟩)
  . rcases firstGridPoint_cases (Binary.ofBits bits) 308 650 with hnone | ⟨n', k', heq, hn, hle, hlt⟩
    . rw [shortest, hnone] at h
      cases h
      exact .inl ⟨rfl, rfl⟩
    . rw [shortest, heq] at h
      cases h
      exact .inr (.inr ⟨ne_zero_of_gridPoint? (mantissa_ofBits_ne_zero hne) hn, by omega, hle,
        fits_of_gridPoint? hfinite hlargest hn⟩)

end Decimal

end ReadProgress
