import ReadProgress.Proofs.Double.Packing

/-!
This module contains bounds for the results of operations in double precision: for integers and
powers of ten as numbers in double precision, for products and for quotients.
-/

namespace ReadProgress

namespace Double

open Float.Model Float.Model.UnpackedFloat

theorem log2_mul_two_pow {n : Nat} (h : n ≠ 0) (k : Nat) : (n * 2 ^ k).log2 = n.log2 + k := by
  have hpos := Nat.two_pow_pos k
  rw [Nat.log2_eq_iff (Nat.mul_ne_zero h (by omega))]
  constructor
  . rw [Nat.pow_add]
    exact Nat.mul_le_mul_right _ (Nat.log2_self_le h)
  . rw [show n.log2 + k + 1 = n.log2 + 1 + k by omega, Nat.pow_add]
    exact Nat.mul_lt_mul_of_pos_right Nat.lt_log2_self hpos

theorem toFloat_eq (n : UInt64) (h : n.toNat ≠ 0) :
    n.toFloat = .ofModel (.pack (settled .positive
      (rounded (n.toNat * 2 ^ (52 - n.toNat.log2)) .exact (n.toNat.log2 - 52))
      ((n.toNat.log2 : Int) - 52))) := by
  have hbits : (Format.binary64.mantissaBits : Int) = 53 := rfl
  have hmin : Format.binary64.minExponent = -1074 := by decide
  have htarget : Format.binary64.targetExponent (totalExponent n.toNat 0) =
      (n.toNat.log2 : Int) - 52 := by
    simp only [Format.targetExponent, totalExponent, hbits, hmin]
    omega
  have hdecrease : (0 - ((n.toNat.log2 : Int) - 52)).toNat = 52 - n.toNat.log2 := by omega
  have hgrid : gridExponent (n.toNat * 2 ^ (52 - n.toNat.log2)) (0 - ((52 - n.toNat.log2 : Nat) : Int)) =
      (n.toNat.log2 : Int) - 52 := by
    unfold gridExponent
    rw [log2_mul_two_pow h]
    omega
  have hshift : ((n.toNat.log2 : Int) - 52 - (0 - ((52 - n.toNat.log2 : Nat) : Int))).toNat =
      n.toNat.log2 - 52 := by
    omega
  have hcompare : compare (n.toNat : Int) 0 = .gt := by
    rw [Int.compare_eq_gt]
    omega
  change Float.ofModel (.pack (UnpackedFloat.normalize .binary64 (n.toNat : Int) 0 .positive)) = _
  rw [UnpackedFloat.normalize, hcompare]
  change Float.ofModel (.pack (UnpackedFloat.round .binary64 .positive n.toNat 0)) = _
  simp only [UnpackedFloat.round, htarget, decreaseExponent, hdecrease, Nat.shiftLeft_eq]
  rw [roundWithAccuracy_eq, hgrid, hshift]

theorem toFloat_zero : (0 : UInt64).toFloat = .ofModel (.pack (.zero .positive)) := rfl

theorem le_rounded_log2 {n : Nat} (h : n ≠ 0) :
    4503599627370496 ≤ rounded (n * 2 ^ (52 - n.log2)) .exact (n.log2 - 52) := by
  apply Nat.le_trans _ (rounded_bounds _ _ _).1
  rw [Nat.le_div_iff_mul_le (Nat.two_pow_pos _)]
  calc 4503599627370496 * 2 ^ (n.log2 - 52)
      = 2 ^ (52 + (n.log2 - 52)) := by rw [Nat.pow_add]
    _ = 2 ^ (n.log2 + (52 - n.log2)) := by congr 1; omega
    _ = 2 ^ n.log2 * 2 ^ (52 - n.log2) := Nat.pow_add ..
    _ ≤ n * 2 ^ (52 - n.log2) := Nat.mul_le_mul_right _ (Nat.log2_self_le h)

theorem rounded_log2_le {n : Nat} (h : n ≠ 0) :
    rounded (n * 2 ^ (52 - n.log2)) .exact (n.log2 - 52) ≤ 9007199254740992 := by
  have := rounded_le (n * 2 ^ (52 - n.log2)) (0 - ((52 - n.log2 : Nat) : Int)) .exact
  have hgrid : (gridExponent (n * 2 ^ (52 - n.log2)) (0 - ((52 - n.log2 : Nat) : Int)) -
      (0 - ((52 - n.log2 : Nat) : Int))).toNat = n.log2 - 52 := by
    unfold gridExponent
    rw [log2_mul_two_pow h]
    omega
  rwa [hgrid] at this

/-
The mantissa is found in units of `2 ^ -52`, so that no exponent is negative.
-/
theorem isNormal_toFloat (n : UInt64) (h : n.toNat ≠ 0) :
    ∃ m e, IsNormal n.toFloat m e ∧ -52 ≤ e ∧ e ≤ 12 ∧
      m * 2 ^ (e + 52).toNat =
        rounded (n.toNat * 2 ^ (52 - n.toNat.log2)) .exact (n.toNat.log2 - 52) *
          2 ^ n.toNat.log2 := by
  have hlog : n.toNat.log2 ≤ 63 := log2_le_of_lt n.toNat_lt
  obtain ⟨m, e, hnormal, hcases⟩ := isNormal_settled (s := .positive) (le_rounded_log2 h)
    (rounded_log2_le h) (show -1074 ≤ (n.toNat.log2 : Int) - 52 by omega) (by omega)
  rw [← toFloat_eq n h] at hnormal
  refine ⟨m, e, hnormal, ?_⟩
  rcases hcases with ⟨hm, he⟩ | ⟨hr, hm, he⟩
  . have hexponent : (e + 52).toNat = n.toNat.log2 := by omega
    exact ⟨by omega, by omega, by rw [hm, hexponent]⟩
  . have hexponent : (e + 52).toNat = n.toNat.log2 + 1 := by omega
    refine ⟨by omega, by omega, ?_⟩
    rw [hr, hm, hexponent, Nat.pow_succ]
    omega

theorem rounded_mul_le_of_lt {n bound s d : Nat} (hn : 2 * n < 2 * bound + 2 ^ s)
    (hdvd : 2 ^ s ∣ bound) (hds : d ≤ s) (hr : rounded n .exact d ≤ 2 ^ 53)
    (hlow : 0 < s → 2 ^ (52 + s) ≤ bound) : rounded n .exact d * 2 ^ d ≤ bound := by
  rcases Nat.eq_or_lt_of_le hds with rfl | hlt
  . -- Both are multiples of the same power of two, and less than that apart.
    have hhalf := two_mul_rounded_le n d
    obtain ⟨q, rfl⟩ := hdvd
    have hmul : rounded n .exact d * 2 ^ d < (q + 1) * 2 ^ d := by
      rw [Nat.add_mul, Nat.one_mul, Nat.mul_comm q]
      omega
    have := Nat.lt_of_mul_lt_mul_right hmul
    rw [Nat.mul_comm (2 ^ d)]
    exact Nat.mul_le_mul_right _ (by omega)
  . calc rounded n .exact d * 2 ^ d
        ≤ 2 ^ 53 * 2 ^ d := Nat.mul_le_mul_right _ hr
      _ = 2 ^ (53 + d) := (Nat.pow_add ..).symm
      _ ≤ 2 ^ (52 + s) := Nat.pow_le_pow_right (by decide) (by omega)
      _ ≤ bound := hlow (by omega)

/--
No number below the middle between `bound` and the next number of its precision is rounded to more
than `bound`.
-/
theorem rounded_log2_le_of_lt {n bound s : Nat} (hn : 2 * n < 2 * bound + 2 ^ s)
    (hdvd : 2 ^ s ∣ bound) (hlt : n < 2 ^ (53 + s)) (hlow : 0 < s → 2 ^ (52 + s) ≤ bound) :
    rounded (n * 2 ^ (52 - n.log2)) .exact (n.log2 - 52) * 2 ^ n.log2 ≤ bound * 2 ^ 52 := by
  by_cases hlog : n.log2 ≤ 52
  . -- No bit is lost, and below `2 ^ 53` the middle is out of reach.
    have hexact : n * 2 ^ (52 - n.log2) * 2 ^ n.log2 = n * 2 ^ 52 := by
      rw [Nat.mul_assoc, ← Nat.pow_add]
      congr 2
      omega
    have hle : n ≤ bound := by
      cases s with
      | zero => omega
      | succ s =>
        have h53 : n < 2 ^ 53 :=
          Nat.lt_of_lt_of_le Nat.lt_log2_self (Nat.pow_le_pow_right (by decide) (by omega))
        have h53' : 2 ^ 53 ≤ 2 ^ (52 + (s + 1)) := Nat.pow_le_pow_right (by decide) (by omega)
        have := hlow (by omega)
        omega
    have hshift : n.log2 - 52 = 0 := by omega
    rw [hshift, rounded_exact_zero, hexact]
    exact Nat.mul_le_mul_right _ hle
  . obtain ⟨d, hd⟩ : ∃ d, n.log2 = 52 + d := ⟨n.log2 - 52, by omega⟩
    have hn0 : n ≠ 0 := by
      intro h0
      rw [h0] at hlog
      exact hlog (by decide)
    have hds : d ≤ s := by
      have := (Nat.log2_lt hn0).2 hlt
      omega
    have hunits : rounded n .exact d * 2 ^ (52 + d) = rounded n .exact d * 2 ^ d * 2 ^ 52 := by
      rw [Nat.add_comm, Nat.pow_add, Nat.mul_assoc]
    have hone : n * 2 ^ (52 - n.log2) = n := by
      rw [show 52 - n.log2 = 0 by omega, Nat.pow_zero, Nat.mul_one]
    have hr := rounded_log2_le hn0
    rw [hone, show n.log2 - 52 = d by omega] at hr
    rw [hone, show n.log2 - 52 = d by omega, hd, hunits]
    exact Nat.mul_le_mul_right _ (rounded_mul_le_of_lt hn hdvd hds hr hlow)

/--
The number `10 ^ k` in double precision.
-/
def power (k : Nat) : Float :=
  OfScientific.ofScientific 1 false k

/--
Whether a number is normal, with an exponent between two bounds and a size below a third one.
-/
def isNormalIn (f : Float) (low high : Int) (factor limit : Nat) : Bool :=
  match f.toModel.unpack with
  | .finite _ m e _ =>
    4503599627370496 ≤ m && m < 9007199254740992 && low ≤ e && e ≤ high &&
      factor * (m * 2 ^ e.toNat) < limit
  | _ => false

theorem isNormal_of_isNormalIn {f : Float} {low high : Int} {factor limit : Nat}
    (h : isNormalIn f low high factor limit = true) :
    ∃ m e, IsNormal f m e ∧ low ≤ e ∧ e ≤ high ∧ factor * (m * 2 ^ e.toNat) < limit := by
  unfold isNormalIn at h
  split at h
  . next s m e hm hunpack =>
    simp only [Bool.and_eq_true, decide_eq_true_eq] at h
    obtain ⟨⟨⟨⟨hlow, hhigh⟩, hlow'⟩, hhigh'⟩, hlimit⟩ := h
    exact ⟨m, e, ⟨⟨s, hm, hunpack⟩, hlow, hhigh⟩, hlow', hhigh', hlimit⟩
  . contradiction

theorem gridExponent_power (k : Nat) :
    gridExponent (9007199254740992 * 10 ^ k) (-53 + 0) = ((10 ^ k).log2 : Int) - 52 := by
  have hlog : (9007199254740992 * 10 ^ k).log2 = (10 ^ k).log2 + 53 := by
    rw [Nat.mul_comm]
    exact log2_mul_two_pow (Nat.pos_iff_ne_zero.1 (Nat.pow_pos (by decide))) 53
  unfold gridExponent
  rw [hlog]
  omega

theorem power_eq {k : Nat} (hk : 22 < k) (hk' : k ≤ 308) :
    power k = .ofModel (.pack (settled .positive
      (rounded (9007199254740992 * 10 ^ k) .exact ((10 ^ k).log2 + 1))
      (((10 ^ k).log2 : Int) - 52))) := by
  have hshift : (((10 ^ k).log2 : Int) - 52 - (-53 + 0)).toNat = (10 ^ k).log2 + 1 := by omega
  change Float.ofScientific 1 false k = _
  rw [Float.ofScientific, dif_neg (by omega)]
  change Float.ofModel (.pack (UnpackedFloat.ofScientific .binary64 1 (k : Int))) = _
  rw [UnpackedFloat.ofScientific, dif_neg (by decide), if_neg (by change ¬ (k : Int) > 2048; omega),
    if_neg (by change ¬ (k : Int) < -(2048 + _); omega), if_pos (by omega)]
  change Float.ofModel (.pack (roundWithAccuracy .binary64 .positive
    (9007199254740992 * 10 ^ k) (-53 + 0) .exact)) = _
  rw [roundWithAccuracy_eq, gridExponent_power, hshift]

theorem isNormal_power_of_le {k : Nat} (hk : k ≤ 288) :
    ∃ m e, IsNormal (power k) m e ∧ -52 ≤ e ∧ e ≤ 905 := by
  by_cases hsmall : k ≤ 22
  . have htable : ∀ i : Fin 23, isNormalIn (power i) (-52) 905 0 1 = true := by decide +kernel
    obtain ⟨m, e, hnormal, hlow, hhigh, -⟩ := isNormal_of_isNormalIn (htable ⟨k, by omega⟩)
    exact ⟨m, e, hnormal, hlow, hhigh⟩
  . have hpow : (10 : Nat) ^ k ≠ 0 := Nat.pos_iff_ne_zero.1 (Nat.pow_pos (by decide))
    have hlog : (10 ^ k).log2 ≤ 956 := by
      apply log2_le_of_lt
      apply Nat.lt_of_le_of_lt (Nat.pow_le_pow_right (by decide) hk)
      decide +kernel
    have hhigh := rounded_le (9007199254740992 * 10 ^ k) (-53 + 0) .exact
    have hshift : (((10 ^ k).log2 : Int) - 52 - (-53 + 0)).toNat = (10 ^ k).log2 + 1 := by omega
    rw [gridExponent_power, hshift] at hhigh
    have hlow : 4503599627370496 ≤
        rounded (9007199254740992 * 10 ^ k) .exact ((10 ^ k).log2 + 1) := by
      apply Nat.le_trans _ (rounded_bounds _ _ _).1
      rw [Nat.le_div_iff_mul_le (Nat.two_pow_pos _), Nat.pow_succ]
      have := Nat.log2_self_le hpow
      omega
    obtain ⟨m, e, hnormal, hcases⟩ := isNormal_settled (s := .positive) hlow hhigh
      (show -1074 ≤ ((10 ^ k).log2 : Int) - 52 by omega) (by omega)
    rw [← power_eq (by omega) (by omega)] at hnormal
    exact ⟨m, e, hnormal, by omega, by omega⟩

/--
The first number that is rounded to infinity.
-/
def overflow : Nat := 2 ^ 1024 - 2 ^ 970

theorem overflow_lt : overflow < 2 ^ 1024 := by decide +kernel

/--
The middle between the two largest numbers in double precision.
-/
def lastMiddle : Nat := 2 ^ 1024 - 3 * 2 ^ 970

/--
The largest integer whose product with `10 ^ k` is not beyond the last middle.
-/
def largestFactor (k : Nat) : Nat :=
  lastMiddle / 10 ^ k

/--
How many bits of the largest factor are lost in double precision.
-/
def lostBits (k : Nat) : Nat :=
  (largestFactor k).log2 - 52

def roundedFactor (k : Nat) : Nat :=
  (2 * largestFactor k + 2 ^ lostBits k) / 2 ^ (lostBits k + 1) * 2 ^ lostBits k

/-
For the largest powers there is no room for a general bound, since the products come close to the
largest number. There are only twenty of them.
-/
theorem isNormal_power_of_ge {k : Nat} (hk : 289 ≤ k) (hk' : k ≤ 308) :
    ∃ m e, IsNormal (power k) m e ∧ 52 ≤ e ∧ e ≤ 971 ∧
      roundedFactor k * (m * 2 ^ e.toNat) < overflow := by
  have htable : ∀ i : Fin 20, isNormalIn (power (289 + i)) 52 971 (roundedFactor (289 + i))
      overflow = true := by
    decide +kernel
  have h := isNormal_of_isNormalIn (htable ⟨k - 289, by omega⟩)
  rwa [show 289 + (k - 289) = k by omega] at h

theorem isNormal_power {k : Nat} (hk : k ≤ 308) : ∃ m e, IsNormal (power k) m e ∧ -52 ≤ e := by
  by_cases hsmall : k ≤ 288
  . obtain ⟨m, e, hnormal, hlow, -⟩ := isNormal_power_of_le hsmall
    exact ⟨m, e, hnormal, hlow⟩
  . obtain ⟨m, e, hnormal, hlow, -⟩ := isNormal_power_of_ge (by omega) hk
    exact ⟨m, e, hnormal, by omega⟩

theorem storedExponent_toFloat (n : UInt64) : storedExponent n.toFloat.toBits ≤ 1087 := by
  by_cases h : n.toNat = 0
  . rw [show n = 0 from UInt64.toNat_inj.1 h, toFloat_zero, storedExponent_zero]
    decide
  . have hlog : n.toNat.log2 ≤ 63 := log2_le_of_lt n.toNat_lt
    rw [toFloat_eq n h]
    apply Nat.le_trans (storedExponent_settled _ _ (by omega))
    omega

theorem storedExponent_div {a b : Float} {m : Nat} {e : Int} (hb : IsNormal b m e) (he : -52 ≤ e)
    (ha : storedExponent a.toBits ≤ 1990) :
    storedExponent (a / b).toBits ≤ storedExponent a.toBits + 54 := by
  obtain ⟨s, hm, hb⟩ := hb.unpack_eq
  change storedExponent (Float.ofModel (.pack
    (UnpackedFloat.div .binary64 a.toModel.unpack b.toModel.unpack))).toBits ≤ _
  rw [hb]
  obtain ⟨s', ha'⟩ | ⟨s', m', e', hm', ha', hlt, hle⟩ := unpack_of_storedExponent (f := a) (by omega)
  . rw [ha']
    simp only [UnpackedFloat.div, storedExponent_zero]
    omega
  . rw [ha']
    simp only [UnpackedFloat.div, divCore]
    generalize ht : min (e' - e) (Format.binary64.targetExponent
      (totalExponent m' e' - totalExponent m e)) = t
    have htle : t ≤ e' - e := by omega
    have hquotient : m' <<< (e' - e - t).toNat / m < 2 ^ (52 + (e' - e - t).toNat + 1) := by
      apply Nat.lt_of_le_of_lt (Nat.div_le_self _ _)
      rw [Nat.shiftLeft_eq, Nat.add_right_comm, Nat.pow_add]
      exact Nat.mul_lt_mul_of_pos_right hlt (Nat.two_pow_pos _)
    have hlog := log2_le_of_lt hquotient
    rw [roundWithAccuracy_eq]
    generalize m' <<< (e' - e - t).toNat / m = q at *
    have hgrid : gridExponent q t ≤ max (e' - e) (-1074) := by
      unfold gridExponent
      omega
    apply Nat.le_trans (storedExponent_settled _ _ (by omega))
    omega

theorem mul_eq {a b : Float} {m m' : Nat} {e e' : Int} (ha : IsNormal a m e)
    (hb : IsNormal b m' e') :
    ∃ s, a * b = .ofModel (.pack (settled s
      (rounded (m * m') .exact (gridExponent (m * m') (e + e') - (e + e')).toNat)
      (gridExponent (m * m') (e + e')))) := by
  obtain ⟨s, hm, ha⟩ := ha.unpack_eq
  obtain ⟨s', hm', hb⟩ := hb.unpack_eq
  refine ⟨s * s', ?_⟩
  change Float.ofModel (.pack
    (UnpackedFloat.mul .binary64 a.toModel.unpack b.toModel.unpack)) = _
  rw [ha, hb]
  simp only [UnpackedFloat.mul, roundWithAccuracy_eq]

theorem storedExponent_mul {a b : Float} (ha : storedExponent a.toBits < 2047)
    (hb : storedExponent b.toBits < 2047) (h : (a * b).isInf = false) :
    storedExponent (a * b).toBits < 2047 := by
  have heq : a * b = Float.ofModel (.pack
      (UnpackedFloat.mul .binary64 a.toModel.unpack b.toModel.unpack)) := rfl
  rw [heq] at h ⊢
  obtain ⟨s, ha⟩ | ⟨s, m, e, hm, ha, -⟩ := unpack_of_storedExponent ha
  . obtain ⟨s', hb⟩ | ⟨s', m', e', hm', hb, -⟩ := unpack_of_storedExponent hb
    all_goals
      rw [ha, hb]
      simp only [UnpackedFloat.mul, storedExponent_zero]
      decide
  . obtain ⟨s', hb⟩ | ⟨s', m', e', hm', hb, -⟩ := unpack_of_storedExponent hb
    . rw [ha, hb]
      simp only [UnpackedFloat.mul, storedExponent_zero]
      decide
    . rw [ha, hb] at h ⊢
      simp only [UnpackedFloat.mul, roundWithAccuracy_eq] at h ⊢
      exact storedExponent_settled_of_not_isInf h

theorem isInf_mul_of_exponent {a b : Float} {m m' : Nat} {e e' : Int} (ha : IsNormal a m e)
    (hb : IsNormal b m' e') (he : -1000 ≤ e + e') (he' : e + e' ≤ 917) : (a * b).isInf = false := by
  obtain ⟨s, hmul⟩ := mul_eq ha hb
  have hlog : (m * m').log2 ≤ 105 := by
    apply log2_le_of_lt
    have hpow : 9007199254740992 * 9007199254740992 = 2 ^ (105 + 1) := by decide
    rw [← hpow]
    exact Nat.mul_lt_mul'' ha.mantissa_lt hb.mantissa_lt
  have hgrid : gridExponent (m * m') (e + e') ≤ 970 := by
    unfold gridExponent
    omega
  rw [hmul]
  apply isInf_of_storedExponent
  apply Nat.lt_of_le_of_lt (storedExponent_settled _ _ hgrid)
  omega

/-
Where the exponent is the largest one, nothing that is not to be rounded to infinity is rounded up to
a further bit.
-/
theorem rounded_ne_of_lt {p d x : Nat} (hdx : d + x = 971) (h : p * 2 ^ x < overflow) :
    rounded p .exact d ≠ 9007199254740992 := by
  intro hfull
  have hhalf := two_mul_rounded_le p d
  rw [hfull] at hhalf
  have hscaled := Nat.mul_le_mul_right (2 ^ x) hhalf
  have hpow : 2 ^ d * 2 ^ x = 2 ^ 971 := by
    rw [← Nat.pow_add]
    congr 1
  have hleft : 2 * (9007199254740992 * 2 ^ d) * 2 ^ x =
      2 * 9007199254740992 * (2 ^ d * 2 ^ x) := by ac_rfl
  have hright : (2 * p + 2 ^ d) * 2 ^ x = 2 * (p * 2 ^ x) + 2 ^ d * 2 ^ x := by
    rw [Nat.add_mul, Nat.mul_assoc]
  have htop : overflow = 9007199254740992 * 2 ^ 971 - 2 ^ 970 := by decide +kernel
  rw [hleft, hright, hpow] at hscaled
  rw [htop] at h
  omega

/-
The product has at least 105 bits, so that its exponent is not the smallest one.
-/
theorem isInf_mul_of_lt {a b : Float} {m m' : Nat} {e e' : Int} (ha : IsNormal a m e)
    (hb : IsNormal b m' e') (he : 0 ≤ e + e')
    (h : m * m' * 2 ^ (e + e').toNat < overflow) : (a * b).isInf = false := by
  obtain ⟨s, hmul⟩ := mul_eq ha hb
  obtain ⟨x, hx⟩ := Int.eq_ofNat_of_zero_le he
  have hne : m * m' ≠ 0 :=
    Nat.mul_ne_zero (by have := ha.le_mantissa; omega) (by have := hb.le_mantissa; omega)
  have hbits : 104 ≤ (m * m').log2 := by
    have hpow : 4503599627370496 * 4503599627370496 = 2 ^ 104 := by decide
    rw [Nat.le_log2 hne, ← hpow]
    exact Nat.mul_le_mul ha.le_mantissa hb.le_mantissa
  obtain ⟨d, hd⟩ : ∃ d, (m * m').log2 = 52 + d := ⟨(m * m').log2 - 52, by omega⟩
  have hgrid : gridExponent (m * m') (e + e') = (d + x : Nat) := by
    unfold gridExponent
    omega
  have hshift : (((d + x : Nat) : Int) - (e + e')).toNat = d := by omega
  have hself := Nat.log2_self_le hne
  have hr := rounded_le (m * m') (e + e') .exact
  rw [hgrid, hshift] at hr
  rw [show (e + e').toNat = x by omega] at h
  rw [hmul, hgrid, hshift]
  generalize hp : m * m' = p at *
  have hsize : 2 ^ (52 + d + x) < 2 ^ 1024 := by
    rw [Nat.pow_add 2 (52 + d), ← hd]
    exact Nat.lt_of_le_of_lt (Nat.mul_le_mul_right _ hself) (Nat.lt_trans h overflow_lt)
  have hexponent : 52 + d + x < 1024 :=
    (Nat.pow_lt_pow_iff_right (a := 2) (n := 52 + d + x) (m := 1024) (by decide)).1 hsize
  apply isInf_of_storedExponent
  by_cases hlargest : d + x ≤ 970
  . apply Nat.lt_of_le_of_lt (storedExponent_settled _ _ (by omega))
    omega
  . have hfull := rounded_ne_of_lt (p := p) (d := d) (by omega) h
    apply Nat.lt_of_le_of_lt (storedExponent_settled_of_ne _ hfull (by omega))
    omega

theorem isInf_zero_mul {b : Float} {m : Nat} {e : Int} (hb : IsNormal b m e) :
    ((0 : UInt64).toFloat * b).isInf = false := by
  obtain ⟨s, hm, hb⟩ := hb.unpack_eq
  have hzero : (0 : UInt64).toFloat.toModel.unpack = .zero .positive := rfl
  have hmul : (0 : UInt64).toFloat * b = .ofModel (.pack
      (UnpackedFloat.mul .binary64 (0 : UInt64).toFloat.toModel.unpack b.toModel.unpack)) := rfl
  rw [hmul, hzero, hb]
  apply isInf_of_storedExponent
  rw [UnpackedFloat.mul, storedExponent_zero]
  decide

theorem le_roundedFactor (k : Nat) : 2 * largestFactor k < 2 * roundedFactor k + 2 ^ lostBits k := by
  have hdiv := Nat.lt_div_mul_add (Nat.two_pow_pos (lostBits k + 1))
    (a := 2 * largestFactor k + 2 ^ lostBits k)
  have hsplit : (2 * largestFactor k + 2 ^ lostBits k) / 2 ^ (lostBits k + 1) *
      2 ^ (lostBits k + 1) = 2 * roundedFactor k := by
    rw [roundedFactor, Nat.pow_succ, ← Nat.mul_assoc, Nat.mul_comm]
  rw [hsplit, Nat.pow_succ] at hdiv
  omega

theorem two_pow_le_roundedFactor {k : Nat} (h : 0 < lostBits k) :
    2 ^ (52 + lostBits k) ≤ roundedFactor k := by
  have hlog : (largestFactor k).log2 = 52 + lostBits k := by
    unfold lostBits at h ⊢
    omega
  have hne : largestFactor k ≠ 0 := by
    intro h0
    rw [h0, Nat.log2_zero] at hlog
    omega
  have hself := Nat.log2_self_le hne
  rw [hlog] at hself
  rw [Nat.pow_add, roundedFactor]
  apply Nat.mul_le_mul_right
  rw [Nat.le_div_iff_mul_le (Nat.two_pow_pos _), Nat.pow_succ]
  rw [Nat.pow_add] at hself
  omega

/-
Up to the power 288 every product with a 64-bit word is far from the largest number. Beyond, what
counts is how the first factor is rounded.
-/
theorem isInf_toFloat_mul_power {n : UInt64} {k : Nat} (hk : k ≤ 308)
    (h : n.toNat * 10 ^ k ≤ lastMiddle) : (n.toFloat * power k).isInf = false := by
  by_cases hn : n.toNat = 0
  . obtain ⟨m, e, hpower, -⟩ := isNormal_power hk
    rw [show n = 0 from UInt64.toNat_inj.1 hn]
    exact isInf_zero_mul hpower
  . obtain ⟨m, e, hn', hlow, hhigh, hunits⟩ := isNormal_toFloat n hn
    by_cases hsmall : k ≤ 288
    . obtain ⟨m', e', hpower, hlow', hhigh'⟩ := isNormal_power_of_le hsmall
      exact isInf_mul_of_exponent hn' hpower (by omega) (by omega)
    . obtain ⟨m', e', hpower, hlow', -, hlimit⟩ := isNormal_power_of_ge (by omega) hk
      have hfactor : n.toNat ≤ largestFactor k := by
        rw [largestFactor, Nat.le_div_iff_mul_le (Nat.pow_pos (by decide))]
        exact h
      have hbits : largestFactor k < 2 ^ (53 + lostBits k) := by
        apply Nat.lt_of_lt_of_le Nat.lt_log2_self
        apply Nat.pow_le_pow_right (by decide)
        unfold lostBits
        omega
      have hround := @rounded_log2_le_of_lt n.toNat (roundedFactor k) (lostBits k)
        (by have := le_roundedFactor k; omega) (Nat.dvd_mul_left _ _)
        (by omega) two_pow_le_roundedFactor
      rw [← hunits] at hround
      apply isInf_mul_of_lt hn' hpower (by omega)
      have hscale : m * m' * 2 ^ (e + e').toNat * 2 ^ 52 =
          m * 2 ^ (e + 52).toNat * (m' * 2 ^ e'.toNat) := by
        have hpow : 2 ^ (e + e').toNat * 2 ^ 52 = 2 ^ (e + 52).toNat * 2 ^ e'.toNat := by
          rw [← Nat.pow_add, ← Nat.pow_add]
          congr 1
          omega
        rw [Nat.mul_assoc, hpow]
        ac_rfl
      apply Nat.lt_of_mul_lt_mul_right (a := 2 ^ 52)
      rw [hscale]
      calc m * 2 ^ (e + 52).toNat * (m' * 2 ^ e'.toNat)
          ≤ roundedFactor k * 2 ^ 52 * (m' * 2 ^ e'.toNat) := Nat.mul_le_mul_right _ hround
        _ = roundedFactor k * (m' * 2 ^ e'.toNat) * 2 ^ 52 := Nat.mul_right_comm ..
        _ < overflow * 2 ^ 52 :=
          Nat.mul_lt_mul_of_pos_right hlimit (Nat.two_pow_pos _)

theorem storedExponent_neg {f : Float} (h : storedExponent f.toBits < 2047) :
    storedExponent (-f).toBits < 2047 := by
  change storedExponent (Float.ofModel (.pack f.toModel.unpack.neg)).toBits < 2047
  obtain ⟨s, hf⟩ | ⟨s, m, e, hm, hf, -, he⟩ := unpack_of_storedExponent h
  . rw [hf, UnpackedFloat.neg, storedExponent_zero]
    decide
  . rw [hf, UnpackedFloat.neg]
    apply Nat.lt_of_le_of_lt (storedExponent_finite _ _ _ (by omega))
    omega

end Double

end ReadProgress
