import ReadProgress.Proofs.Double.Rounding

/-!
This module contains what can be told about a number in double precision from the exponent that is
stored in its bits.
-/

namespace ReadProgress

namespace Double

open Float.Model Float.Model.UnpackedFloat

/--
The exponent as it is stored. The largest one, 2047, is that of infinities and of what is no number.
-/
def storedExponent (bits : UInt64) : Nat :=
  bits.toNat / 4503599627370496 % 2048

/--
A number with a mantissa of 53 bits, up to its sign.
-/
structure IsNormal (f : Float) (m : Nat) (e : Int) : Prop where
  unpack_eq : ∃ s h, f.toModel.unpack = .finite s m e h
  le_mantissa : 4503599627370496 ≤ m
  mantissa_lt : m < 9007199254740992

theorem exponentBias_eq : Format.binary64.exponentBias = 1023 := by decide

theorem toNat_unpackExponent (b : BitVec 64) :
    (@unpackExponent .binary64 b).toNat = b.toNat / 4503599627370496 % 2048 := by
  simp [unpackExponent, BitVec.extractLsb_toNat, Nat.shiftRight_eq_div_pow]

theorem storedExponent_eq (f : Float) :
    storedExponent f.toBits =
      (@unpackExponent .binary64 f.toModel.toBits.toBitVec).toNat := by
  rw [toNat_unpackExponent]
  rfl

theorem storedExponent_packComponents (s : Sign) (x : BitVec 11) (m : BitVec 52) :
    (packComponents .binary64 s x m).toNat / 4503599627370496 % 2048 = x.toNat := by
  rw [← toNat_unpackExponent, unpackExponent_packComponents]

theorem toNat_one_append (m : BitVec 52) : (1#1 ++ m).toNat = 4503599627370496 + m.toNat := by
  rw [BitVec.toNat_append, ← Nat.shiftLeft_add_eq_or_of_lt m.isLt, Nat.shiftLeft_eq]
  simp

theorem unpack_of_storedExponent {f : Float} (h : storedExponent f.toBits < 2047) :
    (∃ s, f.toModel.unpack = .zero s) ∨
      ∃ s m e hm, f.toModel.unpack = .finite s m e hm ∧ m < 9007199254740992 ∧
        e ≤ max (storedExponent f.toBits : Int) 1 - 1075 := by
  rw [storedExponent_eq] at h ⊢
  unfold Float.Model.unpack
  generalize f.toModel.toBits.toBitVec = b at *
  simp only [UnpackedFloat.unpack, exponentBias_eq]
  have hlt : (@unpackMantissa .binary64 b).toNat < 4503599627370496 :=
    (@unpackMantissa .binary64 b).isLt
  have hlargest : @unpackExponent .binary64 b ≠ -1#11 := by
    intro heq
    rw [heq] at h
    exact absurd h (by decide)
  rw [if_neg hlargest]
  split
  . next hx =>
    have hzero : (@unpackExponent .binary64 b).toNat = 0 := by rw [hx]; rfl
    split
    . exact .inl ⟨_, rfl⟩
    . next hm =>
      have hpos : 0 < (@unpackMantissa .binary64 b).toNat :=
        Nat.pos_of_ne_zero fun heq => hm (BitVec.eq_of_toNat_eq heq)
      refine .inr ⟨_, _, _, hpos, rfl, by omega, ?_⟩
      rw [hzero]
      decide
  . next hx =>
    have hpos : (@unpackExponent .binary64 b).toNat ≠ 0 := fun heq =>
      hx (BitVec.eq_of_toNat_eq heq)
    have hmantissa := toNat_one_append (@unpackMantissa .binary64 b)
    exact .inr ⟨_, _, _, by omega, rfl, by omega, by omega⟩

theorem isInf_of_storedExponent {f : Float} (h : storedExponent f.toBits < 2047) :
    f.isInf = false := by
  change f.toModel.unpack.isInf = false
  obtain ⟨s, hunpack⟩ | ⟨s, m, e, hm, hunpack, -⟩ := unpack_of_storedExponent h
  . rw [hunpack]; rfl
  . rw [hunpack]; rfl

theorem IsNormal.storedExponent_lt {f : Float} {m : Nat} {e : Int} (h : IsNormal f m e) :
    storedExponent f.toBits < 2047 := by
  obtain ⟨s, hm, h⟩ := h.unpack_eq
  unfold Float.Model.unpack at h
  rw [storedExponent_eq]
  apply Nat.lt_of_le_of_ne (Nat.le_of_lt_succ (BitVec.isLt _))
  intro hlargest
  have hx : @unpackExponent .binary64 f.toModel.toBits.toBitVec = -1#11 :=
    BitVec.eq_of_toNat_eq hlargest
  simp only [UnpackedFloat.unpack] at h
  rw [if_pos hx] at h
  split at h <;> contradiction

theorem storedExponent_zero (s : Sign) : storedExponent (Float.ofModel (.pack (.zero s))).toBits = 0 :=
  storedExponent_packComponents s 0 0

theorem storedExponent_finite (s : Sign) (m : Nat) {e : Int} (hm : 0 < m) (he : e ≤ 971) :
    storedExponent (Float.ofModel (.pack (.finite s m e hm))).toBits ≤ (e + 1075).toNat := by
  change (UnpackedFloat.pack .binary64 (.finite s m e hm)).toNat / 4503599627370496 % 2048 ≤ _
  simp only [UnpackedFloat.pack, exponentBias_eq]
  rw [if_neg (by change ¬ 2048 ≤ _; omega)]
  split
  . rw [storedExponent_packComponents, BitVec.toNat_ofNat]
    apply Nat.le_trans (Nat.mod_le _ _)
    omega
  . rw [storedExponent_packComponents]
    exact Nat.zero_le _

theorem isInf_of_large (s : Sign) (m : Nat) {e : Int} (hm : 0 < m) (he : 971 < e) :
    (Float.ofModel (.pack (.finite s m e hm))).isInf = true := by
  have hpack : UnpackedFloat.pack .binary64 (.finite s m e hm) = packedInfinity .binary64 s := by
    simp only [UnpackedFloat.pack, exponentBias_eq]
    rw [if_pos (by change 2048 ≤ _; omega)]
  change (UnpackedFloat.unpack .binary64 (UnpackedFloat.pack .binary64 _)).isInf = true
  rw [hpack, packedInfinity, UnpackedFloat.unpack]
  simp [UnpackedFloat.isInf]

theorem isNormal_pack {s : Sign} {m : Nat} {e : Int} {hm : 0 < m} (hlow : 4503599627370496 ≤ m)
    (hhigh : m < 9007199254740992) (he : -1074 ≤ e) (he' : e ≤ 971) :
    IsNormal (.ofModel (.pack (.finite s m e hm))) m e := by
  refine ⟨?_, hlow, hhigh⟩
  have hlog : m.log2 = 52 := (Nat.log2_eq_iff (by omega)).2 ⟨hlow, hhigh⟩
  have hstored : ((e + (1023 : Nat) + (52 : Nat)).toNat : Int) = e + 1075 := by omega
  generalize hx : (e + (1023 : Nat) + (52 : Nat)).toNat = x at hstored
  have hpack : UnpackedFloat.pack .binary64 (.finite s m e hm) =
      packComponents .binary64 s (BitVec.ofNat 11 x) (BitVec.ofNat 52 m) := by
    simp only [UnpackedFloat.pack, exponentBias_eq, hx, hlog]
    rw [if_neg (by change ¬ 2048 ≤ _; omega), if_pos (by decide)]
  have hexponent : (BitVec.ofNat 11 x).toNat = x := by
    rw [BitVec.toNat_ofNat]
    omega
  have hmantissa : (1#1 ++ BitVec.ofNat 52 m).toNat = m := by
    rw [toNat_one_append, BitVec.toNat_ofNat]
    omega
  have hne : ∀ n : Nat, x ≠ n → n < 2048 → BitVec.ofNat 11 x ≠ BitVec.ofNat 11 n := by
    intro n hxn hn heq
    have := congrArg BitVec.toNat heq
    rw [hexponent, BitVec.toNat_ofNat] at this
    omega
  change ∃ s' h, UnpackedFloat.unpack .binary64 (UnpackedFloat.pack .binary64 _) = .finite s' m e h
  rw [hpack]
  simp only [UnpackedFloat.unpack, unpackExponent_packComponents, unpackMantissa_packComponents,
    exponentBias_eq]
  have hlargest : BitVec.ofNat 11 x ≠ -1#11 := hne 2047 (by omega) (by omega)
  rw [if_neg hlargest, if_neg (hne 0 (by omega) (by omega))]
  have hsame : ((BitVec.ofNat 11 x).toNat : Int) - ((1023 : Nat) + (52 : Nat)) = e := by omega
  simp only [hmantissa]
  exact ⟨_, hm, by congr 1⟩

theorem storedExponent_settled (s : Sign) (r : Nat) {e : Int} (he : e ≤ 970) :
    storedExponent (Float.ofModel (.pack (settled s r e))).toBits ≤ (e + 1076).toNat := by
  unfold settled
  split
  . rw [storedExponent_zero]
    exact Nat.zero_le _
  . split
    all_goals
      apply Nat.le_trans (storedExponent_finite s _ _ (by omega))
      omega

theorem storedExponent_settled_of_ne (s : Sign) {r : Nat} {e : Int} (hr : r ≠ 9007199254740992)
    (he : e ≤ 971) :
    storedExponent (Float.ofModel (.pack (settled s r e))).toBits ≤ (e + 1075).toNat := by
  unfold settled
  split
  . rw [storedExponent_zero]
    exact Nat.zero_le _
  . exact storedExponent_finite s _ _ he

theorem storedExponent_finite_of_not_isInf (s : Sign) (m : Nat) {e : Int} (hm : 0 < m)
    (h : (Float.ofModel (.pack (.finite s m e hm))).isInf = false) :
    storedExponent (Float.ofModel (.pack (.finite s m e hm))).toBits < 2047 := by
  by_cases he : e ≤ 971
  . apply Nat.lt_of_le_of_lt (storedExponent_finite s m hm he)
    omega
  . rw [isInf_of_large s m hm (by omega)] at h
    contradiction

theorem storedExponent_settled_of_not_isInf {s : Sign} {r : Nat} {e : Int}
    (h : (Float.ofModel (.pack (settled s r e))).isInf = false) :
    storedExponent (Float.ofModel (.pack (settled s r e))).toBits < 2047 := by
  unfold settled at h ⊢
  split
  . rw [storedExponent_zero]
    decide
  . next hr =>
    rw [dif_neg hr] at h
    split
    . next hfull =>
      rw [if_pos hfull] at h
      exact storedExponent_finite_of_not_isInf s _ _ h
    . next hfull =>
      rw [if_neg hfull] at h
      exact storedExponent_finite_of_not_isInf s _ _ h

theorem isNormal_settled {s : Sign} {r : Nat} {e : Int} (hlow : 4503599627370496 ≤ r)
    (hhigh : r ≤ 9007199254740992) (he : -1074 ≤ e) (he' : e ≤ 970) :
    ∃ m e', IsNormal (.ofModel (.pack (settled s r e))) m e' ∧
      ((m = r ∧ e' = e) ∨ (r = 9007199254740992 ∧ m = 4503599627370496 ∧ e' = e + 1)) := by
  unfold settled
  rw [dif_neg (by omega)]
  split
  . next hfull =>
    exact ⟨_, _, isNormal_pack (by omega) (by omega) (by omega) (by omega), .inr ⟨hfull, rfl, rfl⟩⟩
  . exact ⟨_, _, isNormal_pack hlow (by omega) he (by omega), .inl ⟨rfl, rfl⟩⟩

end Double

end ReadProgress
