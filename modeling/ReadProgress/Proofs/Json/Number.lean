import Mathlib
import ReadProgress.Json.Reader.Number
import ReadProgress.Json.Writer
import ReadProgress.Proofs.Double.Arithmetic
import ReadProgress.Proofs.Json.Reader
import ReadProgress.Proofs.Text.Digits

/-!
This module contains what is read as a number: an integer in its bounds or a finite number in double
precision. Integers are read as they were written.
-/

namespace ReadProgress

namespace Json

open Double (storedExponent)

section Scaled

theorem isNormal_power {k : Nat} (hk : k ≤ 308) :
    ∃ m e, Double.IsNormal (scaled?.power k) m e ∧ -52 ≤ e :=
  Double.isNormal_power hk

/-
Each turn divides by a power of ten, which cannot make the exponent larger than it could be made by
54 turns of doubling.
-/
theorem storedExponent_of_go {f g : Float} {exponent : Int} {fuel : Nat}
    (hf : storedExponent f.toBits + 54 * fuel ≤ 1990)
    (h : scaled?.go f exponent fuel = some g) : storedExponent g.toBits < 2047 := by
  induction fuel generalizing f exponent with
  | zero =>
    cases h
    omega
  | succ fuel ih =>
    simp only [scaled?.go] at h
    split at h
    . next hsmall =>
      obtain ⟨m, e, hpower, hlow⟩ := isNormal_power hsmall
      split at h
      . cases h
        have := Double.storedExponent_div hpower hlow (a := f) (by omega)
        omega
      . by_cases hinf : (f * scaled?.power exponent.natAbs).isInf = true
        . rw [if_pos hinf] at h
          contradiction
        . rw [if_neg hinf] at h
          cases h
          exact Double.storedExponent_mul (by omega) hpower.storedExponent_lt
            (Bool.eq_false_iff.2 hinf)
    . split at h
      . cases h
        omega
      . split at h
        . contradiction
        . obtain ⟨m, e, hpower, hlow⟩ := isNormal_power (Nat.le_refl 308)
          have := Double.storedExponent_div hpower hlow (a := f) (by omega)
          exact ih (by omega) h

theorem storedExponent_of_scaled? {n : Nat} {exponent : Int} {f : Float}
    (h : scaled? n exponent = some f) : storedExponent f.toBits < 2047 := by
  have := Double.storedExponent_toFloat n.toUInt64
  exact storedExponent_of_go (by omega) h

theorem isSome_go_of_neg (f : Float) {exponent : Int} (h : exponent < 0) (fuel : Nat) :
    (scaled?.go f exponent fuel).isSome = true := by
  induction fuel generalizing f exponent with
  | zero => rfl
  | succ fuel ih =>
    simp only [scaled?.go]
    rw [if_pos h]
    split
    . rfl
    . next hlarge =>
      split
      . rfl
      . rw [if_neg (by omega)]
        exact ih _ (by omega)

theorem isSome_scaled? {n : Nat} {exponent : Int} (hn : n < 18446744073709551616)
    (h : 0 ≤ exponent → exponent ≤ 308 ∧ n * 10 ^ exponent.toNat ≤ Double.lastMiddle) :
    (scaled? n exponent).isSome = true := by
  by_cases hneg : exponent < 0
  . exact isSome_go_of_neg _ hneg 3
  . obtain ⟨k, rfl⟩ := Int.eq_ofNat_of_zero_le (by omega : 0 ≤ exponent)
    obtain ⟨hk, hle⟩ := h (by omega)
    have hword : n.toUInt64.toNat = n := UInt64.toNat_ofNat_of_lt' hn
    have hinf : (n.toUInt64.toFloat * scaled?.power k).isInf = false := by
      apply Double.isInf_toFloat_mul_power (by omega)
      rwa [hword]
    simp only [scaled?, scaled?.go, Int.natAbs_natCast]
    rw [if_pos (by omega), if_neg (by omega), hinf]
    rfl

end Scaled

theorem appendDigits_lt {n : Nat} (h : n < UInt64.size) (digits : Bytes) :
    (appendDigits n digits).1 < UInt64.size := by
  induction digits generalizing n with
  | nil => exact h
  | cons b rest ih =>
    simp only [appendDigits]
    split
    . next hnext => exact ih hnext
    . exact h

theorem digitValue_lt (b : UInt8) : digitValue b < UInt64.size := by
  have := b.toNat_lt
  unfold digitValue
  simp only [UInt64.size]
  omega

/--
Whether a number has come to its end, as no digit, fraction or exponent follows.
-/
def EndsNumber (rest : Bytes) : Prop :=
  ∀ b ∈ rest.head?, isDigit b = false ∧ b ≠ byte '.' ∧ b ≠ byte 'e' ∧ b ≠ byte 'E'

theorem isDigit_of_mem_head? {text : Bytes} {mark : UInt8} (h : text.head? = some mark)
    (hmark : isDigit mark = false) : ∀ b ∈ text.head?, isDigit b = false := by
  intro b hb
  rw [h] at hb
  cases hb
  exact hmark

theorem toNat_byte {c : Char} (h : c.isDigit = true) : (byte c).toNat = c.toNat := by
  simp only [Char.isDigit, Bool.and_eq_true, decide_eq_true_eq] at h
  have hle : c.toNat ≤ 57 := UInt32.le_iff_toNat_le.1 h.2
  exact UInt8.toNat_ofNat_of_lt' (by simp only [UInt8.size]; omega)

theorem isDigit_byte {c : Char} (h : c.isDigit = true) : isDigit (byte c) = true := by
  have hbyte := toNat_byte h
  simp only [Char.isDigit, Bool.and_eq_true, decide_eq_true_eq] at h
  have hle : c.toNat ≤ 57 := UInt32.le_iff_toNat_le.1 h.2
  have hge : 48 ≤ c.toNat := UInt32.le_iff_toNat_le.1 h.1
  simp only [isDigit, Bool.and_eq_true, decide_eq_true_eq, UInt8.le_iff_toNat_le, hbyte]
  exact ⟨hge, hle⟩

theorem digitValue_byte {c : Char} (h : c.isDigit = true) :
    digitValue (byte c) = c.toNat - '0'.toNat := by
  rw [digitValue, toNat_byte h]
  rfl

theorem eq_zero_of_digitValue {c : Char} (h : c.isDigit = true) (hzero : digitValue (byte c) = 0) :
    c = '0' := by
  rw [digitValue_byte h] at hzero
  simp only [Char.isDigit, Bool.and_eq_true, decide_eq_true_eq] at h
  have hge : '0'.toNat ≤ c.toNat := UInt32.le_iff_toNat_le.1 h.1
  apply Char.toNat_inj.1
  omega

theorem appendDigits_map {n : Nat} {digits : List Char} (hdigits : ∀ c ∈ digits, c.isDigit = true)
    (h : Nat.ofDigitChars 10 digits n < UInt64.size) :
    appendDigits n (digits.map byte) = (Nat.ofDigitChars 10 digits n, 0) := by
  induction digits generalizing n with
  | nil => simp [appendDigits]
  | cons c rest ih =>
    have hvalue : n * 10 + digitValue (byte c) = 10 * n + (c.toNat - '0'.toNat) := by
      rw [digitValue_byte (hdigits c List.mem_cons_self)]
      omega
    rw [Nat.ofDigitChars_cons] at h ⊢
    rw [List.map_cons, appendDigits, hvalue]
    have := le_ofDigitChars (10 * n + (c.toNat - '0'.toNat)) rest
    rw [if_pos (by omega)]
    exact ih (fun c hmem => hdigits c (List.mem_cons_of_mem _ hmem)) h

theorem appendDigits_bounds {n : Nat} {digits : List Char}
    (hdigits : ∀ c ∈ digits, c.isDigit = true) :
    (appendDigits n (digits.map byte)).2 ≤ digits.length ∧
      (appendDigits n (digits.map byte)).1 * 10 ^ (appendDigits n (digits.map byte)).2 ≤
        Nat.ofDigitChars 10 digits n ∧
      n ≤ (appendDigits n (digits.map byte)).1 := by
  induction digits generalizing n with
  | nil => simp [appendDigits]
  | cons c rest ih =>
    have hvalue : n * 10 + digitValue (byte c) = 10 * n + (c.toNat - '0'.toNat) := by
      rw [digitValue_byte (hdigits c List.mem_cons_self)]
      omega
    rw [Nat.ofDigitChars_cons, List.map_cons, appendDigits, hvalue]
    split
    . have := ih (n := 10 * n + (c.toNat - '0'.toNat))
        fun c hmem => hdigits c (List.mem_cons_of_mem _ hmem)
      exact ⟨Nat.le_succ_of_le this.1, this.2.1, by omega⟩
    . refine ⟨by simp, ?_, Nat.le_refl _⟩
      rw [Nat.ofDigitChars_eq_ofDigitChars_zero, List.length_cons, List.length_map, Nat.pow_succ]
      calc n * (10 ^ rest.length * 10)
          ≤ n * (10 ^ rest.length * 10) + (c.toNat - '0'.toNat) * 10 ^ rest.length :=
            Nat.le_add_right _ _
        _ = 10 ^ rest.length * (10 * n + (c.toNat - '0'.toNat)) := by ring
        _ ≤ 10 ^ rest.length * (10 * n + (c.toNat - '0'.toNat)) + Nat.ofDigitChars 10 rest 0 :=
            Nat.le_add_right _ _

namespace Reader

section Gives

variable {P : Json → Prop}

theorem gives_float (hfloat : ∀ bits, storedExponent bits < 2047 → P (.float bits))
    (negative : Bool) (n : Nat) (exponent : Int) : Gives (float negative n exponent) P := by
  unfold float
  cases h : scaled? n exponent with
  | none => exact Gives.fail _
  | some f =>
    apply Gives.pure
    apply hfloat
    have hfinite := storedExponent_of_scaled? h
    cases negative with
    | false => exact hfinite
    | true => exact Double.storedExponent_neg hfinite

/-
What follows the sign of an exponent stands in the definition only once, but is reached from four
places.
-/
theorem gives_exponent (hfloat : ∀ bits, storedExponent bits < 2047 → P (.float bits))
    (negative : Bool) (n : Nat) (shift : Int) : Gives (exponent negative n shift) P := by
  unfold exponent
  refine Gives.andThen fun _ => Gives.andThen fun sign => ?_
  extract_lets afterSign
  have hafter : ∀ positive, Gives (afterSign positive) P := by
    intro positive
    refine Gives.andThen fun next => ?_
    cases next with
    | none => exact Gives.fail _
    | some b =>
      refine Gives.ite (fun _ => ?_) (fun _ => Gives.fail _)
      refine Gives.andThen fun c => Gives.andThen fun digits => ?_
      cases digits with
      | some x => exact gives_float hfloat _ _ _
      | none =>
        refine Gives.ite (fun _ => Gives.fail _) (fun _ => ?_)
        exact Gives.andThen fun _ => gives_float hfloat _ _ _
  cases sign with
  | none => exact Gives.andThen hafter
  | some b =>
    refine Gives.ite (fun _ => ?_) (fun _ => Gives.ite (fun _ => ?_) (fun _ => ?_))
    . exact Gives.andThen fun _ => Gives.andThen hafter
    . exact Gives.andThen fun _ => Gives.andThen hafter
    . exact Gives.andThen hafter

theorem gives_fraction (hfloat : ∀ bits, storedExponent bits < 2047 → P (.float bits))
    (negative : Bool) (n : Nat) (shift : Int) : Gives (fraction negative n shift) P := by
  unfold fraction
  refine Gives.andThen fun _ => Gives.andThen fun digits => ?_
  refine Gives.ite (fun _ => ?_) (fun _ => ?_)
  . refine Gives.andThen fun next => ?_
    cases next with
    | none => exact Gives.failAhead _
    | some b => exact Gives.failAhead _
  . refine Gives.andThen fun next => ?_
    cases next with
    | none => exact gives_float hfloat _ _ _
    | some b =>
      exact Gives.ite (fun _ => gives_exponent hfloat _ _ _) (fun _ => gives_float hfloat _ _ _)

theorem wholeNumber_of_lt (hfloat : ∀ bits, storedExponent bits < 2047 → P (.float bits))
    (hinteger : ∀ i : Int, -9223372036854775808 ≤ i → i < 18446744073709551616 → P (.integer i))
    (negative : Bool) {n : Nat} (hn : n < UInt64.size) : P (wholeNumber negative n) := by
  simp only [UInt64.size] at hn
  cases negative with
  | false => exact hinteger n (by omega) (by omega)
  | true =>
    simp only [wholeNumber, if_true]
    split
    . exact hinteger (-n) (by omega) (by omega)
    . apply hfloat
      apply Double.storedExponent_neg
      have := Double.storedExponent_toFloat n.toUInt64
      omega

theorem gives_unsigned (hfloat : ∀ bits, storedExponent bits < 2047 → P (.float bits))
    (hinteger : ∀ i : Int, -9223372036854775808 ≤ i → i < 18446744073709551616 → P (.integer i))
    (negative : Bool) : Gives (unsigned negative) P := by
  unfold unsigned
  refine Gives.andThen fun next => ?_
  cases next with
  | none => exact Gives.fail _
  | some first =>
    refine Gives.ite (fun _ => Gives.fail _) (fun _ => ?_)
    extract_lets afterDigits
    have hafter : ∀ digits, Gives (afterDigits digits) P := by
      intro digits
      have hwhole := wholeNumber_of_lt hfloat hinteger negative
        (appendDigits_lt (digitValue_lt first) digits)
      refine Gives.andThen fun next => ?_
      cases next with
      | none => exact Gives.ite (fun _ => Gives.pure hwhole) (fun _ => gives_float hfloat _ _ _)
      | some b =>
        refine Gives.ite (fun _ => Gives.failAhead _) (fun _ => ?_)
        refine Gives.ite (fun _ => gives_fraction hfloat _ _ _) (fun _ => ?_)
        refine Gives.ite (fun _ => gives_exponent hfloat _ _ _) (fun _ => ?_)
        exact Gives.ite (fun _ => Gives.pure hwhole) (fun _ => gives_float hfloat _ _ _)
    exact Gives.ite (fun _ => Gives.andThen hafter) (fun _ => Gives.andThen hafter)

theorem gives_number (hfloat : ∀ bits, storedExponent bits < 2047 → P (.float bits))
    (hinteger : ∀ i : Int, -9223372036854775808 ≤ i → i < 18446744073709551616 → P (.integer i)) :
    Gives number P := by
  unfold number
  refine Gives.andThen fun next => ?_
  cases next with
  | none => exact gives_unsigned hfloat hinteger _
  | some b =>
    refine Gives.ite (fun _ => ?_) (fun _ => gives_unsigned hfloat hinteger _)
    exact Gives.andThen fun _ => gives_unsigned hfloat hinteger _

end Gives

theorem takes_float (negative : Bool) {n : Nat} {exponent : Int} {f : Float}
    (h : scaled? n exponent = some f) (rest : Bytes) :
    Takes (float negative n exponent) rest (.float (if negative then -f else f).toBits) rest := by
  unfold float
  rw [h]
  exact Takes.pure _ _

/--
A number begins with digits. It ends there, or a fraction or an exponent follows.
-/
theorem takes_unsigned {negative : Bool} {first : UInt8} {digits tail rest : Bytes} {j : Json}
    {n left : Nat} (hfirst : isDigit first = true) (hdigits : ∀ b ∈ digits, isDigit b = true)
    (hzero : first = byte '0' → digits = [])
    (happend : appendDigits (digitValue first) digits = (n, left))
    (h : (EndsNumber tail ∧ left = 0 ∧ j = wholeNumber negative n ∧ rest = tail) ∨
      (tail.head? = some (byte '.') ∧ Takes (fraction negative n left) tail j rest) ∨
      (tail.head? = some (byte 'e') ∧ Takes (exponent negative n left) tail j rest)) :
    Takes (unsigned negative) (first :: (digits ++ tail)) j rest := by
  unfold unsigned
  refine (Takes.take _ _).bind ?_
  have htail : ∀ b ∈ tail.head?, isDigit b = false := by
    rcases h with ⟨hend, -⟩ | ⟨hpoint, -⟩ | ⟨hletter, -⟩
    . exact fun b hb => (hend b hb).1
    . exact isDigit_of_mem_head? hpoint (by decide)
    . exact isDigit_of_mem_head? hletter (by decide)
  show Takes (if (!isDigit first) = true then _ else _) _ _ _
  rw [if_neg (by simp [hfirst])]
  extract_lets afterDigits
  -- No digits stand behind a zero, so both ways to take them end in front of `tail`.
  have hafter : Takes (afterDigits digits) tail j rest := by
    simp only [afterDigits, happend]
    refine (Takes.peek tail).bind ?_
    cases hhead : tail.head? with
    | none =>
      rcases h with ⟨-, hleft, hj, hrest⟩ | ⟨hpoint, -⟩ | ⟨hletter, -⟩
      . simp only [hleft, if_true, hj, hrest]
        exact Takes.pure _ _
      . simp [hhead] at hpoint
      . simp [hhead] at hletter
    | some b =>
      have hdigit : ¬ (first = byte '0' ∧ isDigit b = true) := by
        intro hboth
        rw [htail b hhead] at hboth
        simp at hboth
      simp only [if_neg hdigit]
      rcases h with ⟨hend, hleft, hj, hrest⟩ | ⟨hpoint, htakes⟩ | ⟨hletter, htakes⟩
      . obtain ⟨-, hpoint, hlower, hupper⟩ := hend b hhead
        rw [if_neg hpoint, if_neg (not_or.2 ⟨hlower, hupper⟩), if_pos hleft, hj, hrest]
        exact Takes.pure _ _
      . rw [hhead] at hpoint
        cases hpoint
        rw [if_pos rfl]
        exact htakes
      . rw [hhead] at hletter
        cases hletter
        rw [if_neg (by decide), if_pos (.inl rfl)]
        exact htakes
  by_cases hfirst0 : first = byte '0'
  . rw [if_pos hfirst0, hzero hfirst0]
    rw [hzero hfirst0] at hafter
    exact (Takes.pure _ _).bind hafter
  . rw [if_neg hfirst0]
    exact (Takes.takeWhile_append hdigits htail).bind hafter

theorem takes_number_of_unsigned {negative : Bool} {first : UInt8} {text rest : Bytes} {j : Json}
    (hfirst : isDigit first = true)
    (h : Takes (unsigned negative) (first :: text) j rest) :
    Takes number ((if negative then [byte '-'] else []) ++ first :: text) j rest := by
  unfold number
  refine (Takes.peek _).bind ?_
  cases negative with
  | true =>
    simp only [if_true, List.cons_append, List.nil_append, List.head?_cons]
    exact (Takes.take _ _).bind h
  | false =>
    have hsign : first ≠ byte '-' := by
      rintro rfl
      exact absurd hfirst (by decide)
    simp only [Bool.false_eq_true, if_false, List.nil_append, List.head?_cons, if_neg hsign]
    exact h

theorem isDigit_of_mem_map {digits : List Char} (h : ∀ c ∈ digits, c.isDigit = true) :
    ∀ b ∈ digits.map byte, isDigit b = true := by
  intro b hb
  obtain ⟨c, hc, rfl⟩ := List.mem_map.1 hb
  exact isDigit_byte (h c hc)

theorem byte_eq_zero {c : Char} (h : c.isDigit = true) (hc : byte c = byte '0') : c = '0' := by
  apply Char.toNat_inj.1
  rw [← toNat_byte h, hc]
  rfl

theorem appendDigits_digitValue {c : Char} {rest : List Char}
    (h : ∀ d ∈ c :: rest, d.isDigit = true)
    (hlt : Nat.ofDigitChars 10 (c :: rest) 0 < UInt64.size) :
    appendDigits (digitValue (byte c)) (rest.map byte) =
      (Nat.ofDigitChars 10 (c :: rest) 0, 0) := by
  rw [Nat.ofDigitChars_cons, Nat.mul_zero, Nat.zero_add] at hlt ⊢
  rw [digitValue_byte (h c List.mem_cons_self)]
  exact appendDigits_map (fun d hmem => h d (List.mem_cons_of_mem _ hmem)) hlt

theorem takes_integer {i : Int} (hlow : -9223372036854775808 ≤ i) (hhigh : i < 18446744073709551616)
    {rest : Bytes} (hrest : EndsNumber rest) :
    Takes number (writeInteger i ++ rest) (.integer i) rest := by
  obtain ⟨c, digits, hdigits, hall, hzero⟩ := exists_cons_toDigits i.natAbs
  rw [List.all_eq_true] at hall
  have hvalue : Nat.ofDigitChars 10 (c :: digits) 0 = i.natAbs := by
    rw [← hdigits, Nat.ofDigitChars_ten_toDigits]
  have happend := appendDigits_digitValue hall
    (by rw [hvalue]; simp only [UInt64.size]; omega)
  rw [hvalue] at happend
  have hwhole : Json.integer i = wholeNumber (decide (i < 0)) i.natAbs := by
    by_cases hneg : i < 0
    . simp only [wholeNumber, decide_eq_true_eq]
      rw [if_pos hneg, if_pos (by omega)]
      congr 1
      omega
    . simp only [wholeNumber, decide_eq_true_eq]
      rw [if_neg hneg]
      congr 1
      omega
  have hunsigned := takes_unsigned (isDigit_byte (hall c List.mem_cons_self))
    (isDigit_of_mem_map fun d hmem => hall d (List.mem_cons_of_mem _ hmem))
    (fun hc => by
      rw [(hzero (byte_eq_zero (hall c List.mem_cons_self) hc)).2]
      rfl)
    happend (.inl ⟨hrest, rfl, hwhole, rfl⟩)
  have htext : writeInteger i ++ rest =
      (if decide (i < 0) then [byte '-'] else []) ++ byte c :: (digits.map byte ++ rest) := by
    by_cases hneg : i < 0 <;> simp [writeInteger, hdigits, hneg]
  rw [htext]
  exact takes_number_of_unsigned (isDigit_byte (hall c List.mem_cons_self)) hunsigned

end Reader

end Json

end ReadProgress
