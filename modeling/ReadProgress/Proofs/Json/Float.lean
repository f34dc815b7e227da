import ReadProgress.Proofs.Decimal.Shortest
import ReadProgress.Proofs.Json.Number

/-!
This module contains the proof that finite numbers in double precision are accepted by the reader in
the form in which they are written. The number that is read may be another one next to it.
-/

namespace ReadProgress

namespace Json

open Double (storedExponent lastMiddle)
open Decimal (Fits)

namespace Reader

/--
A text that is read as a number in double precision, whatever its sign is.
-/
def IsFloatText (text : List Char) : Prop :=
  ∃ c rest, text = c :: rest ∧ c.isDigit = true ∧
    ∀ negative, ∃ bits, ∀ behind, EndsNumber behind →
      Takes (unsigned negative) (text.map byte ++ behind) (.float bits) behind

theorem takes_exponentDigits {value : Nat} {digits : List Char}
    (hdigits : ∀ c ∈ digits, c.isDigit = true)
    (hsmall : Nat.ofDigitChars 10 digits value < 2147483648) (rest : Bytes) :
    Takes (exponentDigits value (digits.map byte)) (digits.map byte ++ rest)
      (some (Nat.ofDigitChars 10 digits value)) rest := by
  induction digits generalizing value with
  | nil => exact (Takes.peek rest).bind (Takes.pure _ _)
  | cons c digits ih =>
    have hvalue : value * 10 + digitValue (byte c) = 10 * value + (c.toNat - '0'.toNat) := by
      rw [digitValue_byte (hdigits c List.mem_cons_self)]
      omega
    rw [Nat.ofDigitChars_cons] at hsmall ⊢
    have := le_ofDigitChars (10 * value + (c.toNat - '0'.toNat)) digits
    refine (Takes.take _ _).bind ?_
    simp only [hvalue]
    rw [if_pos (by omega)]
    exact ih (fun d hmem => hdigits d (List.mem_cons_of_mem _ hmem)) hsmall

theorem takes_exponent (negative : Bool) {positive : Bool} {n : Nat} {shift : Int} {c : Char}
    {digits : List Char} (hdigits : ∀ d ∈ c :: digits, d.isDigit = true)
    (hsmall : Nat.ofDigitChars 10 (c :: digits) 0 < 2147483648) {f : Float}
    (hf : scaled? n (if positive then shift + Nat.ofDigitChars 10 (c :: digits) 0
      else shift - Nat.ofDigitChars 10 (c :: digits) 0) = some f)
    {rest : Bytes} (hrest : EndsNumber rest) :
    Takes (exponent negative n shift)
      (byte 'e' :: byte (if positive then '+' else '-') :: byte c :: (digits.map byte ++ rest))
      (.float (if negative then -f else f).toBits) rest := by
  unfold exponent
  refine (Takes.take _ _).bind ((Takes.peek _).bind ?_)
  extract_lets afterSign
  have hafter : Takes (afterSign positive) (byte c :: (digits.map byte ++ rest))
      (.float (if negative then -f else f).toBits) rest := by
    refine (Takes.take _ _).bind ?_
    simp only [isDigit_byte (hdigits c List.mem_cons_self), if_true]
    refine Takes.get fun cursor hcursor => ?_
    have hdigits' : ∀ d ∈ digits, d.isDigit = true := fun d hmem =>
      hdigits d (List.mem_cons_of_mem _ hmem)
    have hrun : cursor.rest.takeWhile isDigit = digits.map byte := by
      rw [hcursor, List.takeWhile_append_of_pos (isDigit_of_mem_map hdigits')]
      cases rest with
      | nil => simp
      | cons b rest => simp [(hrest b rfl).1]
    have hvalue : digitValue (byte c) = 10 * 0 + (c.toNat - '0'.toNat) := by
      rw [digitValue_byte (hdigits c List.mem_cons_self)]
      omega
    rw [Nat.ofDigitChars_cons] at hsmall hf
    rw [hrun, hvalue]
    refine (takes_exponentDigits hdigits' hsmall rest).bind ?_
    exact takes_float negative hf rest
  cases positive with
  | true => exact (Takes.take _ _).bind ((Takes.pure _ _).bind hafter)
  | false => exact (Takes.take _ _).bind ((Takes.pure _ _).bind hafter)

theorem takes_fraction {negative : Bool} {n n' left : Nat} {shift : Int} {digits : List Char}
    (hne : digits ≠ []) (hdigits : ∀ c ∈ digits, c.isDigit = true)
    (happend : appendDigits n (digits.map byte) = (n', left)) {tail rest : Bytes} {j : Json}
    (h : (EndsNumber tail ∧
        Takes (float negative n' (shift - (digits.length - left : Nat))) tail j rest) ∨
      (tail.head? = some (byte 'e') ∧
        Takes (exponent negative n' (shift - (digits.length - left : Nat))) tail j rest)) :
    Takes (fraction negative n shift) (byte '.' :: (digits.map byte ++ tail)) j rest := by
  have htail : ∀ b ∈ tail.head?, isDigit b = false := by
    rcases h with ⟨hend, -⟩ | ⟨hletter, -⟩
    . exact fun b hb => (hend b hb).1
    . exact isDigit_of_mem_head? hletter (by decide)
  unfold fraction
  refine (Takes.take _ _).bind ((Takes.takeWhile_append (isDigit_of_mem_map hdigits) htail).bind ?_)
  rw [if_neg (by simpa using hne)]
  simp only [happend, List.length_map]
  refine (Takes.peek tail).bind ?_
  cases hhead : tail.head? with
  | none =>
    rcases h with ⟨-, htakes⟩ | ⟨hletter, -⟩
    . exact htakes
    . rw [hhead] at hletter
      contradiction
  | some b =>
    rcases h with ⟨hend, htakes⟩ | ⟨hletter, htakes⟩
    . obtain ⟨-, -, hlower, hupper⟩ := hend b hhead
      simp only [if_neg (not_or.2 ⟨hlower, hupper⟩)]
      exact htakes
    . rw [hhead] at hletter
      cases hletter
      simp only [true_or, if_true]
      exact htakes

theorem isFloatText_positional {c : Char} {whole digits : List Char}
    (hwhole : ∀ d ∈ c :: whole, d.isDigit = true) (hzero : c = '0' → whole = [])
    (hlt : Nat.ofDigitChars 10 (c :: whole) 0 < UInt64.size) (hne : digits ≠ [])
    (hdigits : ∀ d ∈ digits, d.isDigit = true) : IsFloatText (c :: whole ++ '.' :: digits) := by
  have hc := hwhole c List.mem_cons_self
  refine ⟨c, whole ++ '.' :: digits, rfl, hc, fun negative => ?_⟩
  have happend := appendDigits_digitValue hwhole hlt
  obtain ⟨n, left, hfraction⟩ : ∃ n left,
      appendDigits (Nat.ofDigitChars 10 (c :: whole) 0) (digits.map byte) = (n, left) :=
    ⟨_, _, rfl⟩
  have hn : n < UInt64.size := by
    have := appendDigits_lt hlt (digits.map byte)
    rwa [hfraction] at this
  have hsome : (scaled? n ((0 : Nat) - (digits.length - left : Nat))).isSome = true := by
    apply isSome_scaled? (by simpa only [UInt64.size] using hn)
    intro hpos
    have hlarge : 18446744073709551616 ≤ lastMiddle := by decide +kernel
    simp only [UInt64.size] at hn
    have hexponent : ((0 : Nat) - (digits.length - left : Nat) : Int).toNat = 0 := by omega
    rw [hexponent]
    exact ⟨by omega, by omega⟩
  obtain ⟨f, hf⟩ := Option.isSome_iff_exists.1 hsome
  refine ⟨(if negative then -f else f).toBits, fun behind hbehind => ?_⟩
  have htakes := takes_fraction hne hdigits hfraction
    (.inl ⟨hbehind, takes_float negative hf behind⟩)
  have := takes_unsigned (isDigit_byte hc)
    (isDigit_of_mem_map fun d hmem => hwhole d (List.mem_cons_of_mem _ hmem))
    (fun h => by rw [hzero (byte_eq_zero hc h)]; rfl) happend (.inr (.inl ⟨rfl, htakes⟩))
  simpa using this

theorem isFloatText_of_length {c : Char} {whole digits : List Char}
    (hwhole : ∀ d ∈ c :: whole, d.isDigit = true) (hzero : c = '0' → whole = [])
    (hlength : whole.length < 16) (hne : digits ≠ []) (hdigits : ∀ d ∈ digits, d.isDigit = true) :
    IsFloatText (c :: whole ++ '.' :: digits) := by
  refine isFloatText_positional hwhole hzero ?_ hne hdigits
  have hlt := ofDigitChars_lt hwhole
  have hsize : 10 ^ (c :: whole).length ≤ 10 ^ 16 := Nat.pow_le_pow_right (by decide) hlength
  simp only [UInt64.size]
  omega

theorem isFloatText_scientific {c x : Char} {digits exponent : List Char} (positive : Bool)
    (hc : c.isDigit = true) (hdigits : ∀ d ∈ digits, d.isDigit = true)
    (hexponent : ∀ d ∈ x :: exponent, d.isDigit = true)
    (hsmall : Nat.ofDigitChars 10 (x :: exponent) 0 < 2147483648) {n left : Nat}
    (happend : appendDigits (digitValue (byte c)) (digits.map byte) = (n, left))
    (hsome : (scaled? n (if positive
      then (0 : Nat) - (digits.length - left : Nat) + Nat.ofDigitChars 10 (x :: exponent) 0
      else (0 : Nat) - (digits.length - left : Nat) - Nat.ofDigitChars 10 (x :: exponent) 0)).isSome
        = true) :
    IsFloatText (c :: ((if digits = [] then [] else '.' :: digits) ++
      'e' :: (if positive then '+' else '-') :: x :: exponent)) := by
  refine ⟨c, _, rfl, hc, fun negative => ?_⟩
  obtain ⟨f, hf⟩ := Option.isSome_iff_exists.1 hsome
  refine ⟨(if negative then -f else f).toBits, fun behind hbehind => ?_⟩
  have htakes := takes_exponent negative hexponent hsmall hf hbehind
  by_cases hnone : digits = []
  . subst hnone
    cases happend
    have := takes_unsigned (isDigit_byte hc) (List.forall_mem_nil _) (fun _ => rfl) rfl
      (.inr (.inr ⟨rfl, htakes⟩))
    simpa using this
  . have hfraction := takes_fraction hnone hdigits happend (.inr ⟨rfl, htakes⟩)
    have := takes_unsigned (isDigit_byte hc) (List.forall_mem_nil _) (fun _ => rfl) rfl
      (.inr (.inl ⟨rfl, hfraction⟩))
    simpa [hnone] using this

/--
What the shortest form of a number is known to be.
-/
def IsShortest (n : Nat) (k : Int) : Prop :=
  (n = 0 ∧ k = -342) ∨ (n = 17976931348623157 ∧ k = 292) ∨
    (n ≠ 0 ∧ -342 < k ∧ k ≤ 308 ∧ Fits n k)

theorem IsShortest.length_le {n : Nat} {k : Int} (h : IsShortest n k) :
    (Nat.toDigits 10 n).length ≤ 651 := by
  rw [Nat.length_toDigits_le_iff (by decide) (by decide)]
  rcases h with ⟨rfl, -⟩ | ⟨rfl, -⟩ | ⟨-, hlow, -, hfits⟩
  . decide +kernel
  . decide +kernel
  . have hmiddle : lastMiddle * 10 ^ 341 < 10 ^ 651 := by decide +kernel
    have hpow : 10 ^ (-k).toNat ≤ 10 ^ 341 := Nat.pow_le_pow_right (by decide) (by omega)
    have hn : n ≤ n * 10 ^ k.toNat := Nat.le_mul_of_pos_right _ (Nat.pow_pos (by decide))
    generalize 10 ^ 341 = p at hmiddle hpow
    generalize 10 ^ 651 = q at hmiddle ⊢
    exact Nat.lt_of_le_of_lt (Nat.le_trans (Nat.le_trans hn hfits) (Nat.mul_le_mul_left _ hpow))
      hmiddle

/-
Digits that do not fit into a word are left away, which makes the exponent larger but not the
number.
-/
theorem IsShortest.isSome_scaled? {n n' left : Nat} {k : Int} (h : IsShortest n k)
    (hn' : n' < 18446744073709551616) (hle : n' * 10 ^ left ≤ n) (hne : n ≠ 0 → n' ≠ 0)
    (hleft : n < 18446744073709551616 → n' = n ∧ left = 0) :
    (scaled? n' (k + left)).isSome = true := by
  rcases h with ⟨rfl, rfl⟩ | ⟨rfl, rfl⟩ | ⟨hn, hlow, hhigh, hfits⟩
  . obtain ⟨rfl, rfl⟩ := hleft (by decide)
    exact Json.isSome_scaled? (by decide) (fun h => absurd h (by decide))
  . obtain ⟨rfl, rfl⟩ := hleft (by decide)
    decide +kernel
  . apply Json.isSome_scaled? hn'
    intro hpos
    have hprod : n' * 10 ^ (k + left).toNat ≤ lastMiddle := by
      apply Nat.le_of_mul_le_mul_right _ (Nat.pow_pos (n := (-k).toNat) (by decide : 0 < 10))
      have hsplit : (k + left).toNat + (-k).toNat = left + k.toNat := by omega
      calc n' * 10 ^ (k + left).toNat * 10 ^ (-k).toNat
          = n' * 10 ^ left * 10 ^ k.toNat := by
            rw [Nat.mul_assoc, ← Nat.pow_add, hsplit, Nat.pow_add, Nat.mul_assoc]
        _ ≤ n * 10 ^ k.toNat := Nat.mul_le_mul_right _ hle
        _ ≤ lastMiddle * 10 ^ (-k).toNat := hfits
    refine ⟨?_, hprod⟩
    have hmiddle : lastMiddle < 10 ^ 309 := by decide +kernel
    have hpow := Nat.le_mul_of_pos_left (10 ^ (k + left).toNat) (Nat.pos_of_ne_zero (hne hn))
    have := (Nat.pow_lt_pow_iff_right (a := 10) (n := (k + left).toNat) (m := 309)
      (by decide)).1 (Nat.lt_of_le_of_lt (Nat.le_trans hpow hprod) hmiddle)
    omega

/--
Of the digits of a shortest form, as many are read as fit into a word. The number can be scaled by
what is left of them and by the exponent.
-/
theorem IsShortest.isSome_scaled?_of_appendDigits {n n' left : Nat} {k : Int} (h : IsShortest n k)
    {c : Char} {rest : List Char} (hdigits : Nat.toDigits 10 n = c :: rest)
    (happend : appendDigits (digitValue (byte c)) (rest.map byte) = (n', left)) :
    left ≤ rest.length ∧ (scaled? n' (k + left)).isSome = true := by
  obtain ⟨c', rest', heq, hall, hzero⟩ := exists_cons_toDigits n
  obtain ⟨rfl, rfl⟩ := List.cons.inj (hdigits.symm.trans heq)
  rw [List.all_eq_true] at hall
  have hrest : ∀ d ∈ rest, d.isDigit = true := fun d hmem => hall d (List.mem_cons_of_mem _ hmem)
  have hvalue : Nat.ofDigitChars 10 (c :: rest) 0 = n := by
    rw [← hdigits, Nat.ofDigitChars_ten_toDigits]
  have hfirst : Nat.ofDigitChars 10 rest (digitValue (byte c)) = n := by
    rw [← hvalue, Nat.ofDigitChars_cons, digitValue_byte (hall c List.mem_cons_self)]
    simp
  have hbounds := appendDigits_bounds (n := digitValue (byte c)) hrest
  have hn' := appendDigits_lt (digitValue_lt (byte c)) (rest.map byte)
  rw [happend] at hbounds hn'
  rw [hfirst] at hbounds
  refine ⟨hbounds.1, ?_⟩
  apply h.isSome_scaled? (by simpa only [UInt64.size] using hn') hbounds.2.1
  . rintro hn rfl
    have hfirst0 : digitValue (byte c) = 0 := Nat.le_zero.1 hbounds.2.2
    exact hn (hzero (eq_zero_of_digitValue (hall c List.mem_cons_self) hfirst0)).1
  . intro hword
    have hexact := appendDigits_digitValue hall
      (by rw [hvalue]; simpa only [UInt64.size] using hword)
    rw [happend, hvalue] at hexact
    exact Prod.mk.inj hexact

/-
The exponent that is written is that of the first digit. Together with the digits behind the point
it is that of the last one again.
-/
theorem isFloatText_exponent {n : Nat} {k : Int} (h : IsShortest n k) {c : Char}
    {rest : List Char} (hdigits : Nat.toDigits 10 n = c :: rest) :
    IsFloatText ((c :: rest).take 1 ++
      (if rest.length + 1 = 1 then [] else '.' :: (c :: rest).drop 1) ++
      'e' :: (if ((rest.length + 1 : Nat) + k : Int) - 1 < 0 then '-' else '+') ::
        Nat.toDigits 10 (((rest.length + 1 : Nat) + k : Int) - 1).natAbs) := by
  obtain ⟨c', rest', heq, hall, -⟩ := exists_cons_toDigits n
  obtain ⟨rfl, rfl⟩ := List.cons.inj (hdigits.symm.trans heq)
  rw [List.all_eq_true] at hall
  have hlength := h.length_le
  rw [hdigits, List.length_cons] at hlength
  have hk : -342 ≤ k ∧ k ≤ 308 := by
    unfold IsShortest at h
    omega
  generalize he : ((rest.length + 1 : Nat) + k : Int) - 1 = e
  obtain ⟨x, exponent, hexponent, hall', -⟩ := exists_cons_toDigits e.natAbs
  rw [List.all_eq_true] at hall'
  have hvalue : Nat.ofDigitChars 10 (x :: exponent) 0 = e.natAbs := by
    rw [← hexponent, Nat.ofDigitChars_ten_toDigits]
  obtain ⟨n', left, happend⟩ : ∃ n' left,
      appendDigits (digitValue (byte c)) (rest.map byte) = (n', left) := ⟨_, _, rfl⟩
  obtain ⟨hleft, hsome⟩ := h.isSome_scaled?_of_appendDigits hdigits happend
  have hargument : (if decide (0 ≤ e) then
      ((0 : Nat) - (rest.length - left : Nat) + Nat.ofDigitChars 10 (x :: exponent) 0 : Int)
      else (0 : Nat) - (rest.length - left : Nat) - Nat.ofDigitChars 10 (x :: exponent) 0) =
        k + left := by
    rw [hvalue]
    by_cases hpos : 0 ≤ e
    . rw [if_pos (by simpa using hpos)]
      omega
    . rw [if_neg (by simpa using hpos)]
      omega
  have hsmall : Nat.ofDigitChars 10 (x :: exponent) 0 < 2147483648 := by
    rw [hvalue]
    omega
  have := isFloatText_scientific (decide (0 ≤ e)) (hall c List.mem_cons_self)
    (fun d hmem => hall d (List.mem_cons_of_mem _ hmem)) hall' hsmall happend
    (by rw [hargument]; exact hsome)
  rw [hexponent]
  by_cases hneg : e < 0
  . have hpos : ¬ 0 ≤ e := by omega
    cases rest <;> simpa [hneg, hpos] using this
  . have hpos : 0 ≤ e := by omega
    cases rest <;> simpa [hneg, hpos] using this

theorem isFloatText_zerosBehind {c : Char} {rest : List Char} {count : Nat}
    (hdigits : ∀ d ∈ c :: rest, d.isDigit = true) (hzero : c = '0' → rest = [] ∧ count = 0)
    (hlength : rest.length + count < 16) :
    IsFloatText (c :: rest ++ List.replicate count '0' ++ ['.', '0']) := by
  have hwhole : ∀ d ∈ c :: (rest ++ List.replicate count '0'), d.isDigit = true := by
    intro d hmem
    rw [← List.cons_append, List.mem_append, List.mem_replicate] at hmem
    rcases hmem with hmem | ⟨-, rfl⟩
    . exact hdigits d hmem
    . decide
  have hnone : c = '0' → rest ++ List.replicate count '0' = [] := by
    intro hc
    obtain ⟨rfl, rfl⟩ := hzero hc
    rfl
  have := @isFloatText_of_length _ _ ['0'] hwhole hnone
    (by rwa [List.length_append, List.length_replicate]) (by simp) (by simp)
  simpa using this

theorem isFloatText_pointInside {c : Char} {rest : List Char} {count : Nat}
    (hdigits : ∀ d ∈ c :: rest, d.isDigit = true) (hzero : c = '0' → rest = [])
    (hinside : count < rest.length) (hlength : count < 16) :
    IsFloatText (c :: rest.take count ++ '.' :: rest.drop count) := by
  apply isFloatText_of_length
  . intro d hmem
    rcases List.mem_cons.1 hmem with rfl | hmem
    . exact hdigits _ List.mem_cons_self
    . exact hdigits d (List.mem_cons_of_mem _ (List.mem_of_mem_take hmem))
  . intro hc
    rw [hzero hc, List.take_nil]
  . rw [List.length_take]
    omega
  . rw [Ne, List.drop_eq_nil_iff]
    omega
  . exact fun d hmem => hdigits d (List.mem_cons_of_mem _ (List.mem_of_mem_drop hmem))

theorem isFloatText_zerosInFront {digits : List Char} (count : Nat) (hne : digits ≠ [])
    (hdigits : ∀ d ∈ digits, d.isDigit = true) :
    IsFloatText ('0' :: '.' :: List.replicate count '0' ++ digits) := by
  have hbehind : ∀ d ∈ List.replicate count '0' ++ digits, d.isDigit = true := by
    intro d hmem
    rw [List.mem_append, List.mem_replicate] at hmem
    rcases hmem with ⟨-, rfl⟩ | hmem
    . decide
    . exact hdigits d hmem
  have := @isFloatText_of_length '0' [] _ (by simp) (fun _ => rfl) (by decide) (by simp [hne])
    hbehind
  simpa using this

theorem isFloatText_writtenDigits {n : Nat} {k : Int} (h : IsShortest n k) :
    IsFloatText (Decimal.writtenDigits n k) := by
  obtain ⟨c, rest, hdigits, hall, hzero⟩ := exists_cons_toDigits n
  rw [List.all_eq_true] at hall
  have hk : n = 0 → k = -342 := by
    unfold IsShortest at h
    omega
  simp only [Decimal.writtenDigits, hdigits, List.length_cons]
  split
  . -- The exponent is not negative, so the number is not zero.
    apply isFloatText_zerosBehind hall
    . intro hc
      have := hk (hzero hc).1
      omega
    . omega
  . split
    . obtain ⟨q, hq⟩ : ∃ q, ((rest.length + 1 : Nat) + k).toNat = q + 1 :=
        ⟨((rest.length + 1 : Nat) + k).toNat - 1, by omega⟩
      rw [hq, List.take_succ_cons, List.drop_succ_cons]
      exact isFloatText_pointInside hall (fun hc => (hzero hc).2) (by omega) (by omega)
    . split
      . exact isFloatText_zerosInFront _ (List.cons_ne_nil c rest) hall
      . exact isFloatText_exponent h hdigits

theorem isFloatText_magnitude {bits : UInt64} (h : storedExponent bits < 2047) :
    IsFloatText (if bits.toNat % 9223372036854775808 = 0 then ['0', '.', '0']
      else Decimal.writtenDigits (Decimal.shortest bits).1 (Decimal.shortest bits).2) := by
  split
  . exact @isFloatText_positional '0' [] ['0'] (by simp)
      (fun _ => rfl) (by decide) (by simp) (by simp)
  . next hne => exact isFloatText_writtenDigits (Decimal.shortest_cases h hne rfl)

theorem written_eq_cons {bits : UInt64} (h : storedExponent bits < 2047) :
    ∃ b text, (Decimal.written bits).map byte = b :: text ∧ (b = byte '-' ∨ isDigit b = true) := by
  obtain ⟨c, text, htext, hc, -⟩ := isFloatText_magnitude h
  have heq : Decimal.written bits =
      if Decimal.isNegative bits then '-' :: (c :: text) else c :: text := by
    rw [← htext]
    rfl
  rw [heq]
  cases Decimal.isNegative bits with
  | true => exact ⟨_, _, rfl, .inl rfl⟩
  | false => exact ⟨_, _, rfl, .inr (isDigit_byte hc)⟩

/--
A finite number is accepted in its written form, and what is read depends on nothing else.
-/
theorem takes_written {bits : UInt64} (h : storedExponent bits < 2047) :
    ∃ read, ∀ rest, EndsNumber rest →
      Takes number ((Decimal.written bits).map byte ++ rest) (.float read) rest := by
  obtain ⟨c, text, htext, hc, hreads⟩ := isFloatText_magnitude h
  obtain ⟨read, htakes⟩ := hreads (Decimal.isNegative bits)
  refine ⟨read, fun rest hrest => ?_⟩
  have hwritten : (Decimal.written bits).map byte ++ rest =
      (if Decimal.isNegative bits then [byte '-'] else []) ++
        byte c :: (text.map byte ++ rest) := by
    have heq : Decimal.written bits =
        if Decimal.isNegative bits then '-' :: (c :: text) else c :: text := by
      rw [← htext]
      rfl
    rw [heq]
    cases Decimal.isNegative bits <;> simp
  rw [hwritten]
  apply takes_number_of_unsigned (isDigit_byte hc)
  have := htakes rest hrest
  rw [htext] at this
  exact this

end Reader

end Json

end ReadProgress
