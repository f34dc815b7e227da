import Mathlib
import ReadProgress.Text.Blank

/-!
This module contains facts about the decimal digits of natural numbers.
-/

namespace ReadProgress

theorem isBlank_of_isDigit {c : Char} (h : c.isDigit = true) : isBlank c = false := by
  simp only [Char.isDigit, Bool.and_eq_true, decide_eq_true_eq] at h
  have hlow : 48 ≤ c.toNat := UInt32.le_iff_toNat_le.1 h.1
  have hhigh : c.toNat ≤ 57 := UInt32.le_iff_toNat_le.1 h.2
  simp only [isBlank, Bool.or_eq_false_iff, Bool.and_eq_false_iff, decide_eq_false_iff_not,
    beq_eq_false_iff_ne]
  omega

theorem exists_cons_toDigits (n : Nat) :
    ∃ c rest, Nat.toDigits 10 n = c :: rest ∧ (c :: rest).all Char.isDigit ∧
      (c = '0' → n = 0 ∧ rest = []) := by
  induction n using Nat.strongRecOn with
  | ind n ih =>
    by_cases h : n < 10
    . refine ⟨n.digitChar, [], Nat.toDigits_of_lt_base h, by simp [h], ?_⟩
      intro hzero
      exact ⟨Nat.digitChar_eq_zero.1 hzero, rfl⟩
    . obtain ⟨c, rest, hdigits, hall, hzero⟩ := ih (n / 10) (by omega)
      refine ⟨c, rest ++ [(n % 10).digitChar], ?_, ?_, ?_⟩
      . rw [Nat.toDigits_of_base_le (by decide) (by omega), hdigits]
        rfl
      . have hlast : (n % 10).digitChar.isDigit = true := by
          rw [Nat.isDigit_digitChar, decide_eq_true_eq]
          omega
        simp only [List.all_cons, List.all_append, Bool.and_eq_true] at hall ⊢
        exact ⟨hall.1, hall.2, by simpa using hlast⟩
      . intro hc
        have := (hzero hc).1
        omega

theorem isDigit_of_mem_toDigits_ten {n : Nat} {c : Char} (h : c ∈ Nat.toDigits 10 n) :
    c.isDigit = true :=
  Nat.isDigit_of_mem_toDigits (by decide) (by decide) h

theorem ofDigitChars_lt {digits : List Char} (h : ∀ c ∈ digits, c.isDigit = true) :
    Nat.ofDigitChars 10 digits 0 < 10 ^ digits.length := by
  induction digits with
  | nil => simp
  | cons c rest ih =>
    have hc := h c List.mem_cons_self
    simp only [Char.isDigit, Bool.and_eq_true, decide_eq_true_eq] at hc
    have hle : c.toNat ≤ 57 := UInt32.le_iff_toNat_le.1 hc.2
    have hrest := ih fun c hmem => h c (List.mem_cons_of_mem _ hmem)
    have hvalue : c.toNat - '0'.toNat ≤ 9 := by
      have : '0'.toNat = 48 := rfl
      omega
    rw [Nat.ofDigitChars_cons, Nat.ofDigitChars_eq_ofDigitChars_zero, Nat.mul_zero, Nat.zero_add,
      List.length_cons, Nat.pow_succ]
    have := Nat.mul_le_mul_left (10 ^ rest.length) hvalue
    omega

theorem le_ofDigitChars (n : Nat) (digits : List Char) : n ≤ Nat.ofDigitChars 10 digits n := by
  rw [Nat.ofDigitChars_eq_ofDigitChars_zero]
  have := Nat.le_mul_of_pos_left n (Nat.pow_pos (n := digits.length) (by decide : 0 < 10))
  omega

end ReadProgress
