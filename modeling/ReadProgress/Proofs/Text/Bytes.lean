import Mathlib.Algebra.Group.Nat.Defs
import ReadProgress.Text.Bytes

/-!
This module contains the order of texts. They are compared character by character, which comes to the
same as comparing their bytes: the first byte of a character tells how many there are, and the others
have its digits in base 64.
-/

namespace ReadProgress

/--
Some bytes come before others, whatever follows them.
-/
def Precedes (xs ys : Bytes) : Prop :=
  ∀ rest others : Bytes, xs ++ rest < ys ++ others

theorem Precedes.of_lt {i j : Nat} (h : i < j) (hj : j < 256) (xs ys : Bytes) :
    Precedes (UInt8.ofNat i :: xs) (UInt8.ofNat j :: ys) := by
  intro rest others
  have hlt : UInt8.ofNat i < UInt8.ofNat j := by
    rw [UInt8.lt_iff_toNat_lt, UInt8.toNat_ofNat', UInt8.toNat_ofNat']
    omega
  exact List.cons_lt_cons_iff.2 (.inl hlt)

/--
A number whose last digits have a byte each. What is in front of them is added to the first byte.
-/
def digitBytes (first : Nat) : Nat → Nat → Bytes
  | 0, n => [UInt8.ofNat (first + n)]
  | digits + 1, n => digitBytes first digits (n / 64) ++ [UInt8.ofNat (n % 64 + 128)]

theorem precedes_digitBytes {first digits m n : Nat} (h : m < n)
    (hfirst : first + n / 64 ^ digits < 256) :
    Precedes (digitBytes first digits m) (digitBytes first digits n) := by
  induction digits generalizing m n with
  | zero =>
    rw [Nat.pow_zero, Nat.div_one] at hfirst
    exact .of_lt (Nat.add_lt_add_left h first) hfirst _ _
  | succ digits ih =>
    intro rest others
    rw [digitBytes, digitBytes, List.append_assoc, List.append_assoc]
    rcases Nat.lt_or_eq_of_le (Nat.div_le_div_right (c := 64) (Nat.le_of_lt h)) with hlt | heq
    . rw [Nat.pow_succ', ← Nat.div_div_eq_div_mul] at hfirst
      exact ih hlt hfirst _ _
    . -- all digits in front agree, so the last one decides
      rw [heq]
      apply List.append_left_lt
      exact Precedes.of_lt (by omega) (by omega) [] [] rest others

/--
The bytes of the character with a certain number.
-/
inductive Encodes (n : Nat) : Bytes → Prop where
  | one (h : n < 128) : Encodes n (digitBytes 0 0 n)
  | two (hlow : 128 ≤ n) (hhigh : n < 2048) : Encodes n (digitBytes 192 1 n)
  | three (hlow : 2048 ≤ n) (hhigh : n < 65536) : Encodes n (digitBytes 224 2 n)
  | four (hlow : 65536 ≤ n) (hhigh : n < 1114112) : Encodes n (digitBytes 240 3 n)

theorem encodes_utf8EncodeChar (c : Char) : Encodes c.val.toNat (String.utf8EncodeChar c) := by
  have hvalid : c.val.toNat < 1114112 := by
    rcases c.valid with h | h
    . omega
    . exact h.2
  unfold String.utf8EncodeChar
  generalize c.val.toNat = n at *
  dsimp only
  split
  . have hone : Encodes n (digitBytes 0 0 n) := .one (by omega)
    rwa [digitBytes, Nat.zero_add] at hone
  split
  . rw [show n / 64 % 32 + 192 = 192 + n / 64 by omega]
    exact .two (by omega) (by omega)
  split
  . rw [show n / 4096 % 16 + 224 = 224 + n / 64 / 64 by omega]
    exact .three (by omega) (by omega)
  . rw [show n / 262144 % 8 + 240 = 240 + n / 64 / 64 / 64 by omega,
      show n / 4096 = n / 64 / 64 by omega]
    exact .four (by omega) (by omega)

theorem Encodes.precedes {m n : Nat} {xs ys : Bytes} (hm : Encodes m xs) (hn : Encodes n ys)
    (h : m < n) : Precedes xs ys := by
  cases hm with
  | one hm =>
    cases hn with
    | one hn => exact precedes_digitBytes h (by omega)
    | two hlow hhigh => exact .of_lt (by omega) (by omega) _ _
    | three hlow hhigh => exact .of_lt (by omega) (by omega) _ _
    | four hlow hhigh => exact .of_lt (by omega) (by omega) _ _
  | two hlow hhigh =>
    cases hn with
    | one hn => omega
    | two hlow' hhigh' => exact precedes_digitBytes h (by omega)
    | three hlow' hhigh' => exact .of_lt (by omega) (by omega) _ _
    | four hlow' hhigh' => exact .of_lt (by omega) (by omega) _ _
  | three hlow hhigh =>
    cases hn with
    | one hn => omega
    | two hlow' hhigh' => omega
    | three hlow' hhigh' => exact precedes_digitBytes h (by omega)
    | four hlow' hhigh' => exact .of_lt (by omega) (by omega) _ _
  | four hlow hhigh =>
    cases hn with
    | one hn => omega
    | two hlow' hhigh' => omega
    | three hlow' hhigh' => omega
    | four hlow' hhigh' => exact precedes_digitBytes h (by omega)

theorem precedes_utf8EncodeChar {c d : Char} (h : c < d) :
    Precedes (String.utf8EncodeChar c) (String.utf8EncodeChar d) :=
  (encodes_utf8EncodeChar c).precedes (encodes_utf8EncodeChar d) (UInt32.lt_iff_toNat_lt.1 h)

theorem bytesOf_eq_flatMap (text : String) :
    bytesOf text = text.toList.flatMap String.utf8EncodeChar := by
  have h : text.toUTF8 = text.toList.utf8Encode := String.utf8Encode_toList.symm
  rw [bytesOf, h]
  exact List.toList_data_toByteArray

theorem bytesOf_lt_of_lt {s t : String} (h : s < t) : bytesOf s < bytesOf t := by
  rw [bytesOf_eq_flatMap, bytesOf_eq_flatMap]
  replace h : s.toList < t.toList := String.lt_iff.1 h
  generalize s.toList = cs at h
  generalize t.toList = ds at h
  induction h with
  | @nil d ds =>
    obtain ⟨first, rest, heq⟩ := List.exists_cons_of_ne_nil (String.utf8EncodeChar_ne_nil (c := d))
    rw [List.flatMap_nil, List.flatMap_cons, heq]
    exact List.nil_lt_cons _ _
  | rel h => exact precedes_utf8EncodeChar h _ _
  | cons h ih =>
    rw [List.flatMap_cons, List.flatMap_cons]
    exact List.append_left_lt ih

/--
The order of texts is that of their bytes.
-/
theorem bytesOf_lt_bytesOf {s t : String} : bytesOf s < bytesOf t ↔ s < t := by
  constructor
  . intro h
    apply Classical.byContradiction
    intro hnot
    by_cases heq : s = t
    . subst heq
      exact List.lt_irrefl _ h
    . have hlt : t < s := Std.lt_of_le_of_ne (String.not_lt.1 hnot) (Ne.symm heq)
      exact List.lt_asymm h (bytesOf_lt_of_lt hlt)
  . exact bytesOf_lt_of_lt

end ReadProgress
