import ReadProgress.Json.Reader.Quoted
import ReadProgress.Json.Writer
import ReadProgress.Proofs.Json.Reader

/-!
This module contains the proof that strings are read as they were written, whatever characters they
consist of.
-/

namespace ReadProgress

namespace Json

namespace Reader

theorem takes_takeInString (b : UInt8) (rest : Bytes) : Takes takeInString (b :: rest) b rest :=
  (Takes.take b rest).bind (Takes.pure b rest)

theorem takes_escape_short {letter b : UInt8} (h : shortEscape? letter = some b) (rest : Bytes) :
    Takes escape (letter :: rest) [b] rest := by
  refine (takes_takeInString letter rest).bind ?_
  rw [h]
  exact Takes.pure _ _

theorem takes_hexEscape {a b c d : UInt8} {i j k l : Nat} (ha : hexValue? a = some i)
    (hb : hexValue? b = some j) (hc : hexValue? c = some k) (hd : hexValue? d = some l)
    (rest : Bytes) :
    Takes hexEscape (a :: b :: c :: d :: rest) (((i * 16 + j) * 16 + k) * 16 + l) rest := by
  refine (takes_takeInString _ _).bind ?_
  refine (takes_takeInString _ _).bind ?_
  refine (takes_takeInString _ _).bind ?_
  refine (takes_takeInString _ _).bind ?_
  rw [ha, hb, hc, hd]
  exact Takes.pure _ _

theorem escapeByte_of_isPlain {b : UInt8} (h : isPlain b = true) : escapeByte b = [b] := by
  have hsmall : ¬ b < 0x20 := by
    simp only [isPlain, Bool.and_eq_true, decide_eq_true_eq] at h
    exact UInt8.not_lt.2 h.1.1
  have hne : ∀ control : UInt8, control < 0x20 → b ≠ control := by
    intro control hcontrol heq
    exact hsmall (heq ▸ hcontrol)
  simp only [isPlain, Bool.and_eq_true, bne_iff_ne, ne_eq] at h
  simp only [escapeByte, h.1.2, h.2, hsmall, hne 0x08 (by decide), hne 0x09 (by decide),
    hne 0x0A (by decide), hne 0x0C (by decide), hne 0x0D (by decide), if_false]

/-
There are 34 bytes that do not stand for themselves: those below 32, the quote and the backslash.
Each has a letter of its own or is given by its number.
-/
theorem escapeByte_cases (n : Fin 256) : isPlain n.val.toUInt8 = false →
    (∃ letter ∈ (escapeByte n.val.toUInt8)[1]?,
      escapeByte n.val.toUInt8 = [byte '\\', letter] ∧
        shortEscape? letter = some n.val.toUInt8) ∨
    (escapeByte n.val.toUInt8 = [byte '\\', byte 'u', byte '0', byte '0',
        hexDigit (n.val / 16), hexDigit (n.val % 16)] ∧
      hexValue? (hexDigit (n.val / 16)) = some (n.val / 16) ∧
      hexValue? (hexDigit (n.val % 16)) = some (n.val % 16) ∧
      unicodeEscape.utf8 n.val = [n.val.toUInt8] ∧ n.val < 32) := by
  revert n
  decide +kernel

theorem takes_unicodeEscape {a b c d : UInt8} {i j k l n : Nat} (ha : hexValue? a = some i)
    (hb : hexValue? b = some j) (hc : hexValue? c = some k) (hd : hexValue? d = some l)
    (hn : ((i * 16 + j) * 16 + k) * 16 + l = n) (hsmall : n < 0xD800) (rest : Bytes) :
    Takes unicodeEscape (a :: b :: c :: d :: rest) (unicodeEscape.utf8 n) rest := by
  refine (takes_hexEscape ha hb hc hd rest).bind ?_
  have htrailing : isTrailing n = false := by
    simp only [isTrailing, Bool.and_eq_false_iff, decide_eq_false_iff_not]
    omega
  have hleading : isLeading n = false := by
    simp only [isLeading, Bool.and_eq_false_iff, decide_eq_false_iff_not]
    omega
  simp only [hn, htrailing, hleading, Bool.false_eq_true, if_false]
  exact Takes.pure _ _

theorem takes_escape_of_not_isPlain {b : UInt8} (h : isPlain b = false) :
    ∃ code : Bytes, escapeByte b = byte '\\' :: code ∧
      ∀ rest : Bytes, Takes escape (code ++ rest) [b] rest := by
  have hb : b.toNat.toUInt8 = b := UInt8.ofNat_toNat
  have hcases := escapeByte_cases ⟨b.toNat, b.toNat_lt⟩
  simp only [hb] at hcases
  rcases hcases h with ⟨letter, -, hcode, hletter⟩ | ⟨hcode, hhigh, hlow, hutf8, hsmall⟩
  . exact ⟨[letter], hcode, fun rest => takes_escape_short hletter rest⟩
  . refine ⟨_, hcode, fun rest => ?_⟩
    refine (takes_takeInString _ _).bind ?_
    have hzero : hexValue? (byte '0') = some 0 := by decide
    have hnumber : ((0 * 16 + 0) * 16 + b.toNat / 16) * 16 + b.toNat % 16 = b.toNat := by omega
    have := takes_unicodeEscape hzero hzero hhigh hlow hnumber (by omega) rest
    rw [hutf8] at this
    exact this

theorem flatMap_escapeByte_of_isPlain {bytes : Bytes} (h : ∀ b ∈ bytes, isPlain b = true) :
    bytes.flatMap escapeByte = bytes := by
  induction bytes with
  | nil => rfl
  | cons b bytes ih =>
    rw [List.flatMap_cons, escapeByte_of_isPlain (h b List.mem_cons_self),
      ih fun b hmem => h b (List.mem_cons_of_mem _ hmem)]
    rfl

/-
The bytes are taken in runs of those that stand for themselves. Behind such a run there is the
closing quote or an escape, and each turn takes one escape.
-/
theorem takes_stringBytes (bytes rest : Bytes) {turns : Nat} (hturns : bytes.length < turns) :
    Takes (stringBytes turns) (bytes.flatMap escapeByte ++ byte '"' :: rest) bytes rest := by
  induction turns generalizing bytes with
  | zero => omega
  | succ turns ih =>
    have hrun : ∀ b ∈ bytes.takeWhile isPlain, isPlain b = true :=
      List.all_eq_true.1 List.all_takeWhile
    have hsplit := List.takeWhile_append_dropWhile (p := isPlain) (l := bytes)
    have hhead := List.head?_dropWhile_not isPlain bytes
    have hwritten : bytes.flatMap escapeByte =
        bytes.takeWhile isPlain ++ (bytes.dropWhile isPlain).flatMap escapeByte := by
      conv => lhs; rw [← hsplit, List.flatMap_append, flatMap_escapeByte_of_isPlain hrun]
    rw [hwritten, List.append_assoc]
    cases htail : bytes.dropWhile isPlain with
    | nil =>
      rw [htail, List.append_nil] at hsplit
      refine (Takes.takeWhile_append hrun (by simp; decide)).bind ?_
      refine (takes_takeInString _ _).bind ?_
      rw [if_pos rfl, hsplit]
      exact Takes.pure _ _
    | cons b tail =>
      rw [htail] at hsplit
      have hb : isPlain b = false := by simpa [htail] using hhead
      obtain ⟨code, hcode, htakes⟩ := takes_escape_of_not_isPlain hb
      have hshorter : tail.length < turns := by
        have := congrArg List.length hsplit
        simp only [List.length_append, List.length_cons] at this
        omega
      rw [List.flatMap_cons, hcode, List.append_assoc, List.cons_append]
      refine (Takes.takeWhile_append hrun (by simp; decide)).bind ?_
      refine (takes_takeInString _ _).bind ?_
      rw [if_neg (by decide), if_pos rfl]
      refine (htakes _).bind ?_
      refine (ih tail hshorter).bind ?_
      have hsame : bytes.takeWhile isPlain ++ [b] ++ tail = bytes := by
        rw [List.append_assoc, List.singleton_append, hsplit]
      rw [hsame]
      exact Takes.pure _ _

theorem length_le_flatMap_escapeByte (bytes : Bytes) :
    bytes.length ≤ (bytes.flatMap escapeByte).length := by
  induction bytes with
  | nil => simp
  | cons b bytes ih =>
    have hone : 1 ≤ (escapeByte b).length := by
      unfold escapeByte
      repeat' split
      all_goals simp
    rw [List.flatMap_cons, List.length_append, List.length_cons]
    omega

theorem takes_string (s : String) (rest : Bytes) :
    Takes string ((bytesOf s).flatMap escapeByte ++ byte '"' :: rest) s rest := by
  intro c hc
  have hturns : (bytesOf s).length <
      2 * ((bytesOf s).flatMap escapeByte ++ byte '"' :: rest).length + 2 := by
    have := length_le_flatMap_escapeByte (bytesOf s)
    simp only [List.length_append, List.length_cons]
    omega
  obtain ⟨c', hrun, hc'⟩ := Takes.repeated (takes_stringBytes (bytesOf s) rest hturns) c hc
  exact ⟨c', by simp [string, hrun], hc'⟩

end Reader

theorem writeString_append (s : String) (rest : Bytes) :
    writeString s ++ rest =
      byte '"' :: ((bytesOf s).flatMap escapeByte ++ byte '"' :: rest) := by
  simp [writeString]

end Json

end ReadProgress
