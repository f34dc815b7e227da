import ReadProgress.Proofs.Date
import ReadProgress.Proofs.Text.Digits
import ReadProgress.Timestamp.Reading
import ReadProgress.Timestamp.Written

/-!
This module contains the proof that moments are read as they were written, leap seconds and far
years included.
-/

namespace ReadProgress

/--
What stands behind a number and is no digit of it.
-/
def EndsDigits (rest : List Char) : Prop :=
  ∀ c ∈ rest.head?, c.isDigit = false

theorem endsDigits_cons {c : Char} (h : c.isDigit = false) (rest : List Char) :
    EndsDigits (c :: rest) := by
  intro d hd
  obtain rfl : c = d := by simpa using hd
  exact h

section

variable (width n : Nat)

theorem toList_zeroPadded : (zeroPadded width n).toList =
    List.replicate (width - (Nat.toDigits 10 n).length) '0' ++ Nat.toDigits 10 n := by
  simp [zeroPadded]

theorem isDigit_of_mem_zeroPadded : ∀ c ∈ (zeroPadded width n).toList, c.isDigit = true := by
  intro c hmem
  rw [toList_zeroPadded, List.mem_append, List.mem_replicate] at hmem
  rcases hmem with ⟨-, rfl⟩ | hmem
  . decide
  . exact isDigit_of_mem_toDigits_ten hmem

theorem zeroPadded_ne_nil : (zeroPadded width n).toList ≠ [] := by
  rw [toList_zeroPadded]
  exact List.append_ne_nil_of_right_ne_nil _ Nat.toDigits_ne_nil

theorem length_zeroPadded {width n : Nat} (hwidth : 0 < width) (h : n < 10 ^ width) :
    (zeroPadded width n).toList.length = width := by
  have : (Nat.toDigits 10 n).length ≤ width :=
    (Nat.length_toDigits_le_iff (by decide) hwidth).2 h
  rw [toList_zeroPadded, List.length_append, List.length_replicate]
  omega

theorem valueOfDigits_eq (digits : List Char) :
    Timestamp.valueOfDigits digits = Nat.ofDigitChars 10 digits 0 := by
  rw [Timestamp.valueOfDigits, Nat.ofDigitChars_eq_foldl]
  congr 1
  funext n c
  rw [Nat.mul_comm]

theorem valueOfDigits_zeroPadded :
    Timestamp.valueOfDigits (zeroPadded width n).toList = n := by
  rw [valueOfDigits_eq, toList_zeroPadded, Nat.ofDigitChars_append, Nat.ofDigitChars_replicate_zero,
    Nat.mul_zero, Nat.ofDigitChars_ten_toDigits]

end

namespace Timestamp

theorem readNumber_append (width : Option Nat) {digits rest : List Char} (hne : digits ≠ [])
    (hdigits : ∀ c ∈ digits, c.isDigit = true) (hrest : EndsDigits rest)
    (hwidth : ∀ w ∈ width, digits.length ≤ w) (hsmall : valueOfDigits digits < 9223372036854775808) :
    readNumber width (digits ++ rest) = .ok (valueOfDigits digits, rest) := by
  have hrun : (digits ++ rest).takeWhile Char.isDigit = digits := by
    rw [List.takeWhile_append_of_pos hdigits]
    cases rest with
    | nil => simp
    | cons c rest => simp [hrest c rfl]
  obtain ⟨c, tail, rfl⟩ := List.exists_cons_of_ne_nil hne
  have hdrop : (c :: (tail ++ rest)).drop (c :: tail).length = rest := by
    rw [← List.cons_append, List.drop_left]
  rw [List.cons_append] at hrun ⊢
  cases width with
  | none => simp only [readNumber, hrun, if_pos hsmall, hdrop]
  | some w =>
    have htake : (c :: tail).take w = c :: tail := List.take_of_length_le (hwidth w rfl)
    simp only [readNumber, hrun, htake, if_pos hsmall, hdrop]

theorem skipBlank_digits {digits : List Char} (hne : digits ≠ [])
    (hdigits : ∀ c ∈ digits, c.isDigit = true) (rest : List Char) :
    skipBlank (digits ++ rest) = digits ++ rest := by
  obtain ⟨c, tail, rfl⟩ := List.exists_cons_of_ne_nil hne
  exact skipBlank_of_not_isBlank (isBlank_of_isDigit (hdigits c List.mem_cons_self)) _

theorem readField_written {low high n : Nat} (hlow : low ≤ n) (hhigh : n ≤ high) (h : n < 100)
    {rest : List Char} (hrest : EndsDigits rest) :
    readField low high ((zeroPadded 2 n).toList ++ rest) = .ok (n, rest) := by
  have hne := zeroPadded_ne_nil 2 n
  have hdigits := isDigit_of_mem_zeroPadded 2 n
  have hnumber := readNumber_append (some 2) hne hdigits hrest
    (by simp [length_zeroPadded (by decide) (show n < 10 ^ 2 from h)])
    (by rw [valueOfDigits_zeroPadded]; omega)
  rw [valueOfDigits_zeroPadded] at hnumber
  simp only [readField, skipBlank_digits hne hdigits, hnumber]
  exact if_pos ⟨hlow, hhigh⟩

theorem readMark_cons {mark : Char} (h : isBlank mark = false) (rest : List Char) :
    readMark mark (mark :: rest) = .ok rest := by
  rw [readMark, skipBlank_of_not_isBlank h]
  exact if_pos rfl

theorem isDigit_of_append_eq {digits rest text : List Char} {c : Char} (hne : digits ≠ [])
    (hdigits : ∀ c ∈ digits, c.isDigit = true) (h : digits ++ rest = c :: text) :
    c.isDigit = true := by
  obtain ⟨d, tail, rfl⟩ := List.exists_cons_of_ne_nil hne
  obtain rfl := (List.cons.inj h).1
  exact hdigits d List.mem_cons_self

theorem checked_of_number {text rest : List Char} {width : Option Nat} {n : Nat}
    (hnumber : readNumber width text = .ok (n, rest)) (signed : Nat → Int)
    {check : Int × List Char → Except ReadError (Int × List Char)}
    (hcheck : check (signed n, rest) = .ok (signed n, rest)) :
    (do
      let (value, rest) ← readNumber width text
      let number ← pure (signed value, rest)
      check number) = .ok (signed n, rest) := by
  rw [hnumber]
  exact hcheck

theorem readYear_minus {text rest : List Char} {n : Nat}
    (hnumber : readNumber none text = .ok (n, rest)) (hsmall : n ≤ 262500) :
    readYear ('-' :: text) = .ok (-(n : Int), rest) := by
  unfold readYear
  extract_lets check
  have hcheck : check (-(n : Int), rest) = .ok (-(n : Int), rest) := if_pos (by omega)
  rw [skipBlank_of_not_isBlank (by decide)]
  split
  . next text heq =>
    obtain rfl := (List.cons.inj heq).2
    exact checked_of_number hnumber (fun n => -(n : Int)) hcheck
  . next text heq => cases heq
  . next hminus _ => exact absurd rfl (hminus _)

theorem readYear_plus {text rest : List Char} {n : Nat}
    (hnumber : readNumber none text = .ok (n, rest)) (hsmall : n ≤ 262500) :
    readYear ('+' :: text) = .ok ((n : Int), rest) := by
  unfold readYear
  extract_lets check
  have hcheck : check ((n : Int), rest) = .ok ((n : Int), rest) := if_pos (by omega)
  rw [skipBlank_of_not_isBlank (by decide)]
  split
  . next text heq => cases heq
  . next text heq =>
    obtain rfl := (List.cons.inj heq).2
    exact checked_of_number hnumber (fun n => (n : Int)) hcheck
  . next hplus => exact absurd rfl (hplus _)

theorem readYear_digits {digits rest : List Char} {n : Nat} (hne : digits ≠ [])
    (hdigits : ∀ c ∈ digits, c.isDigit = true)
    (hnumber : readNumber (some 4) (digits ++ rest) = .ok (n, rest)) (hsmall : n ≤ 262500) :
    readYear (digits ++ rest) = .ok ((n : Int), rest) := by
  unfold readYear
  extract_lets check
  have hcheck : check ((n : Int), rest) = .ok ((n : Int), rest) := if_pos (by omega)
  rw [skipBlank_digits hne hdigits]
  split
  . next text heq => cases isDigit_of_append_eq hne hdigits heq
  . next text heq => cases isDigit_of_append_eq hne hdigits heq
  . exact checked_of_number hnumber (fun n => (n : Int)) hcheck

theorem readYear_written {year : Int} (h : -262500 ≤ year ∧ year ≤ 262500) {rest : List Char}
    (hrest : EndsDigits rest) :
    readYear ((writtenYear year).toList ++ rest) = .ok (year, rest) := by
  have hne := zeroPadded_ne_nil 4 year.natAbs
  have hdigits := isDigit_of_mem_zeroPadded 4 year.natAbs
  have hsmall : year.natAbs ≤ 262500 := by omega
  have hnumber : ∀ width, (∀ w ∈ width, (zeroPadded 4 year.natAbs).toList.length ≤ w) →
      readNumber width ((zeroPadded 4 year.natAbs).toList ++ rest) = .ok (year.natAbs, rest) := by
    intro width hwidth
    have := readNumber_append width hne hdigits hrest hwidth
      (by rw [valueOfDigits_zeroPadded]; omega)
    rwa [valueOfDigits_zeroPadded] at this
  -- Behind a sign any number of digits is read, without one four at most.
  rcases Int.lt_or_le year 0 with hneg | hpos
  . have habs : -(year.natAbs : Int) = year := by omega
    rw [writtenYear, if_neg (by omega), if_pos hneg, String.toList_append]
    exact (readYear_minus (hnumber none (by simp)) hsmall).trans (by rw [habs])
  . have habs : (year.natAbs : Int) = year := by omega
    rcases Int.lt_or_le 9999 year with hlong | hshort
    . rw [writtenYear, if_neg (by omega), if_neg (by omega), String.toList_append]
      exact (readYear_plus (hnumber none (by simp)) hsmall).trans (by rw [habs])
    . have hlength : (zeroPadded 4 year.natAbs).toList.length = 4 :=
        length_zeroPadded (by decide) (by omega)
      rw [writtenYear, if_pos ⟨hpos, hshort⟩,
        readYear_digits hne hdigits (hnumber (some 4) (by simp [hlength])) hsmall, habs]

def dateText (date : Date) : List Char :=
  (writtenYear date.year).toList ++ '-' :: ((zeroPadded 2 date.month).toList ++
    '-' :: (zeroPadded 2 date.day).toList)

theorem readDate_dateText {date : Date} (hyear : -262500 ≤ date.year ∧ date.year ≤ 262500)
    (hvalid : date.isValid = true) {rest : List Char} (hrest : EndsDigits rest) :
    readDate (dateText date ++ rest) = .ok (date, rest) := by
  obtain ⟨hmonth, hmonth', hday, hday'⟩ := Date.month_of_isValid hvalid
  simp only [readDate, dateText, List.append_assoc, List.cons_append, bind, Except.bind]
  rw [readYear_written hyear (endsDigits_cons (by decide) _)]
  simp only [readMark_cons (show isBlank '-' = false by decide)]
  rw [readField_written hmonth hmonth' (by omega) (endsDigits_cons (by decide) _)]
  simp only [readMark_cons (show isBlank '-' = false by decide)]
  rw [readField_written hday hday' (by omega) hrest]

theorem readFraction_digits {width value : Nat} (hwidth : 0 < width ∧ width ≤ 9)
    (hvalue : value < 10 ^ width) {rest : List Char} (hrest : EndsDigits rest) :
    readFraction ('.' :: ((zeroPadded width value).toList ++ rest)) =
      .ok (value * Nat.pow 10 (9 - width), rest) := by
  have hlength := length_zeroPadded hwidth.1 hvalue
  have hsmall : value < 9223372036854775808 := by
    have : 10 ^ width ≤ 10 ^ 9 := Nat.pow_le_pow_right (by decide) hwidth.2
    omega
  have hnumber := readNumber_append (some 9) (zeroPadded_ne_nil width value)
    (isDigit_of_mem_zeroPadded width value) hrest (by simp [hlength, hwidth.2])
    (by rw [valueOfDigits_zeroPadded]; exact hsmall)
  rw [valueOfDigits_zeroPadded] at hnumber
  have hcount : ((zeroPadded width value).toList ++ rest).length - rest.length = width := by
    rw [List.length_append, hlength, Nat.add_sub_cancel]
  have hdrop : rest.dropWhile Char.isDigit = rest := by
    cases rest with
    | nil => rfl
    | cons c rest => simp [hrest c rfl]
  simp only [readFraction, hnumber, bind, Except.bind, hcount, hdrop]

theorem readFraction_written {nano : Nat} (h : nano < 1000000000) (zone : List Char) :
    readFraction ((writtenFraction nano).toList ++ 'Z' :: zone) = .ok (nano, 'Z' :: zone) := by
  have hrest : EndsDigits ('Z' :: zone) := endsDigits_cons (by decide) zone
  have hdigits : ∀ {width value : Nat}, 0 < width ∧ width ≤ 9 → value < 10 ^ width →
      value * Nat.pow 10 (9 - width) = nano →
        readFraction (("." ++ zeroPadded width value).toList ++ 'Z' :: zone) =
          .ok (nano, 'Z' :: zone) := by
    intro width value hwidth hvalue hnano
    rw [String.toList_append]
    exact hnano ▸ readFraction_digits hwidth hvalue hrest
  unfold writtenFraction
  split
  . next hzero =>
    rw [hzero]
    rfl
  . split
    . exact hdigits (by decide) (by omega) (by simp; omega)
    . split
      . exact hdigits (by decide) (by omega) (by simp; omega)
      . exact hdigits (by decide) (by omega) (by simp)

theorem endsDigits_writtenFraction (nano : Nat) (zone : List Char) :
    EndsDigits ((writtenFraction nano).toList ++ 'Z' :: zone) := by
  obtain ⟨c, rest, htext, hc⟩ : ∃ c rest,
      (writtenFraction nano).toList ++ 'Z' :: zone = c :: rest ∧ c.isDigit = false := by
    unfold writtenFraction
    split
    . exact ⟨'Z', zone, rfl, by decide⟩
    . repeat' split
      all_goals
        rw [String.toList_append]
        exact ⟨'.', _, rfl, by decide⟩
  rw [htext]
  exact endsDigits_cons hc rest

def clockText (hour minute second nano : Nat) : List Char :=
  (zeroPadded 2 hour).toList ++ ':' :: ((zeroPadded 2 minute).toList ++
    ':' :: ((zeroPadded 2 second).toList ++ (writtenFraction nano).toList))

theorem readTime_clockText {hour minute second nano : Nat} (hhour : hour ≤ 23)
    (hminute : minute ≤ 59) (hsecond : second ≤ 60) (hnano : nano < 1000000000)
    (zone : List Char) :
    readTime (clockText hour minute second nano ++ 'Z' :: zone) =
      .ok (if second = 60 then (((hour * 60 + minute) * 60 + 59, 1000000000 + nano), 'Z' :: zone)
        else (((hour * 60 + minute) * 60 + second, nano), 'Z' :: zone)) := by
  have hfraction := endsDigits_writtenFraction nano zone
  simp only [readTime, clockText, List.append_assoc, List.cons_append, bind, Except.bind]
  rw [readField_written (by omega) hhour (by omega) (endsDigits_cons (by decide) _)]
  simp only [readMark_cons (show isBlank ':' = false by decide)]
  rw [readField_written (by omega) hminute (by omega) (endsDigits_cons (by decide) _)]
  simp only [readMark_cons (show isBlank ':' = false by decide)]
  rw [readField_written (by omega) hsecond (by omega) hfraction]
  simp only [readFraction_written hnano]
  split <;> rfl

theorem make?_self (t : Timestamp) : make? t.day t.second t.nano = some t :=
  dif_pos ⟨⟨t.le_day, t.day_le⟩, t.second_lt, t.nano_lt, t.leap⟩

theorem assemble_self (t : Timestamp) : assemble (Date.ofDay t.day) t.second t.nano 0 = .ok t := by
  have hseconds : (t.day * 86400 + t.second - 0 * 60) / 86400 = t.day := by
    have := t.second_lt
    omega
  have hsecond : ((t.day * 86400 + t.second - 0 * 60) % 86400).toNat = t.second := by
    have := t.second_lt
    omega
  simp only [assemble, Date.toDay_ofDay, Date.isValid_ofDay, make?_self, hseconds, hsecond]
  rfl

theorem toList_written (t : Timestamp) :
    t.written.toList = dateText (Date.ofDay t.day) ++ 'T' ::
      (clockText (t.second / 3600) (t.second / 60 % 60) (t.second % 60 + t.nano / 1000000000)
        (t.nano % 1000000000) ++ ['Z']) := by
  have hminus : "-".toList = ['-'] := rfl
  have hmark : "T".toList = ['T'] := rfl
  have hcolon : ":".toList = [':'] := rfl
  have hzone : "Z".toList = ['Z'] := rfl
  simp only [written, dateText, clockText, String.toList_append, List.append_assoc,
    List.cons_append, List.nil_append, hminus, hmark, hcolon, hzone]

theorem readTime_written (t : Timestamp) :
    readTime (clockText (t.second / 3600) (t.second / 60 % 60)
      (t.second % 60 + t.nano / 1000000000) (t.nano % 1000000000) ++ ['Z']) =
      .ok ((t.second, t.nano), ['Z']) := by
  have hsecond := t.second_lt
  have hnano := t.nano_lt
  have hleap := t.leap
  have hminutes : t.second / 3600 * 60 + t.second / 60 % 60 = t.second / 60 := by omega
  rw [readTime_clockText (by omega) (by omega) (by omega) (by omega)]
  congr 1
  split <;> (simp only [Prod.mk.injEq, and_true]; omega)

theorem read_written (t : Timestamp) : read t.written = .ok t := by
  have hdate := readDate_dateText (Date.year_ofDay t.le_day t.day_le) (Date.isValid_ofDay t.day)
    (endsDigits_cons (show 'T'.isDigit = false by decide) (clockText (t.second / 3600)
      (t.second / 60 % 60) (t.second % 60 + t.nano / 1000000000) (t.nano % 1000000000) ++ ['Z']))
  simp only [read, bind, Except.bind, toList_written, hdate, true_or, if_true, readTime_written]
  exact assemble_self t

end Timestamp

end ReadProgress
