import Mathlib
import ReadProgress.Proofs.Text.Digits
import ReadProgress.Timespan.Reading
import ReadProgress.Timespan.Written

/-!
This module contains the proof that lengths of time are read as they were written.
-/

namespace ReadProgress

namespace Timespan

namespace Part

def seconds (p : Part) : Nat :=
  match Unit.ofName? p.unit with
  | some unit => p.count * unit.seconds
  | none => 0

/--
The nanoseconds that a part stands for, if its unit is less than a second.
-/
def nanos (p : Part) : Nat :=
  match Unit.ofName? p.unit with
  | some unit => p.count * unit.nanos
  | none => 0

variable {name : String} {unit : Unit}

theorem seconds_mk (h : Unit.ofName? name = some unit) (count : Nat) :
    seconds ⟨count, name⟩ = count * unit.seconds := by
  simp only [seconds, h]

theorem nanos_mk (h : Unit.ofName? name = some unit) (count : Nat) :
    nanos ⟨count, name⟩ = count * unit.nanos := by
  simp only [nanos, h]

end Part

/--
A word is the name of a unit, and is read as one.
-/
structure IsUnitName (name : String) : Prop where
  known : ∃ unit, Unit.ofName? name = some unit
  ne_nil : name.toList ≠ []
  spelled : ∀ c ∈ name.toList, isUnitChar c = true ∧ c.isDigit = false ∧ isBlank c = false

/-
What holds of all letters is computed along the word. There are too many characters to try them all.
-/
theorem IsUnitName.of_all {name : String} {unit : Unit} (hknown : Unit.ofName? name = some unit)
    (hne : name.toList ≠ [])
    (h : name.toList.all (fun c => isUnitChar c && !c.isDigit && !isBlank c) = true) :
    IsUnitName name where
  known := ⟨unit, hknown⟩
  ne_nil := hne
  spelled := by
    intro c hmem
    simpa only [Bool.and_eq_true, Bool.not_eq_true', and_assoc] using List.all_eq_true.1 h c hmem

theorem isUnitName_pluralWord (count : Nat) {word : String}
    (h : word = "year" ∨ word = "month" ∨ word = "day") : IsUnitName (pluralWord count word) := by
  unfold pluralWord
  rcases h with rfl | rfl | rfl
  all_goals
    split
    all_goals exact .of_all rfl (by decide) (by decide)

theorem isUnitName_of_mem_parts {d : Timespan} {p : Part} (h : p ∈ d.parts) : IsUnitName p.unit := by
  simp only [parts, List.mem_cons, List.not_mem_nil, or_false] at h
  rcases h with rfl | rfl | rfl | rfl | rfl | rfl | rfl | rfl | rfl
  . exact isUnitName_pluralWord _ (.inl rfl)
  . exact isUnitName_pluralWord _ (.inr (.inl rfl))
  . exact isUnitName_pluralWord _ (.inr (.inr rfl))
  all_goals
    dsimp only
    exact .of_all rfl (by decide) (by decide)

theorem Part.count_le {p : Part} (h : IsUnitName p.unit) :
    p.count ≤ p.seconds ∨ p.count ≤ p.nanos := by
  obtain ⟨unit, hunit⟩ := h.known
  simp only [seconds, nanos, hunit]
  cases unit <;> simp only [Unit.seconds, Unit.nanos] <;> omega

theorem toNat_of_isUnitChar {c : Char} (h : isUnitChar c = true) :
    (65 ≤ c.toNat ∧ c.toNat ≤ 122) ∨ c.toNat = 181 := by
  simp only [isUnitChar, Char.isAlpha, Char.isUpper, Char.isLower, Bool.or_eq_true,
    Bool.and_eq_true, decide_eq_true_eq, beq_iff_eq] at h
  rcases h with (⟨hlow, hhigh⟩ | ⟨hlow, hhigh⟩) | rfl
  . have hlow : 65 ≤ c.toNat := UInt32.le_iff_toNat_le.1 hlow
    have hhigh : c.toNat ≤ 90 := UInt32.le_iff_toNat_le.1 hhigh
    omega
  . have hlow : 97 ≤ c.toNat := UInt32.le_iff_toNat_le.1 hlow
    have hhigh : c.toNat ≤ 122 := UInt32.le_iff_toNat_le.1 hhigh
    omega
  . exact .inr rfl

theorem isDigit_of_isUnitChar {c : Char} (h : isUnitChar c = true) : c.isDigit = false := by
  have hrange := toNat_of_isUnitChar h
  rw [Bool.eq_false_iff]
  intro hdigit
  simp only [Char.isDigit, Bool.and_eq_true, decide_eq_true_eq] at hdigit
  have hhigh : c.toNat ≤ 57 := UInt32.le_iff_toNat_le.1 hdigit.2
  omega

theorem isBlank_of_isUnitChar {c : Char} (h : isUnitChar c = true) : isBlank c = false := by
  have hrange := toNat_of_isUnitChar h
  simp only [isBlank, Bool.or_eq_false_iff, Bool.and_eq_false_iff, decide_eq_false_iff_not,
    beq_eq_false_iff_ne]
  omega

/-
The position in the text plays no part as long as nothing is refused.
-/
theorem readFrom_number (total : Timespan) (count : Nat) {digits : List Char}
    (hdigits : ∀ c ∈ digits, c.isDigit = true ∨ isBlank c = true)
    (hsmall : Nat.ofDigitChars 10 (digits.filter Char.isDigit) count < UInt64.size)
    (position : Nat) (rest : List Char) :
    ∃ next, readFrom total position (.number count) (digits ++ rest) =
      readFrom total next
        (.number (Nat.ofDigitChars 10 (digits.filter Char.isDigit) count)) rest := by
  induction digits generalizing count position with
  | nil => exact ⟨position, rfl⟩
  | cons c digits ih =>
    rw [List.forall_mem_cons] at hdigits
    cases hc : c.isDigit with
    | true =>
      rw [List.filter_cons_of_pos hc, Nat.ofDigitChars_cons] at hsmall ⊢
      have hle := le_ofDigitChars (10 * count + (c.toNat - '0'.toNat)) (digits.filter Char.isDigit)
      have hmul : checkedMul count 10 = .ok (count * 10) := if_pos (by omega)
      have hadd : checkedAdd (count * 10) (digitValue c) =
          .ok (10 * count + (c.toNat - '0'.toNat)) := by
        rw [Nat.mul_comm]
        exact if_pos (by unfold digitValue; omega)
      obtain ⟨next, hnext⟩ := ih _ hdigits.2 hsmall (position + c.utf8Size)
      refine ⟨next, ?_⟩
      rw [List.cons_append, readFrom, if_pos hc, hmul, ← hnext]
      simp only [bind, Except.bind, hadd]
    | false =>
      have hblank : isBlank c = true := hdigits.1.resolve_left (by simp [hc])
      rw [List.filter_cons_of_neg (by simp [hc])] at hsmall ⊢
      obtain ⟨next, hnext⟩ := ih count hdigits.2 hsmall (position + c.utf8Size)
      refine ⟨next, ?_⟩
      rw [List.cons_append, readFrom, if_neg (by simp [hc]), if_pos hblank, hnext]

theorem readFrom_unit (total : Timespan) (count : Nat) (f : Option Fraction) (name : List Char)
    {letters : List Char} (hletters : ∀ c ∈ letters, isUnitChar c = true) (position : Nat)
    (rest : List Char) :
    ∃ next, readFrom total position (.unit count f name) (letters ++ rest) =
      readFrom total next (.unit count f (letters.reverse ++ name)) rest := by
  induction letters generalizing name position with
  | nil => exact ⟨position, rfl⟩
  | cons c letters ih =>
    rw [List.forall_mem_cons] at hletters
    obtain ⟨next, hnext⟩ := ih (c :: name) hletters.2 (position + c.utf8Size)
    refine ⟨next, ?_⟩
    rw [List.cons_append, readFrom, if_neg (by simp [isDigit_of_isUnitChar hletters.1]),
      if_neg (by simp [isBlank_of_isUnitChar hletters.1]), if_pos hletters.1, hnext,
      List.reverse_cons, List.append_assoc, List.singleton_append]

theorem readFrom_part (total : Timespan) {p : Part} (h : IsUnitName p.unit)
    (hcount : p.count < UInt64.size)
    (position since : Nat) (rest : List Char) :
    ∃ next, readFrom total position (.seeking since) (p.written.toList ++ rest) =
      readFrom total next (.unit p.count none p.unit.toList.reverse) rest := by
  obtain ⟨c, digits, hdigits, hall, -⟩ := exists_cons_toDigits p.count
  rw [List.all_eq_true] at hall
  obtain ⟨letter, letters, hunit⟩ := List.exists_cons_of_ne_nil h.ne_nil
  have hspelled := h.spelled
  rw [hunit] at hspelled
  obtain ⟨hletter, hdigit, hblank⟩ := hspelled letter List.mem_cons_self
  have hvalue : Nat.ofDigitChars 10 digits (digitValue c) = p.count := by
    rw [← Nat.ofDigitChars_ten_toDigits (n := p.count), hdigits, Nat.ofDigitChars_cons,
      Nat.mul_zero, Nat.zero_add]
    rfl
  have htext : p.written.toList ++ rest = c :: (digits ++ letter :: (letters ++ rest)) := by
    rw [Part.written, String.toList_append, hunit, Nat.toString_eq_ofList_toDigits,
      String.toList_ofList, hdigits]
    simp only [List.cons_append, List.append_assoc]
  have hfilter : digits.filter Char.isDigit = digits :=
    List.filter_eq_self.2 fun d hmem => hall d (List.mem_cons_of_mem _ hmem)
  obtain ⟨next, hnumber⟩ := readFrom_number total (digitValue c)
    (fun d hmem => .inl (hall d (List.mem_cons_of_mem _ hmem))) (by rwa [hfilter, hvalue])
    (position + c.utf8Size) (letter :: (letters ++ rest))
  rw [hfilter] at hnumber
  obtain ⟨last, hname⟩ := readFrom_unit total p.count none [letter]
    (fun d hmem => (hspelled d (List.mem_cons_of_mem _ hmem)).1) (next + letter.utf8Size) rest
  refine ⟨last, ?_⟩
  rw [htext, readFrom, if_pos (hall c List.mem_cons_self), hnumber, hvalue, readFrom,
    if_neg (by simp [hdigit]), if_neg (by simp [hblank]), if_pos hletter, hname, hunit,
    List.reverse_cons]

theorem plusSpan_part {total sum : Timespan} {p : Part} (h : IsUnitName p.unit)
    (hseconds : sum.seconds = total.seconds + p.seconds)
    (hnanos : sum.nanos = total.nanos + p.nanos) :
    total.plusSpan p.count none p.unit = .ok sum := by
  obtain ⟨unit, hunit⟩ := h.known
  have hseconds_lt := sum.seconds_lt
  have hnanos_lt := sum.nanos_lt
  simp only [Part.seconds, Part.nanos, hunit] at hseconds hnanos
  have hparts : ofParts? sum.seconds sum.nanos = some sum := by
    unfold ofParts?
    rw [dif_pos (by omega)]
    obtain ⟨seconds, nanos, hs, hn⟩ := sum
    simp only [Option.some.injEq, mk.injEq]
    omega
  have hmul : checkedMul p.count unit.seconds = .ok (p.count * unit.seconds) :=
    if_pos (by simp only [UInt64.size]; omega)
  have hmul' : checkedMul p.count unit.nanos = .ok (p.count * unit.nanos) :=
    if_pos (by simp only [UInt64.size]; omega)
  have hadd : checkedAdd total.seconds (p.count * unit.seconds) = .ok sum.seconds := by
    rw [hseconds]
    exact if_pos (by simp only [UInt64.size]; omega)
  have hadd' : checkedAdd total.nanos (p.count * unit.nanos) = .ok sum.nanos := by
    rw [hnanos]
    exact if_pos (by simp only [UInt64.size]; omega)
  have hplus : total.plus (p.count * unit.seconds) (p.count * unit.nanos) = .ok sum := by
    simp only [plus, plus.finish, bind, Except.bind, hadd, hadd', hparts]
    rw [if_neg (by omega)]
  simp only [plusSpan, hunit, bind, Except.bind, hmul, hmul', hplus]

theorem toList_intercalate_parts (p q : Part) (rest : List Part) :
    (" ".intercalate ((p :: q :: rest).map Part.written)).toList =
      p.written.toList ++ ' ' :: (" ".intercalate ((q :: rest).map Part.written)).toList := by
  simp only [List.map_cons, String.intercalate_cons_cons, String.toList_append, List.append_assoc]
  rfl

theorem readFrom_parts {ps : List Part} (hne : ps ≠ []) (hnames : ∀ p ∈ ps, IsUnitName p.unit)
    {total sum : Timespan} (hseconds : sum.seconds = total.seconds + (ps.map Part.seconds).sum)
    (hnanos : sum.nanos = total.nanos + (ps.map Part.nanos).sum) (position since : Nat) :
    readFrom total position (.seeking since)
      (" ".intercalate (ps.map Part.written)).toList = .ok sum := by
  induction ps generalizing total position since with
  | nil => exact absurd rfl hne
  | cons p rest ih =>
    have hname := hnames p List.mem_cons_self
    have hcount := Part.count_le hname
    have hseconds_lt := sum.seconds_lt
    have hnanos_lt := sum.nanos_lt
    simp only [List.map_cons, List.sum_cons] at hseconds hnanos
    have hsmall : p.count < UInt64.size := by
      simp only [UInt64.size]
      omega
    cases rest with
    | nil =>
      obtain ⟨next, hpart⟩ := readFrom_part total hname hsmall position since []
      rw [List.append_nil] at hpart
      simp only [List.map_cons, List.map_nil, String.intercalate_singleton]
      rw [hpart, readFrom, List.reverse_reverse, String.ofList_toList]
      exact plusSpan_part hname (by simpa using hseconds) (by simpa using hnanos)
    | cons q rest =>
      obtain ⟨next, hpart⟩ := readFrom_part total hname hsmall position since
        (' ' :: (" ".intercalate ((q :: rest).map Part.written)).toList)
      let middle : Timespan := {
        seconds := total.seconds + p.seconds
        nanos := total.nanos + p.nanos
      }
      have hmiddle : total.plusSpan p.count none p.unit = .ok middle :=
        plusSpan_part hname rfl rfl
      rw [toList_intercalate_parts, hpart, readFrom, if_neg (by decide), if_pos (by decide),
        List.reverse_reverse, String.ofList_toList, hmiddle]
      refine ih (by simp) (fun q hmem => hnames q (List.mem_cons_of_mem _ hmem)) ?_ ?_ _ _
      . rw [hseconds, Nat.add_assoc]
      . rw [hnanos, Nat.add_assoc]

theorem ends_part {p : Part} (h : IsUnitName p.unit) :
    ∃ c middle l, p.written.toList = c :: (middle ++ [l]) ∧ c.isDigit = true ∧ isBlank l = false := by
  obtain ⟨c, digits, hdigits, hall, -⟩ := exists_cons_toDigits p.count
  rw [List.all_eq_true] at hall
  obtain ⟨letters, l, hunit⟩ : ∃ letters l, p.unit.toList = letters ++ [l] :=
    ⟨_, _, (List.dropLast_concat_getLast h.ne_nil).symm⟩
  refine ⟨c, digits ++ letters, l, ?_, hall c List.mem_cons_self, (h.spelled l (by simp [hunit])).2.2⟩
  rw [Part.written, String.toList_append, hunit, Nat.toString_eq_ofList_toDigits,
    String.toList_ofList, hdigits]
  simp only [List.cons_append, List.append_assoc]

theorem ends_parts {ps : List Part} (hne : ps ≠ []) (hnames : ∀ p ∈ ps, IsUnitName p.unit) :
    ∃ c middle l, (" ".intercalate (ps.map Part.written)).toList = c :: (middle ++ [l]) ∧
      c.isDigit = true ∧ isBlank l = false := by
  induction ps with
  | nil => exact absurd rfl hne
  | cons p rest ih =>
    obtain ⟨c, middle, l, htext, hc, hl⟩ := ends_part (hnames p List.mem_cons_self)
    cases rest with
    | nil => exact ⟨c, middle, l, by simpa using htext, hc, hl⟩
    | cons q rest =>
      obtain ⟨c', middle', l', htext', hc', hl'⟩ :=
        ih (by simp) fun q hmem => hnames q (List.mem_cons_of_mem _ hmem)
      refine ⟨c, middle ++ l :: ' ' :: c' :: middle', l', ?_, hc, hl'⟩
      rw [toList_intercalate_parts, htext, htext']
      simp only [List.cons_append, List.append_assoc, List.nil_append]

theorem sum_filter_count {f : Part → Nat} (hf : ∀ p : Part, p.count = 0 → f p = 0)
    (ps : List Part) : ((ps.filter (·.count ≠ 0)).map f).sum = (ps.map f).sum := by
  induction ps with
  | nil => rfl
  | cons p rest ih =>
    rw [List.filter_cons]
    by_cases h : p.count = 0
    . rw [if_neg (by simpa using h), ih, List.map_cons, List.sum_cons, hf p h, Nat.zero_add]
    . rw [if_pos (by simpa using h), List.map_cons, List.sum_cons, ih, List.map_cons,
        List.sum_cons]

theorem ofName?_pluralWord (count : Nat) :
    Unit.ofName? (pluralWord count "year") = some .year ∧
      Unit.ofName? (pluralWord count "month") = some .month ∧
      Unit.ofName? (pluralWord count "day") = some .day := by
  unfold pluralWord
  split
  . exact ⟨rfl, rfl, rfl⟩
  . exact ⟨rfl, rfl, rfl⟩

section

variable (d : Timespan)

theorem map_seconds_parts :
    d.parts.map Part.seconds =
      [ d.seconds / 31557600 * 31557600,
        d.seconds % 31557600 / 2630016 * 2630016,
        d.seconds % 31557600 % 2630016 / 86400 * 86400,
        d.seconds % 31557600 % 2630016 % 86400 / 3600 * 3600,
        d.seconds % 31557600 % 2630016 % 86400 % 3600 / 60 * 60,
        d.seconds % 31557600 % 2630016 % 86400 % 60 * 1,
        d.nanos / 1000000 * 0,
        d.nanos / 1000 % 1000 * 0,
        d.nanos % 1000 * 0 ] := by
  simp only [parts, List.map_cons, List.map_nil]
  rw [Part.seconds_mk (ofName?_pluralWord _).1, Part.seconds_mk (ofName?_pluralWord _).2.1,
    Part.seconds_mk (ofName?_pluralWord _).2.2, @Part.seconds_mk "h" _ rfl,
    @Part.seconds_mk "m" _ rfl, @Part.seconds_mk "s" _ rfl,
    @Part.seconds_mk "ms" _ rfl, @Part.seconds_mk "us" _ rfl,
    @Part.seconds_mk "ns" _ rfl]
  simp only [Unit.seconds]

theorem map_nanos_parts :
    d.parts.map Part.nanos =
      [ d.seconds / 31557600 * 0,
        d.seconds % 31557600 / 2630016 * 0,
        d.seconds % 31557600 % 2630016 / 86400 * 0,
        d.seconds % 31557600 % 2630016 % 86400 / 3600 * 0,
        d.seconds % 31557600 % 2630016 % 86400 % 3600 / 60 * 0,
        d.seconds % 31557600 % 2630016 % 86400 % 60 * 0,
        d.nanos / 1000000 * 1000000,
        d.nanos / 1000 % 1000 * 1000,
        d.nanos % 1000 * 1 ] := by
  simp only [parts, List.map_cons, List.map_nil]
  rw [Part.nanos_mk (ofName?_pluralWord _).1, Part.nanos_mk (ofName?_pluralWord _).2.1,
    Part.nanos_mk (ofName?_pluralWord _).2.2, @Part.nanos_mk "h" _ rfl, @Part.nanos_mk "m" _ rfl,
    @Part.nanos_mk "s" _ rfl, @Part.nanos_mk "ms" _ rfl, @Part.nanos_mk "us" _ rfl,
    @Part.nanos_mk "ns" _ rfl]
  simp only [Unit.nanos]

theorem sum_parts : (d.parts.map Part.seconds).sum = d.seconds ∧
    (d.parts.map Part.nanos).sum = d.nanos := by
  -- The numbers are added up before they are known, since they are large.
  have hsum : ∀ a b c d e f g h i : Nat,
      [a, b, c, d, e, f, g, h, i].sum = a + b + c + d + e + f + g + h + i := by
    intros
    simp only [List.sum_cons, List.sum_nil, Nat.add_zero, Nat.add_assoc]
  rw [map_seconds_parts, map_nanos_parts, hsum, hsum]
  constructor
  . omega
  . omega

def writtenParts : List Part :=
  d.parts.filter (·.count ≠ 0)

theorem sum_writtenParts : (d.writtenParts.map Part.seconds).sum = d.seconds ∧
    (d.writtenParts.map Part.nanos).sum = d.nanos := by
  have hzero : ∀ p : Part, p.count = 0 → p.seconds = 0 ∧ p.nanos = 0 := by
    intro p hp
    simp only [Part.seconds, Part.nanos, hp, Nat.zero_mul]
    constructor <;> split <;> rfl
  unfold writtenParts
  rw [sum_filter_count fun p hp => (hzero p hp).1, sum_filter_count fun p hp => (hzero p hp).2]
  exact sum_parts d

end

section

variable {d : Timespan} (h : d.isZero = false)

include h

theorem writtenParts_ne_nil : d.writtenParts ≠ [] := by
  intro hnil
  have hsum := d.sum_writtenParts
  rw [hnil] at hsum
  simp only [isZero, Bool.and_eq_false_iff, beq_eq_false_iff_ne] at h
  simp only [List.map_nil, List.sum_nil] at hsum
  omega

theorem written_eq : d.written = " ".intercalate (d.writtenParts.map Part.written) := by
  unfold written writtenParts
  rw [if_neg (by simp [h])]

end

theorem isUnitName_of_mem_writtenParts {d : Timespan} {p : Part} (h : p ∈ d.writtenParts) :
    IsUnitName p.unit :=
  isUnitName_of_mem_parts (List.mem_filter.1 h).1

theorem ends_written {d : Timespan} (h : d.isZero = false) :
    ∃ c middle l, d.written.toList = c :: (middle ++ [l]) ∧ c.isDigit = true ∧
      isBlank l = false := by
  rw [written_eq h]
  exact ends_parts (writtenParts_ne_nil h) fun p => isUnitName_of_mem_writtenParts

theorem read_written (d : Timespan) : read d.written.toList = .ok d := by
  cases h : d.isZero with
  | true =>
    have hname : IsUnitName "s" := .of_all rfl (by decide) (by decide)
    have hseconds : Part.seconds ⟨0, "s"⟩ = 0 := Nat.zero_mul _
    have hnanos : Part.nanos ⟨0, "s"⟩ = 0 := Nat.zero_mul _
    have htext : zero.written = " ".intercalate ([⟨0, "s"⟩].map Part.written) := by decide
    rw [(isZero_iff d).1 h, read, if_neg (by decide), htext]
    exact @readFrom_parts [⟨0, "s"⟩] (by simp) (by simpa using hname) zero zero
      (by simp [hseconds]) (by simp [hnanos]) 0 0
  | false =>
    obtain ⟨c, middle, l, htext, -, -⟩ := ends_written h
    have hseconds : d.seconds = zero.seconds + (d.writtenParts.map Part.seconds).sum := by
      rw [(sum_writtenParts d).1]
      exact (Nat.zero_add _).symm
    have hnanos : d.nanos = zero.nanos + (d.writtenParts.map Part.nanos).sum := by
      rw [(sum_writtenParts d).2]
      exact (Nat.zero_add _).symm
    rw [read, if_neg (by rw [htext]; simp), written_eq h]
    exact readFrom_parts (writtenParts_ne_nil h) (fun p => isUnitName_of_mem_writtenParts) hseconds
      hnanos 0 0

end Timespan

end ReadProgress
