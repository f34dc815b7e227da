import ReadProgress.Proofs.Timespan
import ReadProgress.Proofs.Timespan.Span
import ReadProgress.Ttl

/-!
This module contains which texts lead a reader of lengths of time over the last second that there is.
How a text spells its spans is said without the reader, which runs over on these texts and on no
others.
-/

namespace ReadProgress

namespace Timespan

/--
Digits, between which white space may stand.
-/
def IsDigitRun (text : List Char) : Prop :=
  ∀ c ∈ text, c.isDigit = true ∨ isBlank c = true

def digitsOf (text : List Char) : List Char :=
  text.filter Char.isDigit

/--
The text of a number that fits in a word. It begins with a digit.
-/
structure SpellsNumber (text : List Char) (n : Nat) : Prop where
  starts : ∃ c rest, text = c :: rest ∧ c.isDigit = true
  run : IsDigitRun text
  value : Nat.ofDigitChars 10 (digitsOf text) 0 = n
  fits : n < UInt64.size

/--
The text of a fraction behind the point, with a denominator that fits in a word.
-/
structure SpellsFraction (text : List Char) (f : Fraction) : Prop where
  run : IsDigitRun text
  numerator_eq : f.numerator = Nat.ofDigitChars 10 (digitsOf text) 0
  denominator_eq : f.denominator = 10 ^ (digitsOf text).length
  fits : f.denominator < UInt64.size

/--
The text of a number, with a point and at least one digit behind it where there is a fraction.
-/
def SpellsAmount (text : List Char) (count : Nat) : Option Fraction → Prop
  | none => SpellsNumber text count
  | some f => ∃ number behind, text = number ++ '.' :: behind ∧ SpellsNumber number count ∧
      SpellsFraction behind f ∧ digitsOf behind ≠ []

/--
The text of a span: its number and the name of its unit.
-/
def Span.Spelled (span : Span) (text : List Char) : Prop :=
  ∃ amount name, text = amount ++ name ∧ SpellsAmount amount span.count span.fraction ∧
    (∀ c ∈ name, isUnitChar c = true) ∧ Unit.ofName? (String.ofList name) = some span.unit

/--
A span ends where the text does, in front of white space, and where the next number begins.
-/
def EndsSpan (rest : List Char) : Prop :=
  ∀ c ∈ rest.head?, c.isDigit = true ∨ isBlank c = true

/--
Along the spans of a text, the sum runs over the last second. What stands behind the span where that
happens does not matter.
-/
inductive RunsOverAlong : Timespan → List Char → Prop where
  | blank {total : Timespan} {c : Char} {rest : List Char} (hblank : isBlank c = true)
      (h : RunsOverAlong total rest) : RunsOverAlong total (c :: rest)
  | span {total sum : Timespan} {span : Span} {text rest : List Char} (hspan : span.Spelled text)
      (hsum : span.AddsUp total sum) (h : RunsOverAlong sum rest) :
      RunsOverAlong total (text ++ rest)
  | last {total : Timespan} {span : Span} {text rest : List Char} (hspan : span.Spelled text)
      (hover : span.RunsOver total) (hend : EndsSpan rest) : RunsOverAlong total (text ++ rest)

variable {sum total : Timespan} {n count : Nat} {c : Char} {text rest : List Char}

/-
What has been taken of a span, as far as the reader has come.
-/
def Stage.Consumed : Stage → List Char → Prop
  | .seeking _, front => front = []
  | .number count, front => SpellsNumber front count
  | .fraction count f _, front => ∃ number behind, front = number ++ '.' :: behind ∧
      SpellsNumber number count ∧ SpellsFraction behind f
  | .unit count f name, front => ∃ amount, front = amount ++ name.reverse ∧
      SpellsAmount amount count f ∧ ∀ c ∈ name, isUnitChar c = true

theorem digitsOf_concat_of_isDigit (hc : c.isDigit = true) :
    digitsOf (text ++ [c]) = digitsOf text ++ [c] := by
  rw [digitsOf, List.filter_append, List.filter_cons_of_pos hc]
  rfl

theorem digitsOf_concat_of_isBlank (hc : isBlank c = true) : digitsOf (text ++ [c]) = digitsOf text := by
  have hdigit : ¬ c.isDigit = true := by
    intro hdigit
    rw [isBlank_of_isDigit hdigit] at hc
    cases hc
  rw [digitsOf, List.filter_append, List.filter_cons_of_neg hdigit]
  exact List.append_nil _

theorem IsDigitRun.concat (h : IsDigitRun text) (hc : c.isDigit = true ∨ isBlank c = true) :
    IsDigitRun (text ++ [c]) := by
  intro d hd
  rcases List.mem_append.1 hd with hd | hd
  . exact h d hd
  . rwa [List.mem_singleton.1 hd]

theorem ofDigitChars_concat (digits : List Char) (c : Char) :
    Nat.ofDigitChars 10 (digits ++ [c]) 0 = Nat.ofDigitChars 10 digits 0 * 10 + digitValue c := by
  rw [Nat.ofDigitChars_append, Nat.ofDigitChars_cons, Nat.ofDigitChars_nil, Nat.mul_comm]
  rfl

namespace SpellsNumber

theorem singleton (hc : c.isDigit = true) : SpellsNumber [c] (digitValue c) where
  starts := ⟨c, [], rfl, hc⟩
  run := by
    intro d hd
    rw [List.mem_singleton.1 hd]
    exact .inl hc
  value := by
    rw [digitsOf, List.filter_cons_of_pos hc]
    exact (ofDigitChars_concat [] c).trans (Nat.zero_add _)
  fits := by
    simp only [Char.isDigit, Bool.and_eq_true, decide_eq_true_eq] at hc
    have hle : c.toNat ≤ 57 := UInt32.le_iff_toNat_le.1 hc.2
    unfold digitValue
    exact Nat.lt_of_le_of_lt (Nat.sub_le _ _) (Nat.lt_of_le_of_lt hle (by decide))

theorem concat (h : SpellsNumber text n) (hc : c.isDigit = true)
    (hfits : n * 10 + digitValue c < UInt64.size) :
    SpellsNumber (text ++ [c]) (n * 10 + digitValue c) where
  starts := by
    obtain ⟨d, rest, rfl, hd⟩ := h.starts
    exact ⟨d, rest ++ [c], rfl, hd⟩
  run := h.run.concat (.inl hc)
  value := by rw [digitsOf_concat_of_isDigit hc, ofDigitChars_concat, h.value]
  fits := hfits

theorem concat_blank (h : SpellsNumber text n) (hc : isBlank c = true) :
    SpellsNumber (text ++ [c]) n where
  starts := by
    obtain ⟨d, rest, rfl, hd⟩ := h.starts
    exact ⟨d, rest ++ [c], rfl, hd⟩
  run := h.run.concat (.inr hc)
  value := by rw [digitsOf_concat_of_isBlank hc, h.value]
  fits := h.fits

end SpellsNumber

namespace SpellsFraction

variable {f : Fraction}

theorem nil : SpellsFraction [] ⟨0, 1⟩ where
  run _ hc := by cases hc
  numerator_eq := rfl
  denominator_eq := rfl
  fits := by decide

theorem concat (h : SpellsFraction text f) (hc : c.isDigit = true)
    (hfits : f.denominator * 10 < UInt64.size) :
    SpellsFraction (text ++ [c]) ⟨f.numerator * 10 + digitValue c, f.denominator * 10⟩ where
  run := h.run.concat (.inl hc)
  numerator_eq := by
    rw [digitsOf_concat_of_isDigit hc, ofDigitChars_concat, ← h.numerator_eq]
  denominator_eq := by
    rw [digitsOf_concat_of_isDigit hc, List.length_append, List.length_singleton, Nat.pow_succ,
      ← h.denominator_eq]
  fits := hfits

theorem concat_blank (h : SpellsFraction text f) (hc : isBlank c = true) :
    SpellsFraction (text ++ [c]) f where
  run := h.run.concat (.inr hc)
  numerator_eq := by rw [digitsOf_concat_of_isBlank hc, h.numerator_eq]
  denominator_eq := by rw [digitsOf_concat_of_isBlank hc, h.denominator_eq]
  fits := h.fits

theorem denominator_eq_one_iff (h : SpellsFraction text f) :
    f.denominator = 1 ↔ digitsOf text = [] := by
  rw [h.denominator_eq, Nat.pow_eq_one, List.length_eq_zero_iff]
  simp

end SpellsFraction

theorem SpellsAmount.denominator_pos {fraction : Option Fraction}
    (h : SpellsAmount text count fraction) : ∀ f ∈ fraction, 0 < f.denominator := by
  rintro f ⟨⟩
  obtain ⟨number, behind, -, -, hbehind, -⟩ := h
  rw [hbehind.denominator_eq]
  exact Nat.pow_pos (by decide)

/-
What is written where a span ends is the span that the reader then adds.
-/
theorem exists_spelled_of_consumed {fraction : Option Fraction} {name : List Char}
    {r : Except ReadError Timespan}
    (hfront : (Stage.unit count fraction name).Consumed text)
    (h : total.plusSpan count fraction (String.ofList name.reverse) = r)
    (hr : ∀ name count, r ≠ .error (.unknownUnit name count)) :
    ∃ span : Span, span.Spelled text ∧ span.count = count ∧ span.fraction = fraction ∧
      Unit.ofName? (String.ofList name.reverse) = some span.unit ∧
      ∀ f ∈ span.fraction, 0 < f.denominator := by
  obtain ⟨amount, rfl, hamount, hname⟩ := hfront
  cases hunit : Unit.ofName? (String.ofList name.reverse) with
  | none =>
    rw [plusSpan, hunit] at h
    exact absurd h.symm (hr _ _)
  | some unit =>
    exact ⟨⟨count, fraction, unit⟩,
      ⟨amount, name.reverse, rfl, hamount, by simpa using hname, hunit⟩, rfl, rfl, rfl,
      hamount.denominator_pos⟩

theorem exists_addsUp_of_consumed {fraction : Option Fraction} {name : List Char}
    (hfront : (Stage.unit count fraction name).Consumed text)
    (h : total.plusSpan count fraction (String.ofList name.reverse) = .ok sum) :
    ∃ span : Span, span.Spelled text ∧ span.AddsUp total sum := by
  obtain ⟨span, hspelled, rfl, rfl, hunit, hpos⟩ := exists_spelled_of_consumed hfront h (by simp)
  exact ⟨span, hspelled, (plusSpan_eq_ok_iff hunit hpos).1 h⟩

theorem exists_runsOver_of_consumed {fraction : Option Fraction} {name : List Char}
    (hfront : (Stage.unit count fraction name).Consumed text)
    (h : total.plusSpan count fraction (String.ofList name.reverse) = .error .secondsOverflow) :
    ∃ span : Span, span.Spelled text ∧ span.RunsOver total := by
  obtain ⟨span, hspelled, rfl, rfl, hunit, hpos⟩ := exists_spelled_of_consumed hfront h (by simp)
  exact ⟨span, hspelled, (plusSpan_eq_secondsOverflow_iff hunit hpos).1 h⟩

section

variable {position : Nat} {front : List Char}

theorem exists_consumed_of_number
    (h : readFrom total position (.number count) (c :: rest) = .error .secondsOverflow)
    (hfront : SpellsNumber front count) :
    ∃ next stage, Stage.Consumed stage (front ++ [c]) ∧
      readFrom total next stage rest = .error .secondsOverflow := by
  rw [readFrom] at h
  split_ifs at h with hdigit hblank hletter hpoint
  . rw [checkedMul_bind_eq_iff (by simp), checkedAdd_bind_eq_iff (by simp)] at h
    exact ⟨_, .number _, hfront.concat hdigit h.2.1, h.2.2⟩
  . exact ⟨_, .number count, hfront.concat_blank hblank, h⟩
  . exact ⟨_, .unit count none [c], ⟨front, rfl, hfront, by simpa using hletter⟩, h⟩
  . obtain rfl := hpoint
    exact ⟨_, .fraction count ⟨0, 1⟩ position, ⟨front, [], rfl, hfront, .nil⟩, h⟩
  . cases h

theorem exists_consumed_of_fraction {f : Fraction} {mark : Nat}
    (h : readFrom total position (.fraction count f mark) (c :: rest) = .error .secondsOverflow)
    (hfront : (Stage.fraction count f mark).Consumed front) :
    ∃ next stage, Stage.Consumed stage (front ++ [c]) ∧
      readFrom total next stage rest = .error .secondsOverflow := by
  obtain ⟨number, behind, rfl, hnumber, hbehind⟩ := hfront
  rw [readFrom] at h
  split_ifs at h with hdigit hblank hletter hnone
  . rw [checkedMul_bind_eq_iff (by simp)] at h
    refine ⟨_, .fraction count _ _,
      ⟨number, behind ++ [c], ?_, hnumber, hbehind.concat hdigit h.1⟩, h.2⟩
    rw [List.append_assoc, List.cons_append]
  . refine ⟨_, .fraction count f _,
      ⟨number, behind ++ [c], ?_, hnumber, hbehind.concat_blank hblank⟩, h⟩
    rw [List.append_assoc, List.cons_append]
  . cases h
  . rw [hbehind.denominator_eq_one_iff] at hnone
    exact ⟨_, .unit count (some f) [c],
      ⟨_, rfl, ⟨number, behind, rfl, hnumber, hbehind, hnone⟩, by simpa using hletter⟩, h⟩
  . cases h

theorem exists_consumed_of_unit {f : Option Fraction} {name : List Char}
    (h : readFrom total position (.unit count f name) (c :: rest) = .error .secondsOverflow)
    (hfront : (Stage.unit count f name).Consumed front)
    (hc : ¬ (c.isDigit = true ∨ isBlank c = true)) :
    ∃ next stage, Stage.Consumed stage (front ++ [c]) ∧
      readFrom total next stage rest = .error .secondsOverflow := by
  rw [not_or] at hc
  rw [readFrom, if_neg hc.1, if_neg hc.2] at h
  split_ifs at h with hletter
  . obtain ⟨amount, rfl, hamount, hname⟩ := hfront
    exact ⟨_, .unit count f (c :: name),
      ⟨amount, by simp, hamount, by simpa [hletter] using hname⟩, h⟩
  . cases h

theorem runsOverAlong_of_readFrom_nil {stage : Stage}
    (h : readFrom total position stage [] = .error .secondsOverflow)
    (hfront : stage.Consumed front) : RunsOverAlong total front := by
  cases stage with
  | seeking since =>
    rw [readFrom] at h
    split_ifs at h
    cases h
  | number count => cases h
  | fraction count f mark =>
    rw [readFrom] at h
    split_ifs at h
    . cases h
    . cases h
  | unit count f name =>
    obtain ⟨span, hspelled, hover⟩ := exists_runsOver_of_consumed hfront h
    rw [← front.append_nil]
    exact .last hspelled hover (by simp [EndsSpan])

theorem readFrom_endsSpan (total : Timespan) (position count : Nat) (f : Option Fraction)
    (name : List Char) (hc : c.isDigit = true ∨ isBlank c = true) (rest : List Char) :
    readFrom total position (.unit count f name) (c :: rest) = (do
      let sum ← total.plusSpan count f (String.ofList name.reverse)
      readFrom sum position (.seeking (position + c.utf8Size)) (c :: rest)) := by
  rw [readFrom]
  cases hdigit : c.isDigit with
  | true => simp [readFrom, hdigit]
  | false =>
    have hblank : isBlank c = true := hc.resolve_left (by simp [hdigit])
    simp [readFrom, hdigit, hblank]

/-
By induction along the rest of the text. What the stage has taken and the rest make up the text that
the sum runs over in.
-/
theorem runsOverAlong_of_readFrom {stage : Stage}
    (h : readFrom total position stage rest = .error .secondsOverflow)
    (hfront : stage.Consumed front) : RunsOverAlong total (front ++ rest) := by
  induction rest generalizing total position stage front with
  | nil =>
    rw [List.append_nil]
    exact runsOverAlong_of_readFrom_nil h hfront
  | cons c rest ih =>
    -- A new span is sought at its own place and where another one has ended.
    have hseeking : ∀ {total position since},
        readFrom total position (.seeking since) (c :: rest) = .error .secondsOverflow →
          RunsOverAlong total (c :: rest) := by
      intro total position since h
      rw [readFrom] at h
      split_ifs at h with hdigit hblank
      . exact ih h (.singleton hdigit)
      . exact .blank hblank (ih h rfl)
      . cases h
    cases stage with
    | seeking since =>
      obtain rfl := hfront
      exact hseeking h
    | number count =>
      obtain ⟨next, stage, hfront, h⟩ := exists_consumed_of_number h hfront
      rw [List.append_cons]
      exact ih h hfront
    | fraction count f mark =>
      obtain ⟨next, stage, hfront, h⟩ := exists_consumed_of_fraction h hfront
      rw [List.append_cons]
      exact ih h hfront
    | unit count f name =>
      by_cases hc : c.isDigit = true ∨ isBlank c = true
      . rw [readFrom_endsSpan _ _ _ _ _ hc] at h
        rcases bind_eq_error.1 h with hover | ⟨sum, hsum, h⟩
        . obtain ⟨span, hspelled, hover⟩ := exists_runsOver_of_consumed hfront hover
          exact .last hspelled hover (by simpa [EndsSpan] using hc)
        . obtain ⟨span, hspelled, hsum⟩ := exists_addsUp_of_consumed hfront hsum
          exact .span hspelled hsum (hseeking h)
      . obtain ⟨next, stage, hfront, h⟩ := exists_consumed_of_unit h hfront hc
        rw [List.append_cons]
        exact ih h hfront

end

theorem readFrom_fraction (total : Timespan) (count : Nat) (f : Fraction) {digits : List Char}
    (hdigits : IsDigitRun digits)
    (hsmall : f.denominator * 10 ^ (digitsOf digits).length < UInt64.size)
    (position mark : Nat) (rest : List Char) :
    ∃ next last, readFrom total position (.fraction count f mark) (digits ++ rest) =
      readFrom total next (.fraction count ⟨Nat.ofDigitChars 10 (digitsOf digits) f.numerator,
        f.denominator * 10 ^ (digitsOf digits).length⟩ last) rest := by
  induction digits generalizing f position mark with
  | nil => exact ⟨position, mark, by simp [digitsOf]⟩
  | cons c digits ih =>
    obtain ⟨hc, hdigits⟩ := List.forall_mem_cons.1 hdigits
    cases hdigit : c.isDigit with
    | true =>
      rw [digitsOf, List.filter_cons_of_pos hdigit, List.length_cons, Nat.pow_succ'] at hsmall ⊢
      rw [← Nat.mul_assoc] at hsmall ⊢
      have hmul : checkedMul f.denominator 10 = .ok (f.denominator * 10) :=
        if_pos (Nat.lt_of_le_of_lt (Nat.le_mul_of_pos_right _ (Nat.pow_pos (by decide))) hsmall)
      obtain ⟨next, last, hnext⟩ := ih ⟨f.numerator * 10 + digitValue c, f.denominator * 10⟩ hdigits
        hsmall (position + c.utf8Size) (position + c.utf8Size)
      refine ⟨next, last, ?_⟩
      rw [List.cons_append, readFrom, if_pos hdigit, hmul, Nat.ofDigitChars_cons,
        Nat.mul_comm 10 f.numerator]
      exact hnext
    | false =>
      have hblank : isBlank c = true := hc.resolve_left (by simp [hdigit])
      rw [digitsOf, List.filter_cons_of_neg (by simp [hdigit])] at hsmall ⊢
      obtain ⟨next, last, hnext⟩ :=
        ih f hdigits hsmall (position + c.utf8Size) (position + c.utf8Size)
      refine ⟨next, last, ?_⟩
      rw [List.cons_append, readFrom, if_neg (by simp [hdigit]), if_pos hblank]
      exact hnext

theorem SpellsAmount.exists_cons {fraction : Option Fraction} (h : SpellsAmount text count fraction) :
    ∃ c rest, text = c :: rest ∧ c.isDigit = true := by
  cases fraction with
  | none => exact h.starts
  | some f =>
    obtain ⟨number, behind, rfl, hnumber, -, -⟩ := h
    obtain ⟨c, rest, rfl, hc⟩ := hnumber.starts
    exact ⟨c, _, rfl, hc⟩

theorem Span.Spelled.exists_cons {span : Span} (h : span.Spelled text) :
    ∃ c rest, text = c :: rest ∧ c.isDigit = true := by
  obtain ⟨amount, name, rfl, hamount, -⟩ := h
  obtain ⟨c, rest, rfl, hc⟩ := hamount.exists_cons
  exact ⟨c, _, rfl, hc⟩

theorem SpellsNumber.readFrom (h : SpellsNumber text n) (total : Timespan) (position since : Nat)
    (rest : List Char) :
    ∃ next, total.readFrom position (.seeking since) (text ++ rest) =
      total.readFrom next (.number n) rest := by
  obtain ⟨c, digits, rfl, hc⟩ := h.starts
  have hrun := (List.forall_mem_cons.1 h.run).2
  have hvalue := h.value
  rw [digitsOf, List.filter_cons_of_pos hc, Nat.ofDigitChars_cons, Nat.mul_zero, Nat.zero_add]
    at hvalue
  obtain ⟨next, hnext⟩ := readFrom_number total (digitValue c) hrun (hvalue ▸ h.fits)
    (position + c.utf8Size) rest
  refine ⟨next, ?_⟩
  rw [List.cons_append, Timespan.readFrom, if_pos hc, hnext, ← hvalue]
  rfl

theorem SpellsAmount.readFrom {fraction : Option Fraction} (h : SpellsAmount text count fraction)
    (total : Timespan) (position since : Nat) (hc : isUnitChar c = true) (rest : List Char) :
    ∃ next, total.readFrom position (.seeking since) (text ++ c :: rest) =
      total.readFrom next (.unit count fraction [c]) rest := by
  have hdigit := isDigit_of_isUnitChar hc
  have hblank := isBlank_of_isUnitChar hc
  cases fraction with
  | none =>
    obtain ⟨next, hnext⟩ := SpellsNumber.readFrom h total position since (c :: rest)
    refine ⟨next + c.utf8Size, ?_⟩
    rw [hnext, Timespan.readFrom, if_neg (by simp [hdigit]), if_neg (by simp [hblank]), if_pos hc]
  | some f =>
    obtain ⟨number, behind, rfl, hnumber, hbehind, hsome⟩ := h
    obtain ⟨next, hnext⟩ :=
      hnumber.readFrom total position since ('.' :: (behind ++ c :: rest))
    obtain ⟨last, mark, hlast⟩ := readFrom_fraction total count ⟨0, 1⟩ hbehind.run
      (by simpa [← hbehind.denominator_eq] using hbehind.fits) (next + '.'.utf8Size) next (c :: rest)
    have hf : (⟨Nat.ofDigitChars 10 (digitsOf behind) 0, 1 * 10 ^ (digitsOf behind).length⟩ : Fraction) =
        f := by
      rw [Nat.one_mul, ← hbehind.numerator_eq, ← hbehind.denominator_eq]
    refine ⟨last + c.utf8Size, ?_⟩
    rw [List.append_assoc, List.cons_append, hnext, Timespan.readFrom, if_neg (by decide),
      if_neg (by decide), if_neg (by decide), if_pos rfl, hlast, hf, Timespan.readFrom,
      if_neg (by simp [hdigit]), if_neg (by simp [hblank]), if_pos hc,
      if_neg (by rwa [hbehind.denominator_eq_one_iff])]

/-
A span that is written out is read to the end of its name. It is then added in front of whatever ends
it.
-/
theorem Span.Spelled.readFrom {span : Span} (h : span.Spelled text) (total : Timespan)
    (position since : Nat) (rest : List Char) :
    ∃ next name, Unit.ofName? (String.ofList name.reverse) = some span.unit ∧
      (∀ f ∈ span.fraction, 0 < f.denominator) ∧
      total.readFrom position (.seeking since) (text ++ rest) =
        total.readFrom next (.unit span.count span.fraction name) rest := by
  obtain ⟨amount, name, rfl, hamount, hname, hunit⟩ := h
  cases name with
  | nil => cases hunit
  | cons c name =>
    obtain ⟨hc, hname⟩ := List.forall_mem_cons.1 hname
    obtain ⟨next, hnext⟩ := hamount.readFrom total position since hc (name ++ rest)
    obtain ⟨last, hlast⟩ := readFrom_unit total span.count span.fraction [c] hname next rest
    refine ⟨last, name.reverse ++ [c], ?_, hamount.denominator_pos, ?_⟩
    . rw [List.reverse_append, List.reverse_reverse]
      exact hunit
    . rw [List.append_assoc, List.cons_append, hnext, hlast]

theorem RunsOverAlong.exists_cons (h : RunsOverAlong total text) :
    ∃ c rest, text = c :: rest ∧ (c.isDigit = true ∨ isBlank c = true) := by
  cases h with
  | blank hblank h => exact ⟨_, _, rfl, .inr hblank⟩
  | span hspan =>
    obtain ⟨c, rest, rfl, hc⟩ := hspan.exists_cons
    exact ⟨c, _, rfl, .inl hc⟩
  | last hspan =>
    obtain ⟨c, rest, rfl, hc⟩ := hspan.exists_cons
    exact ⟨c, _, rfl, .inl hc⟩

theorem RunsOverAlong.readFrom (h : RunsOverAlong total text) (position since : Nat) :
    total.readFrom position (.seeking since) text = .error .secondsOverflow := by
  induction h generalizing position since with
  | @blank total c rest hblank h ih =>
    have hdigit : ¬ c.isDigit = true := by
      intro hdigit
      rw [isBlank_of_isDigit hdigit] at hblank
      cases hblank
    rw [Timespan.readFrom, if_neg hdigit, if_pos hblank]
    exact ih _ _
  | @span total sum span text rest hspan hsum h ih =>
    obtain ⟨c, rest, rfl, hc⟩ := h.exists_cons
    obtain ⟨next, name, hunit, hpos, hnext⟩ := hspan.readFrom total position since (c :: rest)
    rw [hnext, readFrom_endsSpan _ _ _ _ _ hc, (plusSpan_eq_ok_iff hunit hpos).2 hsum]
    exact ih _ _
  | @last total span text rest hspan hover hend =>
    obtain ⟨next, name, hunit, hpos, hnext⟩ := hspan.readFrom total position since rest
    have hadd := (plusSpan_eq_secondsOverflow_iff hunit hpos).2 hover
    rw [hnext]
    cases rest with
    | nil => exact hadd
    | cons c rest =>
      rw [readFrom_endsSpan _ _ _ _ _ (hend c rfl), hadd]
      rfl

theorem readFrom_eq_secondsOverflow_iff :
    readFrom total 0 (.seeking 0) text = .error .secondsOverflow ↔ RunsOverAlong total text :=
  ⟨fun h => runsOverAlong_of_readFrom h rfl, fun h => h.readFrom 0 0⟩

/--
A text is refused for its seconds just where the sum of its spans runs over the last one.
-/
theorem read_eq_secondsOverflow_iff :
    read text = .error .secondsOverflow ↔ RunsOverAlong zero text := by
  rw [← readFrom_eq_secondsOverflow_iff, read]
  split
  . next h =>
    rw [h]
    refine iff_of_false ?_ ?_
    . intro h
      cases h
    . intro h
      cases h
  . rfl

end Timespan

namespace Ttl

/--
A policy that spells out more time than there is. The sum of its spans comes to the last second, and
the nanoseconds make up exactly one second more.
-/
def IsOverfull (text : String) : Prop :=
  Timespan.RunsOverAlong .zero (trimBlank text.toList)

theorem read_eq_secondsOverflow_iff {text : String} :
    read text = .error .secondsOverflow ↔ IsOverfull text := by
  rw [IsOverfull, ← Timespan.read_eq_secondsOverflow_iff, read]
  split
  . next h =>
    rw [h]
    refine iff_of_false ?_ ?_
    . intro h
      cases h
    . intro h
      cases h
  . exact map_eq_error

end Ttl

end ReadProgress
