import Mathlib.Tactic.ByContra
import ReadProgress.Proofs.Except
import ReadProgress.Timespan.Reading

/-!
This module contains what a span of a length of time adds to the spans before it, and when the sum runs
over the last second that there is.
-/

namespace ReadProgress

namespace Timespan

/--
A length is the sum of another one and of some seconds and nanoseconds, and all of the nanoseconds fit
in a word.
-/
structure IsSum (d : Timespan) (seconds nanos : Nat) (sum : Timespan) : Prop where
  fits : d.nanos + nanos < UInt64.size
  toNanos_eq : sum.toNanos = d.toNanos + (seconds * 1000000000 + nanos)

/--
With some more seconds a length has reached the last second that there is, and the nanoseconds make up
exactly one second more.
-/
structure RunsOver (d : Timespan) (seconds nanos : Nat) : Prop where
  seconds_eq : d.seconds + seconds = 18446744073709551615
  nanos_eq : d.nanos + nanos = 1000000000

/--
What a fraction of a unit amounts to. It is a whole number of seconds or of nanoseconds.
-/
def Fraction.Amounts (f : Fraction) (unit : Unit) (seconds nanos : Nat) : Prop :=
  match unit.grain with
  | .indivisible => False
  | .inNanos perUnit =>
    f.numerator * perUnit < UInt64.size ∧ seconds = 0 ∧
      nanos * f.denominator = f.numerator * perUnit
  | .inSeconds perUnit =>
    f.numerator * perUnit < UInt64.size ∧ nanos = 0 ∧
      seconds * f.denominator = f.numerator * perUnit

/--
A span of a text: so many of a unit, and maybe a fraction of one more.
-/
structure Span where
  count : Nat
  fraction : Option Fraction
  unit : Unit

namespace Span

def seconds (span : Span) : Nat :=
  span.count * span.unit.seconds

def nanos (span : Span) : Nat :=
  span.count * span.unit.nanos

def Fits (span : Span) : Prop :=
  span.seconds < UInt64.size ∧ span.nanos < UInt64.size

/--
A length is the sum of another one and of a span. The fraction is added last.
-/
def AddsUp (span : Span) (d sum : Timespan) : Prop :=
  span.Fits ∧
    match span.fraction with
    | none => d.IsSum span.seconds span.nanos sum
    | some f => ∃ whole seconds nanos, d.IsSum span.seconds span.nanos whole ∧
        f.Amounts span.unit seconds nanos ∧ whole.IsSum seconds nanos sum

/--
A length and a span run over the last second, with the fraction of the span or before it is added.
-/
def RunsOver (span : Span) (d : Timespan) : Prop :=
  span.Fits ∧ (d.RunsOver span.seconds span.nanos ∨
    ∃ whole f seconds nanos, d.IsSum span.seconds span.nanos whole ∧ span.fraction = some f ∧
      f.Amounts span.unit seconds nanos ∧ whole.RunsOver seconds nanos)

end Span

variable {d sum : Timespan} {a b n seconds nanos : Nat}

theorem checkedAdd_bind_eq_iff {α : Type} {next : Nat → Except ReadError α} {r : Except ReadError α}
    (hr : r ≠ .error .numberOverflow) :
    checkedAdd a b >>= next = r ↔ a + b < UInt64.size ∧ next (a + b) = r := by
  unfold checkedAdd
  split
  . next h =>
    change next (a + b) = _ ↔ _
    simp [h]
  . next h =>
    change Except.error ReadError.numberOverflow = _ ↔ _
    simp [h, hr.symm]

theorem checkedMul_bind_eq_iff {α : Type} {next : Nat → Except ReadError α} {r : Except ReadError α}
    (hr : r ≠ .error .numberOverflow) :
    checkedMul a b >>= next = r ↔ a * b < UInt64.size ∧ next (a * b) = r := by
  unfold checkedMul
  split
  . next h =>
    change next (a * b) = _ ↔ _
    simp [h]
  . next h =>
    change Except.error ReadError.numberOverflow = _ ↔ _
    simp [h, hr.symm]

theorem finish_eq_ok_iff :
    plus.finish seconds nanos = .ok sum ↔
      sum.toNanos = seconds * 1000000000 + nanos := by
  have hseconds := sum.seconds_lt
  have hnanos := sum.nanos_lt
  unfold plus.finish
  split
  . next d hparts =>
    rw [Except.ok.injEq, ← toNanos_inj, toNanos_of_ofParts? hparts, eq_comm]
  . next hparts =>
    unfold ofParts? at hparts
    split at hparts
    . cases hparts
    . simp only [reduceCtorEq, false_iff, toNanos]
      omega

theorem finish_eq_secondsOverflow_iff :
    plus.finish seconds nanos = .error .secondsOverflow ↔
      18446744073709551616 ≤ seconds + nanos / 1000000000 := by
  unfold plus.finish ofParts?
  split
  . next h =>
    split at h
    . simp
      omega
    . cases h
  . next h =>
    split at h
    . cases h
    . simp
      omega

theorem plus_eq_ok_iff : d.plus seconds nanos = .ok sum ↔ d.IsSum seconds nanos sum := by
  have hsize : UInt64.size = 18446744073709551616 := rfl
  have hseconds := sum.seconds_lt
  have hnanos := sum.nanos_lt
  have hiff : d.IsSum seconds nanos sum ↔ d.nanos + nanos < UInt64.size ∧
      sum.seconds * 1000000000 + sum.nanos =
        d.seconds * 1000000000 + d.nanos + (seconds * 1000000000 + nanos) :=
    ⟨fun h => ⟨h.fits, h.toNanos_eq⟩, fun h => ⟨h.1, h.2⟩⟩
  rw [hiff, plus, checkedAdd_bind_eq_iff (by simp)]
  split
  . rw [checkedAdd_bind_eq_iff (by simp), checkedAdd_bind_eq_iff (by simp), finish_eq_ok_iff, hsize,
      toNanos]
    omega
  . rw [checkedAdd_bind_eq_iff (by simp), finish_eq_ok_iff, hsize, toNanos]
    omega

theorem plus_eq_secondsOverflow_iff :
    d.plus seconds nanos = .error .secondsOverflow ↔ d.RunsOver seconds nanos := by
  have hsize : UInt64.size = 18446744073709551616 := rfl
  have hiff : d.RunsOver seconds nanos ↔
      d.seconds + seconds = 18446744073709551615 ∧ d.nanos + nanos = 1000000000 :=
    ⟨fun h => ⟨h.seconds_eq, h.nanos_eq⟩, fun h => ⟨h.1, h.2⟩⟩
  rw [hiff, plus, checkedAdd_bind_eq_iff (by simp)]
  split
  . rw [checkedAdd_bind_eq_iff (by simp), checkedAdd_bind_eq_iff (by simp),
      finish_eq_secondsOverflow_iff, hsize]
    omega
  . rw [checkedAdd_bind_eq_iff (by simp), finish_eq_secondsOverflow_iff, hsize]
    omega

theorem of_eq_ok_iff {f : Fraction} {perUnit : Nat} (hpos : 0 < f.denominator) :
    f.of perUnit = .ok n ↔
      f.numerator * perUnit < UInt64.size ∧ n * f.denominator = f.numerator * perUnit := by
  rw [Fraction.of, checkedMul_bind_eq_iff (by simp)]
  apply and_congr_right
  intro _
  split
  . next hdvd =>
    rw [Except.ok.injEq]
    constructor
    . rintro rfl
      exact Nat.div_mul_cancel (Nat.dvd_of_mod_eq_zero hdvd)
    . intro h
      rw [← h, Nat.mul_div_cancel _ hpos]
  . next hdvd =>
    simp only [reduceCtorEq, false_iff]
    intro h
    apply hdvd
    rw [← h, Nat.mul_mod_left]

theorem eq_numberOverflow_of_of {f : Fraction} {perUnit : Nat} {e : ReadError}
    (h : f.of perUnit = .error e) : e = .numberOverflow := by
  by_contra hne
  rw [Fraction.of, checkedMul_bind_eq_iff (by simpa using hne)] at h
  have hrest := h.2
  split at hrest
  . cases hrest
  . cases hrest
    exact hne rfl

theorem of_bind_eq_iff {f : Fraction} {perUnit : Nat} {next : Nat → Except ReadError Timespan}
    {r : Except ReadError Timespan} (hpos : 0 < f.denominator) (hr : r ≠ .error .numberOverflow) :
    f.of perUnit >>= next = r ↔ f.numerator * perUnit < UInt64.size ∧
      ∃ n, n * f.denominator = f.numerator * perUnit ∧ next n = r := by
  constructor
  . intro h
    cases hof : f.of perUnit with
    | error e =>
      rw [hof, eq_numberOverflow_of_of hof] at h
      exact absurd h.symm hr
    | ok n =>
      rw [hof] at h
      have hn := (of_eq_ok_iff hpos).1 hof
      exact ⟨hn.1, n, hn.2, h⟩
  . rintro ⟨hfits, n, hn, h⟩
    rw [(of_eq_ok_iff hpos).2 ⟨hfits, hn⟩]
    exact h

/-
What is added for the fraction is its amount. If there is none, the number does not fit, whatever the
sum is.
-/
theorem plusFraction_eq_iff {f : Fraction} {unit : Unit} {r : Except ReadError Timespan}
    (hpos : 0 < f.denominator) (hr : r ≠ .error .numberOverflow) :
    (match unit.grain with
      | .indivisible => .error .numberOverflow
      | .inNanos perUnit => do d.plus 0 (← f.of perUnit)
      | .inSeconds perUnit => do d.plus (← f.of perUnit) 0) = r ↔
      ∃ seconds nanos, f.Amounts unit seconds nanos ∧ d.plus seconds nanos = r := by
  unfold Fraction.Amounts
  split
  . simpa using hr.symm
  . rw [of_bind_eq_iff hpos hr]
    constructor
    . rintro ⟨hfits, n, hn, h⟩
      exact ⟨0, n, ⟨hfits, rfl, hn⟩, h⟩
    . rintro ⟨_, n, ⟨hfits, rfl, hn⟩, h⟩
      exact ⟨hfits, n, hn, h⟩
  . rw [of_bind_eq_iff hpos hr]
    constructor
    . rintro ⟨hfits, n, hn, h⟩
      exact ⟨n, 0, ⟨hfits, rfl, hn⟩, h⟩
    . rintro ⟨n, _, ⟨hfits, rfl, hn⟩, h⟩
      exact ⟨hfits, n, hn, h⟩

section

variable {span : Span} {name : String} (hname : Unit.ofName? name = some span.unit)
  (hfraction : ∀ f ∈ span.fraction, 0 < f.denominator)

include hname hfraction

theorem plusSpan_eq_ok_iff :
    d.plusSpan span.count span.fraction name = .ok sum ↔ span.AddsUp d sum := by
  unfold plusSpan Span.AddsUp
  rw [hname]
  dsimp only
  rw [checkedMul_bind_eq_iff (by simp), checkedMul_bind_eq_iff (by simp), ← and_assoc]
  apply and_congr_right
  intro _
  rw [bind_eq_ok]
  cases hf : span.fraction with
  | none => simp [plus_eq_ok_iff, Span.seconds, Span.nanos]
  | some f =>
    have hpos := hfraction f hf
    dsimp only
    constructor
    . rintro ⟨whole, hwhole, hrest⟩
      obtain ⟨seconds, nanos, hamounts, hsum⟩ := (plusFraction_eq_iff hpos (by simp)).1 hrest
      exact ⟨whole, seconds, nanos, plus_eq_ok_iff.1 hwhole, hamounts, plus_eq_ok_iff.1 hsum⟩
    . rintro ⟨whole, seconds, nanos, hwhole, hamounts, hsum⟩
      refine ⟨whole, plus_eq_ok_iff.2 hwhole, ?_⟩
      exact (plusFraction_eq_iff hpos (by simp)).2 ⟨_, _, hamounts, plus_eq_ok_iff.2 hsum⟩

theorem plusSpan_eq_secondsOverflow_iff :
    d.plusSpan span.count span.fraction name = .error .secondsOverflow ↔ span.RunsOver d := by
  unfold plusSpan Span.RunsOver
  rw [hname]
  dsimp only
  rw [checkedMul_bind_eq_iff (by simp), checkedMul_bind_eq_iff (by simp), ← and_assoc]
  apply and_congr_right
  intro _
  rw [bind_eq_error, plus_eq_secondsOverflow_iff]
  apply or_congr_right
  cases hf : span.fraction with
  | none => simp
  | some f =>
    have hpos := hfraction f hf
    dsimp only
    constructor
    . rintro ⟨whole, hwhole, hrest⟩
      obtain ⟨seconds, nanos, hamounts, hover⟩ := (plusFraction_eq_iff hpos (by simp)).1 hrest
      exact ⟨whole, f, seconds, nanos, plus_eq_ok_iff.1 hwhole, rfl, hamounts,
        plus_eq_secondsOverflow_iff.1 hover⟩
    . rintro ⟨whole, _, seconds, nanos, hwhole, ⟨⟩, hamounts, hover⟩
      refine ⟨whole, plus_eq_ok_iff.2 hwhole, ?_⟩
      exact (plusFraction_eq_iff hpos (by simp)).2
        ⟨_, _, hamounts, plus_eq_secondsOverflow_iff.2 hover⟩

end

end Timespan

end ReadProgress
