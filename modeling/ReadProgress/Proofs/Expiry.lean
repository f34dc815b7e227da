import ReadProgress.Record

/-!
This module contains how the time of records runs out. What may be removed at some moment may be removed
at all later ones, unless there are leap seconds: they are counted or not depending on the time of day,
so that the age of a record may go back while the clock goes on.
-/

namespace ReadProgress

namespace Timestamp

/--
The order of moments on the clock.
-/
instance : LE Timestamp where
  le t u := t.day < u.day ∨ t.day = u.day ∧
    (t.second < u.second ∨ t.second = u.second ∧ t.nano ≤ u.nano)

instance (t u : Timestamp) : Decidable (t ≤ u) :=
  inferInstanceAs (Decidable (_ ∨ _))

/--
A moment within a leap second.
-/
def IsLeap (t : Timestamp) : Prop :=
  1000000000 ≤ t.nano

instance (t : Timestamp) : Decidable t.IsLeap :=
  inferInstanceAs (Decidable (_ ≤ _))

variable {start t u : Timestamp}

theorem nanosSince_le (h : t ≤ u) (hstart : ¬ start.IsLeap) (ht : ¬ t.IsLeap) (hu : ¬ u.IsLeap) :
    t.nanosSince start ≤ u.nanosSince start := by
  rw [nanosSince_of_lt (Nat.lt_of_not_le ht) (Nat.lt_of_not_le hstart),
    nanosSince_of_lt (Nat.lt_of_not_le hu) (Nat.lt_of_not_le hstart)]
  have hsecond := t.second_lt
  have hnano := Nat.lt_of_not_le ht
  unfold toSeconds
  rcases h with hday | ⟨hday, hsecond' | ⟨hsecond', hnano'⟩⟩
  . omega
  . omega
  . omega

example :
    let start : Timestamp := { day := 0, second := 120, nano := 0 }
    let t : Timestamp := { day := 1, second := 59, nano := 999999999 }
    let u : Timestamp := { day := 1, second := 59, nano := 1000000000 }
    t ≤ u ∧ u.IsLeap ∧ u.nanosSince start < t.nanosSince start := by decide

end Timestamp

theorem Ttl.isExpired_of_le (ttl : Ttl) {updated first second : Timestamp} (h : first ≤ second)
    (hupdated : ¬ updated.IsLeap) (hfirst : ¬ first.IsLeap) (hsecond : ¬ second.IsLeap)
    (hexpired : ttl.isExpired updated first = true) : ttl.isExpired updated second = true := by
  cases ttl with
  | never => exact hexpired
  | immediate => rfl
  | after d =>
    have hpassed : (d.toNanos : Int) < first.nanosSince updated := of_decide_eq_true hexpired
    exact decide_eq_true
      (Int.lt_of_lt_of_le hpassed (Timestamp.nanosSince_le h hupdated hfirst hsecond))

namespace Record

variable {record : Record} {now first second : Timestamp}

theorem isRemovable_iff :
    record.isRemovable now = true ↔ record.isExpired now = true ∧ record.finished = true :=
  Bool.and_eq_true_iff

theorem isRemovable_of_le (h : first ≤ second) (hrecord : ¬ record.timestamp.IsLeap)
    (hfirst : ¬ first.IsLeap) (hsecond : ¬ second.IsLeap)
    (hremovable : record.isRemovable first = true) : record.isRemovable second = true := by
  rw [isRemovable_iff] at hremovable ⊢
  exact ⟨record.ttl.isExpired_of_le h hrecord hfirst hsecond hremovable.1, hremovable.2⟩

theorem isPending_iff :
    record.isPending now = true ↔ (∃ d, record.ttl = .after d) ∧ record.isExpired now = false := by
  unfold isPending Ttl.canExpire
  cases record.ttl with
  | never => simp
  | immediate => simp
  | after d => simp

theorem isPending_of_isRemovable {other : Timestamp} (hkept : record.isRemovable now = false)
    (h : record.isRemovable other = true) : record.isPending now = true := by
  obtain ⟨hexpired, hfinished⟩ := isRemovable_iff.1 h
  have hnow : record.isExpired now = false := by
    rw [isRemovable, hfinished, Bool.and_true] at hkept
    exact hkept
  refine isPending_iff.2 ⟨?_, hnow⟩
  unfold isExpired at hexpired hnow
  cases httl : record.ttl with
  | never =>
    rw [httl] at hexpired
    cases hexpired
  | immediate =>
    rw [httl] at hnow
    cases hnow
  | after d => exact ⟨d, rfl⟩

end Record

end ReadProgress
