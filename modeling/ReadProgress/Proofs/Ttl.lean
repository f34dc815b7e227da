import ReadProgress.Proofs.Timespan
import ReadProgress.Proofs.Timestamp
import ReadProgress.Ttl

/-!
This module contains the proof that policies for removal are read as they were written. The one
policy that is read as another one is that of waiting for no time at all.
-/

namespace ReadProgress

theorem trimBlank_of_ends {c l : Char} {middle : List Char} (hc : isBlank c = false)
    (hl : isBlank l = false) : trimBlank (c :: (middle ++ [l])) = c :: (middle ++ [l]) := by
  have hback : (c :: (middle ++ [l])).reverse = l :: (middle.reverse ++ [c]) := by simp
  rw [trimBlank, skipBlank_of_not_isBlank hc, hback, skipBlank_of_not_isBlank hl, ← hback,
    List.reverse_reverse]

namespace Ttl

theorem read_written {t : Ttl} (h : t ≠ after .zero) : read t.written = .ok t := by
  cases t with
  | never => rfl
  | immediate =>
    have htrim : trimBlank "0s".toList = Timespan.zero.written.toList := by decide
    rw [read, written, htrim, if_neg (by decide), Timespan.read_written]
    rfl
  | after d =>
    have hzero : d.isZero = false := by
      rw [Bool.eq_false_iff]
      intro hd
      exact h (congrArg after ((Timespan.isZero_iff d).1 hd))
    obtain ⟨c, middle, l, htext, hc, hl⟩ := Timespan.ends_written hzero
    have htrim : trimBlank d.written.toList = d.written.toList := by
      rw [htext]
      exact trimBlank_of_ends (isBlank_of_isDigit hc) hl
    have hnever : d.written.toList ≠ "never".toList := by
      rw [htext]
      intro heq
      have hn : c = 'n' := (List.cons.inj heq).1
      rw [hn] at hc
      cases hc
    rw [read, written, htrim, if_neg hnever, Timespan.read_written]
    show Except.ok (ofTimespan d) = _
    rw [ofTimespan, if_neg (by simp [hzero])]

theorem ne_after_zero_of_read {text : String} {t : Ttl} (h : read text = .ok t) :
    t ≠ after .zero := by
  unfold read at h
  dsimp only at h
  split at h
  . cases h
    simp
  . cases hread : Timespan.read (trimBlank text.toList) with
    | error e =>
      rw [hread] at h
      cases h
    | ok d =>
      rw [hread] at h
      cases h
      exact ofTimespan_ne_after_zero d

end Ttl

end ReadProgress
