import ReadProgress.Proofs.Snapshot.Form

/-!
This module contains the proof that policies for removal survive their written form, on its own and
as a string of the data format, with any white space around it. Two policies are written alike only if
they are the same.
-/

namespace ReadProgress

open Json (Decoder writeString)
open Json.Reader (Takes Gives Accepts)

theorem skipBlank_append {front : List Char} (h : ∀ c ∈ front, isBlank c = true)
    (text : List Char) : skipBlank (front ++ text) = skipBlank text :=
  List.dropWhile_append_of_pos h

theorem trimBlank_append {front back : List Char} (hfront : ∀ c ∈ front, isBlank c = true)
    (hback : ∀ c ∈ back, isBlank c = true) (text : List Char) :
    trimBlank (front ++ text ++ back) = trimBlank text := by
  have hreverse : ∀ c ∈ back.reverse, isBlank c = true := by simpa using hback
  unfold trimBlank
  rw [List.append_assoc, skipBlank_append hfront]
  by_cases hblank : ∀ c ∈ text, isBlank c = true
  . have hnil : ∀ blank : List Char, (∀ c ∈ blank, isBlank c = true) → skipBlank blank = [] :=
      fun blank h => List.dropWhile_eq_nil_iff.2 h
    rw [skipBlank_append hblank, hnil back hback, hnil text hblank]
  . have hne : skipBlank text ≠ [] := fun h => hblank (List.dropWhile_eq_nil_iff.1 h)
    have hsplit : skipBlank (text ++ back) = skipBlank text ++ back := by
      unfold skipBlank at hne ⊢
      rw [List.dropWhile_append, if_neg (by simpa using hne)]
    rw [hsplit, List.reverse_append, skipBlank_append hreverse]

namespace Json.Decoder

variable {α : Type} {d : Decoder α}

theorem accepts_parsed {expected : String} {f : String → Except Reason α} {s : String} {a : α}
    (h : f s = .ok a) (depth : Nat) : Accepts ((parsed expected f).text depth) (writeString s) a := by
  have htext : writeString s = byte '"' :: ((bytesOf s).flatMap escapeByte ++ [byte '"']) := by
    simpa using writeString_append s []
  refine ⟨⟨_, _, htext, by decide, by decide⟩, fun space rest hspace _ => ?_⟩
  rw [writeString_append]
  refine (Reader.takes_start space hspace (by decide)).bind ?_
  rw [if_pos rfl]
  refine Takes.located ((Takes.take _ _).bind ?_)
  exact (Reader.takes_string s rest).bind (Reader.takes_checked h rest)

theorem accepts_andThen {β : Type} {f : α → Except Reason β} {text : Bytes} {a : α} {b : β}
    {depth : Nat} (hd : Accepts (d.text depth) text a) (h : f a = .ok b) :
    Accepts ((d.andThen f).text depth) text b :=
  ⟨hd.starts, fun space rest hspace hrest =>
    (hd.takes space rest hspace hrest).bind (Reader.takes_checked h rest)⟩

theorem decodeText_of_accepts {text : Bytes} {a : α}
    (h : Accepts (d.text Reader.depthLimit) text a) (streamed : Bool) :
    d.decodeText streamed text = .ok a := by
  have htakes := h.takes [] [] (List.forall_mem_nil _) (by simp [EndsNumber])
  rw [List.nil_append, List.append_nil] at htakes
  exact htakes.run streamed

end Json.Decoder

namespace Ttl

variable {t u : Ttl}

theorem read_append {front back : String} (hfront : ∀ c ∈ front.toList, isBlank c = true)
    (hback : ∀ c ∈ back.toList, isBlank c = true) (text : String) :
    read (front ++ text ++ back) = read text := by
  unfold read
  rw [String.toList_append, String.toList_append, trimBlank_append hfront hback]

theorem decodes_of_read {text : String} (h : read text = .ok t) :
    decoder.value (.string text) = .ok t ∧ ∀ (streamed : Bool) (layout : Json.Layout) (level : Nat),
      decoder.decodeText streamed ((Json.string text).write layout level) = .ok t := by
  have hvalue : (read text).mapError Json.Reason.ttl = .ok t := mapError_eq_ok.2 h
  refine ⟨hvalue, fun streamed layout level => ?_⟩
  exact Decoder.decodeText_of_accepts
    (Decoder.accepts_andThen (Decoder.accepts_parsed rfl _) hvalue) streamed

theorem ne_after_zero_of_decodeText {streamed : Bool} {text : Bytes}
    (h : decoder.decodeText streamed text = .ok t) : t ≠ after .zero := by
  refine Gives.run (P := fun t => t ≠ after .zero) (Gives.andThen fun inner => ?_) h
  exact Json.Reader.gives_checked fun t hread => ne_after_zero_of_read (mapError_eq_ok.1 hread)

/--
The ways in which policies come about.
-/
inductive Arises : Ttl → Prop where
  | never : Arises never
  | immediate : Arises immediate
  | ofTimespan (d : Timespan) : Arises (ofTimespan d)
  | read {text : String} {t : Ttl} (h : Ttl.read text = .ok t) : Arises t
  | value {j : Json} {t : Ttl} (h : decoder.value j = .ok t) : Arises t
  | decodeText {streamed : Bool} {text : Bytes} {t : Ttl}
      (h : decoder.decodeText streamed text = .ok t) : Arises t

theorem Arises.ne_after_zero (h : t.Arises) : t ≠ after .zero := by
  cases h with
  | never | immediate => simp
  | ofTimespan d => exact ofTimespan_ne_after_zero d
  | read h => exact ne_after_zero_of_read h
  | value h => exact ne_after_zero_of_value h
  | decodeText h => exact ne_after_zero_of_decodeText h

/--
Policies survive their written form, however they have come about. None of them waits for no time at
all, which would be read as something else. What is read back is the same policy, so that it allows
the same removals at the same moments, and no two policies are written alike.
-/
theorem survives_writing (h : t.Arises) :
    t ≠ after .zero ∧
      (∀ front back : String, (∀ c ∈ front.toList, isBlank c = true) →
        (∀ c ∈ back.toList, isBlank c = true) →
          read (front ++ t.written ++ back) = .ok t ∧
          decoder.value (.string (front ++ t.written ++ back)) = .ok t ∧
          ∀ (streamed : Bool) (layout : Json.Layout) (level : Nat), decoder.decodeText streamed
            ((Json.string (front ++ t.written ++ back)).write layout level) = .ok t) ∧
      (∀ u : Ttl, u.Arises → (t.written = u.written ↔ t = u)) ∧
      ∀ reloaded : Ttl, read t.written = .ok reloaded → ∀ updated now : Timestamp,
        reloaded.isExpired updated now = t.isExpired updated now := by
  have hread : read t.written = .ok t := read_written h.ne_after_zero
  refine ⟨h.ne_after_zero, fun front back hfront hback => ?_, fun u hu => ⟨fun hwritten => ?_, ?_⟩, ?_⟩
  . have hsurrounded : read (front ++ t.written ++ back) = .ok t := by
      rw [read_append hfront hback, hread]
    exact ⟨hsurrounded, decodes_of_read hsurrounded⟩
  . rw [hwritten, read_written hu.ne_after_zero] at hread
    exact (Except.ok.inj hread).symm
  . rintro rfl
    rfl
  . intro reloaded hreloaded updated now
    rw [hread] at hreloaded
    rw [Except.ok.inj hreloaded]

/--
The longest time there is to wait.
-/
def longest : Ttl :=
  ofTimespan { seconds := 18446744073709551615, nanos := 999999999 }

theorem survives_writing_longest :
    longest.Arises ∧ longest ≠ after .zero ∧
      longest.written =
        "584542046090years 7months 15days 17h 5m 3s 999ms 999us 999ns" ∧
      read ("\t" ++ longest.written ++ " ") = .ok longest := by
  have harises : longest.Arises := .ofTimespan _
  obtain ⟨hne, hsurrounded, -⟩ := survives_writing harises
  exact ⟨harises, hne, by decide +kernel, (hsurrounded "\t" " " (by simp [isBlank]) (by simp [isBlank])).1⟩

end Ttl

end ReadProgress
