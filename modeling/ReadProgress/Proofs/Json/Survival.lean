import Mathlib
import ReadProgress.Json.Decoder

/-!
This module contains the proof that no text is refused for a reason that no operation survives, as
long as nothing but values is read from it. Such a reason comes from policies for removal only, and
these are not read before the text as a whole has been accepted.
-/

namespace ReadProgress

namespace Json

open Std.Do

set_option mvcgen.warning false

namespace Reader

variable {α β : Type}

/--
The reader never refuses for a reason that no operation survives.
-/
abbrev Survives (reader : Reader α) : Prop :=
  ⦃⌜True⌝⦄ reader ⦃post⟨fun _ _ => ⌜True⌝, fun fault _ => ⌜fault.reason.isFatal = false⌝⟩⦄

theorem survives_iff {reader : Reader α} : Survives reader ↔
    ∀ (c c' : Cursor) (fault : Fault), reader c = .error fault c' → fault.reason.isFatal = false := by
  unfold Survives
  constructor
  . intro h c c' fault hrun
    have := h c trivial
    simp only [wp, PredTrans.apply, EStateM.run, hrun] at this
    exact this
  . intro h c _
    simp only [wp, PredTrans.apply, EStateM.run]
    cases hrun : reader c with
    | ok a c' => trivial
    | error fault c' => exact h c c' fault hrun

section

variable {reader : Reader α}

@[spec]
theorem survives_peek : Survives peek := by
  rw [survives_iff]
  intro c c' fault hrun
  unfold peek at hrun
  split at hrun <;> cases hrun

@[spec]
theorem survives_take : Survives take := by
  rw [survives_iff]
  intro c c' fault hrun
  unfold take at hrun
  split at hrun <;> cases hrun

@[spec]
theorem survives_takeWhile (p : UInt8 → Bool) : Survives (takeWhile p) := by
  rw [survives_iff]
  intro c c' fault hrun
  unfold takeWhile at hrun
  split at hrun <;> cases hrun

@[spec]
theorem survives_fail {reason : Reason} (h : reason.isFatal = false) :
    Survives (fail reason : Reader α) := by
  rw [survives_iff]
  intro c c' fault hrun
  cases hrun
  exact h

@[spec]
theorem survives_failAhead {reason : Reason} (h : reason.isFatal = false) :
    Survives (failAhead reason : Reader α) := by
  rw [survives_iff]
  intro c c' fault hrun
  cases hrun
  exact h

@[spec]
theorem survives_refuse {reason : Reason} (h : reason.isFatal = false) :
    Survives (refuse reason : Reader α) := by
  rw [survives_iff]
  intro c c' fault hrun
  cases hrun
  exact h

@[spec]
theorem survives_located (h : Survives reader) : Survives (located reader) := by
  rw [survives_iff] at h ⊢
  intro c c' fault hrun
  unfold located at hrun
  split at hrun
  . next hreader =>
    cases hrun
    exact h c _ ⟨_, none⟩ hreader
  . exact h _ _ _ hrun

@[spec]
theorem survives_enclosed {close : Reader PUnit} (h : Survives reader) (hclose : Survives close) :
    Survives (enclosed reader close) := by
  rw [survives_iff] at h hclose ⊢
  intro c c' fault hrun
  unfold enclosed at hrun
  split at hrun
  . split at hrun
    . cases hrun
    . next hend =>
      cases hrun
      exact hclose _ _ _ hend
  . next hreader =>
    split at hrun
    . cases hrun
      exact h _ _ _ hreader
    . cases hrun
      exact h _ _ _ hreader

theorem survives_map (f : α → β) (h : Survives reader) : Survives (f <$> reader) := by
  mvcgen [h]

@[spec]
theorem survives_repeated {turns : Nat → Reader α} (h : ∀ count, Survives (turns count)) :
    Survives (repeated turns) := by
  rw [survives_iff]
  intro c c' fault hrun
  exact survives_iff.1 (h _) c c' fault hrun

end

@[spec]
theorem survives_peekToken : Survives peekToken := by
  mvcgen [peekToken]

@[spec]
theorem survives_word (letters : Bytes) : Survives (word letters) := by
  induction letters with
  | nil => mvcgen [word]
  | cons b letters ih =>
    mvcgen [word, ih]
    all_goals simp [Reason.isFatal]

section Quoted

@[spec]
theorem survives_takeInString : Survives takeInString := by
  mvcgen [takeInString]
  all_goals simp [Reason.isFatal]

@[spec]
theorem survives_peekInString : Survives peekInString := by
  mvcgen [peekInString]
  all_goals simp [Reason.isFatal]

@[spec]
theorem survives_hexEscape : Survives hexEscape := by
  mvcgen [hexEscape]
  all_goals simp [Reason.isFatal]

@[spec]
theorem survives_nextInEscape (expected : UInt8) : Survives (nextInEscape expected) := by
  mvcgen [nextInEscape]
  all_goals simp [Reason.isFatal]

@[spec]
theorem survives_escape : Survives escape := by
  mvcgen [escape, unicodeEscape]
  all_goals simp [Reason.isFatal]

@[spec]
theorem survives_stringBytes (turns : Nat) : Survives (stringBytes turns) := by
  induction turns with
  | zero =>
    mvcgen [stringBytes]
    all_goals simp [Reason.isFatal]
  | succ turns ih =>
    mvcgen [stringBytes, ih]
    all_goals simp [Reason.isFatal]

@[spec]
theorem survives_string : Survives string := by
  rw [survives_iff]
  intro c c' fault hrun
  unfold string at hrun
  split at hrun
  . next hbytes =>
    cases hrun
    exact survives_iff.1 (survives_repeated survives_stringBytes) _ _ _ hbytes
  . split at hrun
    . cases hrun
    . cases hrun
      rfl

@[spec]
theorem survives_skipStringBytes (turns : Nat) : Survives (skipStringBytes turns) := by
  induction turns with
  | zero =>
    mvcgen [skipStringBytes]
    all_goals simp [Reason.isFatal]
  | succ turns ih =>
    mvcgen [skipStringBytes, skipEscape, ih]
    all_goals simp [Reason.isFatal]

@[spec]
theorem survives_skipString : Survives skipString :=
  survives_repeated survives_skipStringBytes

end Quoted

section Number

@[spec]
theorem survives_float (negative : Bool) (n : Nat) (exponent : Int) :
    Survives (float negative n exponent) := by
  mvcgen [float]
  all_goals simp [Reason.isFatal]

@[spec]
theorem survives_exponentDigits (exponent : Nat) (digits : Bytes) :
    Survives (exponentDigits exponent digits) := by
  induction digits generalizing exponent with
  | nil => mvcgen [exponentDigits]
  | cons b digits ih => mvcgen [exponentDigits, ih]

@[spec]
theorem survives_exponent (negative : Bool) (n : Nat) (shift : Int) :
    Survives (exponent negative n shift) := by
  mvcgen [exponent]
  all_goals simp [Reason.isFatal]

@[spec]
theorem survives_fraction (negative : Bool) (n : Nat) (shift : Int) :
    Survives (fraction negative n shift) := by
  mvcgen [fraction]
  all_goals simp [Reason.isFatal]

@[spec]
theorem survives_unsigned (negative : Bool) : Survives (unsigned negative) := by
  mvcgen [unsigned]
  all_goals simp [Reason.isFatal]

@[spec]
theorem survives_number : Survives number := by
  mvcgen [number]

@[spec]
theorem survives_skipNumber : Survives skipNumber := by
  mvcgen [skipNumber, skipNumber.skipExponent]
  all_goals simp [Reason.isFatal]

end Number

section Brackets

@[spec]
theorem survives_opening (depth : Nat) {inside : Nat → Reader α}
    (h : ∀ inner, depth = inner + 1 → Survives (inside inner)) : Survives (opening depth inside) := by
  cases depth with
  | zero =>
    mvcgen [opening]
    all_goals simp [Reason.isFatal]
  | succ depth =>
    have hinside := h depth rfl
    mvcgen [opening, hinside]

@[spec]
theorem survives_nextItem (first : Bool) : Survives (nextItem first) := by
  mvcgen [nextItem]
  all_goals simp [Reason.isFatal]

@[spec]
theorem survives_closeList : Survives closeList := by
  mvcgen [closeList]
  all_goals try split
  all_goals simp [Reason.isFatal]

@[spec]
theorem survives_nextMember (first : Bool) : Survives (nextMember first) := by
  mvcgen [nextMember]
  all_goals simp [Reason.isFatal]

@[spec]
theorem survives_closeObject : Survives closeObject := by
  mvcgen [closeObject]
  all_goals simp [Reason.isFatal]

@[spec]
theorem survives_name : Survives name := by
  mvcgen [name]

@[spec]
theorem survives_colon : Survives colon := by
  mvcgen [colon]
  all_goals simp [Reason.isFatal]

theorem survives_items {item : Reader α} (h : Survives item) (first : Bool) (turns : Nat) :
    Survives (items item first turns) := by
  induction turns generalizing first with
  | zero =>
    mvcgen [items]
    all_goals simp [Reason.isFatal]
  | succ turns ih => mvcgen [items, h, ih]

theorem survives_members {value : Reader α} (h : Survives value) (first : Bool) (turns : Nat) :
    Survives (members value first turns) := by
  induction turns generalizing first with
  | zero =>
    mvcgen [members]
    all_goals simp [Reason.isFatal]
  | succ turns ih => mvcgen [members, h, ih]

theorem survives_list {item : Nat → Reader α} (h : ∀ inner, Survives (item inner)) (depth : Nat) :
    Survives (list item depth) := by
  apply survives_opening
  intro inner _
  exact survives_enclosed (survives_repeated (survives_items (h inner) true)) survives_closeList

theorem survives_object {value : Nat → Reader α} (h : ∀ inner, Survives (value inner)) (depth : Nat) :
    Survives (object value depth) := by
  apply survives_opening
  intro inner _
  exact survives_enclosed (survives_repeated (survives_members (h inner) true)) survives_closeObject

end Brackets

@[spec]
theorem survives_scalar (first : UInt8) : Survives (scalar first) := by
  mvcgen [scalar]
  all_goals simp [Reason.isFatal]

@[spec]
theorem survives_value (depth : Nat) : Survives (value depth) := by
  induction depth with
  | zero =>
    mvcgen [value]
    all_goals simp [Reason.isFatal]
  | succ depth ih =>
    have hlist := survives_list (fun _ => ih) (depth + 1)
    have hobject := survives_object (fun _ => ih) (depth + 1)
    mvcgen [value, hlist, hobject]
    all_goals simp [Reason.isFatal]

theorem survives_skip (skipped : Skip) (turns : Nat) : Survives (skip skipped turns) := by
  induction turns generalizing skipped with
  | zero =>
    cases skipped
    all_goals
      mvcgen [skip]
      all_goals simp [Reason.isFatal]
  | succ turns ih =>
    cases skipped
    all_goals
      mvcgen [skip, ih]
      all_goals simp [Reason.isFatal]

@[spec]
theorem survives_skipValue : Survives skipValue :=
  survives_repeated (survives_skip .value)

@[spec]
theorem survives_start : Survives start := by
  mvcgen [start]
  all_goals simp [Reason.isFatal]

@[spec]
theorem survives_unexpected (expected : String) : Survives (unexpected expected : Reader α) := by
  apply survives_located
  mvcgen
  all_goals simp [Reason.isFatal]

theorem survives_checked {result : Except Reason α}
    (h : ∀ reason, result = .error reason → reason.isFatal = false) : Survives (checked result) := by
  cases result with
  | ok a => mvcgen [checked]
  | error reason => exact survives_refuse (h reason rfl)

theorem isFatal_of_run {reader : Reader α} (h : Survives reader) {streamed : Bool} {text : Bytes}
    {refusal : Refusal} (hrun : reader.run streamed text = .error refusal) :
    refusal.reason.isFatal = false := by
  unfold run at hrun
  extract_lets whole at hrun
  have hwhole : Survives whole := by
    mvcgen [whole, h]
    all_goals simp [Reason.isFatal]
  split at hrun
  . cases hrun
  . next hfault =>
    cases hrun
    exact survives_iff.1 hwhole _ _ _ hfault

end Reader

open Reader

namespace Decoder

variable {α β : Type}

theorem survives_members {d : Decoder α} (h : ∀ depth, Survives (d.text depth)) (depth : Nat) :
    Survives (d.members.text depth) := by
  have hobject := survives_object h depth
  mvcgen [members, hobject]

end Decoder

namespace RecordForm

variable {σ α : Type} {form : RecordForm σ α}

section

variable {depth : Nat} (hfields : ∀ field ∈ form.fields, Survives (field.decoder.text depth))

include hfields

theorem survives_readPositions {fields : List (Field σ)}
    (hsub : ∀ field ∈ fields, field ∈ form.fields) (index : Nat) (state : σ) :
    Survives (form.readPositions depth index state fields) := by
  induction fields generalizing index state with
  | nil => mvcgen [readPositions]
  | cons field fields ih =>
    have hfield := hfields field (hsub field List.mem_cons_self)
    have hlater := ih fun other hother => hsub other (List.mem_cons_of_mem _ hother)
    mvcgen [readPositions, hfield, hlater]
    all_goals simp [Reason.isFatal]

theorem survives_readMembers (first : Bool) (turns : Nat) (state : σ) :
    Survives (form.readMembers depth state first turns) := by
  induction turns generalizing first state with
  | zero =>
    mvcgen [readMembers]
    all_goals simp [Reason.isFatal]
  | succ turns ih =>
    mvcgen [readMembers, ih, hfields]
    all_goals first
      | exact List.mem_of_find?_eq_some ‹_›
      | simp [Reason.isFatal]

end

theorem isFatal_of_close {state : σ} {reason : Reason} (h : form.close state = .error reason) :
    reason.isFatal = false := by
  unfold close at h
  split at h
  . cases h
  . cases h
    simp [Reason.isFatal]

theorem survives_decoder
    (hfields : ∀ depth, ∀ field ∈ form.fields, Survives (field.decoder.text depth)) (depth : Nat) :
    Survives (form.decoder.text depth) := by
  have hclose : ∀ state, Survives (Reader.checked (form.close state)) := fun state =>
    survives_checked fun reason => isFatal_of_close
  have hpositions := fun inner =>
    survives_readPositions (hfields inner) fun (field : Field σ) (h : field ∈ form.fields) => h
  have hmembers := fun inner => survives_readMembers (hfields inner)
  mvcgen [decoder, hclose, hpositions, hmembers]

end RecordForm

end Json

end ReadProgress
