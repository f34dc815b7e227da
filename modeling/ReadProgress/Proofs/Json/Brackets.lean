import ReadProgress.Json.Writer
import ReadProgress.Proofs.Json.Number
import ReadProgress.Proofs.Json.Quoted
import ReadProgress.Json.Reader

/-!
This module contains the reading of lists and objects as they are written, given that each item is
read as it is written. What is read from an item may be something else than what was written.
-/

namespace ReadProgress

namespace Json

variable {α β : Type}

/--
What is written between the brackets of a list or an object: items with commas between them, `inner`
in front of each and `outer` behind the last one.
-/
def between (inner outer : Bytes) (w : β → Bytes) : List β → Bytes
  | [] => []
  | x :: xs => inner ++ w x ++ xs.flatMap (fun x => byte ',' :: inner ++ w x) ++ outer

theorem between_map {γ : Type} (inner outer : Bytes) (w : β → Bytes) (g : γ → β) (xs : List γ) :
    between inner outer w (xs.map g) = between inner outer (fun x => w (g x)) xs := by
  cases xs with
  | nil => rfl
  | cons x xs => simp only [List.map_cons, between, List.flatMap_map]

/--
How a member is written, given how its value is.
-/
def writeMember (layout : Layout) (w : β → Bytes) (member : String × β) : Bytes :=
  writeString member.1 ++ layout.colon ++ w member.2

/--
A text in front of which an item of a list is found.
-/
def StartsItem (text : Bytes) : Prop :=
  ∃ b rest, text = b :: rest ∧ Reader.isSpace b = false ∧ b ≠ byte ']'

theorem StartsItem.append {text : Bytes} (h : StartsItem text) (rest : Bytes) :
    StartsItem (text ++ rest) := by
  obtain ⟨b, tail, rfl, hb⟩ := h
  exact ⟨b, tail ++ rest, rfl, hb⟩

/--
Wherever the text stands for an item, the reader gives back `a` for it.
-/
structure Reader.Accepts (reader : Reader α) (text : Bytes) (a : α) : Prop where
  starts : StartsItem text
  takes : ∀ space rest, (∀ b ∈ space, Reader.isSpace b = true) → EndsNumber rest →
    Reader.Takes reader (space ++ (text ++ rest)) a rest

namespace Layout

theorem isSpace_newline (layout : Layout) (level : Nat) :
    ∀ b ∈ layout.newline level, Reader.isSpace b = true := by
  intro b hmem
  cases layout with
  | compact => cases hmem
  | indented =>
    simp only [newline, List.mem_cons, List.mem_replicate] at hmem
    rcases hmem with rfl | ⟨-, rfl⟩ <;> decide

theorem endsNumber_newline (layout : Layout) (level : Nat) {b : UInt8} {rest : Bytes}
    (h : EndsNumber (b :: rest)) : EndsNumber (layout.newline level ++ b :: rest) := by
  cases layout with
  | compact => exact h
  | indented =>
    intro b' hb'
    obtain rfl : byte '\n' = b' := by simpa [newline] using hb'
    decide

end Layout

namespace Reader

theorem takes_nextItem_first {space text : Bytes} (hspace : ∀ b ∈ space, isSpace b = true)
    (h : StartsItem text) : Takes (nextItem true) (space ++ text) true text := by
  obtain ⟨b, rest, rfl, hb, hne⟩ := h
  refine (Takes.peekToken hspace (by simpa using hb)).bind ?_
  simp only [List.head?_cons, hne, if_false, if_true]
  exact Takes.pure _ _

theorem takes_nextItem {space text : Bytes} (hspace : ∀ b ∈ space, isSpace b = true)
    (h : StartsItem text) : Takes (nextItem false) (byte ',' :: (space ++ text)) true text := by
  obtain ⟨b, rest, rfl, hb, hne⟩ := h
  refine (Takes.peekToken_cons (show isSpace (byte ',') = false by decide) _).bind ?_
  simp only [if_neg (show byte ',' ≠ byte ']' by decide), Bool.false_eq_true,
    if_false, if_true]
  refine (Takes.take _ _).bind ((Takes.peekToken hspace (by simpa using hb)).bind ?_)
  simp only [List.head?_cons, hne, if_false]
  exact Takes.pure _ _

theorem takes_nextItem_end (first : Bool) (space : Bytes) {rest : Bytes}
    (hspace : ∀ b ∈ space, isSpace b = true) :
    Takes (nextItem first) (space ++ byte ']' :: rest) false (byte ']' :: rest) := by
  refine (Takes.peekToken hspace (by simp; decide)).bind ?_
  simp only [List.head?_cons, if_true]
  exact Takes.pure _ _

theorem takes_closeList (rest : Bytes) : Takes closeList (byte ']' :: rest) ⟨⟩ rest := by
  refine (Takes.peekToken_cons (show isSpace (byte ']') = false by decide) _).bind ?_
  simp only [if_true]
  exact (Takes.take _ _).bind (Takes.pure _ _)

theorem takes_nextMember_first {space rest : Bytes} (hspace : ∀ b ∈ space, isSpace b = true) :
    Takes (nextMember true) (space ++ byte '"' :: rest) true (byte '"' :: rest) := by
  refine (Takes.peekToken hspace (by simp; decide)).bind ?_
  simp only [List.head?_cons, if_neg (show byte '"' ≠ byte '\x7d' by decide), if_true]
  exact Takes.pure _ _

theorem takes_nextMember {space rest : Bytes} (hspace : ∀ b ∈ space, isSpace b = true) :
    Takes (nextMember false) (byte ',' :: (space ++ byte '"' :: rest)) true (byte '"' :: rest) := by
  refine (Takes.peekToken_cons (show isSpace (byte ',') = false by decide) _).bind ?_
  simp only [if_neg (show byte ',' ≠ byte '\x7d' by decide), Bool.false_eq_true,
    if_false, if_true]
  refine (Takes.take _ _).bind ((Takes.peekToken hspace (by simp; decide)).bind ?_)
  simp only [List.head?_cons, if_true]
  exact Takes.pure _ _

theorem takes_nextMember_end (first : Bool) (space : Bytes) {rest : Bytes}
    (hspace : ∀ b ∈ space, isSpace b = true) :
    Takes (nextMember first) (space ++ byte '\x7d' :: rest) false (byte '\x7d' :: rest) := by
  refine (Takes.peekToken hspace (by simp; decide)).bind ?_
  simp only [List.head?_cons, if_true]
  exact Takes.pure _ _

theorem takes_closeObject (rest : Bytes) : Takes closeObject (byte '\x7d' :: rest) ⟨⟩ rest := by
  refine (Takes.peekToken_cons (show isSpace (byte '\x7d') = false by decide) _).bind ?_
  simp only [if_true]
  exact (Takes.take _ _).bind (Takes.pure _ _)

theorem takes_colon (layout : Layout) (text : Bytes) :
    ∃ space : Bytes, (∀ b ∈ space, isSpace b = true) ∧
      Takes colon (layout.colon ++ text) ⟨⟩ (space ++ text) := by
  have hcolon : ∀ rest, Takes colon (byte ':' :: rest) ⟨⟩ rest := by
    intro rest
    refine (Takes.peekToken_cons (show isSpace (byte ':') = false by decide) _).bind ?_
    simp only [if_true]
    exact (Takes.take _ _).bind (Takes.pure _ _)
  cases layout with
  | compact => exact ⟨[], by simp, hcolon text⟩
  | indented => exact ⟨[byte ' '], by simp; decide, hcolon (byte ' ' :: text)⟩

theorem takes_name (s : String) (rest : Bytes) : Takes name (writeString s ++ rest) s rest := by
  rw [writeString_append]
  exact (Takes.take _ _).bind (takes_string s rest)

theorem length_le_flatMap (inner : Bytes) (w : β → Bytes) (xs : List β) :
    xs.length ≤ (xs.flatMap fun x => byte ',' :: inner ++ w x).length := by
  induction xs with
  | nil => simp
  | cons x xs ih =>
    simp only [List.flatMap_cons, List.length_append, List.length_cons]
    omega

section

variable {inner outer : Bytes} {w : β → Bytes} {f : β → α} {reader : Reader α}
  (hinner : ∀ b ∈ inner, isSpace b = true) (houter : ∀ b ∈ outer, isSpace b = true)

theorem endsNumber_comma (rest : Bytes) : EndsNumber (byte ',' :: rest) := by
  intro b hb
  obtain rfl : byte ',' = b := by simpa using hb
  decide

theorem endsNumber_behind {w : β → Bytes} (xs : List β) {close : Bytes}
    (hclose : EndsNumber close) :
    EndsNumber (xs.flatMap (fun x => byte ',' :: inner ++ w x) ++ close) := by
  cases xs with
  | nil => exact hclose
  | cons x xs => exact endsNumber_comma _

include hinner houter

theorem takes_itemsBehind {xs : List β} (hxs : ∀ x ∈ xs, Accepts reader (w x) (f x)) {rest : Bytes}
    (hrest : EndsNumber (outer ++ byte ']' :: rest)) (turns : Nat) (hturns : xs.length < turns) :
    Takes (items reader false turns)
      (xs.flatMap (fun x => byte ',' :: inner ++ w x) ++ (outer ++ byte ']' :: rest)) (xs.map f)
      (byte ']' :: rest) := by
  -- Each item takes one turn, and the bracket takes the last one.
  induction turns generalizing xs with
  | zero => omega
  | succ turns ih =>
    cases xs with
    | nil => exact (takes_nextItem_end false outer houter).bind (Takes.pure _ _)
    | cons x xs =>
      obtain ⟨hstarts, htakes⟩ := hxs x List.mem_cons_self
      have hbehind := @endsNumber_behind _ inner w xs _ hrest
      have hlater := ih (fun x' hmem => hxs x' (List.mem_cons_of_mem _ hmem))
        (Nat.lt_of_succ_lt_succ hturns)
      have hnext := takes_nextItem hinner (hstarts.append (xs.flatMap
        (fun x => byte ',' :: inner ++ w x) ++ (outer ++ byte ']' :: rest)))
      simp only [List.flatMap_cons, List.append_assoc, List.cons_append, List.map_cons]
      simp only [List.cons_append] at hnext hlater
      refine hnext.bind ?_
      simp only [if_true]
      exact (htakes [] _ (by simp) hbehind).bind (hlater.bind (Takes.pure _ _))

theorem takes_list {item : Nat → Reader α} {depth : Nat} {xs : List β}
    (hxs : ∀ x ∈ xs, Accepts (item depth) (w x) (f x))
    (hend : ∀ rest, EndsNumber (outer ++ byte ']' :: rest)) (rest : Bytes) :
    Takes (list item (depth + 1)) (byte '[' :: (between inner outer w xs ++ byte ']' :: rest))
      (xs.map f) rest := by
  refine (Takes.take _ _).bind (Takes.enclosed (Takes.repeated ?_) (takes_closeList rest))
  cases xs with
  | nil => exact (takes_nextItem_end true [] (by simp)).bind (Takes.pure _ _)
  | cons x xs =>
    obtain ⟨hstarts, htakes⟩ := hxs x List.mem_cons_self
    have hbehind := @endsNumber_behind _ inner w xs _ (hend rest)
    have hlength := length_le_flatMap inner w xs
    have hlater := takes_itemsBehind hinner houter
      (fun x' hmem => hxs x' (List.mem_cons_of_mem _ hmem)) (hend rest)
      (2 * (between inner outer w (x :: xs) ++ byte ']' :: rest).length + 1)
      (by simp only [between, List.length_append]; omega)
    have hnext := takes_nextItem_first hinner (hstarts.append (xs.flatMap
      (fun x => byte ',' :: inner ++ w x) ++ (outer ++ byte ']' :: rest)))
    have htext : between inner outer w (x :: xs) ++ byte ']' :: rest =
        inner ++ (w x ++ (xs.flatMap (fun x => byte ',' :: inner ++ w x) ++
          (outer ++ byte ']' :: rest))) := by
      simp only [between, List.append_assoc]
    rw [htext] at hlater ⊢
    refine hnext.bind ?_
    simp only [if_true]
    exact (htakes [] _ (by simp) hbehind).bind (hlater.bind (Takes.pure _ _))

theorem takes_membersBehind (layout : Layout) {xs : List (String × β)}
    (hxs : ∀ x ∈ xs, Accepts reader (w x.2) (f x.2)) {rest : Bytes}
    (hrest : EndsNumber (outer ++ byte '\x7d' :: rest)) (turns : Nat)
    (hturns : xs.length < turns) :
    Takes (members reader false turns)
      (xs.flatMap (fun x => byte ',' :: inner ++ writeMember layout w x) ++
        (outer ++ byte '\x7d' :: rest))
      (xs.map fun x => (x.1, f x.2)) (byte '\x7d' :: rest) := by
  induction turns generalizing xs with
  | zero => omega
  | succ turns ih =>
    cases xs with
    | nil => exact (takes_nextMember_end false outer houter).bind (Takes.pure _ _)
    | cons x xs =>
      obtain ⟨-, htakes⟩ := hxs x List.mem_cons_self
      have hbehind := @endsNumber_behind _ inner (writeMember layout w) xs _ hrest
      have hlater := ih (fun x' hmem => hxs x' (List.mem_cons_of_mem _ hmem))
        (Nat.lt_of_succ_lt_succ hturns)
      generalize htail : xs.flatMap (fun x => byte ',' :: inner ++ writeMember layout w x) ++
        (outer ++ byte '\x7d' :: rest) = tail at hbehind hlater
      obtain ⟨space, hspace, hcolon⟩ := takes_colon layout (w x.2 ++ tail)
      have htext : (x :: xs).flatMap (fun x => byte ',' :: inner ++ writeMember layout w x) ++
          (outer ++ byte '\x7d' :: rest) =
          byte ',' :: (inner ++ (writeString x.1 ++ (layout.colon ++ (w x.2 ++ tail)))) := by
        rw [← htail]
        simp only [List.flatMap_cons, writeMember, List.append_assoc, List.cons_append]
      rw [htext, writeString_append]
      refine (takes_nextMember hinner).bind ?_
      simp only [if_true]
      rw [← writeString_append]
      refine (takes_name x.1 _).bind (hcolon.bind ?_)
      exact (htakes space _ hspace hbehind).bind (hlater.bind (Takes.pure _ _))

theorem takes_object (layout : Layout) {value : Nat → Reader α} {depth : Nat}
    {xs : List (String × β)} (hxs : ∀ x ∈ xs, Accepts (value depth) (w x.2) (f x.2))
    (hend : ∀ rest, EndsNumber (outer ++ byte '\x7d' :: rest)) (rest : Bytes) :
    Takes (object value (depth + 1))
      (byte '\x7b' :: (between inner outer (writeMember layout w) xs ++ byte '\x7d' :: rest))
      (xs.map fun x => (x.1, f x.2)) rest := by
  refine (Takes.take _ _).bind (Takes.enclosed (Takes.repeated ?_) (takes_closeObject rest))
  cases xs with
  | nil => exact (takes_nextMember_end true [] (by simp)).bind (Takes.pure _ _)
  | cons x xs =>
    obtain ⟨-, htakes⟩ := hxs x List.mem_cons_self
    have hbehind := @endsNumber_behind _ inner (writeMember layout w) xs _ (hend rest)
    have hlength := length_le_flatMap inner (writeMember layout w) xs
    have hlater := takes_membersBehind hinner houter layout
      (fun x' hmem => hxs x' (List.mem_cons_of_mem _ hmem)) (hend rest)
      (2 * (between inner outer (writeMember layout w) (x :: xs) ++
        byte '\x7d' :: rest).length + 1)
      (by simp only [between, List.length_append]; omega)
    have htext : between inner outer (writeMember layout w) (x :: xs) ++ byte '\x7d' :: rest =
        inner ++ (writeString x.1 ++ (layout.colon ++ (w x.2 ++
          (xs.flatMap (fun x => byte ',' :: inner ++ writeMember layout w x) ++
            (outer ++ byte '\x7d' :: rest))))) := by
      simp only [between, writeMember, List.append_assoc]
    rw [htext] at hlater ⊢
    generalize xs.flatMap (fun x => byte ',' :: inner ++ writeMember layout w x) ++
      (outer ++ byte '\x7d' :: rest) = tail at hbehind hlater
    obtain ⟨space, hspace, hcolon⟩ := takes_colon layout (w x.2 ++ tail)
    rw [writeString_append]
    refine (takes_nextMember_first hinner).bind ?_
    simp only [if_true]
    rw [← writeString_append]
    refine (takes_name x.1 _).bind (hcolon.bind ?_)
    exact (htakes space _ hspace hbehind).bind (hlater.bind (Takes.pure _ _))

end

end Reader

end Json

end ReadProgress
