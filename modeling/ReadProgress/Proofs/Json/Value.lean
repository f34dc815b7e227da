import ReadProgress.Proofs.Json.Brackets
import ReadProgress.Proofs.Json.Float
import ReadProgress.Proofs.Json.Regular

/-!
This module contains the proof that regular values are read as they were written, up to the numbers
in double precision in them.
-/

namespace ReadProgress

namespace Json

open Double (storedExponent)
open Reader (Takes Accepts takes_list takes_object takes_integer takes_written)

/--
What is read for a number in double precision that was written.
-/
def rereadFloat (bits : UInt64) : UInt64 :=
  match Reader.number ⟨(Decimal.written bits).map byte, false, false⟩ with
  | .ok (.float read) _ => read
  | _ => bits

mutual

/--
What is read for a value that was written.
-/
def reread : Json → Json
  | null => null
  | boolean b => boolean b
  | integer i => integer i
  | float bits => float (rereadFloat bits)
  | string s => string s
  | array items => array (rereadItems items)
  | object members => object (rereadMembers members)
termination_by structural value => value

def rereadItems : List Json → List Json
  | [] => []
  | item :: items => item.reread :: rereadItems items
termination_by structural items => items

def rereadMembers : List (String × Json) → List (String × Json)
  | [] => []
  | (name, value) :: members => (name, value.reread) :: rereadMembers members
termination_by structural members => members

end

/--
There is no number in double precision in the value.
-/
inductive Exact : Json → Prop where
  | null : Exact null
  | boolean (b : Bool) : Exact (boolean b)
  | integer (i : Int) : Exact (integer i)
  | string (s : String) : Exact (string s)
  | array {items : List Json} (h : ∀ item ∈ items, Exact item) : Exact (array items)
  | object {members : List (String × Json)} (h : ∀ member ∈ members, Exact member.2) :
      Exact (object members)

theorem rereadItems_eq_map (items : List Json) : rereadItems items = items.map reread := by
  induction items with
  | nil => rfl
  | cons item items ih => rw [rereadItems, ih, List.map_cons]

theorem rereadMembers_eq_map (members : List (String × Json)) :
    rereadMembers members = members.map fun member => (member.1, member.2.reread) := by
  induction members with
  | nil => rfl
  | cons member members ih => rw [rereadMembers, ih, List.map_cons]

theorem Exact.reread_eq {j : Json} (h : Exact j) : j.reread = j := by
  induction h with
  | null | boolean | integer | string => rfl
  | array _ ih =>
    rw [reread, rereadItems_eq_map, List.map_congr_left ih, List.map_id']
  | object _ ih =>
    rw [reread, rereadMembers_eq_map, List.map_congr_left (g := id), List.map_id]
    intro member hmem
    rw [ih member hmem, id]

section

variable (layout : Layout) (level : Nat)

theorem writeItems_eq_flatMap (items : List Json) :
    writeItems layout level items =
      items.flatMap fun item => byte ',' :: layout.newline level ++ item.write layout level := by
  induction items with
  | nil => rfl
  | cons item items ih => rw [writeItems, ih, List.flatMap_cons]

theorem writeMembers_eq_flatMap (members : List (String × Json)) :
    writeMembers layout level members =
      members.flatMap fun member => byte ',' :: layout.newline level ++
        writeMember layout (write layout level) member := by
  induction members with
  | nil => rfl
  | cons member members ih =>
    rw [writeMembers, ih, List.flatMap_cons]
    simp only [writeMember, List.append_assoc]

theorem write_array (items : List Json) :
    (array items).write layout level =
      byte '[' :: (between (layout.newline (level + 1)) (layout.newline level)
        (write layout (level + 1)) items ++ [byte ']']) := by
  cases items with
  | nil => rfl
  | cons item items =>
    rw [write, writeItems_eq_flatMap, between]
    simp only [List.append_assoc, List.cons_append]

theorem write_object (members : List (String × Json)) :
    (object members).write layout level =
      byte '\x7b' :: (between (layout.newline (level + 1)) (layout.newline level)
        (writeMember layout (write layout (level + 1))) members ++ [byte '\x7d']) := by
  cases members with
  | nil => rfl
  | cons member members =>
    rw [write, writeMembers_eq_flatMap, between]
    simp only [writeMember, List.append_assoc, List.cons_append]

end

/--
The bytes that numbers start with.
-/
def StartsNumber (b : UInt8) : Prop :=
  b = byte '-' ∨ isDigit b = true

theorem StartsNumber.ne {b other : UInt8} (h : StartsNumber b) (hdigit : isDigit other = false)
    (hsign : other ≠ byte '-') : b ≠ other := by
  rintro rfl
  rcases h with rfl | h
  . exact hsign rfl
  . rw [hdigit] at h
    cases h

theorem StartsNumber.isSpace {b : UInt8} (h : StartsNumber b) : Reader.isSpace b = false := by
  simp only [Reader.isSpace, Bool.or_eq_false_iff, beq_eq_false_iff_ne]
  exact ⟨⟨⟨h.ne (by decide) (by decide), h.ne (by decide) (by decide)⟩,
    h.ne (by decide) (by decide)⟩, h.ne (by decide) (by decide)⟩

theorem writeInteger_eq_cons (i : Int) :
    ∃ b text, writeInteger i = b :: text ∧ StartsNumber b := by
  obtain ⟨c, digits, hdigits, hall, -⟩ := exists_cons_toDigits i.natAbs
  have hc : c.isDigit = true := List.all_eq_true.1 hall c List.mem_cons_self
  simp only [writeInteger, hdigits, List.map_cons]
  split
  . exact ⟨_, _, rfl, .inl rfl⟩
  . exact ⟨_, _, rfl, .inr (isDigit_byte hc)⟩

theorem Reader.scalar_of_startsNumber {b : UInt8} (h : StartsNumber b) : scalar b = number := by
  unfold scalar
  rw [if_neg (h.ne (by decide) (by decide)), if_neg (h.ne (by decide) (by decide)),
    if_neg (h.ne (by decide) (by decide))]
  exact if_pos h

section

variable {depth : Nat} {j : Json}

theorem accepts_of_scalar {b : UInt8} {text : Bytes} (hspace : Reader.isSpace b = false)
    (hlist : b ≠ byte '[') (hobject : b ≠ byte '\x7b') (hend : b ≠ byte ']')
    (h : ∀ rest, EndsNumber rest → Takes (Reader.scalar b) (b :: (text ++ rest)) j rest) :
    Accepts (Reader.value depth) (b :: text) j := by
  refine ⟨⟨b, text, rfl, hspace, hend⟩, fun space rest hspaces hrest => ?_⟩
  unfold Reader.value
  refine (Takes.peekToken hspaces (by simpa using hspace)).bind ?_
  simp only [List.cons_append, List.head?_cons, hlist, hobject, if_false]
  exact h rest hrest

theorem accepts_of_number {text : Bytes} (hstart : ∃ b tail, text = b :: tail ∧ StartsNumber b)
    (h : ∀ rest, EndsNumber rest → Takes Reader.number (text ++ rest) j rest) :
    Accepts (Reader.value depth) text j := by
  obtain ⟨b, tail, rfl, hb⟩ := hstart
  refine accepts_of_scalar hb.isSpace (hb.ne (by decide) (by decide))
    (hb.ne (by decide) (by decide)) (hb.ne (by decide) (by decide)) fun rest hrest => ?_
  rw [Reader.scalar_of_startsNumber hb]
  exact h rest hrest

theorem accepts_null : Accepts (Reader.value depth) (ascii "null") null :=
  accepts_of_scalar (by decide) (by decide) (by decide) (by decide) fun rest _ =>
    (Takes.take _ _).bind ((Takes.word (ascii "ull") rest).bind (Takes.pure _ _))

theorem accepts_true : Accepts (Reader.value depth) (ascii "true") (boolean true) :=
  accepts_of_scalar (by decide) (by decide) (by decide) (by decide) fun rest _ =>
    (Takes.take _ _).bind ((Takes.word (ascii "rue") rest).bind (Takes.pure _ _))

theorem accepts_false : Accepts (Reader.value depth) (ascii "false") (boolean false) :=
  accepts_of_scalar (by decide) (by decide) (by decide) (by decide) fun rest _ =>
    (Takes.take _ _).bind ((Takes.word (ascii "alse") rest).bind (Takes.pure _ _))

theorem accepts_string (s : String) : Accepts (Reader.value depth) (writeString s) (string s) := by
  have htext : writeString s =
      byte '"' :: ((bytesOf s).flatMap escapeByte ++ [byte '"']) := by
    simpa using writeString_append s []
  rw [htext]
  refine accepts_of_scalar (by decide) (by decide) (by decide) (by decide) fun rest _ => ?_
  rw [List.append_assoc]
  exact (Takes.take _ _).bind ((Reader.takes_string s rest).bind (Takes.pure _ _))

theorem takes_rereadFloat {bits : UInt64} (h : storedExponent bits < 2047) {rest : Bytes}
    (hrest : EndsNumber rest) :
    Takes Reader.number ((Decimal.written bits).map byte ++ rest) (.float (rereadFloat bits))
      rest := by
  obtain ⟨read, htakes⟩ := takes_written h
  have hread : rereadFloat bits = read := by
    obtain ⟨c, hrun, -⟩ := htakes [] (by simp [EndsNumber])
      ⟨(Decimal.written bits).map byte, false, false⟩ (by simp)
    simp only [rereadFloat, hrun]
  rw [hread]
  exact htakes rest hrest

end

theorem endsNumber_bracket {b : UInt8} (h : b = byte ']' ∨ b = byte '\x7d') (rest : Bytes) :
    EndsNumber (b :: rest) := by
  intro b' hb'
  obtain rfl : b = b' := by simpa using hb'
  rcases h with rfl | rfl <;> decide

theorem Reader.object_const {α : Type} (value : Nat → Reader α) (depth : Nat) :
    Reader.object (fun _ => value depth) (depth + 1) = Reader.object value (depth + 1) := by
  simp only [Reader.object, Reader.opening]

/-
The induction is on what makes the value regular, so that there is always room for the lists and
objects inside.
-/
theorem Regular.accepts {depth : Nat} {j : Json} (h : Regular depth j) (layout : Layout)
    (level : Nat) : Accepts (Reader.value depth) (j.write layout level) j.reread := by
  induction h generalizing level with
  | null => exact accepts_null
  | boolean b =>
    cases b with
    | true => exact accepts_true
    | false => exact accepts_false
  | integer hlow hhigh =>
    exact accepts_of_number (writeInteger_eq_cons _) fun rest hrest =>
      takes_integer hlow hhigh hrest
  | float hfinite =>
    exact accepts_of_number (Reader.written_eq_cons hfinite) fun rest hrest =>
      takes_rereadFloat hfinite hrest
  | string s => exact accepts_string s
  | array hitems ih =>
    rw [write_array]
    refine ⟨⟨_, _, rfl, by decide, by decide⟩, fun space rest hspace _ => ?_⟩
    unfold Reader.value
    refine (Takes.peekToken hspace (by simp; decide)).bind ?_
    simp only [List.cons_append, List.head?_cons, if_true, List.append_assoc, List.nil_append]
    rw [reread, rereadItems_eq_map]
    have := takes_list (layout.isSpace_newline (level + 1)) (layout.isSpace_newline level)
      (fun item hmem => ih item hmem (level + 1))
      (fun rest => layout.endsNumber_newline level (endsNumber_bracket (.inl rfl) rest)) rest
    exact this.bind (Takes.pure _ _)
  | object hascending hmembers ih =>
    rw [write_object]
    refine ⟨⟨_, _, rfl, by decide, by decide⟩, fun space rest hspace _ => ?_⟩
    unfold Reader.value
    refine (Takes.peekToken hspace (by simp; decide)).bind ?_
    simp only [List.cons_append, List.head?_cons, if_true, List.append_assoc, List.nil_append,
      if_neg (show byte '\x7b' ≠ byte '[' by decide)]
    rw [reread, rereadMembers_eq_map]
    have := takes_object (layout.isSpace_newline (level + 1)) (layout.isSpace_newline level) layout
      (fun member hmem => ih member hmem (level + 1))
      (fun rest => layout.endsNumber_newline level (endsNumber_bracket (.inr rfl) rest)) rest
    rw [← Reader.object_const] at this
    have hsame := Members.ofList_of_ascending
      (Members.ascending_map hascending fun member => member.2.reread)
    refine this.bind ?_
    rw [hsame]
    exact Takes.pure _ _

end Json

end ReadProgress
