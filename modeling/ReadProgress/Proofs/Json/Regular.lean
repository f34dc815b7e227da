import ReadProgress.Json.Reader
import ReadProgress.Proofs.Json.Number
import ReadProgress.Proofs.Members

/-!
This module contains the proof that whatever is read is regular: its integers are in their bounds,
its other numbers are finite, the members of its objects are in order, and it is not nested deeper
than the reader allows.
-/

namespace ReadProgress

namespace Json

open Double (storedExponent)

/--
The values that can be read, with a number of lists and objects that may be opened.
-/
inductive Regular : Nat → Json → Prop where
  | null {depth : Nat} : Regular depth null
  | boolean {depth : Nat} (b : Bool) : Regular depth (boolean b)
  | integer {depth : Nat} {i : Int} (hlow : -9223372036854775808 ≤ i)
      (hhigh : i < 18446744073709551616) : Regular depth (integer i)
  | float {depth : Nat} {bits : UInt64} (hfinite : storedExponent bits < 2047) :
      Regular depth (float bits)
  | string {depth : Nat} (s : String) : Regular depth (string s)
  | array {depth : Nat} {items : List Json} (hitems : ∀ item ∈ items, Regular depth item) :
      Regular (depth + 1) (array items)
  | object {depth : Nat} {members : Members Json} (hascending : members.Ascending)
      (hmembers : ∀ member ∈ members, Regular depth member.2) :
      Regular (depth + 1) (object members)

namespace Reader

variable {α : Type} {P : α → Prop}

theorem gives_opening {depth : Nat} {inside : Nat → Reader α}
    (h : ∀ inner, depth = inner + 1 → Gives (inside inner) P) : Gives (opening depth inside) P := by
  cases depth with
  | zero => exact Gives.failAhead _
  | succ depth => exact Gives.andThen fun _ => h depth rfl

theorem gives_items {item : Reader α} (hitem : Gives item P) (first : Bool) (turns : Nat) :
    Gives (items item first turns) fun as => ∀ a ∈ as, P a := by
  induction turns generalizing first with
  | zero => exact Gives.fail _
  | succ turns ih =>
    unfold items
    refine Gives.andThen fun more => Gives.ite (fun _ => ?_) (fun _ => Gives.pure (by simp))
    refine hitem.bind fun a ha => (ih false).bind fun rest hrest => Gives.pure ?_
    exact List.forall_mem_cons.2 ⟨ha, hrest⟩

theorem gives_members {value : Reader α} (hvalue : Gives value P) (first : Bool) (turns : Nat) :
    Gives (members value first turns) fun ms => ∀ member ∈ ms, P member.2 := by
  induction turns generalizing first with
  | zero => exact Gives.fail _
  | succ turns ih =>
    unfold members
    refine Gives.andThen fun more => Gives.ite (fun _ => ?_) (fun _ => Gives.pure (by simp))
    refine Gives.andThen fun key => Gives.andThen fun _ => ?_
    refine hvalue.bind fun a ha => (ih false).bind fun rest hrest => Gives.pure ?_
    exact List.forall_mem_cons.2 ⟨ha, hrest⟩

theorem gives_list {item : Nat → Reader α} {depth : Nat}
    (hitem : ∀ inner, depth = inner + 1 → Gives (item inner) P) :
    Gives (list item depth) fun as => ∀ a ∈ as, P a :=
  gives_opening fun inner hdepth =>
    Gives.enclosed (Gives.repeated fun turns => gives_items (hitem inner hdepth) true turns)

theorem gives_object {value : Nat → Reader α} {depth : Nat}
    (hvalue : ∀ inner, depth = inner + 1 → Gives (value inner) P) :
    Gives (object value depth) fun ms => ∀ member ∈ ms, P member.2 :=
  gives_opening fun inner hdepth =>
    Gives.enclosed (Gives.repeated fun turns => gives_members (hvalue inner hdepth) true turns)

theorem gives_scalar (first : UInt8) (depth : Nat) : Gives (scalar first) (Regular depth) := by
  unfold scalar
  refine Gives.ite (fun _ => ?_) (fun _ => Gives.ite (fun _ => ?_) (fun _ => ?_))
  . exact Gives.andThen fun _ => Gives.andThen fun _ => Gives.pure .null
  . exact Gives.andThen fun _ => Gives.andThen fun _ => Gives.pure (.boolean true)
  . refine Gives.ite (fun _ => ?_) (fun _ => Gives.ite (fun _ => ?_) (fun _ => ?_))
    . exact Gives.andThen fun _ => Gives.andThen fun _ => Gives.pure (.boolean false)
    . exact gives_number (fun _ h => .float h) (fun _ hlow hhigh => .integer hlow hhigh)
    . refine Gives.ite (fun _ => ?_) (fun _ => Gives.failAhead _)
      exact Gives.andThen fun _ => Gives.andThen fun s => Gives.pure (.string s)

theorem gives_value (depth : Nat) : Gives (value depth) (Regular depth) := by
  induction depth with
  | zero =>
    unfold value
    refine Gives.andThen fun next => ?_
    cases next with
    | none => exact Gives.failAhead _
    | some b =>
      refine Gives.ite (fun _ => Gives.failAhead _) (fun _ => ?_)
      exact Gives.ite (fun _ => Gives.failAhead _) (fun _ => gives_scalar b 0)
  | succ depth ih =>
    unfold value
    refine Gives.andThen fun next => ?_
    cases next with
    | none => exact Gives.failAhead _
    | some b =>
      refine Gives.ite (fun _ => ?_) (fun _ => Gives.ite (fun _ => ?_) (fun _ => ?_))
      . exact (gives_list fun _ _ => ih).bind fun items hitems => Gives.pure (.array hitems)
      . refine (gives_object fun _ _ => ih).bind fun ms hms => Gives.pure ?_
        exact .object (Members.ascending_ofList ms) fun member hmem =>
          hms member (Members.mem_ofList hmem)
      . exact gives_scalar b _

end Reader

end Json

end ReadProgress
