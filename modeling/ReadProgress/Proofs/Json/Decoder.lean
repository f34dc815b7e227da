import ReadProgress.Json.Decoder
import ReadProgress.Proofs.Except
import ReadProgress.Proofs.Json.Value

/-!
This module contains what decoders accept and what they give back, put together from what their
parts accept and give back.
-/

namespace ReadProgress

namespace Json

open Reader (Takes Gives Accepts isSpace)

namespace Reader

theorem takes_start (space : Bytes) {rest : Bytes} {b : UInt8} (hspace : ∀ b ∈ space, isSpace b = true)
    (hb : isSpace b = false) : Takes start (space ++ b :: rest) b (b :: rest) :=
  (Takes.peekToken hspace (by simpa using hb)).bind (Takes.pure _ _)

theorem takes_checked {α : Type} {result : Except Reason α} {a : α} (h : result = .ok a)
    (text : Bytes) : Takes (checked result) text a text := by
  rw [h]
  exact Takes.pure _ _

theorem gives_checked {α : Type} {P : α → Prop} {result : Except Reason α}
    (h : ∀ a, result = .ok a → P a) : Gives (checked result) P := by
  cases result with
  | ok a => exact Gives.pure (h a rfl)
  | error reason => exact Gives.refuse _

theorem gives_unexpected {α : Type} {P : α → Prop} (expected : String) :
    Gives (unexpected expected : Reader α) P := by
  refine Gives.located (Gives.andThen fun next => ?_)
  cases next with
  | none => exact Gives.failAhead _
  | some b =>
    refine Gives.ite (fun _ => Gives.refuse _) (fun _ => Gives.ite (fun _ => Gives.refuse _) ?_)
    exact fun _ => Gives.andThen fun _ => Gives.refuse _

end Reader

namespace Decoder

variable {α β : Type}

theorem accepts_members {d : Decoder α} {w : β → Bytes} {f : β → α} {depth : Nat}
    {xs : List (String × β)} (hxs : ∀ x ∈ xs, Accepts (d.text depth) (w x.2) (f x.2))
    (layout : Layout) (level : Nat) :
    Accepts (d.members.text (depth + 1))
      (byte '\x7b' :: (between (layout.newline (level + 1)) (layout.newline level)
        (writeMember layout w) xs ++ [byte '\x7d']))
      (xs.map fun x => (x.1, f x.2)) := by
  refine ⟨⟨_, _, rfl, by decide, by decide⟩, fun space rest hspace _ => ?_⟩
  simp only [List.cons_append, List.append_assoc, List.nil_append]
  refine (Reader.takes_start space hspace (by decide)).bind ?_
  simp only [if_true]
  exact Takes.located (Reader.takes_object (layout.isSpace_newline (level + 1))
    (layout.isSpace_newline level) layout hxs
    (fun rest => layout.endsNumber_newline level (endsNumber_bracket (.inr rfl) rest)) rest)

theorem gives_members {d : Decoder α} {P : α → Prop} {depth : Nat}
    (h : ∀ inner, depth = inner + 1 → Gives (d.text inner) P) :
    Gives (d.members.text depth) fun ms => ∀ member ∈ ms, P member.2 :=
  Gives.andThen fun _ => Gives.ite (fun _ => Gives.located (Reader.gives_object h))
    fun _ => Reader.gives_unexpected _

theorem value_map {d : Decoder α} {j : Json} {a : α} (h : d.value j = .ok a) (f : α → β) :
    (d.map f).value j = .ok (f a) :=
  map_eq_ok.2 ⟨a, h, rfl⟩

theorem value_members {d : Decoder α} {toJson : α → Json} {xs : List (String × α)}
    (h : ∀ x ∈ xs, d.value (toJson x.2) = .ok x.2) :
    d.members.value (.object (xs.map fun x => (x.1, toJson x.2))) = .ok xs := by
  show List.mapM _ (xs.map _) = _
  rw [List.mapM_map]
  conv => rhs; rw [← List.map_id xs]
  refine mapM_eq_ok_of_forall fun x hmem => ?_
  exact map_eq_ok.2 ⟨x.2, h x hmem, rfl⟩

theorem of_value_members {d : Decoder α} {P : α → Prop} (h : ∀ j a, d.value j = .ok a → P a)
    {j : Json} {ms : List (String × α)} (hvalue : d.members.value j = .ok ms) :
    ∀ member ∈ ms, P member.2 := by
  intro member hmem
  cases j with
  | object members =>
    obtain ⟨⟨name, j⟩, -, hj⟩ := exists_of_mapM_eq_ok hvalue hmem
    obtain ⟨a, ha, rfl⟩ := map_eq_ok.1 hj
    exact h j a ha
  | null | boolean | integer | float | string | array => cases hvalue

end Decoder

namespace RecordForm

variable {σ α : Type} {form : RecordForm σ α} {P : α → Prop}

section

variable {Inv : σ → Prop} {depth : Nat} (hfields : ∀ field ∈ form.fields,
  Gives (field.decoder.text depth) fun set => ∀ state, Inv state → Inv (set state))

include hfields

theorem gives_readPositions {fields : List (Field σ)} (hsub : ∀ field ∈ fields, field ∈ form.fields)
    (index : Nat) {state : σ} (hstate : Inv state) :
    Gives (form.readPositions depth index state fields) Inv := by
  induction fields generalizing index state with
  | nil => exact Gives.pure hstate
  | cons field fields ih =>
    have hlater : ∀ field ∈ fields, field ∈ form.fields := fun field hmem =>
      hsub field (List.mem_cons_of_mem _ hmem)
    refine Gives.andThen fun more => Gives.ite (fun _ => ?_) (fun _ => Gives.ite ?_ ?_)
    . exact (hfields field (hsub field List.mem_cons_self)).bind fun set hset =>
        ih hlater (index + 1) (hset state hstate)
    . exact fun _ => ih hlater (index + 1) hstate
    . exact fun _ => Gives.refuse _

theorem gives_readMembers (first : Bool) (turns : Nat) {state : σ} (hstate : Inv state) :
    Gives (form.readMembers depth state first turns) Inv := by
  induction turns generalizing first state with
  | zero => exact Gives.fail _
  | succ turns ih =>
    unfold readMembers
    refine Gives.andThen fun more => Gives.ite (fun _ => ?_) (fun _ => Gives.pure hstate)
    refine Gives.andThen fun key => ?_
    cases hfind : form.fields.find? (·.name = key) with
    | none => exact Gives.andThen fun _ => Gives.andThen fun _ => ih false hstate
    | some field =>
      refine Gives.ite (fun _ => Gives.refuse _) (fun _ => Gives.andThen fun _ => ?_)
      exact (hfields field (List.mem_of_find?_eq_some hfind)).bind fun set hset =>
        ih false (hset state hstate)

end

theorem finish_of_close {state : σ} {a : α} (h : form.close state = .ok a) :
    form.finish state = .ok a := by
  unfold close at h
  split at h
  . next b hb =>
    cases h
    exact hb
  . cases h

theorem gives_decoder (Inv : σ → Prop) {depth : Nat} (hblank : Inv form.blank)
    (hfields : ∀ inner, depth = inner + 1 → ∀ field ∈ form.fields,
      Gives (field.decoder.text inner) fun set => ∀ state, Inv state → Inv (set state))
    (hfinish : ∀ state a, Inv state → form.finish state = .ok a → P a) :
    Gives (form.decoder.text depth) P := by
  have hclose : ∀ state, Inv state → Gives (Reader.checked (form.close state)) P := by
    intro state hstate
    exact Reader.gives_checked fun a ha => hfinish state a hstate (finish_of_close ha)
  refine Gives.andThen fun b => Gives.ite (fun _ => Gives.located ?_) (fun _ => Gives.ite ?_ ?_)
  . refine Reader.gives_opening fun inner hinner => Gives.enclosed ?_
    exact (gives_readPositions (hfields inner hinner) (fun _ h => h) 0 hblank).bind hclose
  . refine fun _ => Gives.located (Reader.gives_opening fun inner hinner => Gives.enclosed ?_)
    exact (Gives.repeated fun turns =>
      gives_readMembers (hfields inner hinner) true turns hblank).bind hclose
  . exact fun _ => Reader.gives_unexpected _

theorem takeMembers_cons {state : σ} {key : String} {j : Json} {members : List (String × Json)}
    {field : Field σ} (hfind : form.fields.find? (·.name = key) = some field) {set : σ → σ}
    (hset : field.decoder.value j = .ok set) :
    form.takeMembers state ((key, j) :: members) = form.takeMembers (set state) members := by
  rw [takeMembers, hfind]
  show field.decoder.value j >>= _ = _
  rw [hset]
  rfl

theorem exists_of_takeMembers_cons {state state' : σ} {key : String} {j : Json}
    {members : List (String × Json)} {field : Field σ}
    (hfind : form.fields.find? (·.name = key) = some field)
    (h : form.takeMembers state ((key, j) :: members) = .ok state') :
    ∃ set, field.decoder.value j = .ok set ∧
      form.takeMembers (set state) members = .ok state' := by
  rw [takeMembers, hfind] at h
  exact bind_eq_ok.1 h

theorem takeMembers_cons_of_none {key : String} (hfind : form.fields.find? (·.name = key) = none)
    (state : σ) (j : Json) (members : List (String × Json)) :
    form.takeMembers state ((key, j) :: members) = form.takeMembers state members := by
  rw [takeMembers, hfind]

theorem of_takePositions {Inv : σ → Prop} {fields : List (Field σ)}
    (hfields : ∀ field ∈ fields, ∀ j set, field.decoder.value j = .ok set →
      ∀ state, Inv state → Inv (set state)) {index : Nat} {items left : List Json}
    {state state' : σ} (hstate : Inv state)
    (h : form.takePositions index state fields items = .ok (state', left)) : Inv state' := by
  induction fields generalizing index items state with
  | nil =>
    cases h
    exact hstate
  | cons field fields ih =>
    have hlater := fun field hmem => hfields field (List.mem_cons_of_mem _ hmem)
    cases items with
    | nil =>
      unfold takePositions at h
      split at h
      . exact ih hlater hstate h
      . cases h
    | cons item items =>
      obtain ⟨set, hset, h⟩ := bind_eq_ok.1 h
      exact ih hlater (hfields field List.mem_cons_self item set hset state hstate) h

theorem of_takeMembers {Inv : σ → Prop}
    (hfields : ∀ field ∈ form.fields, ∀ j set, field.decoder.value j = .ok set →
      ∀ state, Inv state → Inv (set state)) {members : List (String × Json)} {state state' : σ}
    (hstate : Inv state) (h : form.takeMembers state members = .ok state') : Inv state' := by
  induction members generalizing state with
  | nil =>
    cases h
    exact hstate
  | cons member members ih =>
    unfold takeMembers at h
    split at h
    . exact ih hstate h
    . next field hfind =>
      obtain ⟨set, hset, h⟩ := bind_eq_ok.1 h
      exact ih (hfields field (List.mem_of_find?_eq_some hfind) _ set hset state hstate) h

theorem of_value (Inv : σ → Prop) (hblank : Inv form.blank)
    (hfields : ∀ field ∈ form.fields, ∀ j set, field.decoder.value j = .ok set →
      ∀ state, Inv state → Inv (set state))
    (hfinish : ∀ state a, Inv state → form.finish state = .ok a → P a) {j : Json} {a : α}
    (h : form.decoder.value j = .ok a) : P a := by
  cases j with
  | array items =>
    obtain ⟨⟨state, left⟩, hstate, h⟩ := bind_eq_ok.1 h
    obtain ⟨b, hb, h⟩ := bind_eq_ok.1 h
    have hP := hfinish state b (of_takePositions hfields hblank hstate) (finish_of_close hb)
    split at h
    . cases h
      exact hP
    . cases h
  | object members =>
    obtain ⟨state, hstate, h⟩ := bind_eq_ok.1 h
    exact hfinish state a (of_takeMembers hfields hblank hstate) (finish_of_close h)
  | null | boolean | integer | float | string => cases h

end RecordForm

end Json

end ReadProgress
