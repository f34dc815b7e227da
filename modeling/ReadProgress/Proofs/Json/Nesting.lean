import ReadProgress.Proofs.Json.Decoder

/-!
This module contains how deep the lists and objects of a value are nested, and the proof that
whatever is read is read in the same way where more of them may be open.
-/

namespace ReadProgress

namespace Json

mutual

/--
How many lists and objects are open at most at a time in a value.
-/
def nesting : Json → Nat
  | null | boolean _ | integer _ | float _ | string _ => 0
  | array items => nestingItems items + 1
  | object members => nestingMembers members + 1
termination_by structural value => value

def nestingItems : List Json → Nat
  | [] => 0
  | item :: items => max item.nesting (nestingItems items)
termination_by structural items => items

def nestingMembers : List (String × Json) → Nat
  | [] => 0
  | (_, value) :: members => max value.nesting (nestingMembers members)
termination_by structural members => members

end

theorem nestingItems_le_iff {items : List Json} {depth : Nat} :
    nestingItems items ≤ depth ↔ ∀ item ∈ items, item.nesting ≤ depth := by
  induction items with
  | nil => simp [nestingItems]
  | cons item items ih => rw [nestingItems, Nat.max_le, ih, List.forall_mem_cons]

theorem nestingMembers_le_iff {members : List (String × Json)} {depth : Nat} :
    nestingMembers members ≤ depth ↔ ∀ member ∈ members, member.2.nesting ≤ depth := by
  induction members with
  | nil => simp [nestingMembers]
  | cons member members ih => rw [nestingMembers, Nat.max_le, ih, List.forall_mem_cons]

/--
The values that can be read if there is room enough for their lists and objects.
-/
def Proper (j : Json) : Prop :=
  ∃ depth, j.Regular depth

theorem Regular.nesting_le {depth : Nat} {j : Json} (h : Regular depth j) : j.nesting ≤ depth := by
  induction h with
  | null | boolean | integer | float | string => exact Nat.zero_le _
  | array _ ih => exact Nat.succ_le_succ (nestingItems_le_iff.2 ih)
  | object _ _ ih => exact Nat.succ_le_succ (nestingMembers_le_iff.2 ih)

theorem Regular.of_nesting_le {depth : Nat} {j : Json} (h : Regular depth j) {room : Nat}
    (hroom : j.nesting ≤ room) : Regular room j := by
  induction h generalizing room with
  | null => exact .null
  | boolean b => exact .boolean b
  | integer hlow hhigh => exact .integer hlow hhigh
  | float hfinite => exact .float hfinite
  | string s => exact .string s
  | array hitems ih =>
    obtain ⟨room, rfl⟩ := Nat.exists_eq_add_one_of_ne_zero (Nat.ne_zero_of_lt hroom)
    have hinside := nestingItems_le_iff.1 (Nat.le_of_succ_le_succ hroom)
    exact .array fun item hmem => ih item hmem (hinside item hmem)
  | object hascending hmembers ih =>
    obtain ⟨room, rfl⟩ := Nat.exists_eq_add_one_of_ne_zero (Nat.ne_zero_of_lt hroom)
    have hinside := nestingMembers_le_iff.1 (Nat.le_of_succ_le_succ hroom)
    exact .object hascending fun member hmem => ih member hmem (hinside member hmem)

/--
A value can be read exactly where there is room for its lists and objects.
-/
theorem Proper.regular_iff {j : Json} (h : j.Proper) {depth : Nat} :
    j.Regular depth ↔ j.nesting ≤ depth := by
  obtain ⟨room, hroom⟩ := h
  exact ⟨Regular.nesting_le, hroom.of_nesting_le⟩

namespace Reader

variable {α β : Type}

/--
Whatever a reader gives back, another one gives back as well, and leaves the same.
-/
def Within (reader wider : Reader α) : Prop :=
  ∀ (c c' : Cursor) (a : α), reader c = .ok a c' → wider c = .ok a c'

namespace Within

variable {reader wider : Reader α}

theorem refl (reader : Reader α) : Within reader reader :=
  fun _ _ _ hrun => hrun

theorem failAhead (reason : Reason) : Within (failAhead reason) wider :=
  fun _ _ _ hrun => nomatch hrun

theorem bind {next further : α → Reader β} (h : Within reader wider)
    (hnext : ∀ a, Within (next a) (further a)) : Within (reader >>= next) (wider >>= further) := by
  intro c c' b hrun
  change EStateM.bind reader next c = _ at hrun
  change EStateM.bind wider further c = _
  unfold EStateM.bind at hrun ⊢
  split at hrun
  . next a middle ha =>
    rw [h c middle a ha]
    exact hnext a middle c' b hrun
  . cases hrun

theorem andThen {next further : α → Reader β} (hnext : ∀ a, Within (next a) (further a)) :
    Within (reader >>= next) (reader >>= further) :=
  (refl reader).bind hnext

theorem map (f : α → β) (h : Within reader wider) : Within (f <$> reader) (f <$> wider) := by
  intro c c' b hrun
  change EStateM.map f reader c = _ at hrun
  change EStateM.map f wider c = _
  unfold EStateM.map at hrun ⊢
  split at hrun
  . next a middle ha =>
    rw [h c middle a ha]
    exact hrun
  . cases hrun

theorem ite {p : Prop} [Decidable p] {other further : Reader α} (hpos : p → Within reader wider)
    (hneg : ¬ p → Within other further) :
    Within (if p then reader else other) (if p then wider else further) := by
  split
  . next h => exact hpos h
  . next h => exact hneg h

theorem located (h : Within reader wider) : Within (located reader) (located wider) := by
  intro c c' a hrun
  have hinside : reader c = .ok a c' := by
    unfold Reader.located at hrun
    split at hrun
    . cases hrun
    . exact hrun
  rw [Reader.located, h c c' a hinside]

theorem enclosed {close : Reader PUnit} (h : Within reader wider) :
    Within (enclosed reader close) (enclosed wider close) := by
  intro c c' a hrun
  unfold Reader.enclosed at hrun ⊢
  split at hrun
  . next b middle hinside =>
    rw [h c middle b hinside]
    exact hrun
  . split at hrun <;> cases hrun

theorem repeated {turns further : Nat → Reader α}
    (h : ∀ count, Within (turns count) (further count)) : Within (repeated turns) (repeated further) :=
  fun c c' a hrun => h _ c c' a hrun

theorem run (h : Within reader wider) {streamed : Bool} {text : Bytes} {a : α}
    (hrun : reader.run streamed text = .ok a) : wider.run streamed text = .ok a := by
  unfold Reader.run at hrun ⊢
  extract_lets whole at hrun
  extract_lets further
  have hwhole : Within whole further := h.bind fun a => refl _
  split at hrun
  . next hread =>
    rw [hwhole _ _ _ hread]
    exact hrun
  . cases hrun

end Within

variable {item wider : Nat → Reader α} {depth room : Nat}

theorem within_opening {inside further : Nat → Reader α} (hroom : depth ≤ room)
    (h : ∀ inner more, depth = inner + 1 → room = more + 1 → Within (inside inner) (further more)) :
    Within (opening depth inside) (opening room further) := by
  cases depth with
  | zero => exact Within.failAhead _
  | succ depth =>
    obtain ⟨room, rfl⟩ := Nat.exists_eq_add_one_of_ne_zero (Nat.ne_zero_of_lt hroom)
    exact Within.andThen fun _ => h depth room rfl rfl

theorem within_items {item wider : Reader α} (h : Within item wider) (first : Bool) (turns : Nat) :
    Within (items item first turns) (items wider first turns) := by
  induction turns generalizing first with
  | zero => exact Within.refl _
  | succ turns ih =>
    unfold items
    refine Within.andThen fun more => Within.ite (fun _ => ?_) (fun _ => Within.refl _)
    exact h.bind fun a => (ih false).bind fun rest => Within.refl _

theorem within_members {value wider : Reader α} (h : Within value wider) (first : Bool)
    (turns : Nat) : Within (members value first turns) (members wider first turns) := by
  induction turns generalizing first with
  | zero => exact Within.refl _
  | succ turns ih =>
    unfold members
    refine Within.andThen fun more => Within.ite (fun _ => ?_) (fun _ => Within.refl _)
    refine Within.andThen fun key => Within.andThen fun _ => ?_
    exact h.bind fun a => (ih false).bind fun rest => Within.refl _

theorem within_list (hroom : depth ≤ room)
    (h : ∀ inner more, depth = inner + 1 → room = more + 1 → Within (item inner) (wider more)) :
    Within (list item depth) (list wider room) :=
  within_opening hroom fun inner more hdepth hmore => Within.enclosed <|
    Within.repeated fun turns => within_items (h inner more hdepth hmore) true turns

theorem within_object (hroom : depth ≤ room)
    (h : ∀ inner more, depth = inner + 1 → room = more + 1 → Within (item inner) (wider more)) :
    Within (object item depth) (object wider room) :=
  within_opening hroom fun inner more hdepth hmore => Within.enclosed <|
    Within.repeated fun turns => within_members (h inner more hdepth hmore) true turns

theorem within_value (hroom : depth ≤ room) : Within (value depth) (value room) := by
  induction depth generalizing room with
  | zero =>
    unfold value
    refine Within.andThen fun next => ?_
    cases next with
    | none => exact Within.refl _
    | some b =>
      refine Within.ite (fun _ => Within.failAhead _) fun _ => ?_
      exact Within.ite (fun _ => Within.failAhead _) fun _ => Within.refl _
  | succ depth ih =>
    obtain ⟨room, rfl⟩ := Nat.exists_eq_add_one_of_ne_zero (Nat.ne_zero_of_lt hroom)
    have hvalue := ih (Nat.le_of_succ_le_succ hroom)
    unfold value
    refine Within.andThen fun next => ?_
    cases next with
    | none => exact Within.refl _
    | some b =>
      refine Within.ite (fun _ => ?_) fun _ => Within.ite (fun _ => ?_) fun _ => Within.refl _
      . exact (within_list hroom fun _ _ _ _ => hvalue).bind fun items => Within.refl _
      . exact (within_object hroom fun _ _ _ _ => hvalue).bind fun ms => Within.refl _

end Reader

open Reader (Within)

/--
Whether what is described is read in the same way with more room.
-/
def Decoder.Grows {α : Type} (d : Decoder α) : Prop :=
  ∀ depth room, depth ≤ room → Within (d.text depth) (d.text room)

namespace Decoder

variable {α β : Type} {d : Decoder α}

theorem grows_any : any.Grows :=
  fun _ _ hroom => Reader.within_value hroom

theorem Grows.map (h : d.Grows) (f : α → β) : (d.map f).Grows :=
  fun depth room hroom => (h depth room hroom).map f

theorem Grows.members (h : d.Grows) : d.members.Grows := by
  intro depth room hroom
  refine Within.andThen fun b => Within.ite (fun _ => ?_) fun _ => Within.refl _
  refine Within.located (Reader.within_object hroom fun inner more hdepth hmore => ?_)
  exact h inner more (by omega)

end Decoder

namespace RecordForm

variable {σ α : Type} {form : RecordForm σ α}

section

variable {depth room : Nat}
  (hfields : ∀ field ∈ form.fields, Within (field.decoder.text depth) (field.decoder.text room))

include hfields

theorem within_readPositions {fields : List (Field σ)}
    (hsub : ∀ field ∈ fields, field ∈ form.fields) (index : Nat) (state : σ) :
    Within (form.readPositions depth index state fields)
      (form.readPositions room index state fields) := by
  induction fields generalizing index state with
  | nil => exact Within.refl _
  | cons field fields ih =>
    have hlater : ∀ field ∈ fields, field ∈ form.fields := fun field hmem =>
      hsub field (List.mem_cons_of_mem _ hmem)
    refine Within.andThen fun more => Within.ite (fun _ => ?_) fun _ => Within.ite (fun _ => ?_) ?_
    . exact (hfields field (hsub field List.mem_cons_self)).bind fun set =>
        ih hlater (index + 1) (set state)
    . exact ih hlater (index + 1) state
    . exact fun _ => Within.refl _

theorem within_readMembers (first : Bool) (turns : Nat) (state : σ) :
    Within (form.readMembers depth state first turns)
      (form.readMembers room state first turns) := by
  induction turns generalizing first state with
  | zero => exact Within.refl _
  | succ turns ih =>
    unfold readMembers
    refine Within.andThen fun more => Within.ite (fun _ => ?_) fun _ => Within.refl _
    refine Within.andThen fun key => ?_
    cases hfind : form.fields.find? (·.name = key) with
    | none => exact Within.andThen fun _ => Within.andThen fun _ => ih false state
    | some field =>
      refine Within.ite (fun _ => Within.refl _) fun _ => Within.andThen fun _ => ?_
      exact (hfields field (List.mem_of_find?_eq_some hfind)).bind fun set => ih false (set state)

end

theorem grows_decoder (h : ∀ field ∈ form.fields, field.decoder.Grows) : form.decoder.Grows := by
  intro depth room hroom
  have hfields : ∀ inner more, depth = inner + 1 → room = more + 1 → ∀ field ∈ form.fields,
      Within (field.decoder.text inner) (field.decoder.text more) :=
    fun inner more _ _ field hmem => h field hmem inner more (by omega)
  refine Within.andThen fun b => Within.ite (fun _ => ?_) fun _ => Within.ite (fun _ => ?_) ?_
  . refine Within.located (Reader.within_opening hroom fun inner more hdepth hmore => ?_)
    refine Within.enclosed ((within_readPositions (hfields inner more hdepth hmore) ?_ 0 _).bind ?_)
    . exact fun _ hmem => hmem
    . exact fun state => Within.refl _
  . refine Within.located (Reader.within_opening hroom fun inner more hdepth hmore => ?_)
    refine Within.enclosed (Within.bind ?_ fun state => Within.refl _)
    exact Within.repeated fun turns =>
      within_readMembers (hfields inner more hdepth hmore) true turns _
  . exact fun _ => Within.refl _

end RecordForm

end Json

end ReadProgress
