import ReadProgress.Json.Cursor

/-!
This module contains the two kinds of statements about readers from which all others are put
together: what a reader takes from the front of a text, and what holds of whatever it gives back.
-/

namespace ReadProgress

namespace Json

namespace Reader

variable {α β : Type}

/--
In front of `text` the reader gives back `a` and leaves `rest`, whatever has been looked at before.
-/
def Takes (reader : Reader α) (text : Bytes) (a : α) (rest : Bytes) : Prop :=
  ∀ c : Cursor, c.rest = text → ∃ c' : Cursor, reader c = .ok a c' ∧ c'.rest = rest

/--
What the reader gives back always has some property.
-/
def Gives (reader : Reader α) (P : α → Prop) : Prop :=
  ∀ (c c' : Cursor) (a : α), reader c = .ok a c' → P a

namespace Takes

theorem pure (a : α) (text : Bytes) : Takes (Pure.pure a) text a text := by
  intro c hc
  exact ⟨c, rfl, hc⟩

theorem bind {reader : Reader α} {next : α → Reader β} {text middle rest : Bytes} {a : α} {b : β}
    (hreader : Takes reader text a middle) (hnext : Takes (next a) middle b rest) :
    Takes (reader >>= next) text b rest := by
  intro c hc
  obtain ⟨c', hrun, hc'⟩ := hreader c hc
  obtain ⟨c'', hrun', hc''⟩ := hnext c' hc'
  refine ⟨c'', ?_, hc''⟩
  show EStateM.bind reader next c = _
  rw [EStateM.bind, hrun]
  exact hrun'

theorem map {reader : Reader α} {text rest : Bytes} {a : α} (f : α → β)
    (h : Takes reader text a rest) : Takes (f <$> reader) text (f a) rest := by
  intro c hc
  obtain ⟨c', hrun, hc'⟩ := h c hc
  refine ⟨c', ?_, hc'⟩
  show EStateM.map f reader c = _
  rw [EStateM.map, hrun]

theorem get {next : Cursor → Reader β} {text rest : Bytes} {b : β}
    (h : ∀ c : Cursor, c.rest = text → Takes (next c) text b rest) :
    Takes (MonadState.get >>= next) text b rest := by
  intro c hc
  exact h c hc c hc

theorem peek (text : Bytes) : Takes peek text text.head? text := by
  intro c hc
  unfold Reader.peek
  cases text with
  | nil => exact ⟨c, by simp [hc], hc⟩
  | cons b rest => exact ⟨{ c with peeked := true }, by simp [hc], hc⟩

theorem take (b : UInt8) (rest : Bytes) : Takes take (b :: rest) (some b) rest := by
  intro c hc
  exact ⟨{ c with rest, peeked := false }, by simp [Reader.take, hc], rfl⟩

theorem takeWhile (p : UInt8 → Bool) (text : Bytes) :
    Takes (takeWhile p) text (text.takeWhile p) (text.dropWhile p) := by
  intro c hc
  subst hc
  unfold Reader.takeWhile
  cases hrun : c.rest.takeWhile p with
  | nil =>
    have hall : c.rest.dropWhile p = c.rest := by
      conv => rhs; rw [← List.takeWhile_append_dropWhile (p := p) (l := c.rest), hrun, List.nil_append]
    exact ⟨_, rfl, hall.symm⟩
  | cons b run => exact ⟨_, rfl, rfl⟩

theorem takeWhile_append {p : UInt8 → Bool} {run rest : Bytes} (hrun : ∀ b ∈ run, p b = true)
    (hrest : ∀ b ∈ rest.head?, p b = false) : Takes (Reader.takeWhile p) (run ++ rest) run rest := by
  have h := takeWhile p (run ++ rest)
  rw [List.takeWhile_append_of_pos hrun, List.dropWhile_append_of_pos hrun] at h
  cases rest with
  | nil => simpa using h
  | cons b rest => simpa [hrest b rfl] using h

theorem peekToken {space rest : Bytes} (hspace : ∀ b ∈ space, isSpace b = true)
    (hrest : ∀ b ∈ rest.head?, isSpace b = false) :
    Takes peekToken (space ++ rest) rest.head? rest :=
  (takeWhile_append hspace hrest).bind (peek rest)

theorem peekToken_cons {b : UInt8} (h : isSpace b = false) (rest : Bytes) :
    Takes Reader.peekToken (b :: rest) (some b) (b :: rest) :=
  peekToken (List.forall_mem_nil _) (by simpa using h)

theorem word (letters rest : Bytes) : Takes (word letters) (letters ++ rest) ⟨⟩ rest := by
  induction letters with
  | nil => exact pure _ _
  | cons b letters ih =>
    refine (take b (letters ++ rest)).bind ?_
    simpa using ih

theorem located {reader : Reader α} {text rest : Bytes} {a : α} (h : Takes reader text a rest) :
    Takes (located reader) text a rest := by
  intro c hc
  obtain ⟨c', hrun, hc'⟩ := h c hc
  exact ⟨c', by simp [Reader.located, hrun], hc'⟩

theorem enclosed {inside : Reader α} {close : Reader PUnit} {text middle rest : Bytes} {a : α}
    (hinside : Takes inside text a middle) (hclose : Takes close middle ⟨⟩ rest) :
    Takes (enclosed inside close) text a rest := by
  intro c hc
  obtain ⟨c', hrun, hc'⟩ := hinside c hc
  obtain ⟨c'', hrun', hc''⟩ := hclose c' hc'
  exact ⟨c'', by simp [Reader.enclosed, hrun, hrun'], hc''⟩

theorem repeated {turns : Nat → Reader α} {text rest : Bytes} {a : α}
    (h : Takes (turns (2 * text.length + 2)) text a rest) : Takes (repeated turns) text a rest := by
  intro c hc
  subst hc
  exact h c rfl

theorem run {reader : Reader α} {text : Bytes} {a : α} (h : Takes reader text a [])
    (streamed : Bool) : reader.run streamed text = .ok a := by
  unfold Reader.run
  extract_lets whole
  have hwhole : Takes whole text a [] :=
    h.bind ((peekToken (fun _ hmem => absurd hmem List.not_mem_nil) (by simp)).bind (pure a []))
  obtain ⟨c', hrun, -⟩ := hwhole ⟨text, false, streamed⟩ rfl
  rw [hrun]

end Takes

namespace Gives

variable {reader : Reader α} {P Q : α → Prop} {R : β → Prop}

theorem weaken (h : Gives reader P) (hPQ : ∀ a, P a → Q a) : Gives reader Q :=
  fun c c' a hrun => hPQ a (h c c' a hrun)

theorem anything (reader : Reader α) : Gives reader fun _ => True :=
  fun _ _ _ _ => trivial

theorem pure {a : α} (h : P a) : Gives (Pure.pure a) P := by
  intro c c' b hrun
  cases hrun
  exact h

theorem bind {next : α → Reader β} (hreader : Gives reader P) (hnext : ∀ a, P a → Gives (next a) R) :
    Gives (reader >>= next) R := by
  intro c c' b hrun
  change EStateM.bind reader next c = _ at hrun
  unfold EStateM.bind at hrun
  split at hrun
  . next a middle ha => exact hnext a (hreader c middle a ha) middle c' b hrun
  . cases hrun

theorem andThen {next : α → Reader β} (h : ∀ a, Gives (next a) R) : Gives (reader >>= next) R :=
  (anything reader).bind fun a _ => h a

theorem map {f : α → β} (h : Gives reader fun a => R (f a)) : Gives (f <$> reader) R := by
  intro c c' b hrun
  change EStateM.map f reader c = _ at hrun
  unfold EStateM.map at hrun
  split at hrun
  . next a middle ha =>
    cases hrun
    exact h c _ a ha
  . cases hrun

theorem fail (reason : Reason) : Gives (fail reason : Reader α) P :=
  fun _ _ _ hrun => nomatch hrun

theorem failAhead (reason : Reason) : Gives (failAhead reason : Reader α) P :=
  fun _ _ _ hrun => nomatch hrun

theorem refuse (reason : Reason) : Gives (refuse reason : Reader α) P :=
  fun _ _ _ hrun => nomatch hrun

theorem located (h : Gives reader P) : Gives (located reader) P := by
  intro c c' a hrun
  unfold Reader.located at hrun
  split at hrun
  . cases hrun
  . exact h c c' a hrun

theorem enclosed {close : Reader PUnit} (h : Gives reader P) : Gives (enclosed reader close) P := by
  intro c c' a hrun
  unfold Reader.enclosed at hrun
  split at hrun
  . next b middle hinside =>
    split at hrun
    . cases hrun
      exact h c middle _ hinside
    . cases hrun
  . split at hrun <;> cases hrun

theorem repeated {turns : Nat → Reader α} (h : ∀ count, Gives (turns count) P) :
    Gives (repeated turns) P :=
  fun c c' a hrun => h _ c c' a hrun

theorem ite {p : Prop} [Decidable p] {other : Reader α} (hpos : p → Gives reader P)
    (hneg : ¬ p → Gives other P) : Gives (if p then reader else other) P := by
  split
  . next h => exact hpos h
  . next h => exact hneg h

theorem run (h : Gives reader P) {streamed : Bool} {text : Bytes} {a : α}
    (hrun : reader.run streamed text = .ok a) : P a := by
  unfold Reader.run at hrun
  extract_lets whole at hrun
  have hgives : Gives whole P := by
    refine h.bind fun a ha => andThen fun next => ?_
    cases next with
    | none => exact pure ha
    | some b => exact failAhead _
  split at hrun
  . next hwhole =>
    cases hrun
    exact hgives _ _ _ hwhole
  . cases hrun

end Gives

end Reader

end Json

end ReadProgress
