import ReadProgress.Path
import ReadProgress.Proofs.Except

/-!
This module contains how the path of a temporary file is related to the path that it is made from: it
leads into the same directory, and to another name.
-/

namespace ReadProgress

/--
A name that leads on to a place of its own.
-/
def IsName (name : String) : Prop :=
  name ≠ "" ∧ name ≠ "." ∧ name ≠ ".."

section

variable {c : Char} {text piece : List Char}

theorem splitAt_of_notMem (h : c ∉ text) : splitAt c text = [text] := by
  induction text with
  | nil => rfl
  | cons d rest ih =>
    rw [List.mem_cons, not_or] at h
    rw [splitAt, if_neg (Ne.symm h.1), ih h.2]

theorem splitAt_append (h : c ∉ piece) (rest : List Char) :
    ∃ first pieces, splitAt c rest = first :: pieces ∧
      splitAt c (piece ++ rest) = (piece ++ first) :: pieces := by
  induction piece with
  | nil =>
    cases hrest : splitAt c rest with
    | nil => exact absurd hrest (splitAt_ne_nil c rest)
    | cons first pieces => exact ⟨first, pieces, rfl, hrest⟩
  | cons d piece ih =>
    rw [List.mem_cons, not_or] at h
    obtain ⟨first, pieces, hrest, hsplit⟩ := ih h.2
    refine ⟨first, pieces, hrest, ?_⟩
    rw [List.cons_append, splitAt, if_neg (Ne.symm h.1), hsplit]
    rfl

theorem splitAt_append_cons (h : c ∉ piece) (rest : List Char) :
    splitAt c (piece ++ c :: rest) = piece :: splitAt c rest := by
  obtain ⟨first, pieces, hrest, hsplit⟩ := splitAt_append h (c :: rest)
  rw [splitAt, if_pos rfl] at hrest
  obtain ⟨rfl, rfl⟩ := List.cons.inj hrest
  rw [hsplit, List.append_nil]

theorem notMem_of_mem_splitAt (h : piece ∈ splitAt c text) : c ∉ piece := by
  induction text generalizing piece with
  | nil =>
    rw [List.mem_singleton.1 h]
    exact List.not_mem_nil
  | cons d rest ih =>
    rw [splitAt] at h
    split at h
    . rcases List.mem_cons.1 h with rfl | h
      . exact List.not_mem_nil
      . exact ih h
    . next hne =>
      split at h
      . rw [List.mem_singleton.1 h, List.mem_singleton]
        exact Ne.symm hne
      . next first pieces hsplit =>
        rw [hsplit] at ih
        rcases List.mem_cons.1 h with rfl | h
        . rw [List.mem_cons, not_or]
          exact ⟨Ne.symm hne, ih List.mem_cons_self⟩
        . exact ih (List.mem_cons_of_mem _ h)

end

namespace Path

/--
What is written in front of a name: a slash for the root, and the names above with a slash behind
each of them.
-/
def lead (rooted : Bool) (names : List String) : List Char :=
  (if rooted then ['/'] else []) ++ names.flatMap fun name => name.toList ++ ['/']

theorem joinWith_append_cons (names : List String) (name : String) (back : List String) :
    joinWith '/' ((names ++ name :: back).map String.toList) =
      names.flatMap (fun name => name.toList ++ ['/']) ++
        joinWith '/' ((name :: back).map String.toList) := by
  induction names with
  | nil => rfl
  | cons other names ih =>
    rw [List.cons_append, List.map_cons, List.flatMap_cons, List.append_assoc, ← ih]
    cases names with
    | nil => simp [joinWith]
    | cons next names => simp [joinWith]

theorem splitAt_flatMap {names : List String} (h : ∀ name ∈ names, '/' ∉ name.toList)
    (rest : List Char) :
    splitAt '/' (names.flatMap (fun name => name.toList ++ ['/']) ++ rest) =
      names.map String.toList ++ splitAt '/' rest := by
  induction names with
  | nil => rfl
  | cons name names ih =>
    rw [List.forall_mem_cons] at h
    rw [List.flatMap_cons, List.append_assoc, List.append_assoc, List.singleton_append,
      splitAt_append_cons h.1, ih h.2]
    rfl

variable {path : Path} {rooted : Bool} {front names : List String} {name : String}

theorem slash_notMem (h : name ∈ path.names) : '/' ∉ name.toList := by
  obtain ⟨piece, hpiece, rfl⟩ := List.mem_map.1 h
  rw [String.toList_ofList]
  exact notMem_of_mem_splitAt hpiece

theorem names_ne_nil (path : Path) : path.names ≠ [] := by
  unfold names
  simp [splitAt_ne_nil]

theorem exists_ancestors (h : path.isEmpty = false) : ∃ above, path.ancestors = path :: above := by
  obtain ⟨name, names, hnames⟩ := List.exists_cons_of_ne_nil path.names_ne_nil
  unfold ancestors
  rw [hnames, List.length_cons, ancestors.go, h, if_neg Bool.false_ne_true]
  cases path.parent? with
  | none => exact ⟨[], rfl⟩
  | some parent => exact ⟨_, rfl⟩

/--
Names that say nothing.
-/
def IsBlank (names : List String) : Prop :=
  ∀ name ∈ names, name = "" ∨ name = "."

theorem text_eq (h : path.names = front ++ name :: names) :
    path.text.toList =
      lead path.isRooted front ++ joinWith '/' ((name :: names).map String.toList) := by
  have hjoin : joinWith '/' (path.names.map String.toList) =
      if path.isRooted then path.text.toList.drop 1 else path.text.toList := by
    have hid : ∀ pieces : List (List Char),
        (pieces.map String.ofList).map String.toList = pieces := by
      intro pieces
      rw [List.map_map]
      simp [Function.comp_def]
    unfold Path.names
    dsimp only
    rw [hid, joinWith_splitAt]
  rw [lead, List.append_assoc, ← joinWith_append_cons, ← h, hjoin]
  cases hrooted : path.isRooted with
  | false => rfl
  | true =>
    unfold isRooted at hrooted
    cases htext : path.text.toList with
    | nil => simp [htext] at hrooted
    | cons c rest =>
      rw [htext] at hrooted
      obtain rfl : c = '/' := by simpa using hrooted
      rfl

/--
Whether the first one of some names does not make a path start at the root.
-/
def Opens (rooted : Bool) (names : List String) : Prop :=
  rooted = false → names.head? ≠ some ""

theorem opens_of_names (h : path.names = front ++ name :: names) : Opens path.isRooted front := by
  intro hrooted hempty
  obtain ⟨front, rfl⟩ := List.head?_eq_some_iff.1 hempty
  have htext := text_eq h
  rw [hrooted] at htext
  unfold isRooted at hrooted
  rw [htext] at hrooted
  simp [lead] at hrooted

theorem Opens.of_begins (h : Opens rooted names) (hbegins : front <+: names) :
    Opens rooted front := by
  intro hrooted hempty
  obtain ⟨front, rfl⟩ := List.head?_eq_some_iff.1 hempty
  obtain ⟨back, rfl⟩ := hbegins
  exact h hrooted rfl

theorem names_of_text {rest : List Char} (hfree : ∀ name ∈ front, '/' ∉ name.toList)
    (hopens : Opens rooted front) (hrest : rest.head? ≠ some '/')
    (htext : path.text.toList = lead rooted front ++ rest) :
    path.isRooted = rooted ∧ path.names = front ++ (splitAt '/' rest).map String.ofList := by
  have hrooted : path.isRooted = rooted := by
    unfold isRooted
    rw [htext]
    cases rooted with
    | true => rfl
    | false =>
      rcases front with _ | ⟨name, front⟩
      . simpa [lead] using hrest
      . have hname : name.toList ≠ [] := by
          intro hnil
          exact hopens rfl (congrArg some (String.toList_eq_nil_iff.1 hnil))
        obtain ⟨c, text, hc⟩ := List.exists_cons_of_ne_nil hname
        have hslash := hfree name List.mem_cons_self
        rw [hc, List.mem_cons, not_or] at hslash
        simpa [lead, hc] using Ne.symm hslash.1
  refine ⟨hrooted, ?_⟩
  have hbody : (if path.isRooted then path.text.toList.drop 1 else path.text.toList) =
      front.flatMap (fun name => name.toList ++ ['/']) ++ rest := by
    rw [hrooted, htext]
    cases rooted <;> rfl
  unfold names
  dsimp only
  rw [hbody, splitAt_flatMap hfree, List.map_append, List.map_map]
  simp [Function.comp_def]

theorem text_ofNames (rooted : Bool) (front : List String) (name : String) :
    (ofNames rooted (front ++ [name])).text.toList = lead rooted front ++ name.toList := by
  rw [ofNames, String.toList_ofList, lead, joinWith_append_cons, List.append_assoc]
  rfl

theorem names_ofNames (hfree : ∀ name ∈ front, '/' ∉ name.toList) (hname : '/' ∉ name.toList)
    (hopens : Opens rooted front) :
    (ofNames rooted (front ++ [name])).isRooted = rooted ∧
      (ofNames rooted (front ++ [name])).names = front ++ [name] := by
  have hrest : name.toList.head? ≠ some '/' := by
    intro hhead
    exact hname (List.mem_of_head? hhead)
  obtain ⟨hrooted, hnames⟩ := names_of_text hfree hopens hrest (text_ofNames rooted front name)
  rw [splitAt_of_notMem hname] at hnames
  exact ⟨hrooted, by simpa using hnames⟩

section

variable {keepDot : Bool}

theorem trimEnd_cons (hempty : name ≠ "") (hdot : name ≠ ".") (back : List String) :
    trimEnd keepDot (name :: back) = name :: trimEnd false back := by
  rw [trimEnd]
  split
  . next hback => rw [if_neg (by simp [hempty, hdot]), hback]
  . rfl

theorem trimEnd_append_cons (front : List String) (hempty : name ≠ "") (hdot : name ≠ ".")
    (back : List String) :
    trimEnd keepDot (front ++ name :: back) = front ++ name :: trimEnd false back := by
  induction front generalizing keepDot with
  | nil => exact trimEnd_cons hempty hdot back
  | cons other front ih =>
    rw [List.cons_append, trimEnd, ih]
    cases front <;> rfl

theorem exists_trimEnd (keepDot : Bool) (names : List String) : ∃ trail,
    names = trimEnd keepDot names ++ trail ∧ IsBlank trail := by
  induction names generalizing keepDot with
  | nil => exact ⟨[], rfl, by simp [IsBlank]⟩
  | cons name names ih =>
    obtain ⟨trail, hnames, htrail⟩ := ih false
    rw [trimEnd]
    split
    . next hnil =>
      rw [hnil, List.nil_append] at hnames
      split
      . next hname =>
        refine ⟨name :: trail, by rw [← hnames]; rfl, ?_⟩
        rw [IsBlank, List.forall_mem_cons]
        exact ⟨hname.imp id And.left, htrail⟩
      . exact ⟨trail, by rw [← hnames]; rfl, htrail⟩
    . exact ⟨trail, by rw [List.cons_append, ← hnames], htrail⟩

theorem ne_empty_of_trimEnd (h : trimEnd keepDot names = front ++ [name]) : name ≠ "" := by
  induction names generalizing keepDot front with
  | nil => simp [trimEnd] at h
  | cons other names ih =>
    rw [trimEnd] at h
    split at h
    . next hnil =>
      split at h
      . simp at h
      . next hcounts =>
        rcases front with _ | ⟨first, front⟩
        . obtain rfl : other = name := by simpa using h
          intro hempty
          exact hcounts (.inl hempty)
        . simp at h
    . next hne =>
      rcases front with _ | ⟨first, front⟩
      . exact absurd (List.cons.inj h).2 hne
      . exact ih (List.cons.inj h).2

end

theorem fileName?_eq_some (h : path.fileName? = some name) : ∃ front back,
    path.trimmed = front ++ [name] ∧ path.names = front ++ name :: back ∧
      IsName name := by
  obtain ⟨last, hlast, h⟩ := Option.bind_eq_some_iff.1 h
  split at h
  . cases h
  . next hdots =>
    cases h
    rw [not_or] at hdots
    obtain ⟨front, htrimmed⟩ := List.getLast?_eq_some_iff.1 hlast
    obtain ⟨back, hnames, -⟩ := exists_trimEnd (!path.isRooted) path.names
    change path.names = path.trimmed ++ back at hnames
    rw [htrimmed, List.append_assoc] at hnames
    exact ⟨front, back, htrimmed, hnames, ne_empty_of_trimEnd htrimmed, hdots⟩

theorem fileName?_of_names (h : path.names = front ++ [name]) (hname : IsName name) :
    path.fileName? = some name ∧ path.trimmed = front ++ [name] := by
  have htrimmed : path.trimmed = front ++ [name] := by
    unfold trimmed
    rw [h, trimEnd_append_cons front hname.1 hname.2.1]
    rfl
  refine ⟨?_, htrimmed⟩
  unfold fileName?
  rw [htrimmed, List.getLast?_concat]
  exact if_neg (not_or.2 hname.2)

theorem joinWith_begins (names back : List String) :
    joinWith '/' (names.map String.toList) <+:
      joinWith '/' ((names ++ back).map String.toList) := by
  rcases List.eq_nil_or_concat names with rfl | ⟨front, name, rfl⟩
  . exact List.nil_prefix
  . rw [List.concat_eq_append, List.append_assoc, List.singleton_append, joinWith_append_cons,
      joinWith_append_cons]
    apply List.prefix_append_right_inj _ |>.2
    cases back with
    | nil => exact List.prefix_refl _
    | cons next back => exact ⟨'/' :: joinWith '/' ((next :: back).map String.toList), rfl⟩

theorem text_begins (h : names <+: path.names) :
    (ofNames path.isRooted names).text.toList <+: path.text.toList := by
  obtain ⟨back, hback⟩ := h
  obtain ⟨first, rest, hnames⟩ := List.exists_cons_of_ne_nil path.names_ne_nil
  have htext := @text_eq path [] rest first hnames
  rw [htext, ← hnames, ← hback, ofNames, String.toList_ofList, lead, List.flatMap_nil,
    List.append_nil]
  exact (List.prefix_append_right_inj _).2 (joinWith_begins names back)

theorem parent?_of_trimmed (h : path.trimmed = front ++ [name]) :
    path.parent? = some (ofNames path.isRooted (trimEnd (!path.isRooted) front)) := by
  unfold parent?
  split
  . next hnil => simp [hnil] at h
  . rw [h, List.dropLast_concat]

theorem names_parent (h : path.trimmed = front ++ [name]) {parent : Path}
    (hparent : path.parent? = some parent) (hempty : parent.isEmpty = false) :
    parent.isRooted = path.isRooted ∧ parent.text.toList <+: path.text.toList ∧
      ∃ core trail extra, front = core ++ trail ∧ parent.names = core ++ extra ∧ IsBlank trail ∧
        IsBlank extra := by
  rw [parent?_of_trimmed h] at hparent
  obtain rfl := Option.some.inj hparent
  obtain ⟨back, hnames, -⟩ := exists_trimEnd (!path.isRooted) path.names
  change path.names = path.trimmed ++ back at hnames
  rw [h, List.append_assoc, List.singleton_append] at hnames
  obtain ⟨trail, hfront, htrail⟩ := exists_trimEnd (!path.isRooted) front
  generalize trimEnd (!path.isRooted) front = core at hfront hempty ⊢
  have hcore : core <+: front := ⟨trail, hfront.symm⟩
  have hbegins : core <+: path.names := hcore.trans ⟨name :: back, hnames.symm⟩
  rcases List.eq_nil_or_concat core with rfl | ⟨above, last, rfl⟩
  . -- Only the root is above, whose one name is empty.
    have hrooted : path.isRooted = true := by
      cases hrooted : path.isRooted with
      | true => rfl
      | false =>
        rw [hrooted] at hempty
        cases hempty
    refine ⟨by rw [hrooted]; rfl, text_begins hbegins, [], trail, [""], hfront, ?_, htrail, ?_⟩
    . rw [hrooted]
      rfl
    . intro other hother
      exact .inl (List.mem_singleton.1 hother)
  . rw [List.concat_eq_append] at hfront hcore hbegins ⊢
    have hfree : ∀ other ∈ above ++ [last], '/' ∉ other.toList :=
      fun other hother => slash_notMem (hbegins.subset hother)
    rw [List.forall_mem_append, List.forall_mem_singleton] at hfree
    have hopens : Opens path.isRooted above :=
      (opens_of_names hnames).of_begins ((List.prefix_append _ _).trans hcore)
    obtain ⟨hrooted, hparent⟩ := names_ofNames hfree.1 hfree.2 hopens
    refine ⟨hrooted, text_begins hbegins, above ++ [last], trail, [], hfront, ?_, htrail, ?_⟩
    . rw [hparent, List.append_nil]
    . simp [IsBlank]

theorem countP_of_isBlank (h : IsBlank names) : names.countP significant.counts = 0 := by
  rw [List.countP_eq_zero]
  intro name hmem
  rcases h name hmem with rfl | rfl <;> decide

theorem up_notMem_of_isBlank (h : IsBlank names) : ".." ∉ names := by
  intro hmem
  rcases h _ hmem with heq | heq <;> exact absurd heq (by decide)

theorem eq_nil_of_trimEnd_dot {keepDot : Bool} (h : trimEnd keepDot names = front ++ ["."]) :
    front = [] ∧ keepDot = true := by
  induction names generalizing keepDot front with
  | nil => simp [trimEnd] at h
  | cons other names ih =>
    rw [trimEnd] at h
    split at h
    . split at h
      . simp at h
      . next hcounts =>
        rcases front with _ | ⟨first, front⟩
        . obtain rfl : other = "." := by simpa using h
          refine ⟨rfl, ?_⟩
          simpa using hcounts
        . simp at h
    . next hne =>
      rcases front with _ | ⟨first, front⟩
      . exact absurd (List.cons.inj h).2 hne
      . exact absurd (ih (List.cons.inj h).2).2 (by decide)

/--
A path that is as long as another one or shorter, and has no step up if the other one has none.
-/
structure Within (path other : Path) : Prop where
  rooted : path.isRooted = other.isRooted
  up : ".." ∉ other.names → ".." ∉ path.names
  count : path.names.countP significant.counts ≤ other.names.countP significant.counts

theorem Within.trans {other third : Path} (h : path.Within other) (h' : other.Within third) :
    path.Within third where
  rooted := h.rooted.trans h'.rooted
  up hthird := h.up (h'.up hthird)
  count := Nat.le_trans h.count h'.count

theorem counts_of_trimmed (h : path.trimmed = front ++ [name]) {parent : Path}
    (hparent : path.parent? = some parent) (hempty : parent.isEmpty = false) :
    significant.counts name = true := by
  have hname : name ≠ "" := ne_empty_of_trimEnd h
  have hdot : name ≠ "." := by
    rintro rfl
    obtain ⟨rfl, hrooted⟩ := eq_nil_of_trimEnd_dot h
    rw [Bool.not_eq_true'] at hrooted
    rw [parent?_of_trimmed h, hrooted] at hparent
    obtain rfl := Option.some.inj hparent
    cases hempty
  simp [significant.counts, hname, hdot]

theorem within_parent {parent : Path} (hparent : path.parent? = some parent)
    (hempty : parent.isEmpty = false) : parent.Within path ∧
      parent.names.countP significant.counts < path.names.countP significant.counts := by
  obtain ⟨front, name, htrimmed⟩ : ∃ front name, path.trimmed = front ++ [name] := by
    rcases List.eq_nil_or_concat path.trimmed with hnil | ⟨front, name, hconcat⟩
    . unfold parent? at hparent
      rw [hnil] at hparent
      cases hparent
    . exact ⟨front, name, hconcat.trans List.concat_eq_append⟩
  have hcounts := counts_of_trimmed htrimmed hparent hempty
  obtain ⟨hrooted, -, core, trail, extra, rfl, hnames, -, hextra⟩ :=
    names_parent htrimmed hparent hempty
  obtain ⟨back, hpath, -⟩ := exists_trimEnd (!path.isRooted) path.names
  change path.names = path.trimmed ++ back at hpath
  rw [htrimmed, List.append_assoc, List.append_assoc] at hpath
  have hlt : parent.names.countP significant.counts < path.names.countP significant.counts := by
    rw [hnames, hpath, List.countP_append, List.countP_append, countP_of_isBlank hextra,
      List.countP_append, List.countP_append, List.countP_singleton, if_pos hcounts]
    omega
  refine ⟨⟨hrooted, fun hup => ?_, Nat.le_of_lt hlt⟩, hlt⟩
  rw [hpath, List.mem_append, not_or] at hup
  rw [hnames, List.mem_append, not_or]
  exact ⟨hup.1, up_notMem_of_isBlank hextra⟩

theorem go_ancestors_of_isEmpty (h : path.isEmpty = true) (count : Nat) :
    ancestors.go count path = [] := by
  cases count with
  | zero => rfl
  | succ count => exact if_pos h

theorem within_of_mem_ancestors {other : Path} (h : other ∈ path.ancestors) : other.Within path := by
  unfold ancestors at h
  generalize path.names.length = count at h
  induction count generalizing path with
  | zero => cases h
  | succ count ih =>
    rw [ancestors.go] at h
    split at h
    . cases h
    . have hself : path.Within path := ⟨rfl, id, Nat.le_refl _⟩
      split at h
      . rw [List.mem_singleton.1 h]
        exact hself
      . next parent hparent =>
        rcases List.mem_cons.1 h with rfl | h
        . exact hself
        . have hempty : parent.isEmpty = false := by
            cases hempty : parent.isEmpty with
            | false => rfl
            | true =>
              rw [go_ancestors_of_isEmpty hempty] at h
              cases h
          exact (ih h).trans (within_parent hparent hempty).1

def above (path : Path) : List Path :=
  match path.parent? with
  | none => []
  | some parent => parent.ancestors

theorem within_of_mem_above {other : Path} (h : other ∈ path.above) : other.Within path ∧
    other.names.countP significant.counts < path.names.countP significant.counts := by
  unfold above at h
  split at h
  . cases h
  . next parent hparent =>
    cases hempty : parent.isEmpty with
    | true =>
      rw [ancestors, go_ancestors_of_isEmpty hempty] at h
      cases h
    | false =>
      have hother := within_of_mem_ancestors h
      obtain ⟨hwithin, hlt⟩ := within_parent hparent hempty
      exact ⟨hother.trans hwithin, Nat.lt_of_le_of_lt hother.count hlt⟩

theorem splitExtension_cases (name : String) : splitExtension name = (name, none) ∨
    ∃ stem extension, splitExtension name = (stem, some extension) ∧ stem ≠ "" ∧
      name.toList = stem.toList ++ '.' :: extension.toList ∧ '.' ∉ extension.toList := by
  have hback : (name.toList.reverse.takeWhile fun c => decide (c ≠ '.')) ++
      (name.toList.reverse.dropWhile fun c => decide (c ≠ '.')) = name.toList.reverse :=
    List.takeWhile_append_dropWhile
  have hfree : ∀ c ∈ name.toList.reverse.takeWhile fun c => decide (c ≠ '.'), c ≠ '.' := by
    intro c hc
    simpa using List.all_eq_true.1 List.all_takeWhile c hc
  have hdot := List.head?_dropWhile_not (fun c => decide (c ≠ '.')) name.toList.reverse
  unfold splitExtension
  dsimp only
  generalize name.toList.reverse.takeWhile (fun c => decide (c ≠ '.')) = extension at hback hfree ⊢
  generalize name.toList.reverse.dropWhile (fun c => decide (c ≠ '.')) = rest at hback hdot ⊢
  -- There is no dot at all, or one in front that begins no extension, or one behind something.
  rcases rest with _ | ⟨c, _ | ⟨d, front⟩⟩
  . exact .inl rfl
  . exact .inl rfl
  . obtain rfl : c = '.' := by simpa using hdot
    refine .inr ⟨_, _, rfl, ?_, ?_, ?_⟩
    . simp [← String.toList_eq_nil_iff]
    . rw [String.toList_ofList, String.toList_ofList, ← List.reverse_reverse name.toList, ← hback]
      simp
    . rw [String.toList_ofList, List.mem_reverse]
      intro hmem
      exact hfree '.' hmem rfl

theorem splitExtension_dot {stem : String} (hname : name.toList = stem.toList ++ ['.'])
    (hstem : stem ≠ "") : splitExtension name = (stem, some "") := by
  unfold splitExtension
  dsimp only
  have hne : stem.toList.reverse ≠ [] := by simpa using hstem
  obtain ⟨c, front, hfront⟩ := List.exists_cons_of_ne_nil hne
  rw [hname, List.reverse_append, List.reverse_singleton, List.singleton_append, hfront]
  have hback : (c :: front).reverse = stem.toList := by rw [← hfront, List.reverse_reverse]
  simp [hback]

theorem slash_notMem_splitExtension (h : '/' ∉ name.toList) :
    '/' ∉ (splitExtension name).1.toList := by
  rcases splitExtension_cases name with hnone | ⟨stem, extension, hsome, -, hname, -⟩
  . rw [hnone]
    exact h
  . rw [hname, List.mem_append, not_or] at h
    rw [hsome]
    exact h.1

/--
Where the extension is cut off, a path is written as before up to the dot. As much is cut off as the
extension is long, and it may be what is written behind the name.
-/
theorem text_cut {cut : Path} {stem old : String} {back : List String}
    (h : path.names = front ++ name :: back)
    (hname : name.toList = stem.toList ++ '.' :: old.toList)
    (hcut : cut.text.toList = path.text.toList.take (path.text.toList.length - old.length)) :
    ∃ behind, cut.text.toList = lead path.isRooted front ++ ((stem.toList ++ ['.']) ++ behind) ∧
      (back = [] → behind = []) := by
  obtain ⟨tail, htail, hend⟩ : ∃ tail, joinWith '/' ((name :: back).map String.toList) =
      name.toList ++ tail ∧ (back = [] → tail = []) := by
    cases back with
    | nil => exact ⟨[], by simp [joinWith], fun _ => rfl⟩
    | cons next back => exact ⟨_, rfl, by simp⟩
  have htext := text_eq h
  rw [htail, hname] at htext
  have hlength : (lead path.isRooted front ++ (stem.toList ++ '.' :: old.toList ++ tail)).length -
      old.length = (lead path.isRooted front ++ (stem.toList ++ ['.'])).length + tail.length := by
    simp only [List.length_append, List.length_cons, List.length_nil, String.length_toList]
    omega
  have hsplit : lead path.isRooted front ++ (stem.toList ++ '.' :: old.toList ++ tail) =
      (lead path.isRooted front ++ (stem.toList ++ ['.'])) ++ (old.toList ++ tail) := by
    simp
  refine ⟨(old.toList ++ tail).take tail.length, ?_, ?_⟩
  . rw [hcut, htext, hlength, hsplit, List.take_length_add_append, List.append_assoc]
  . intro hback
    rw [hend hback]
    rfl

/--
Where the extension is cut off, the name keeps its dot. What is left behind the dot is the end of the
name and maybe more names.
-/
theorem names_cut {cut : Path} {stem old : String} {back : List String}
    (h : path.names = front ++ name :: back)
    (hname : name.toList = stem.toList ++ '.' :: old.toList) (hstem : stem ≠ "")
    (hcut : cut.text.toList = path.text.toList.take (path.text.toList.length - old.length)) :
    ∃ first pieces, cut.isRooted = path.isRooted ∧
      cut.names = front ++ String.ofList (stem.toList ++ '.' :: first) :: pieces ∧
      (back = [] → first = [] ∧ pieces = []) := by
  have hfree : ∀ other ∈ path.names, '/' ∉ other.toList := fun other => slash_notMem
  rw [h, List.forall_mem_append, List.forall_mem_cons] at hfree
  obtain ⟨hfront, hslash, -⟩ := hfree
  replace hslash : '/' ∉ stem.toList ++ ['.'] := by
    rw [hname, List.mem_append, not_or] at hslash
    simpa using hslash.1
  obtain ⟨behind, htext, hend⟩ := text_cut h hname hcut
  obtain ⟨first, pieces, hfirst, hsplit⟩ := splitAt_append hslash behind
  have hrest : ((stem.toList ++ ['.']) ++ behind).head? ≠ some '/' := by
    intro hhead
    have hne : stem.toList ≠ [] := by simpa using hstem
    obtain ⟨c, rest, hc⟩ := List.exists_cons_of_ne_nil hne
    rw [hc] at hhead hslash
    simp at hhead hslash
    exact hslash.1 hhead.symm
  obtain ⟨hrooted, hnames⟩ := names_of_text hfront (opens_of_names h) hrest htext
  refine ⟨first, pieces.map String.ofList, hrooted, ?_, ?_⟩
  . rw [hnames, hsplit]
    simp
  . intro hback
    rw [hend hback, splitAt] at hfirst
    obtain ⟨rfl, rfl⟩ := List.cons.inj hfirst
    exact ⟨rfl, rfl⟩

theorem ofList_stem_dot_ne {stem : String} (hstem : stem ≠ "") (first : List Char) :
    String.ofList (stem.toList ++ '.' :: first) ≠ "" ∧
      String.ofList (stem.toList ++ '.' :: first) ≠ "." := by
  have hne : stem.toList ≠ [] := by simpa using hstem
  obtain ⟨c, text, hc⟩ := List.exists_cons_of_ne_nil hne
  rw [hc]
  constructor
  . intro heq
    have := congrArg String.toList heq
    rw [String.toList_ofList] at this
    cases this
  . intro heq
    have := congrArg String.toList heq
    rw [String.toList_ofList] at this
    exact absurd (List.cons.inj this).2 (by simp)

theorem withExtension_of_none (h : path.fileName? = none) (extension : String) :
    path.withExtension extension = path := by
  unfold withExtension
  rw [h]
  dsimp only [Option.bind]
  rw [setExtension, h]

theorem withExtension_cases (h : path.fileName? = some name) (extension : String) :
    (splitExtension name = (name, none) ∧
      path.withExtension extension = path.setExtension extension) ∨
    ∃ (cut : Path) (stem old : String), splitExtension name = (stem, some old) ∧ stem ≠ "" ∧
      name.toList = stem.toList ++ '.' :: old.toList ∧ '.' ∉ old.toList ∧
      cut.text.toList = path.text.toList.take (path.text.toList.length - old.length) ∧
      path.withExtension extension = cut.setExtension extension := by
  rcases splitExtension_cases name with hnone | ⟨stem, old, hsome, hstem, hname, hold⟩
  . refine .inl ⟨hnone, ?_⟩
    unfold withExtension
    rw [h]
    dsimp only [Option.bind]
    rw [hnone]
  . refine .inr ⟨⟨_⟩, stem, old, hsome, hstem, hname, hold, String.toList_ofList, ?_⟩
    unfold withExtension
    rw [h]
    dsimp only [Option.bind]
    rw [hsome]
    rfl

section

variable {extension : String} (hslash : '/' ∉ extension.toList)

include hslash

/--
A new extension leaves the names alone that are above the one that it is set for. A name that counts
is there still, unless it is a step up.
-/
theorem names_setExtension {back : List String} (h : path.names = front ++ name :: back)
    (hempty : name ≠ "") (hdot : name ≠ ".") : ∃ rest, rest ≠ [] ∧
      (path.setExtension extension).isRooted = path.isRooted ∧
      (path.setExtension extension).names = front ++ rest ∧
      (back = [] → ∃ last, rest = [last] ∧
        (IsName last → last = (splitExtension name).1 ++ "." ++ extension)) := by
  have htrimmed : path.trimmed = front ++ name :: trimEnd false back := by
    unfold trimmed
    rw [h, trimEnd_append_cons front hempty hdot]
  cases hfile : path.fileName? with
  | none =>
    rw [setExtension, hfile]
    refine ⟨_, List.cons_ne_nil _ _, rfl, h, ?_⟩
    rintro rfl
    refine ⟨name, rfl, fun hname => ?_⟩
    rw [(fileName?_of_names h hname).1] at hfile
    cases hfile
  | some last =>
    -- The last name that counts may be one behind `name`. All in front of it stay.
    obtain ⟨above, behind, habove, hnames, -⟩ := fileName?_eq_some hfile
    have hfree : ∀ other ∈ path.names, '/' ∉ other.toList := fun other => slash_notMem
    rw [hnames, List.forall_mem_append, List.forall_mem_cons] at hfree
    have hlast : '/' ∉ ((splitExtension last).1 ++ "." ++ extension).toList := by
      simp only [String.toList_append, List.mem_append, not_or]
      exact ⟨⟨slash_notMem_splitExtension hfree.2.1, by decide⟩, hslash⟩
    obtain ⟨hrooted, hset⟩ := names_ofNames hfree.1 hlast (opens_of_names hnames)
    have hdrop : above = front ++ (name :: trimEnd false back).dropLast := by
      rw [← List.dropLast_append_of_ne_nil (List.cons_ne_nil _ _), ← htrimmed, habove,
        List.dropLast_concat]
    have hsame : path.setExtension extension =
        ofNames path.isRooted (above ++ [(splitExtension last).1 ++ "." ++ extension]) := by
      rw [setExtension, hfile, habove, List.dropLast_concat]
    rw [hsame]
    refine ⟨(name :: trimEnd false back).dropLast ++ [(splitExtension last).1 ++ "." ++ extension],
      by simp, hrooted, ?_, ?_⟩
    . rw [hset, hdrop, List.append_assoc]
    . rintro rfl
      rw [habove, hdrop] at htrimmed
      obtain rfl : last = name := by simpa [trimEnd] using htrimmed
      exact ⟨_, rfl, fun _ => rfl⟩

/--
With another extension, a path still leads through all names above the last one. Where it ended with
a name, it ends with another one now, or with none.
-/
theorem names_withExtension (hdot : '.' ∈ extension.toList) (h : path.fileName? = some name)
    (htrimmed : path.trimmed = front ++ [name]) : ∃ rest, rest ≠ [] ∧
      (path.withExtension extension).isRooted = path.isRooted ∧
      (path.withExtension extension).names = front ++ rest ∧
      (path.names = front ++ [name] → ∃ last, rest = [last] ∧ (IsName last → last ≠ name)) := by
  obtain ⟨front', back, htrimmed', hnames, hname⟩ := fileName?_eq_some h
  obtain ⟨rfl, -⟩ := List.append_inj' (htrimmed'.symm.trans htrimmed) rfl
  have hback : path.names = front' ++ [name] → back = [] := by
    intro hend
    rw [hnames] at hend
    exact (List.cons.inj (List.append_cancel_left hend)).2
  rcases withExtension_cases h extension with
    ⟨hnone, hsame⟩ | ⟨cut, stem, old, -, hstem, htext, hold, hcut, hsame⟩
  . obtain ⟨rest, hne, hrooted, hset, hend⟩ := names_setExtension hslash hnames hname.1 hname.2.1
    rw [hsame]
    refine ⟨rest, hne, hrooted, hset, fun hlast => ?_⟩
    obtain ⟨last, rfl, hlast⟩ := hend (hback hlast)
    refine ⟨last, rfl, fun hname heq => ?_⟩
    -- The name is longer than before by the extension and the dot.
    have hlength := congrArg String.length ((hlast hname).symm.trans heq)
    have hone : ".".length = 1 := rfl
    rw [hnone, String.length_append, String.length_append] at hlength
    dsimp only at hlength
    omega
  . obtain ⟨first, pieces, hrooted, hbase, hend⟩ := names_cut hnames htext hstem hcut
    obtain ⟨hempty, hdot'⟩ := ofList_stem_dot_ne hstem first
    obtain ⟨rest, hne, hrooted', hset, hend'⟩ := names_setExtension hslash hbase hempty hdot'
    rw [hsame]
    refine ⟨rest, hne, hrooted'.trans hrooted, hset, fun hlast => ?_⟩
    obtain ⟨rfl, rfl⟩ := hend (hback hlast)
    obtain ⟨last, rfl, hlast⟩ := hend' rfl
    refine ⟨last, rfl, fun hname heq => ?_⟩
    -- The old extension has no dot in it, but the new one has.
    have hsame := congrArg String.toList ((hlast hname).symm.trans heq)
    rw [splitExtension_dot String.toList_ofList hstem, htext] at hsame
    simp only [String.toList_append, List.append_assoc] at hsame
    have hextension := (List.cons.inj (List.append_cancel_left hsame)).2
    rw [← hextension] at hold
    exact hold hdot

end

end Path

end ReadProgress
