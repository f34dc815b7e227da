import ReadProgress.Proofs.FileTree.Steady

/-!
This module contains what changes in a tree when the directories above a file are made, and what does
not. Paths that have led somewhere lead there still. Of the others, some may lead somewhere now.
-/

namespace ReadProgress

namespace FileTree

variable {tree tree' tree'' : FileTree} {home place : Location} {path : Path} {paths : List Path}

def node? (tree : FileTree) (home : Location) (path : Path) : Option Node :=
  (tree.find home path).toOption.map Prod.snd

theorem node?_eq_some {node : Node} :
    tree.node? home path = some node ↔ ∃ place, tree.find home path = .ok (place, node) := by
  unfold node?
  rcases tree.find home path with e | ⟨place, found⟩
  . simp [Except.toOption]
  . simp [Except.toOption, eq_comm]

theorem node?_of_not_leads (h : tree.leads home path = false) : tree.node? home path = none := by
  rw [Option.eq_none_iff_forall_ne_some]
  intro node hnode
  obtain ⟨place, hfind⟩ := node?_eq_some.1 hnode
  rw [leads_of_find hfind] at h
  cases h

theorem find_directory_of_keeps (h : tree.Keeps tree')
    (hfind : tree.find home path = .ok (place, .directory)) :
    tree'.find home path = .ok (place, .directory) := by
  obtain ⟨hcheck, hwalk, hplace⟩ := find_eq_ok.1 hfind
  exact find_eq_ok.2 ⟨hcheck, walk_of_keeps h hwalk, h place hplace⟩

/--
At some place, a tree has what another one has, or a directory where the other one has nothing, and
then one of some paths leads to that.
-/
def KeptAt (home : Location) (paths : List Path) (tree tree' : FileTree) (place : Location) : Prop :=
  tree'.get? place = tree.get? place ∨
    tree.get? place = none ∧ ∃ path ∈ paths, tree'.find home path = .ok (place, .directory)

namespace KeptAt

theorem get?_of_some (h : KeptAt home paths tree tree' place) {node : Node}
    (hnode : tree.get? place = some node) : tree'.get? place = some node := by
  rcases h with hsame | ⟨hnone, -⟩
  . rw [hsame, hnode]
  . rw [hnone] at hnode
    cases hnode

theorem get?_of_none (h : KeptAt home paths tree tree' place) (hnone : tree'.get? place = none) :
    tree.get? place = none := by
  rcases h with hsame | ⟨hbefore, -⟩
  . rw [← hsame, hnone]
  . exact hbefore

theorem of_mem {others : List Path} (h : KeptAt home paths tree tree' place)
    (hmem : ∀ path ∈ paths, path ∈ others) : KeptAt home others tree tree' place := by
  rcases h with hsame | ⟨hnone, path, hpath, hfind⟩
  . exact .inl hsame
  . exact .inr ⟨hnone, path, hmem path hpath, hfind⟩

theorem of_keeps (h : KeptAt home paths tree tree' place) (hkeeps : tree'.Keeps tree'')
    (hsame : tree''.get? place = tree'.get? place) : KeptAt home paths tree tree'' place := by
  rcases h with hkept | ⟨hnone, path, hpath, hfind⟩
  . exact .inl (hsame.trans hkept)
  . exact .inr ⟨hnone, path, hpath, find_directory_of_keeps hkeeps hfind⟩

theorem makeDirectory (h : KeptAt home paths tree tree' place)
    (hmade : tree'.makeDirectory home path = .ok tree'') :
    KeptAt home (path :: paths) tree tree'' place := by
  obtain ⟨directory, name, -, hfree, rfl, hfind⟩ := makeDirectory_eq_ok hmade
  by_cases heq : place = name :: directory
  . subst heq
    exact .inr ⟨h.get?_of_none hfree, path, List.mem_cons_self, hfind⟩
  . have hkeeps : tree'.Keeps (tree'.put (name :: directory) .directory) :=
      keeps_put (by simp [hfree]) _
    refine (h.of_mem fun other => List.mem_cons_of_mem path).of_keeps hkeeps ?_
    rw [Table.get?_put, if_neg heq]

end KeptAt

theorem keptAt_makeFirst (tree : FileTree) (home : Location) (paths : List Path) (place : Location) :
    KeptAt home paths tree (tree.makeFirst home paths).2 place := by
  induction paths generalizing tree with
  | nil => exact .inl rfl
  | cons path above ih =>
    have habove := ih tree
    have hweaken := fun other => List.mem_cons_of_mem (a := other) path (l := above)
    unfold makeFirst
    split
    . next hmade => exact KeptAt.makeDirectory (.inl rfl) hmade
    . split
      . next hfailed =>
        rw [hfailed] at habove
        exact habove.of_mem hweaken
      . next hdone =>
        rw [hdone] at habove
        split
        . next hmade => exact habove.makeDirectory hmade
        . exact habove.of_mem hweaken
    . exact .inl rfl

/--
Nothing changes but that missing directories above a path are made.
-/
theorem keptAt_makeParents (tree : FileTree) (home : Location) (path : Path) (place : Location) :
    KeptAt home path.above tree (tree.makeParents home path).2 place := by
  unfold makeParents Path.above
  cases path.parent? with
  | none => exact .inl rfl
  | some parent =>
    dsimp only
    split
    . exact .inl rfl
    . exact keptAt_makeFirst tree home _ place

theorem keeps_makeParents (tree : FileTree) (home : Location) (path : Path) :
    tree.Keeps (tree.makeParents home path).2 :=
  fun place => (keptAt_makeParents tree home path place).get?_of_some

theorem find_makeParents {other : Path} {node : Node} (above : Path)
    (h : tree.find home other = .ok (place, node)) :
    (tree.makeParents home above).2.find home other = .ok (place, node) := by
  obtain ⟨hcheck, hwalk, hnode⟩ := find_eq_ok.1 h
  exact find_eq_ok.2 ⟨hcheck, walk_of_keeps (keeps_makeParents tree home above) hwalk,
    (keptAt_makeParents tree home above place).get?_of_some hnode⟩

theorem node?_makeParents (h : tree.leads home path = false →
    (tree.makeParents home path).2.leads home path = false) :
    (tree.makeParents home path).2.node? home path = tree.node? home path := by
  cases hleads : tree.leads home path with
  | false => rw [node?_of_not_leads hleads, node?_of_not_leads (h hleads)]
  | true =>
    obtain ⟨place, node, hfind⟩ := leads_iff.1 hleads
    have hfind := find_eq_ok.2 hfind
    rw [node?_eq_some.2 ⟨place, hfind⟩, node?_eq_some.2 ⟨place, find_makeParents path hfind⟩]

theorem readFile_of_makeParents {other : Path} {content : Bytes} (above : Path)
    (h : tree.readFile home other = .ok content) :
    (tree.makeParents home above).2.readFile home other = .ok content := by
  obtain ⟨place, hfound⟩ := readFile_eq_ok.1 h
  exact readFile_eq_ok.2 ⟨place, find_eq_ok.1 (find_makeParents above (find_eq_ok.2 hfound))⟩

section

variable {start : Location} {names : List String}

theorem exists_added_of_walk (h : tree.walk start names = .ok place) (hup : ".." ∉ names) :
    ∃ added, place = added ++ start ∧ added.length = names.countP Path.significant.counts := by
  induction names generalizing start with
  | nil =>
    cases h
    exact ⟨[], rfl, rfl⟩
  | cons name names ih =>
    rw [List.mem_cons, not_or] at hup
    obtain ⟨-, ⟨hname, hrest⟩ | ⟨heq, -⟩ | ⟨hname, next, hnext, hrest⟩⟩ := walk_cons_eq_ok h
    . obtain ⟨added, hplace, hlength⟩ := ih hrest hup.2
      refine ⟨added, hplace, ?_⟩
      rcases hname with rfl | rfl
      . simpa [Path.significant.counts] using hlength
      . simpa [Path.significant.counts] using hlength
    . exact absurd heq.symm hup.1
    . obtain rfl := child_eq_ok hnext
      obtain ⟨added, hplace, hlength⟩ := ih hrest hup.2
      refine ⟨added ++ [name], by simp [hplace], ?_⟩
      simp [hlength, Path.significant.counts, hname.1, hname.2.1]

theorem Founded.of_append (h : tree.Founded) {added : List String} (hadded : added ≠ [])
    {node : Node} (hnode : tree.get? (added ++ start) = some node) :
    tree.get? start = some .directory := by
  induction added generalizing node with
  | nil => exact absurd rfl hadded
  | cons name added ih =>
    have hdirectory := h name (added ++ start) node hnode
    cases added with
    | nil => exact hdirectory
    | cons next added => exact ih (List.cons_ne_nil _ _) hdirectory

/--
A way without a step up leads to a place in a tree that grows only if it has led there all along, or
there was nothing at that place.
-/
theorem walk_of_get? (hfounded : tree.Founded)
    (hkept : ∀ other node, tree.get? other = some node → tree'.get? other = some node)
    (h : tree'.walk start names = .ok place) (hup : ".." ∉ names) {node : Node}
    (hnode : tree.get? place = some node) : tree.walk start names = .ok place := by
  induction names generalizing start with
  | nil => exact h
  | cons name names ih =>
    have hup' := hup
    rw [List.mem_cons, not_or] at hup'
    obtain ⟨hstart', hcases⟩ := walk_cons_eq_ok h
    have hstart : tree.get? start = some .directory := by
      obtain ⟨added, rfl, -⟩ := exists_added_of_walk h hup
      rcases List.eq_nil_or_concat added with rfl | ⟨front, last, hconcat⟩
      . have hsame := hkept _ node hnode
        rw [List.nil_append] at hsame hnode
        rw [hstart'] at hsame
        rw [hnode, hsame]
      . exact hfounded.of_append (by simp [hconcat]) hnode
    rcases hcases with ⟨hname, hrest⟩ | ⟨heq, -⟩ | ⟨hname, next, hnext, hrest⟩
    . rw [walk_of_empty hstart hname]
      exact ih hrest hup'.2
    . exact absurd heq.symm hup'.1
    . rw [walk_of_isName hstart hname, hnext]
      exact ih hrest hup'.2

end

theorem leads_makeParents_of_up_notMem (hfounded : tree.Founded) (hup : ".." ∉ path.names)
    (h : tree.leads home path = false) : (tree.makeParents home path).2.leads home path = false := by
  rw [← Bool.not_eq_true] at h ⊢
  intro hleads
  apply h
  obtain ⟨place, node, hcheck, hwalk, hnode⟩ := leads_iff.1 hleads
  refine leads_iff.2 ⟨place, node, hcheck, ?_⟩
  rcases keptAt_makeParents tree home path place with hsame | ⟨-, other, hother, hfind⟩
  . rw [hsame] at hnode
    refine ⟨walk_of_get? hfounded ?_ hwalk hup hnode, hnode⟩
    exact fun place node => (keptAt_makeParents tree home path place).get?_of_some
  . -- the directories that are made are not as far down as the path leads
    obtain ⟨hwithin, hlt⟩ := Path.within_of_mem_above hother
    obtain ⟨-, hwalk', -⟩ := find_eq_ok.1 hfind
    rw [origin_congr hwithin.rooted] at hwalk'
    obtain ⟨added, rfl, hlength⟩ := exists_added_of_walk hwalk hup
    obtain ⟨added', hplace, hlength'⟩ := exists_added_of_walk hwalk' (hwithin.up hup)
    have := congrArg List.length hplace
    simp only [List.length_append] at this
    omega

theorem readFile_of_get?_eq (h : ∀ place, tree'.get? place = tree.get? place) {content : Bytes}
    (hread : tree'.readFile home path = .ok content) : tree.readFile home path = .ok content := by
  obtain ⟨place, hcheck, hwalk, hfile⟩ := readFile_eq_ok.1 hread
  have hkeeps : tree'.Keeps tree := by
    intro other hother
    rw [← h]
    exact hother
  rw [h] at hfile
  exact readFile_eq_ok.2 ⟨place, hcheck, walk_of_keeps hkeeps hwalk, hfile⟩

section

variable {extension : String} (hslash : '/' ∉ extension.toList) (hdot : '.' ∈ extension.toList)

include hslash hdot

theorem Spares.node?_eq (h : Spares home (path.withExtension extension) tree tree')
    (hfounded : tree.Founded) : tree'.node? home path = tree.node? home path := by
  ext node
  rw [node?_eq_some, node?_eq_some]
  cases node with
  | directory =>
    constructor
    . rintro ⟨place, hfind⟩
      exact ⟨place, find_directory_of_keeps h.keeps_back hfind⟩
    . rintro ⟨place, hfind⟩
      exact ⟨place, find_directory_of_keeps h.keeps hfind⟩
  | file content =>
    have hread : tree'.readFile home path = .ok content ↔ _ := h.readFile_iff hslash hdot hfounded
    simp only [readFile_eq_ok, ← find_eq_ok] at hread
    exact hread

end

theorem Spares.get?_eq {temporary : Path} (h : Spares home temporary tree tree')
    (hbefore : ∀ content, tree.readFile home temporary ≠ .ok content)
    (hafter : ∀ content, tree'.readFile home temporary ≠ .ok content) (place : Location) :
    tree'.get? place = tree.get? place := by
  by_cases hpoints : ∃ directory name, tree.PointsTo home temporary directory name ∧
      place = name :: directory
  . obtain ⟨directory, name, hpoints, rfl⟩ := hpoints
    have hfile : ∀ content, tree.get? (name :: directory) ≠ some (.file content) :=
      fun content hcontent => hbefore content (hpoints.readFile hcontent)
    have hfile' : ∀ content, tree'.get? (name :: directory) ≠ some (.file content) :=
      fun content hcontent => hafter content ((hpoints.keeps h.keeps).readFile hcontent)
    ext node
    cases node with
    | file content =>
      exact ⟨fun hnode => absurd hnode (hfile' content), fun hnode => absurd hnode (hfile content)⟩
    | directory => exact h.directories _
  . apply h.files
    rintro directory name htemporary rfl
    exact hpoints ⟨directory, name, htemporary, rfl⟩

end FileTree

end ReadProgress
