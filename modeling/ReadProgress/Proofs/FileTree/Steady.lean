import ReadProgress.Proofs.FileTree

/-!
This module contains what files under a path have to do with temporary files beside them. In a tree
where everything lies in a directory, a temporary file may come and go, and neither the file under
the path nor the directories above it are touched.
-/

namespace ReadProgress

namespace FileTree

variable {tree tree' : FileTree} {home directory place start : Location} {path parent : Path}
  {name : String} {names : List String}

/--
Everything in a tree lies in a directory.
-/
def Founded (tree : FileTree) : Prop :=
  ∀ name directory node, tree.get? (name :: directory) = some node →
    tree.get? directory = some .directory

theorem Founded.put (h : tree.Founded) (hdirectory : tree.get? directory = some .directory)
    (hplace : tree.get? (name :: directory) ≠ some .directory) (node : Node) :
    Founded (tree.put (name :: directory) node) := by
  have hkeeps := keeps_put hplace node
  intro last other found hfound
  apply hkeeps
  rw [Table.get?_put] at hfound
  split at hfound
  . next heq =>
    obtain ⟨-, rfl⟩ := List.cons.inj heq
    exact hdirectory
  . exact h last other found hfound

theorem Founded.erase (h : tree.Founded) (hplace : tree.get? place ≠ some .directory) :
    Founded (tree.erase place) := by
  have hkeeps := keeps_erase hplace
  intro last other found hfound
  apply hkeeps
  rw [Table.get?_erase] at hfound
  split at hfound
  . cases hfound
  . exact h last other found hfound

theorem founded_ofDirectory (place : Location) :
    (ofDirectory place).Founded ∧ (ofDirectory place).get? place = some .directory := by
  induction place with
  | nil =>
    refine ⟨?_, rfl⟩
    intro name directory node h
    unfold ofDirectory at h
    rw [Table.get?_put, if_neg (List.cons_ne_nil _ _), Table.get?_empty] at h
    cases h
  | cons name above ih =>
    obtain ⟨hfounded, hfound⟩ := ih
    refine ⟨?_, (Table.get?_put _ _ _ _).trans (if_pos rfl)⟩
    intro last other node h
    rw [ofDirectory, Table.get?_put] at h ⊢
    split
    . rfl
    . split at h
      . next heq =>
        obtain ⟨-, rfl⟩ := List.cons.inj heq
        exact hfound
      . exact hfounded last other node h

theorem Founded.makeParents (h : tree.Founded) (home : Location) (path : Path) :
    (tree.makeParents home path).2.Founded := by
  refine of_makeParents ?_ h
  intro other directory name hother hdirectory hfree
  refine hother.put hdirectory ?_ .directory
  simp [hfree]

theorem Founded.pointsTo (h : tree.Founded) {content : Bytes} (hcheck : checkPath path = .ok ())
    (hwalk : tree.walk (origin home path) path.names = .ok place)
    (hfile : tree.get? place = some (.file content)) :
    ∃ directory name, place = name :: directory ∧ tree.PointsTo home path directory name := by
  obtain ⟨front, last, hnames⟩ : ∃ front last, path.names = front ++ [last] :=
    ⟨_, _, (List.dropLast_concat_getLast path.names_ne_nil).symm⟩
  have hway := hwalk
  rw [hnames, walk_append, bind_eq_ok] at hwalk
  obtain ⟨directory, hfront, hlast⟩ := hwalk
  obtain ⟨hdirectory, hcases⟩ := walk_cons_eq_ok hlast
  -- of a path that ends with no name, or with two dots, only a directory can be reached
  rcases hcases with ⟨-, hend⟩ | ⟨rfl, hend⟩ | ⟨hname, next, hnext, hend⟩
  . cases hend
    rw [hdirectory] at hfile
    cases hfile
  . cases hend
    rcases directory with _ | ⟨last, above⟩
    . rw [List.tail_nil, hdirectory] at hfile
      cases hfile
    . rw [List.tail_cons, h last above _ hdirectory] at hfile
      cases hfile
  . cases hend
    obtain rfl := child_eq_ok hnext
    exact ⟨directory, last, rfl, hcheck, ⟨front, hnames, hfront⟩, hdirectory, hname, hnext⟩

theorem Founded.pointsTo_of_readFile (h : tree.Founded) {content : Bytes}
    (hread : tree.readFile home path = .ok content) : ∃ directory name,
      tree.PointsTo home path directory name ∧
        tree.get? (name :: directory) = some (.file content) := by
  obtain ⟨place, hcheck, hwalk, hfile⟩ := readFile_eq_ok.1 hread
  obtain ⟨directory, name, rfl, hpoints⟩ := h.pointsTo hcheck hwalk hfile
  exact ⟨directory, name, hpoints, hfile⟩

theorem Founded.writeFile (h : tree.Founded) {content : Bytes}
    (hwrite : tree.writeFile home path content = .ok tree') : tree'.Founded := by
  obtain ⟨directory, name, hpoints, hplace, rfl⟩ := writeFile_eq_ok hwrite
  exact h.put hpoints.found hplace _

theorem Founded.removeFile (h : tree.Founded) (hremove : tree.removeFile home path = .ok tree') :
    tree'.Founded := by
  obtain ⟨place, content, -, -, hfile, rfl⟩ := removeFile_eq_ok hremove
  exact h.erase (by simp [hfile])

theorem Founded.moveFile (h : tree.Founded) {source target : Path}
    (hmove : tree.moveFile home source target = .ok tree') : tree'.Founded := by
  obtain ⟨directory, name, directory', name', content, -, htarget, hcontent, hfree, rfl⟩ :=
    moveFile_eq_ok hmove
  have hnode : tree.get? (name :: directory) ≠ some .directory := by simp [hcontent]
  refine (h.erase hnode).put (keeps_erase hnode _ htarget.found) ?_ _
  rw [Table.get?_erase]
  split
  . simp
  . exact hfree

/--
The path above another one leads somewhere, if there is such a path.
-/
def HasParent (tree : FileTree) (home : Location) (path : Path) : Prop :=
  ∀ parent, path.parent? = some parent → parent.isEmpty = false → tree.leads home parent = true

theorem HasParent.makeParents_eq (h : tree.HasParent home path) :
    tree.makeParents home path = (.ok (), tree) := by
  unfold makeParents
  split
  . rfl
  . next parent hparent =>
    rw [if_pos]
    cases hempty : parent.isEmpty with
    | true => exact .inl rfl
    | false => exact .inr (h parent hparent hempty)

theorem leads_of_leadsToDirectory (h : tree.leadsToDirectory home path = true) :
    tree.leads home path = true := by
  unfold leadsToDirectory at h
  unfold leads
  split at h
  . next hfind => rw [hfind]
  . cases h

theorem leads_of_makeFirst {above : List Path}
    (h : tree.makeFirst home (path :: above) = (.ok (), tree')) : tree'.leads home path = true := by
  have hsettled : ∀ tree e, makeFirst.settled home tree path e = .ok () →
      tree.leads home path = true := by
    intro tree e hsettled
    unfold makeFirst.settled at hsettled
    split at hsettled
    . next hdirectory => exact leads_of_leadsToDirectory hdirectory
    . cases hsettled
  have hmade : ∀ {tree tree' : FileTree}, tree.makeDirectory home path = .ok tree' →
      tree'.leads home path = true := by
    intro tree tree' hmade
    obtain ⟨directory, name, -, -, -, hfind⟩ := makeDirectory_eq_ok hmade
    exact leads_of_find hfind
  unfold makeFirst at h
  split at h
  . next hfirst =>
    cases h
    exact hmade hfirst
  . split at h
    . cases h
    . split at h
      . next hlast =>
        cases h
        exact hmade hlast
      . next e hlast =>
        obtain ⟨hresult, rfl⟩ := Prod.mk.inj h
        exact hsettled _ e hresult
  . next e _ hfirst =>
    obtain ⟨hresult, rfl⟩ := Prod.mk.inj h
    exact hsettled _ e hresult

theorem hasParent_of_makeParents (h : tree.makeParents home path = (.ok (), tree')) :
    tree'.HasParent home path := by
  intro parent hparent hempty
  unfold makeParents at h
  rw [hparent] at h
  dsimp only at h
  split at h
  . next hleads =>
    cases h
    rw [hempty] at hleads
    simpa using hleads
  . unfold makeDirectories at h
    obtain ⟨above, habove⟩ := Path.exists_ancestors hempty
    rw [habove] at h
    exact leads_of_makeFirst h

theorem of_walk_blank (h : Path.IsBlank names) (hwalk : tree.walk start names = .ok place) :
    place = start := by
  induction names with
  | nil =>
    cases hwalk
    rfl
  | cons name names ih =>
    rw [Path.IsBlank, List.forall_mem_cons] at h
    obtain ⟨hstart, -⟩ := walk_cons_eq_ok hwalk
    rw [walk_of_empty hstart h.1] at hwalk
    exact ih h.2 hwalk

theorem checkPath_of_begins (h : checkPath path = .ok ()) (hempty : parent.isEmpty = false)
    (hbegins : parent.text.toList <+: path.text.toList) : checkPath parent = .ok () := by
  obtain ⟨rest, hrest⟩ := hbegins
  have htext : path.text = parent.text ++ String.ofList rest := by
    rw [← String.toList_inj, String.toList_append, String.toList_ofList, hrest]
  have hsize := congrArg String.utf8ByteSize htext
  rw [String.utf8ByteSize_append] at hsize
  unfold checkPath at h ⊢
  split at h
  . cases h
  . next hnul =>
    split at h
    . cases h
    . split at h
      . cases h
      . next hlimit =>
        rw [if_neg, if_neg, if_neg]
        . omega
        . simp [hempty]
        . intro hmem
          apply hnul
          rw [← hrest]
          exact List.mem_append_left _ hmem

theorem origin_congr {other : Path} (h : path.isRooted = other.isRooted) :
    origin home path = origin home other := by
  rw [origin, origin, h]

theorem PointsTo.hasParent (h : tree.PointsTo home path directory name) :
    tree.HasParent home path := by
  intro parent hparent hempty
  obtain ⟨front, hnames, hwalk⟩ := h.way
  obtain ⟨-, htrimmed⟩ := Path.fileName?_of_names hnames h.isName
  obtain ⟨hrooted, hbegins, core, trail, extra, hfront, hparent, htrail, hextra⟩ :=
    Path.names_parent htrimmed hparent hempty
  refine leads_iff.2 ⟨directory, .directory, checkPath_of_begins h.check hempty hbegins, ?_, h.found⟩
  rw [hfront, walk_append, bind_eq_ok] at hwalk
  obtain ⟨place, hcore, hend⟩ := hwalk
  obtain rfl := of_walk_blank htrail hend
  rw [origin_congr hrooted, hparent, walk_append, hcore]
  exact walk_of_blank h.found hextra

section

variable {extension : String} (hslash : '/' ∉ extension.toList) (hdot : '.' ∈ extension.toList)

include hslash hdot

/--
Where there may be a temporary file: in the directory that is reached by the names above the last one
of the path that it is made from, or below that.
-/
theorem PointsTo.temporary (h : tree.PointsTo home (path.withExtension extension) directory name) :
    ∃ front last below, path.trimmed = front ++ [last] ∧
      tree.walk (origin home path) (front ++ below) = .ok directory ∧
      (path.names = front ++ [last] → below = [] ∧ name ≠ last) := by
  obtain ⟨way, hnames, hwalk⟩ := h.way
  cases hfile : path.fileName? with
  | none =>
    rw [Path.withExtension_of_none hfile] at hnames
    rw [(Path.fileName?_of_names hnames h.isName).1] at hfile
    cases hfile
  | some last =>
    obtain ⟨front, -, htrimmed, -⟩ := Path.fileName?_eq_some hfile
    obtain ⟨rest, hne, hrooted, hrest, hlast⟩ := Path.names_withExtension hslash hdot hfile htrimmed
    rcases List.eq_nil_or_concat rest with rfl | ⟨below, end', rfl⟩
    . exact absurd rfl hne
    . rw [List.concat_eq_append, ← List.append_assoc, hnames] at hrest
      obtain ⟨rfl, hend⟩ := List.append_inj' hrest rfl
      obtain rfl := List.singleton_inj.1 hend
      rw [origin_congr hrooted] at hwalk
      refine ⟨front, last, below, htrimmed, hwalk, fun hpath => ?_⟩
      obtain ⟨other, hother, hne⟩ := hlast hpath
      rw [List.concat_eq_append] at hother
      have hbelow : below = [] := by
        have := congrArg List.length hother
        simpa using this
      rw [hbelow] at hother
      obtain rfl := List.singleton_inj.1 hother
      exact ⟨hbelow, hne h.isName⟩

theorem PointsTo.eq_directory (h : tree.PointsTo home (path.withExtension extension) directory name)
    (hparent : path.parent? = some parent) (hempty : parent.isEmpty = false)
    (hwalk : tree.walk (origin home parent) parent.names = .ok place) :
    tree.get? place = some .directory := by
  obtain ⟨front, last, below, htrimmed, hway, -⟩ := h.temporary hslash hdot
  obtain ⟨hrooted, -, core, trail, extra, hfront, hnames, htrail, hextra⟩ :=
    Path.names_parent htrimmed hparent hempty
  rw [origin_congr hrooted, hnames, walk_append, bind_eq_ok] at hwalk
  obtain ⟨reached, hcore, hend⟩ := hwalk
  obtain rfl := of_walk_blank hextra hend
  rw [hfront, walk_append, walk_append, hcore] at hway
  obtain ⟨other, hother, hbelow⟩ := bind_eq_ok.1 hway
  obtain rfl := of_walk_blank htrail hother
  cases below with
  | nil =>
    cases hbelow
    exact h.found
  | cons next below => exact (walk_cons_eq_ok hbelow).1

theorem PointsTo.ne_temporary {other : Location} {last : String}
    (h : tree.PointsTo home path directory name)
    (htemporary : tree.PointsTo home (path.withExtension extension) other last) :
    name :: directory ≠ last :: other := by
  obtain ⟨front, _, below, htrimmed, -, hlast⟩ := htemporary.temporary hslash hdot
  obtain ⟨way, hnames, -⟩ := h.way
  have hway := (Path.fileName?_of_names hnames h.isName).2.symm.trans htrimmed
  intro heq
  apply (hlast (hnames.trans hway)).2
  rw [← (List.cons.inj heq).1]
  exact List.singleton_inj.1 (List.append_inj' hway rfl).2

theorem HasParent.keeps (h : tree.HasParent home path) (hkeeps : tree.Keeps tree')
    (hfiles : ∀ place content, tree.get? place = some (.file content) →
      (∀ directory name, ¬ tree.PointsTo home (path.withExtension extension) directory name) →
        tree'.get? place = some (.file content)) : tree'.HasParent home path := by
  intro parent hparent hempty
  obtain ⟨place, node, hcheck, hwalk, hnode⟩ := leads_iff.1 (h parent hparent hempty)
  refine leads_iff.2 ⟨place, node, hcheck, walk_of_keeps hkeeps hwalk, ?_⟩
  cases node with
  | directory => exact hkeeps place hnode
  | file content =>
    -- a file is no directory, so there can be no temporary file below the path that leads to it
    refine hfiles place content hnode fun directory name htemporary => ?_
    rw [htemporary.eq_directory hslash hdot hparent hempty hwalk] at hnode
    cases hnode

end

/--
One tree has all that another one has, but for a temporary file that may have come or gone.
-/
structure Spares (home : Location) (temporary : Path) (tree tree' : FileTree) : Prop where
  founded : tree'.Founded
  directories : ∀ place, tree'.get? place = some .directory ↔ tree.get? place = some .directory
  files : ∀ place, (∀ directory name, tree.PointsTo home temporary directory name →
    place ≠ name :: directory) → tree'.get? place = tree.get? place

namespace Spares

variable {temporary : Path} {tree'' : FileTree}

theorem refl (h : tree.Founded) : Spares home temporary tree tree where
  founded := h
  directories _ := Iff.rfl
  files _ _ := rfl

theorem keeps (h : Spares home temporary tree tree') : tree.Keeps tree' :=
  fun place hplace => (h.directories place).2 hplace

theorem keeps_back (h : Spares home temporary tree tree') : tree'.Keeps tree :=
  fun place hplace => (h.directories place).1 hplace

theorem put (h : Spares home temporary tree tree')
    (hpoints : tree'.PointsTo home temporary directory name)
    (hplace : tree'.get? (name :: directory) ≠ some .directory) (content : Bytes) :
    Spares home temporary tree (tree'.put (name :: directory) (.file content)) where
  founded := h.founded.put hpoints.found hplace _
  directories place := by
    rw [← h.directories, Table.get?_put]
    split
    . next heq => simp [heq, hplace]
    . rfl
  files place hother := by
    rw [Table.get?_put, if_neg (hother directory name (hpoints.keeps h.keeps_back))]
    exact h.files place hother

theorem erase (h : Spares home temporary tree tree')
    (hpoints : tree'.PointsTo home temporary directory name)
    (hplace : tree'.get? (name :: directory) ≠ some .directory) :
    Spares home temporary tree (tree'.erase (name :: directory)) where
  founded := h.founded.erase hplace
  directories place := by
    rw [← h.directories, Table.get?_erase]
    split
    . next heq => simp [heq, hplace]
    . rfl
  files place hother := by
    rw [Table.get?_erase, if_neg (hother directory name (hpoints.keeps h.keeps_back))]
    exact h.files place hother

end Spares

/--
A path leads to a file or nowhere, and what is above it is there.
-/
structure Steady (tree : FileTree) (home : Location) (path : Path) : Prop where
  founded : tree.Founded
  hasParent : tree.HasParent home path
  readable : tree.leads home path = true → ∃ content, tree.readFile home path = .ok content

section

variable {extension : String} (hslash : '/' ∉ extension.toList) (hdot : '.' ∈ extension.toList)

include hslash hdot

theorem Spares.hasParent (h : Spares home (path.withExtension extension) tree tree')
    (hparent : tree.HasParent home path) : tree'.HasParent home path := by
  refine hparent.keeps hslash hdot h.keeps fun place content hplace hnone => ?_
  rw [h.files place fun directory name hpoints => absurd hpoints (hnone directory name)]
  exact hplace

theorem Spares.readFile_iff (h : Spares home (path.withExtension extension) tree tree')
    (hfounded : tree.Founded) {content : Bytes} :
    tree'.readFile home path = .ok content ↔ tree.readFile home path = .ok content := by
  have hplace : ∀ directory name, tree.PointsTo home path directory name →
      tree'.get? (name :: directory) = tree.get? (name :: directory) := by
    intro directory name hpoints
    exact h.files _ fun other last htemporary => hpoints.ne_temporary hslash hdot htemporary
  constructor
  . intro hread
    obtain ⟨directory, name, hpoints, hfile⟩ := h.founded.pointsTo_of_readFile hread
    have hpoints := hpoints.keeps h.keeps_back
    rw [hplace directory name hpoints] at hfile
    exact hpoints.readFile hfile
  . intro hread
    obtain ⟨directory, name, hpoints, hfile⟩ := hfounded.pointsTo_of_readFile hread
    rw [← hplace directory name hpoints] at hfile
    exact (hpoints.keeps h.keeps).readFile hfile

theorem Spares.steady (h : Spares home (path.withExtension extension) tree tree')
    (hsteady : tree.Steady home path) : tree'.Steady home path where
  founded := h.founded
  hasParent := h.hasParent hslash hdot hsteady.hasParent
  readable hleads := by
    obtain ⟨place, node, hcheck, hwalk, hnode⟩ := leads_iff.1 hleads
    cases node with
    | file content => exact ⟨content, readFile_eq_ok.2 ⟨place, hcheck, hwalk, hnode⟩⟩
    | directory =>
      have hwalk := walk_of_keeps h.keeps_back hwalk
      have hnode := (h.directories place).1 hnode
      obtain ⟨content, hread⟩ := hsteady.readable (leads_iff.2 ⟨place, _, hcheck, hwalk, hnode⟩)
      exact ⟨content, (h.readFile_iff hslash hdot hsteady.founded).2 hread⟩

end

end FileTree

end ReadProgress
