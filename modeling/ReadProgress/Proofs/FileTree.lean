import ReadProgress.FileTree
import ReadProgress.Proofs.Except
import ReadProgress.Proofs.Path

/-!
This module contains how paths lead through trees that change: ways that exist stay as they are as
long as no directory is lost.
-/

namespace ReadProgress

namespace FileTree

variable {tree tree' : FileTree} {home place : Location} {path : Path}

/--
Each directory of a tree is one of another tree, too.
-/
def Keeps (tree tree' : FileTree) : Prop :=
  ∀ place, tree.get? place = some .directory → tree'.get? place = some .directory

theorem keeps_put (h : tree.get? place ≠ some .directory) (node : Node) :
    tree.Keeps (tree.put place node) := by
  intro other hother
  rw [Table.get?_put, if_neg]
  . exact hother
  . rintro rfl
    exact h hother

theorem keeps_erase (h : tree.get? place ≠ some .directory) : tree.Keeps (tree.erase place) := by
  intro other hother
  rw [Table.get?_erase, if_neg]
  . exact hother
  . rintro rfl
    exact h hother

theorem child_eq_ok {directory : Location} {name : String}
    (h : child directory name = .ok place) : place = name :: directory := by
  unfold child at h
  split at h
  . exact (Except.ok.inj h).symm
  . cases h

section

variable {start : Location} {name : String} {names : List String}

theorem walk_of_empty (hstart : tree.get? start = some .directory)
    (hname : name = "" ∨ name = ".") :
    tree.walk start (name :: names) = tree.walk start names := by
  rw [walk, hstart]
  exact if_pos hname

theorem walk_of_blank (hstart : tree.get? start = some .directory)
    (hnames : Path.IsBlank names) : tree.walk start names = .ok start := by
  induction names with
  | nil => rfl
  | cons name names ih =>
    rw [Path.IsBlank, List.forall_mem_cons] at hnames
    rw [walk_of_empty hstart hnames.1]
    exact ih hnames.2

theorem walk_of_isName (hstart : tree.get? start = some .directory) (hname : IsName name) :
    tree.walk start (name :: names) = child start name >>= fun place => tree.walk place names := by
  rw [walk, hstart]
  simp only [hname.1, hname.2.1, hname.2.2, or_self, if_false]
  cases child start name <;> rfl

/-
A way goes on from a directory only, and in one of three ways.
-/
theorem walk_cons_eq_ok (h : tree.walk start (name :: names) = .ok place) :
    tree.get? start = some .directory ∧
      (((name = "" ∨ name = ".") ∧ tree.walk start names = .ok place) ∨
        (name = ".." ∧ tree.walk start.tail names = .ok place) ∨
        (IsName name ∧ ∃ next, child start name = .ok next ∧ tree.walk next names = .ok place)) := by
  rw [walk] at h
  split at h
  . cases h
  . cases h
  . next hstart =>
    refine ⟨hstart, ?_⟩
    split at h
    . next hname => exact .inl ⟨hname, h⟩
    . next hname =>
      split at h
      . next hup => exact .inr (.inl ⟨hup, h⟩)
      . next hup =>
        split at h
        . next next hnext =>
          exact .inr (.inr ⟨⟨fun he => hname (.inl he), fun hd => hname (.inr hd), hup⟩, next,
            hnext, h⟩)
        . cases h

theorem walk_append (start : Location) (names behind : List String) :
    tree.walk start (names ++ behind) =
      tree.walk start names >>= fun place => tree.walk place behind := by
  induction names generalizing start with
  | nil => rfl
  | cons name names ih =>
    rw [List.cons_append, walk, walk]
    cases tree.get? start with
    | none => rfl
    | some node =>
      cases node with
      | file content => rfl
      | directory =>
        dsimp only
        split
        . exact ih _
        . split
          . exact ih _
          . cases child start name with
            | ok place => exact ih _
            | error e => rfl

theorem walk_append_empty_eq_ok :
    tree.walk start (names ++ [""]) = .ok place ↔
      tree.walk start names = .ok place ∧ tree.get? place = some .directory := by
  rw [walk_append, bind_eq_ok]
  constructor
  . rintro ⟨other, hwalk, hend⟩
    obtain ⟨hother, ⟨-, hend⟩ | ⟨hname, -⟩ | ⟨hname, -⟩⟩ := walk_cons_eq_ok hend
    . cases hend
      exact ⟨hwalk, hother⟩
    . exact absurd hname (by decide)
    . exact absurd rfl hname.1
  . rintro ⟨hwalk, hplace⟩
    exact ⟨place, hwalk, walk_of_empty hplace (.inl rfl)⟩

theorem walk_of_keeps (h : tree.Keeps tree') (hwalk : tree.walk start names = .ok place) :
    tree'.walk start names = .ok place := by
  induction names generalizing start with
  | nil => exact hwalk
  | cons name names ih =>
    obtain ⟨hstart, hcases⟩ := walk_cons_eq_ok hwalk
    have hstart' := h start hstart
    rcases hcases with ⟨hname, hrest⟩ | ⟨rfl, hrest⟩ | ⟨hname, next, hnext, hrest⟩
    . rw [walk_of_empty hstart' hname]
      exact ih hrest
    . rw [walk, hstart']
      exact ih hrest
    . rw [walk_of_isName hstart' hname, hnext]
      exact ih hrest

end

theorem find_eq_ok {node : Node} :
    tree.find home path = .ok (place, node) ↔ checkPath path = .ok () ∧
      tree.walk (origin home path) path.names = .ok place ∧ tree.get? place = some node := by
  simp only [find, bind_eq_ok]
  constructor
  . rintro ⟨⟨⟩, hcheck, other, hwalk, h⟩
    split at h
    . next found hfound =>
      cases h
      exact ⟨hcheck, hwalk, hfound⟩
    . cases h
  . rintro ⟨hcheck, hwalk, hnode⟩
    exact ⟨(), hcheck, place, hwalk, by rw [hnode]; rfl⟩

theorem leads_of_find {node : Node} (h : tree.find home path = .ok (place, node)) :
    tree.leads home path = true := by
  rw [leads, h]

theorem leads_iff : tree.leads home path = true ↔ ∃ place node,
    checkPath path = .ok () ∧ tree.walk (origin home path) path.names = .ok place ∧
      tree.get? place = some node := by
  simp only [leads]
  constructor
  . intro h
    cases hfind : tree.find home path with
    | error e => simp [hfind] at h
    | ok found => exact ⟨found.1, found.2, find_eq_ok.1 hfind⟩
  . rintro ⟨place, node, h⟩
    rw [find_eq_ok.2 h]

theorem readFile_eq_ok {content : Bytes} :
    tree.readFile home path = .ok content ↔ ∃ place, checkPath path = .ok () ∧
      tree.walk (origin home path) path.names = .ok place ∧
        tree.get? place = some (.file content) := by
  simp only [readFile, bind_eq_ok]
  constructor
  . rintro ⟨⟨place, node⟩, hfind, h⟩
    cases node with
    | file found =>
      cases h
      exact ⟨place, find_eq_ok.1 hfind⟩
    | directory => cases h
  . rintro ⟨place, h⟩
    exact ⟨_, find_eq_ok.2 h, rfl⟩

theorem leads_of_readFile {content : Bytes} (h : tree.readFile home path = .ok content) :
    tree.leads home path = true := by
  obtain ⟨place, h⟩ := readFile_eq_ok.1 h
  exact leads_iff.2 ⟨place, _, h⟩

/--
A path leads into a directory and ends with the name of what is or may be found in there.
-/
structure PointsTo (tree : FileTree) (home : Location) (path : Path) (directory : Location)
    (name : String) : Prop where
  check : checkPath path = .ok ()
  way : ∃ front, path.names = front ++ [name] ∧ tree.walk (origin home path) front = .ok directory
  found : tree.get? directory = some .directory
  isName : IsName name
  child : child directory name = .ok (name :: directory)

namespace PointsTo

variable {directory other : Location} {name last : String}

theorem keeps (h : tree.PointsTo home path directory name) (hkeeps : tree.Keeps tree') :
    tree'.PointsTo home path directory name := by
  obtain ⟨front, hnames, hwalk⟩ := h.way
  exact { h with
    way := ⟨front, hnames, walk_of_keeps hkeeps hwalk⟩
    found := hkeeps directory h.found }

theorem unique (h : tree.PointsTo home path directory name)
    (h' : tree.PointsTo home path other last) : other = directory ∧ last = name := by
  obtain ⟨front, hnames, hwalk⟩ := h.way
  obtain ⟨front', hnames', hwalk'⟩ := h'.way
  rw [hnames] at hnames'
  obtain ⟨rfl, hlast⟩ := List.append_inj' hnames' rfl
  rw [hwalk] at hwalk'
  cases hwalk'
  cases hlast
  exact ⟨rfl, rfl⟩

theorem walk (h : tree.PointsTo home path directory name) :
    tree.walk (origin home path) path.names = .ok (name :: directory) := by
  obtain ⟨front, hnames, hwalk⟩ := h.way
  rw [hnames, walk_append, hwalk]
  show tree.walk directory [name] = _
  rw [walk_of_isName h.found h.isName, h.child]
  rfl

theorem readFile (h : tree.PointsTo home path directory name) {content : Bytes}
    (hcontent : tree.get? (name :: directory) = some (.file content)) :
    tree.readFile home path = .ok content :=
  readFile_eq_ok.2 ⟨_, h.check, h.walk, hcontent⟩

end PointsTo

/-
Slashes are cut off at the end of a path. What is left has a last name that is not empty.
-/
theorem ending_eq_ok {e : Ending} {name : String} (h : tree.ending home path = .ok e)
    (hname : e.name = some name) : checkPath path = .ok () ∧ IsName name ∧ ∃ front trail,
      path.names = front ++ name :: trail ∧ (∀ other ∈ trail, other = "") ∧
      (e.slashed = false → trail = []) ∧ tree.walk (origin home path) front = .ok e.directory ∧
      tree.get? e.directory = some .directory := by
  obtain ⟨⟨⟩, hcheck, h⟩ := bind_eq_ok.1 h
  extract_lets names slashed at h
  -- The names are looked at from the back, and are turned round twice.
  obtain ⟨trail, hnames, htrail⟩ :
      ∃ trail, path.names = names ++ trail ∧ ∀ other ∈ trail, other = "" := by
    refine ⟨(path.names.reverse.takeWhile (· = "")).reverse, ?_, ?_⟩
    . simp only [names]
      rw [← List.reverse_append, List.takeWhile_append_dropWhile, List.reverse_reverse]
    . intro other hother
      rw [List.mem_reverse] at hother
      simpa using List.all_eq_true.1 List.all_takeWhile other hother
  split at h
  . cases h
    cases hname
  . next last hlast =>
    obtain ⟨directory, hwalk, h⟩ := bind_eq_ok.1 h
    cases h
    obtain ⟨hdots, rfl⟩ : ¬ (last = "." ∨ last = "..") ∧ last = name := by
      split at hname
      . cases hname
      . next hdots => exact ⟨hdots, Option.some.inj hname⟩
    have hempty : last ≠ "" := by
      have := List.head?_dropWhile_not (fun name : String => decide (name = "")) path.names.reverse
      rw [List.getLast?_reverse] at hlast
      rw [hlast] at this
      simpa using this
    obtain ⟨hwalk, hfound⟩ := walk_append_empty_eq_ok.1 hwalk
    obtain ⟨front, hfront⟩ := List.getLast?_eq_some_iff.1 hlast
    refine ⟨hcheck, ⟨hempty, not_or.1 hdots⟩, front, trail, ?_, htrail, ?_, ?_, hfound⟩
    . rw [hnames, hfront, List.append_assoc]
      rfl
    . intro hslashed
      have hlength : names.length = path.names.length := by simpa [slashed] using hslashed
      rw [hnames, List.length_append] at hlength
      simpa using hlength
    . rw [hfront, List.dropLast_concat] at hwalk
      exact hwalk

theorem pointsTo_of_ending {e : Ending} {name : String} (h : tree.ending home path = .ok e)
    (hname : e.name = some name) (hslashed : e.slashed = false)
    (hchild : child e.directory name = .ok place) :
    tree.PointsTo home path e.directory name := by
  obtain ⟨hcheck, hisName, front, trail, hnames, -, htrail, hwalk, hfound⟩ := ending_eq_ok h hname
  obtain rfl := htrail hslashed
  exact {
    check := hcheck
    way := ⟨front, hnames, hwalk⟩
    found := hfound
    isName := hisName
    child := by rw [hchild, child_eq_ok hchild] }

theorem filePlace_eq_ok (h : tree.filePlace home path = .ok place) : ∃ directory name,
    tree.PointsTo home path directory name ∧ place = name :: directory ∧
      tree.get? place ≠ some .directory := by
  obtain ⟨e, hending, h⟩ := bind_eq_ok.1 h
  cases hname : e.name with
  | none =>
    rw [hname] at h
    cases h
  | some name =>
    rw [hname] at h
    cases hslashed : e.slashed with
    | true =>
      rw [hslashed] at h
      cases h
    | false =>
      rw [hslashed] at h
      obtain ⟨other, hchild, h⟩ := bind_eq_ok.1 h
      have hpoints := pointsTo_of_ending hending hname hslashed hchild
      split at h
      . cases h
      . next hnode =>
        cases h
        exact ⟨_, name, hpoints, child_eq_ok hchild, hnode⟩

theorem writeFile_eq_ok {content : Bytes} (h : tree.writeFile home path content = .ok tree') :
    ∃ directory name, tree.PointsTo home path directory name ∧
      tree.get? (name :: directory) ≠ some .directory ∧
        tree' = tree.put (name :: directory) (.file content) := by
  obtain ⟨place, hplace, heq⟩ := bind_eq_ok.1 h
  obtain ⟨directory, name, hpoints, rfl, hnode⟩ := filePlace_eq_ok hplace
  exact ⟨directory, name, hpoints, hnode, (Except.ok.inj heq).symm⟩

theorem removeFile_eq_ok (h : tree.removeFile home path = .ok tree') : ∃ place content,
    checkPath path = .ok () ∧ tree.walk (origin home path) path.names = .ok place ∧
      tree.get? place = some (.file content) ∧ tree' = tree.erase place := by
  obtain ⟨⟨place, node⟩, hfind, h⟩ := bind_eq_ok.1 h
  cases node with
  | directory => cases h
  | file content =>
    obtain ⟨hcheck, hwalk, hnode⟩ := find_eq_ok.1 hfind
    exact ⟨place, content, hcheck, hwalk, hnode, (Except.ok.inj h).symm⟩

theorem moveFile_eq_ok {source target : Path} (h : tree.moveFile home source target = .ok tree') :
    ∃ directory name directory' name' content, tree.PointsTo home source directory name ∧
      tree.PointsTo home target directory' name' ∧
        tree.get? (name :: directory) = some (.file content) ∧
          tree.get? (name' :: directory') ≠ some .directory ∧
            tree' = (tree.erase (name :: directory)).put (name' :: directory') (.file content) := by
  -- The checks come in the order of the system call: both ends first, then what is moved, then where.
  obtain ⟨s, hs, h⟩ := bind_eq_ok.1 h
  obtain ⟨t, ht, h⟩ := bind_eq_ok.1 h
  cases hname : s.name with
  | none =>
    rw [hname] at h
    cases h
  | some name =>
  cases hname' : t.name with
  | none =>
    rw [hname, hname'] at h
    cases h
  | some name' =>
    rw [hname, hname'] at h
    obtain ⟨sourcePlace, hsource, h⟩ := bind_eq_ok.1 h
    obtain rfl := child_eq_ok hsource
    extract_lets move at h
    split at h
    . next content hcontent =>
      obtain ⟨targetPlace, htarget, h⟩ := bind_eq_ok.1 (show move content = .ok tree' from h)
      obtain rfl := child_eq_ok htarget
      extract_lets finish at h
      split at h
      . cases h
      . next hslashed =>
        rw [not_or, Bool.not_eq_true, Bool.not_eq_true] at hslashed
        have hs := pointsTo_of_ending hs hname hslashed.1 hsource
        have ht := pointsTo_of_ending ht hname' hslashed.2 htarget
        simp only [finish] at h
        split at h
        . cases h
        . next hnode =>
          exact ⟨_, name, _, name', content, hs, ht, hcontent, hnode, (Except.ok.inj h).symm⟩
    . cases h
    . cases h

theorem makeDirectory_eq_ok (h : tree.makeDirectory home path = .ok tree') :
    ∃ directory name, tree.get? directory = some .directory ∧ tree.get? (name :: directory) = none ∧
      tree' = tree.put (name :: directory) .directory ∧
        tree'.find home path = .ok (name :: directory, .directory) := by
  obtain ⟨e, hending, h⟩ := bind_eq_ok.1 h
  cases hname : e.name with
  | none =>
    rw [hname] at h
    cases h
  | some name =>
    rw [hname] at h
    obtain ⟨place, hchild, h⟩ := bind_eq_ok.1 h
    obtain rfl := child_eq_ok hchild
    split at h
    . cases h
    . next hfree =>
      have hnone : tree.get? (name :: e.directory) = none := by
        unfold Table.contains at hfree
        simpa using hfree
      obtain ⟨hcheck, hisName, front, trail, hnames, htrail, -, hwalk, hfound⟩ :=
        ending_eq_ok hending hname
      refine ⟨e.directory, name, hfound, hnone, (Except.ok.inj h).symm, ?_⟩
      obtain rfl := Except.ok.inj h
      have hkeeps : tree.Keeps (tree.put (name :: e.directory) .directory) :=
        keeps_put (by simp [hnone]) _
      have hmade : (tree.put (name :: e.directory) .directory).get? (name :: e.directory) =
          some .directory := (Table.get?_put _ _ _ _).trans (if_pos rfl)
      refine find_eq_ok.2 ⟨hcheck, ?_, hmade⟩
      rw [hnames, walk_append, walk_of_keeps hkeeps hwalk]
      change walk _ e.directory (name :: trail) = _
      rw [walk_of_isName (hkeeps _ hfound) hisName, hchild]
      exact walk_of_blank hmade fun other hother => .inl (htrail other hother)

section

variable {p : FileTree → Prop} (hput : ∀ tree directory name, p tree →
  tree.get? directory = some .directory → tree.get? (name :: directory) = none →
    p (tree.put (name :: directory) .directory))

include hput

theorem of_makeDirectory (h : tree.makeDirectory home path = .ok tree') (htree : p tree) :
    p tree' := by
  obtain ⟨directory, name, hdirectory, hfree, rfl, -⟩ := makeDirectory_eq_ok h
  exact hput tree directory name htree hdirectory hfree

theorem of_makeFirst {paths : List Path} (htree : p tree) : p (tree.makeFirst home paths).2 := by
  induction paths generalizing tree with
  | nil => exact htree
  | cons path above ih =>
    have habove : p (tree.makeFirst home above).2 := ih htree
    unfold makeFirst
    split
    . next hmade => exact of_makeDirectory hput hmade htree
    . split
      . next hfailed =>
        rw [hfailed] at habove
        exact habove
      . next hmade =>
        rw [hmade] at habove
        split
        . next hlast => exact of_makeDirectory hput hlast habove
        . exact habove
    . exact htree

theorem of_makeParents (htree : p tree) : p (tree.makeParents home path).2 := by
  unfold makeParents
  split
  . exact htree
  . split
    . exact htree
    . exact of_makeFirst hput htree

end

/--
Two trees have the same files, with the same contents.
-/
def SameFiles (tree tree' : FileTree) : Prop :=
  ∀ place content, tree'.get? place = some (.file content) ↔ tree.get? place = some (.file content)

theorem sameFiles_put_directory (h : tree.get? place = none) :
    tree.SameFiles (tree.put place .directory) := by
  intro other content
  rw [Table.get?_put]
  split
  . next heq => simp [heq, h]
  . rfl

theorem sameFiles_makeParents (tree : FileTree) (home : Location) (path : Path) :
    tree.SameFiles (tree.makeParents home path).2 := by
  refine of_makeParents (p := tree.SameFiles) ?_ fun _ _ => Iff.rfl
  intro other directory name hsame _ hfree place content
  rw [sameFiles_put_directory hfree, hsame]

end FileTree

end ReadProgress
