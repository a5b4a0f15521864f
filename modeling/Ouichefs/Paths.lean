import Ouichefs.TreeRuns
import Ouichefs.Lib.Forest

/-!
# Paths

A path is looked up with one `ouichefs_lookup` for each of its components (`Resolves`).  The VFS
refuses to move a directory below itself (`Op.MoveOk`); then the directories stay one tree.

* `Tree.Proper.step`: what every operation keeps of a tree.
* `FsInv.resolves_iff`: a path leads where the tree says.
* `paths_run`: after every run exactly one path leads to every inode in use, and no path anywhere
  else.
-/

set_option autoImplicit false

namespace Ouichefs

open Forest

/-! ## The tree as a graph -/

/-- The entry `name` of directory `d`. -/
def Names.edges (m : Names) (d : Nat) (name : List UInt8) : Option Nat := (m d).bind fun f => f name

namespace Names

variable {m : Names} {d x : Nat} {name : List UInt8}

theorem edges_some {f : List UInt8 → Option Nat} (h : m d = some f) : m.edges d name = f name := by
  unfold edges
  rw [h]
  rfl

theorem edges_insert (h : (m d).isSome) :
    (m.insert d name x).edges = setEdge m.edges d name (some x) := by
  obtain ⟨f, hf⟩ := Option.isSome_iff_exists.1 h
  funext v l
  by_cases hc : v = d ∧ l = name
  · obtain ⟨rfl, rfl⟩ := hc
    rw [setEdge_self]
    simp [edges, insert, hf]
  · rw [setEdge_other hc]
    unfold edges insert
    by_cases hv : v = d
    · subst hv
      have hl : l ≠ name := fun hl => hc ⟨rfl, hl⟩
      simp [hf, hl]
    · rw [Function.update_of_ne hv]

theorem edges_delete (m : Names) (d : Nat) (name : List UInt8) :
    (m.delete d name).edges = setEdge m.edges d name none := by
  funext v l
  by_cases hc : v = d ∧ l = name
  · obtain ⟨rfl, rfl⟩ := hc
    rw [setEdge_self]
    unfold edges delete
    rw [Function.update_self]
    cases m v <;> simp
  · rw [setEdge_other hc]
    unfold edges delete
    by_cases hv : v = d
    · subst hv
      have hl : l ≠ name := fun hl => hc ⟨rfl, hl⟩
      rw [Function.update_self]
      cases m v <;> simp [hl]
    · rw [Function.update_of_ne hv]

theorem isSome_insert (m : Names) (d : Nat) (name : List UInt8) (x i : Nat) :
    (m.insert d name x i).isSome = (m i).isSome := by
  unfold insert
  by_cases hi : i = d
  · subst hi
    rw [Function.update_self, Option.isSome_map]
  · rw [Function.update_of_ne hi]

theorem isSome_delete (m : Names) (d : Nat) (name : List UInt8) (i : Nat) :
    (m.delete d name i).isSome = (m i).isSome := by
  unfold delete
  by_cases hi : i = d
  · subst hi
    rw [Function.update_self, Option.isSome_map]
  · rw [Function.update_of_ne hi]

theorem insert_none (m : Names) (d : Nat) (name : List UInt8) (x i : Nat) :
    m.insert d name x i = none ↔ m i = none := by
  rw [← Option.not_isSome_iff_eq_none, ← Option.not_isSome_iff_eq_none, isSome_insert]

theorem delete_none (m : Names) (d : Nat) (name : List UInt8) (i : Nat) :
    m.delete d name i = none ↔ m i = none := by
  rw [← Option.not_isSome_iff_eq_none, ← Option.not_isSome_iff_eq_none, isSome_delete]

/-- Directories without entries have no edges. -/
theorem edges_update (h : ∀ y, m.edges x y = none) {o : Option (List UInt8 → Option Nat)}
    (ho : o = none ∨ o = some fun _ => none) : Names.edges (Function.update m x o) = m.edges := by
  funext v l
  unfold edges
  by_cases hv : v = x
  · subst hv
    rw [Function.update_self]
    refine Eq.trans ?_ (h l).symm
    rcases ho with rfl | rfl <;> rfl
  · rw [Function.update_of_ne hv]

end Names

namespace Tree

/-- Inode `i` is in the tree. -/
def Node (t : Tree) (i : Nat) : Prop := (t.dirs i).isSome ∨ (t.files i).isSome

/-- The directories and files are a tree under inode 1. -/
structure Proper (t : Tree) : Prop where
  rooted : Rooted t.dirs.edges 1 t.Node
  kinds : ∀ i, t.dirs i = none ∨ t.files i = none
  names : ∀ {d y j}, t.dirs.edges d y = some j → ValidName y

/-- What the VFS promises of the names of a call, and that no directory moves below itself. -/
def Allows (t : Tree) : Op → Prop
  | .create dir name _ => (t.dirs dir).isSome ∧ ValidName name ∧ t.dirs.edges dir name = none
  | .mkdir dir name _ => (t.dirs dir).isSome ∧ ValidName name ∧ t.dirs.edges dir name = none
  | .unlink dir name ino => t.dirs.edges dir name = some ino
  | .rmdir dir name ino => t.dirs.edges dir name = some ino
  | .rename oldDir oldName src newDir newName _ =>
      ValidName newName ∧ t.dirs.edges oldDir oldName = some src ∧ ¬Below t.dirs.edges src newDir
  | .write .. => True
  | .append .. => True

section Proper

variable {t t' : Tree} {dir ino : Nat} {name : List UInt8}

theorem root_proper : Tree.root.Proper := by
  have hedge : ∀ d y, Tree.root.dirs.edges d y = none := by
    intro d y
    unfold Names.edges root
    by_cases hd : d = 1 <;> simp [hd]
  have hnode : ∀ i, Tree.root.Node i ↔ i = 1 := by
    intro i
    unfold Node root
    by_cases hi : i = 1 <;> simp [hi]
  refine ⟨⟨(hnode 1).2 rfl, fun he => ?_, fun he => ?_, fun v hv => ?_⟩, fun i => Or.inr rfl,
    fun he => ?_⟩
  · rw [hedge] at he
    cases he
  · rw [hedge] at he
    cases he
  · obtain rfl := (hnode v).1 hv
    exact .refl _ _
  · rw [hedge] at he
    cases he

theorem Proper.dir_file (h : t.Proper) (hd : (t.dirs ino).isSome) : t.files ino = none :=
  (h.kinds ino).resolve_left fun hn => by
    rw [hn] at hd
    cases hd

/-- A new name for a new node. -/
theorem Proper.insert (h : t.Proper) (hd : (t.dirs dir).isSome) (hv : ValidName name)
    (hnew : t.dirs.edges dir name = none) (hnd : t.dirs ino = none) (hnf : t.files ino = none)
    (he : t'.dirs.edges = setEdge t.dirs.edges dir name (some ino))
    (hnode : ∀ i, t'.Node i ↔ t.Node i ∨ i = ino)
    (hkinds : ∀ i, t'.dirs i = none ∨ t'.files i = none) : t'.Proper := by
  have hdead : ¬t.Node ino := by
    unfold Node
    rw [hnd, hnf]
    simp
  refine ⟨?_, hkinds, fun {d y j} hs => ?_⟩
  · have hr := h.rooted.insert (Or.inl hd) hnew hdead
    rw [← he] at hr
    exact hr.congr hnode
  · rw [he] at hs
    by_cases hc : d = dir ∧ y = name
    · rw [hc.2]
      exact hv
    · rw [setEdge_other hc] at hs
      exact h.names hs

/-- A name taken away together with its node. -/
theorem Proper.delete (h : t.Proper) (hs : t.dirs.edges dir name = some ino)
    (hleaf : ∀ y, t.dirs.edges ino y = none)
    (he : t'.dirs.edges = setEdge t.dirs.edges dir name none)
    (hnode : ∀ i, t'.Node i ↔ t.Node i ∧ i ≠ ino)
    (hkinds : ∀ i, t'.dirs i = none ∨ t'.files i = none) : t'.Proper := by
  refine ⟨?_, hkinds, fun {d y j} hs' => ?_⟩
  · have hr := h.rooted.delete hs hleaf
    rw [← he] at hr
    exact hr.congr hnode
  · rw [he] at hs'
    exact h.names ((h.rooted.setEdge_none_some hs).1 hs').1

/-- A name that moves to a place that is not below its node. -/
theorem Proper.rename {oldDir src newDir : Nat} {oldName newName : List UInt8} (h : t.Proper)
    (hv : ValidName newName) (hs : t.dirs.edges oldDir oldName = some src)
    (hd : (t.dirs newDir).isSome) (hnew : t.dirs.edges newDir newName = none)
    (hb : ¬Below t.dirs.edges src newDir) :
    Proper ⟨(t.dirs.delete oldDir oldName).insert newDir newName src, t.files⟩ := by
  have he : ((t.dirs.delete oldDir oldName).insert newDir newName src).edges =
      setEdge (setEdge t.dirs.edges oldDir oldName none) newDir newName (some src) := by
    rw [Names.edges_insert (by rw [Names.isSome_delete]; exact hd), Names.edges_delete]
  refine ⟨?_, fun i => ?_, fun {d y j} hs' => ?_⟩
  · have hr := h.rooted.move hs (Or.inl hd) hnew hb
    rw [← he] at hr
    refine hr.congr fun i => ?_
    unfold Node
    rw [Names.isSome_insert, Names.isSome_delete]
  · exact (h.kinds i).imp_left fun hi => (Names.insert_none ..).2 ((Names.delete_none ..).2 hi)
  · have hs'' : setEdge (setEdge t.dirs.edges oldDir oldName none) newDir newName (some src) d y =
        some j := by rw [← he]; exact hs'
    by_cases hc : d = newDir ∧ y = newName
    · rw [hc.2]
      exact hv
    · rw [setEdge_other hc] at hs''
      exact h.names ((h.rooted.setEdge_none_some hs).1 hs'').1

/-- New content for a file. -/
theorem Proper.put (h : t.Proper) {old l : List UInt8} (hf : t.files ino = some old) :
    (t.put ino l).Proper := by
  have hd : t.dirs ino = none := (h.kinds ino).resolve_right (by rw [hf]; exact Option.some_ne_none _)
  refine ⟨h.rooted.congr fun i => ?_, fun i => ?_, h.names⟩
  · unfold Node Tree.put
    by_cases hi : i = ino
    · subst hi
      simp [hf]
    · simp only [Function.update_of_ne hi]
  · by_cases hi : i = ino
    · rw [hi]
      exact Or.inl hd
    · have hput : (t.put ino l).files i = t.files i := Function.update_of_ne hi _ _
      rw [hput]
      exact h.kinds i

/-- **Every operation keeps the tree a tree.** -/
theorem Proper.step {c : Call} {r : Int} (h : t.Proper) (ha : t.Allows c.op)
    (hs : t.Step c r t') : t'.Proper := by
  obtain ⟨op, now, u, g⟩ := c
  cases op with
  | create dir name mode =>
      obtain ⟨hd, hv, hnew⟩ := ha
      rcases hs with ⟨-, rfl⟩ | ⟨-, ino, hnd, hnf, rfl⟩
      · exact h
      refine h.insert hd hv hnew hnd hnf (Names.edges_insert hd) (fun i => ?_) fun i => ?_
      · unfold Node
        simp only [Names.isSome_insert]
        by_cases hi : i = ino
        · subst hi
          simp
        · simp [hi]
      · by_cases hi : i = ino
        · subst hi
          exact Or.inl ((Names.insert_none ..).2 hnd)
        · simp only [Names.insert_none, Function.update_of_ne hi]
          exact h.kinds i
  | mkdir dir name mode =>
      obtain ⟨hd, hv, hnew⟩ := ha
      rcases hs with ⟨-, rfl⟩ | ⟨-, ino, hnd, hnf, rfl⟩
      · exact h
      have hnone : t.dirs.insert dir name ino ino = none := (Names.insert_none ..).2 hnd
      have he : ((t.dirs.insert dir name ino).addDir ino).edges =
          setEdge t.dirs.edges dir name (some ino) := by
        rw [← Names.edges_insert hd]
        refine Names.edges_update (fun y => ?_) (Or.inr rfl)
        unfold Names.edges
        rw [hnone]
        rfl
      refine h.insert hd hv hnew hnd hnf he (fun i => ?_) fun i => ?_
      · unfold Node Names.addDir
        by_cases hi : i = ino
        · subst hi
          simp
        · simp only [Function.update_of_ne hi, Names.isSome_insert, hi, or_false]
      · by_cases hi : i = ino
        · subst hi
          exact Or.inr hnf
        · refine (h.kinds i).imp_left fun hk => ?_
          show (t.dirs.insert dir name ino).addDir ino i = none
          unfold Names.addDir
          rw [Function.update_of_ne hi]
          exact (Names.insert_none ..).2 hk
  | unlink dir name ino =>
      obtain ⟨-, hf, rfl⟩ := hs
      have hnd : t.dirs ino = none := (h.kinds ino).resolve_right fun hn => by
        rw [hn] at hf
        cases hf
      have hleaf : ∀ y, t.dirs.edges ino y = none := by
        intro y
        unfold Names.edges
        rw [hnd]
        rfl
      refine h.delete ha hleaf (Names.edges_delete ..) (fun i => ?_) fun i => ?_
      · unfold Node
        simp only [Names.isSome_delete]
        by_cases hi : i = ino
        · subst hi
          simp [hnd]
        · simp [hi]
      · by_cases hi : i = ino
        · subst hi
          exact Or.inr (Function.update_self ..)
        · simp only [Names.delete_none, Function.update_of_ne hi]
          exact h.kinds i
  | rmdir dir name ino =>
      rcases hs with ⟨-, rfl, -⟩ | ⟨-, hempty, rfl⟩
      · exact h
      have hleaf : ∀ y, t.dirs.edges ino y = none := fun y => by rw [Names.edges_some hempty]
      have hnf : t.files ino = none := h.dir_file (by rw [hempty]; rfl)
      have he : ((t.dirs.delete dir name).dropDir ino).edges =
          setEdge t.dirs.edges dir name none := by
        rw [← Names.edges_delete]
        refine Names.edges_update (fun y => ?_) (Or.inl rfl)
        rw [Names.edges_delete]
        by_cases hc : ino = dir ∧ y = name
        · obtain ⟨rfl, rfl⟩ := hc
          exact setEdge_self ..
        · rw [setEdge_other hc]
          exact hleaf y
      refine h.delete ha hleaf he (fun i => ?_) fun i => ?_
      · unfold Node Names.dropDir
        by_cases hi : i = ino
        · subst hi
          simp [hnf]
        · simp only [Function.update_of_ne hi, Names.isSome_delete, hi, ne_eq, not_false_eq_true,
            and_true]
      · refine (h.kinds i).imp_left fun hk => ?_
        show (t.dirs.delete dir name).dropDir ino i = none
        unfold Names.dropDir
        by_cases hi : i = ino
        · rw [hi, Function.update_self]
        · rw [Function.update_of_ne hi]
          exact (Names.delete_none ..).2 hk
  | rename oldDir oldName src newDir newName flags =>
      obtain ⟨hv, hsrc, hb⟩ := ha
      rcases hs with ⟨-, rfl⟩ | ⟨-, ⟨m, hm, hnone⟩, rfl⟩
      · exact h
      · refine h.rename hv hsrc (by rw [hm]; rfl) ?_ hb
        rw [Names.edges_some hm]
        exact hnone
  | write ino pos data =>
      rcases hs with ⟨-, rfl⟩ | ⟨-, old, hold, rfl⟩
      · exact h
      · exact h.put hold
  | append ino pos data =>
      rcases hs with ⟨-, rfl⟩ | ⟨-, old, hold, rfl⟩
      · exact h
      · exact h.put hold

end Proper

end Tree

/-! ## Path walks -/

/-- `ouichefs_lookup`, called for one component after the other, leads from `ino` to `i`; the VFS
searches directories only. -/
def Resolves (k : Kernel) : Nat → List (List UInt8) → Nat → Prop
  | ino, [], i => ino = i
  | ino, name :: rest, i => sIsDir (k.inode ino).iMode = true ∧
      ∃ j k', ouichefsLookup k ino name = .ok (.ok (some j), k') ∧ Resolves k' j rest i

section Walks

variable {k k' : Kernel} {chain : List Nat} {ino i : Nat}

theorem ouichefsLookup_faults {dir : Nat} {name : List UInt8} {x : Except Int (Option Nat)}
    (hf : k.faults = []) (hrun : ouichefsLookup k dir name = .ok (x, k')) : k'.faults = [] := by
  unfold ouichefsLookup at hrun
  split at hrun
  · cases hrun
    exact hf
  simp only at hrun
  have hb := (Quiet.sbBread 0 k (k.inode dir).indexBlock).faults hf
  split at hrun
  · rename_i k₁ heq
    rw [heq] at hb
    cases hrun
    exact hb
  · rename_i k₁ heq
    rw [heq] at hb
    split at hrun
    · cases hrun
      exact hb
    · rename_i j _
      split at hrun
      · cases hrun
        exact hb
      · have hi := (ouichefsIget_idle hb
          (slotInode (k₁.fs.disk (k.inode dir).indexBlock) j)).1.faults
        split at hrun
        · cases hrun
        · cases hrun
          exact hi

/-- **A path leads where the tree says.** -/
theorem FsInv.resolves_iff {p : List (List UInt8)} (h : FsInv k chain) (hl : k.fs.Live ino)
    (hp : ∀ name ∈ p, AcceptedName name) :
    Resolves k ino p i ↔ walk k.fs.names.edges ino p = some i := by
  induction p generalizing k ino with
  | nil => exact (Option.some_inj (a := ino) (b := i)).symm
  | cons name rest ih =>
      have hname := hp name (List.mem_cons_self ..)
      have hrest : ∀ y ∈ rest, AcceptedName y := fun y hy => hp y (List.mem_cons_of_mem _ hy)
      show (sIsDir (k.inode ino).iMode = true ∧ _) ↔
        ((k.fs.names.edges ino name).bind fun w => walk k.fs.names.edges w rest) = some i
      rw [Option.bind_eq_some_iff]
      by_cases hd : k.fs.Is ino .dir
      · obtain ⟨k₁, hfs, hrun⟩ := ouichefsLookup_spec h.faults h.wf hd hname
        have hf₁ := ouichefsLookup_faults h.faults hrun
        have hedge : k.fs.names.edges ino name = blockMap (k.fs.indexOf ino) name :=
          Names.edges_some (Fs.names_dir hd)
        have hlive : ∀ j, blockMap (k.fs.indexOf ino) name = some j → k₁.fs.Live j := by
          intro j hj
          obtain ⟨s, hs, h0, -⟩ := (blockMap_some h.wf h.names hd).1 hj
          rw [hfs]
          exact (Fs.Entry.live h.wf ⟨hd, h0, s, hs⟩).1
        have hih : ∀ j, blockMap (k.fs.indexOf ino) name = some j →
            (Resolves k₁ j rest i ↔ walk k.fs.names.edges j rest = some i) := by
          intro j hj
          rw [← hfs]
          exact ih (h.of_fs hf₁ hfs) (hlive j hj) hrest
        rw [hedge]
        constructor
        · rintro ⟨-, j, k', hrun', hr⟩
          rw [hrun] at hrun'
          obtain ⟨hj, rfl⟩ := Prod.mk.inj (Except.ok.inj hrun')
          have hj' := Except.ok.inj hj
          exact ⟨j, hj', (hih j hj').1 hr⟩
        · rintro ⟨j, hj, hw⟩
          refine ⟨Inode.kind_dir.1 hd.2, j, k₁, ?_, (hih j hj).2 hw⟩
          rw [hrun, hj]
      · have hedge : k.fs.names.edges ino name = none := by
          unfold Names.edges
          rw [Fs.names_notDir hd]
          rfl
        rw [hedge]
        constructor
        · rintro ⟨hm, -⟩
          exact absurd ⟨hl, Inode.kind_dir.2 hm⟩ hd
        · rintro ⟨j, hj, -⟩
          cases hj

/-- The inodes in use are the nodes of the tree. -/
theorem Fs.node_iff (fs : Fs) (i : Nat) : fs.tree.Node i ↔ fs.Live i := by
  show ((fs.names i).isSome ∨ (fs.contents i).isSome) ↔ _
  by_cases hd : fs.Is i .dir
  · rw [Fs.names_dir hd]
    exact ⟨fun _ => hd.1, fun _ => Or.inl rfl⟩
  · rw [Fs.names_notDir hd]
    unfold Fs.contents
    constructor
    · rintro (hn | hf)
      · cases hn
      · split at hf
        · rename_i hi
          exact hi.1
        · cases hf
    · intro hl
      have hi : fs.File i := hl.is.file fun hk => hd (hk ▸ hl.is)
      rw [if_pos hi]
      exact Or.inr rfl

end Walks

/-! ## Runs -/

/-- The VFS refuses to move a directory below itself. -/
def Op.MoveOk (fs : Fs) : Op → Prop
  | .rename _ _ src newDir _ _ => ¬Below fs.names.edges src newDir
  | _ => True

/-- A call of the runs that moves no directory below itself. -/
def PathCall (k : Kernel) (c : Call) : Prop := TreeCall k c ∧ c.op.MoveOk k.fs

section Runs

variable {k : Kernel} {chain : List Nat} {cs : List Call}

theorem Op.InTree.allows {op : Op} (h : op.InTree k.fs) (hm : op.MoveOk k.fs) :
    k.fs.tree.Allows op := by
  have hsome : ∀ {d}, k.fs.Is d .dir → (k.fs.names d).isSome := fun hd => by
    rw [Fs.names_dir hd]
    rfl
  have hedge : ∀ {d y}, k.fs.Is d .dir → k.fs.names.edges d y = blockMap (k.fs.indexOf d) y :=
    fun hd => Names.edges_some (Fs.names_dir hd)
  cases op with
  | create dir name mode =>
      obtain ⟨-, hd, hv, hnew⟩ := h
      exact ⟨hsome hd, hv, (hedge hd).trans hnew⟩
  | mkdir dir name mode =>
      obtain ⟨hd, hv, hnew⟩ := h
      exact ⟨hsome hd, hv, (hedge hd).trans hnew⟩
  | unlink dir name ino => exact (hedge h.1).trans h.2.1
  | rmdir dir name ino => exact (hedge h.1).trans h.2.1
  | rename oldDir oldName src newDir newName flags =>
      obtain ⟨ho, -, -, hv, hsrc, -⟩ := h
      exact ⟨hv, (hedge ho).trans hsrc, hm⟩
  | write ino pos data => trivial
  | append ino pos data => trivial

/-- **One path leads to every inode in use**, and no path anywhere else. -/
theorem FsInv.paths (h : FsInv k chain) (ht : k.fs.tree.Proper) :
    (∀ i, k.fs.Live i → ∃! p, (∀ name ∈ p, AcceptedName name) ∧ Resolves k 1 p i) ∧
      (∀ p i, (∀ name ∈ p, AcceptedName name) → Resolves k 1 p i → k.fs.Live i) ∧
      ∀ p i, k.fs.Live i → (∀ name ∈ p, AcceptedName name) → Resolves k i p i → p = [] := by
  have hroot : k.fs.Live 1 := h.wf.dirs.root.1
  refine ⟨fun i hi => ?_, fun p i hp hr => ?_, fun p i hi hp hr => ?_⟩
  · obtain ⟨p, hp, huniq⟩ := ht.rooted.existsUnique_walk ((k.fs.node_iff i).2 hi)
    have hnames : ∀ name ∈ p, AcceptedName name :=
      labels_of_walk (P := AcceptedName) (fun he => (ht.names he).accepted) p 1 hp
    refine ⟨p, ⟨hnames, (h.resolves_iff hroot hnames).2 hp⟩, ?_⟩
    rintro q ⟨hq, hr⟩
    exact huniq q ((h.resolves_iff hroot hq).1 hr)
  · exact (k.fs.node_iff i).1 (ht.rooted.node_of_walk ((h.resolves_iff hroot hp).1 hr))
  · exact ht.rooted.acyclic ((k.fs.node_iff i).2 hi) ((h.resolves_iff hi hp).1 hr)

/-- **Paths over whole runs.**  From a formatted image every run returns; afterwards one path leads
to every inode in use, no path leads anywhere else, and no directory is below itself. -/
theorem paths_run (hf : k.faults = []) (h : Formatted k.fs) (hz : k.fs.Blank)
    (ha : Admissible Call.exec PathCall k cs) :
    ∃ k', runAll Call.exec k cs = .ok k' ∧
      (∀ i, k'.fs.Live i → ∃! p, (∀ name ∈ p, AcceptedName name) ∧ Resolves k' 1 p i) ∧
      (∀ p i, (∀ name ∈ p, AcceptedName name) → Resolves k' 1 p i → k'.fs.Live i) ∧
      ∀ p i, k'.fs.Live i → (∀ name ∈ p, AcceptedName name) → Resolves k' i p i → p = [] := by
  have h0 := h.fsInv hf hz
  obtain ⟨k', hrun, chain', hinv, ht⟩ := runAll_invariant
    (I := fun k => ∃ chain, FsInv k chain ∧ k.fs.tree.Proper)
    (fun k c ⟨chain, hi, ht⟩ hc => by
      obtain ⟨r, k', chain', he, hi', hs, -⟩ := hc.1.step hi
      exact ⟨r, k', he, chain', hi', ht.step (hc.1.1.allows hc.2) hs⟩)
    cs k ⟨[], h0, by rw [h.tree]; exact Tree.root_proper⟩ ha
  exact ⟨k', hrun, hinv.paths ht⟩

/-- A rename that moves a file or an empty directory. -/
def Op.MovesLeaf (fs : Fs) : Op → Prop
  | .rename _ _ src newDir _ _ => src ≠ newDir ∧
      (¬fs.Is src .dir ∨ ∀ i < 128, slotInode (fs.indexOf src) i = 0)
  | _ => True

instance (fs : Fs) : (op : Op) → Decidable (op.MovesLeaf fs)
  | .rename .. => inferInstanceAs (Decidable (_ ∧ (_ ∨ ∀ i < 128, _)))
  | .create .. | .mkdir .. | .unlink .. | .rmdir .. | .write .. | .append .. => .isTrue trivial

theorem Op.MovesLeaf.moveOk {fs : Fs} {op : Op} (h : op.MovesLeaf fs) : op.MoveOk fs := by
  cases op with
  | rename oldDir oldName src newDir newName flags =>
      obtain ⟨hne, hleaf⟩ := h
      refine fun hb => hne (hb.eq_of_leaf fun y => ?_).symm
      by_cases hd : fs.Is src .dir
      · rw [Names.edges_some (Fs.names_dir hd)]
        exact slotFind_of_none fun j hj h0 => absurd (hleaf.resolve_left (not_not.2 hd) j hj) h0
      · unfold Names.edges
        rw [Fs.names_notDir hd]
        rfl
  | create dir name mode => trivial
  | mkdir dir name mode => trivial
  | unlink dir name ino => trivial
  | rmdir dir name ino => trivial
  | write ino pos data => trivial
  | append ino pos data => trivial

/-- Two directories, one of which moves below the other, and a file that follows. -/
def pathRun : List Call :=
  [(Op.mkdir 1 [100] 0o755).call, (Op.mkdir 1 [101] 0o755).call,
    (Op.create 3 [97] 0o100644).call, (Op.write 4 0 [7, 8]).call,
    (Op.rename 1 [100] 2 3 [100] 0).call, (Op.mkdir 2 [102] 0o755).call,
    (Op.rename 3 [97] 4 5 [98] 0).call]

theorem pathRun_admissible : Admissible Call.exec PathCall (emptyImage 12 8) pathRun := by
  have hleaf : Admissible Call.exec (fun k c => TreeCall k c ∧ c.op.MovesLeaf k.fs)
      (emptyImage 12 8) pathRun := by
    decide +kernel
  exact Admissible.mono (fun _ _ hc => ⟨hc.1, hc.2.moveOk⟩) _ _ hleaf

theorem paths_run_pathRun : ∃ k', runAll Call.exec (emptyImage 12 8) pathRun = .ok k' ∧
    ∀ i, k'.fs.Live i → ∃! p, (∀ name ∈ p, AcceptedName name) ∧ Resolves k' 1 p i := by
  obtain ⟨k', hrun, hpath, -⟩ := paths_run (k := emptyImage 12 8) rfl
    (emptyImage_formatted (by decide) (by decide) (by decide) (by decide))
    (emptyImage_blank (by decide)) pathRun_admissible
  exact ⟨k', hrun, hpath⟩

end Runs

end Ouichefs
