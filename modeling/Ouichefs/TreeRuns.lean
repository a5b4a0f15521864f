import Ouichefs.Tree
import Ouichefs.Touch

/-!
# Runs of the file tree

Creation, removal, renaming, writes and appends in any order, to files of both classes.  The calls
are those the VFS makes; a write may not ask for more than a small file or a big file can hold, and
may turn a small file into a big one only where the source refuses (`Fs.WriteOk`).  During a call
`get_free_block` finds a block (`TreeCall`).

* `TreeCall.step`: one call keeps the invariant, acts on the tree as `Tree.Step` says, and fails
  only for a reason (`Op.Refused`).
* `tree_refines`: every run from a formatted image is a run of the tree.
-/

set_option autoImplicit false

namespace Ouichefs

/-! ## The calls -/

/-- The writes of the runs.  A small file stays small, wherever the handle stands; if the handle
asks for more, its `index_block` must be no block of the device, so that the conversion fails. -/
def Fs.WriteOk (fs : Fs) (ino : Nat) (iocb : Kiocb) (data : List UInt8) : Prop :=
  let ci := fs.inode ino
  let size := max (iocb.kiPos + data.length) ci.iSize
  1 ≤ data.length ∧
    (fs.Is ino .fresh ∧ iocb.kiPos + data.length ≤ 4194304 ∨
      fs.Is ino .small ∧ (size ≤ 3968 ∧ iocb.startPos ci + data.length ≤ 3968 ∨
        3968 < size ∧ fs.sbi.nrBlocks ≤ ci.indexBlock) ∨
      fs.Is ino .big ∧ iocb.startPos ci + data.length ≤ 4194304)

instance (fs : Fs) (ino : Nat) (iocb : Kiocb) (data : List UInt8) :
    Decidable (fs.WriteOk ino iocb data) :=
  inferInstanceAs (Decidable (_ ∧ (_ ∧ _ ∨ _ ∧ (_ ∧ _ ∨ _ ∧ _) ∨ _ ∧ _)))

/-- The operations of the runs.  `create` is called for files. -/
def Op.InTree (fs : Fs) : Op → Prop
  | .create dir name mode => sIsDir mode = false ∧ Op.Dir fs (.create dir name mode)
  | .write ino pos data => fs.WriteOk ino { kiPos := pos, append := false } data
  | .append ino pos data => fs.WriteOk ino { kiPos := pos, append := true } data
  | .mkdir dir name mode => Op.Dir fs (.mkdir dir name mode)
  | .unlink dir name ino => Op.Dir fs (.unlink dir name ino)
  | .rmdir dir name ino => Op.Dir fs (.rmdir dir name ino)
  | .rename oldDir oldName src newDir newName flags =>
    Op.Dir fs (.rename oldDir oldName src newDir newName flags)

instance (fs : Fs) : (op : Op) → Decidable (op.InTree fs)
  | .create .. => inferInstanceAs (Decidable (_ ∧ _))
  | .write .. => inferInstanceAs (Decidable (Fs.WriteOk ..))
  | .append .. => inferInstanceAs (Decidable (Fs.WriteOk ..))
  | .mkdir d n m => inferInstanceAs (Decidable ((Op.mkdir d n m).Dir fs))
  | .unlink d n i => inferInstanceAs (Decidable ((Op.unlink d n i).Dir fs))
  | .rmdir d n i => inferInstanceAs (Decidable ((Op.rmdir d n i).Dir fs))
  | .rename d n i d' n' f => inferInstanceAs (Decidable ((Op.rename d n i d' n' f).Dir fs))

/-- A call of the runs during which `get_free_block` finds a block. -/
def TreeCall (k : Kernel) (c : Call) : Prop :=
  c.op.InTree k.fs ∧ ¬(c.exec k).kernel.AllocFailed

instance (k : Kernel) (c : Call) : Decidable (TreeCall k c) := inferInstanceAs (Decidable (_ ∧ _))

/-- Why a write fails: a small file would have to become a big one, or the blocks do not suffice. -/
def Fs.RefusesWrite (fs : Fs) (ino : Nat) (iocb : Kiocb) (data : List UInt8) : Prop :=
  let ci := fs.inode ino
  fs.Is ino .small ∧ 3968 < max (iocb.kiPos + data.length) ci.iSize ∨
    fs.sbi.nrFreeBlocks < divRoundUp (max (iocb.startPos ci + data.length) ci.iSize) 4096 + 1

/-- Why an operation fails. -/
def Op.Refused (k : Kernel) : Op → Prop
  | .create dir name mode => ¬CanCreate k dir name mode
  | .mkdir dir name mode => ¬CanCreate k dir name (mode ||| 0o040000)
  | .unlink .. => False
  | .rmdir _ _ ino => ∃ j, k.fs.Entry ino j
  | .rename oldDir _ _ newDir newName flags => ¬CanRename k oldDir newDir newName flags
  | .write ino pos data => k.fs.RefusesWrite ino { kiPos := pos, append := false } data
  | .append ino pos data => k.fs.RefusesWrite ino { kiPos := pos, append := true } data

/-! ## Writes -/

section Write

variable {k k' : Kernel} {chain chain' : List Nat} {ino : Nat} {iocb : Kiocb} {data : List UInt8}

theorem overwrite_end (old data : List UInt8) : overwrite old old.length data = old ++ data := by
  refine List.ext_getElem (by simp [overwrite]) fun i h1 h2 => ?_
  have hi : i < old.length + data.length := by simpa using h2
  by_cases hlt : i < old.length
  · rw [List.getElem_append_left hlt]
    simp [overwrite, hlt]
  · have hsub : i - old.length < data.length := by omega
    rw [List.getElem_append_right (by omega)]
    simp only [overwrite, List.getElem_map, List.getElem_range]
    rw [if_pos ⟨by omega, hi⟩, List.getD_eq_getElem _ _ hsub]

/-- The tree of a file system in which file `ino` has got content `l`. -/
theorem FsInv.tree_put (h : FsInv k chain) {l : List UInt8} (hnames : k'.fs.names = k.fs.names)
    (hfile : ∀ i, k'.fs.File i ↔ k.fs.File i) (hi : k.fs.File ino) (hl : k'.fs.content ino = l)
    (hkeep : ∀ i, i ≠ ino → k.fs.Live i → KeepsFile k.fs k'.fs chain i) :
    k'.fs.tree = k.fs.tree.put ino l := by
  apply Tree.ext
  · exact hnames
  · funext i
    show k'.fs.contents i = Function.update k.fs.contents ino (some l) i
    rw [Function.update_apply]
    split
    · rename_i hin
      rw [hin, Fs.contents_file ((hfile ino).2 hi), hl]
    · rename_i hin
      unfold Fs.contents
      by_cases hf : k.fs.File i
      · rw [if_pos hf, if_pos ((hfile i).2 hf), (hkeep i hin hf.1).content h.wf.toCore hf.1]
      · rw [if_neg hf, if_neg (mt (hfile i).1 hf)]

/-- A write keeps the directories, the link counts and the other files. -/
theorem FsInv.of_write (h : FsInv k chain) (hw : FileWrite k.fs k'.fs chain chain' ino)
    (hwf : WF k'.fs chain') (ht : Touch ino k k') (htight : Tight k'.fs chain')
    (htail : k'.fs.Is ino .big → TailZero k'.fs ino) (hocc : k'.fs.Occupied chain')
    (hi : k.fs.File ino) : FsInv k' chain' ∧ k'.fs.names = k.fs.names ∧ ∀ i, k'.fs.File i ↔ k.fs.File i := by
  have hmode : ∀ i, (k'.fs.inode i).iMode = (k.fs.inode i).iMode := by
    intro i
    by_cases hin : i = ino
    · rw [hin]
      exact ht.mode
    · rw [hw.inode i hin]
  have hdir : ∀ d, k'.fs.Is d .dir ↔ k.fs.Is d .dir := by
    intro d
    unfold Fs.Is
    rw [hw.live, Inode.kind_dir, Inode.kind_dir, hmode]
  have hblock : ∀ d, k.fs.Is d .dir → k'.fs.indexOf d = k.fs.indexOf d := by
    intro d hd
    refine hw.indexOf h.wf.toCore hd ?_
    rintro rfl
    have hdm := Inode.kind_dir.1 hd.2
    rw [hi.2] at hdm
    cases hdm
  have hentry : ∀ d j, k'.fs.Entry d j ↔ k.fs.Entry d j := by
    intro d j
    unfold Fs.Entry
    rw [hdir]
    refine and_congr_right fun hd => ?_
    rw [hblock d hd]
  refine ⟨⟨⟨ht.faults h.faults, hwf, fun d hd => ?_, fun i hl => ?_, ?_⟩, htight, fun i hb => ?_,
    hocc⟩, ?_, fun i => ?_⟩
  · rw [hblock d ((hdir d).1 hd)]
    exact h.names d ((hdir d).1 hd)
  · have hnlink : (k'.fs.inode i).iNlink = (k.fs.inode i).iNlink := by
      by_cases hin : i = ino
      · rw [hin]
        exact ht.nlink
      · rw [hw.inode i hin]
    have hset : k'.fs.childDirs i = k.fs.childDirs i := by
      ext j
      rw [Fs.mem_childDirs, Fs.mem_childDirs, hentry, hdir]
    rw [hnlink, hset]
    exact h.links i ((hw.live i).1 hl)
  · rw [ht.nrFreeInodes]
    exact h.free_lt
  · by_cases hin : i = ino
    · rw [hin] at hb ⊢
      exact htail hb
    · have hb' : k.fs.Is i .big := ⟨(hw.live i).1 hb.1, by rw [← hw.inode i hin]; exact hb.2⟩
      exact (hw.keepsFile h.wf.toCore hin).tailZero h.wf.toCore hb' (h.tails i hb')
  · refine Fs.names_eq (fun d hd => ?_) fun d hd => ?_
    · rw [Fs.names_dir ((hdir d).1 hd), hblock d ((hdir d).1 hd)]
    · exact Fs.names_notDir (mt (hdir d).2 hd)
  · unfold Fs.File
    rw [hw.live, hmode]

/-- What a write returns and leaves. -/
structure WroteTree (k k' : Kernel) (chain chain' : List Nat) (ino : Nat) (iocb : Kiocb)
    (data : List UInt8) (r : Int) : Prop where
  inv : FsInv k' chain'
  file : k.fs.File ino
  frame : FileWrite k.fs k'.fs chain chain' ino
  slices : k'.fs.Is ino .small ∨ (k'.fs.inode ino).numSlices = (k.fs.inode ino).numSlices
  result : r = data.length ∧ k'.fs.tree = k.fs.tree.put ino
      (overwrite (k.fs.content ino) (iocb.startPos (k.fs.inode ino)) data) ∨
    r < 0 ∧ k'.fs.tree = k.fs.tree ∧ k.fs.RefusesWrite ino iocb data

theorem FsInv.landed (h : FsInv k chain) (hi : k.fs.File ino) {io : Kiocb}
    (hrun : customWriteIter k ino iocb data = .ok (((data.length : Int), io), k'))
    (hw : FileWrite k.fs k'.fs chain chain' ino) (hwf : WF k'.fs chain')
    (htight : Tight k'.fs chain') (htail : k'.fs.Is ino .big → TailZero k'.fs ino)
    (hocc : k'.fs.Occupied chain')
    (hslices : k'.fs.Is ino .small ∨ (k'.fs.inode ino).numSlices = (k.fs.inode ino).numSlices)
    (hl : k'.fs.content ino =
      overwrite (k.fs.content ino) (iocb.startPos (k.fs.inode ino)) data) :
    WroteTree k k' chain chain' ino iocb data data.length := by
  have ht := customWriteIter_touch (k := k) ino iocb data
  rw [hrun] at ht
  obtain ⟨hinv, hnames, hfile⟩ := h.of_write hw hwf ht htight htail hocc hi
  exact ⟨hinv, hi, hw, hslices, Or.inl ⟨rfl, h.tree_put hnames hfile hi hl fun i hin _ =>
    hw.keepsFile h.wf.toCore hin⟩⟩

/-- A write that fails leaves the file system as it was. -/
theorem FsInv.refused (h : FsInv k chain) (hi : k.fs.File ino) {r : Int} (hr : r < 0)
    (hf : k'.faults = []) (hsame : k'.fs = k.fs) (hwhy : k.fs.RefusesWrite ino iocb data) :
    WroteTree k k' chain chain ino iocb data r := by
  refine ⟨h.of_fs hf hsame, hi, ?_, Or.inr (by rw [hsame]), Or.inr ⟨hr, by rw [hsame], hwhy⟩⟩
  rw [hsame]
  exact .refl h.wf.toCore fun hs => h.wf.stray ino ⟨hi.1, hs⟩

/-- **One write**, at the position of the handle or at the end of the file. -/
theorem FsInv.write (h : FsInv k chain) (hok : k.fs.WriteOk ino iocb data)
    (hroom : ¬(customWriteIter k ino iocb data).kernel.AllocFailed) :
    ∃ r io k' chain', customWriteIter k ino iocb data = .ok ((r, io), k') ∧
      WroteTree k k' chain chain' ino iocb data r := by
  obtain ⟨hlen, hok⟩ := hok
  have hstart : iocb.startPos (k.fs.inode ino) = iocb.startPos (k.inode ino) := rfl
  -- a write that stays small
  have hsmall : k.fs.Is ino .fresh ∨ k.fs.Is ino .small →
      max (iocb.kiPos + data.length) (k.inode ino).iSize ≤ 3968 →
      iocb.startPos (k.inode ino) + data.length ≤ 3968 →
      ∃ r io k' chain', customWriteIter k ino iocb data = .ok ((r, io), k') ∧
        WroteTree k k' chain chain' ino iocb data r := by
    intro hk hsize hend
    have hi : k.fs.File ino := hk.elim (fun hk => hk.file (by decide)) fun hk => hk.file (by decide)
    have hold : k.fs.oldBytes ino = k.fs.content ino := by
      rcases hk with hk | hk
      · rw [Fs.content_fresh hk, Fs.oldBytes, if_neg (by rw [hk.2]; decide)]
      · rw [Fs.content_small hk, Fs.oldBytes, if_pos hk.2]
    rw [customWriteIter_small hk hsize] at hroom
    rcases writeSmallFile_spec h.faults h.wf hk rfl hlen hend with
      ⟨k', chain', io, hrun, hw⟩ | ⟨-, hov⟩
    · have hrun' : customWriteIter k ino iocb data = .ok (((data.length : Int), io), k') := by
        rw [customWriteIter_small hk hsize]
        exact hrun
      refine ⟨_, io, k', chain', hrun', h.landed hi hrun' hw.fileWrite hw.wf (hw.tight h.tight)
        (fun hb => by cases hb.kind_unique hw.small) ?_ (Or.inl hw.small) ?_⟩
      · exact writeSmallFile_occupied h.faults h.wf hk rfl hlen hend h.occupied hw.core
          (hw.tight h.tight) hrun (Int.natCast_pos.2 hlen)
      · rw [Fs.content_small hw.small, hw.bytes, hold, combinedBuf_eq_overwrite, hstart]
    · exact absurd hov.failed hroom
  -- a write to a big file
  have hbig : k.fs.Is ino .fresh ∨ k.fs.Is ino .big →
      customWriteIter k ino iocb data = writeBigFile k ino iocb data →
      iocb.startPos (k.inode ino) + data.length ≤ 4194304 →
      ∃ r io k' chain', customWriteIter k ino iocb data = .ok ((r, io), k') ∧
        WroteTree k k' chain chain' ino iocb data r := by
    intro hk heq hend
    have hi : k.fs.File ino := hk.elim (fun hk => hk.file (by decide)) fun hk => hk.file (by decide)
    have hk' : k.fs.Is ino .fresh ∧ (k.fs.inode ino).iSize = 0 ∨ k.fs.Is ino .big :=
      hk.imp_left fun hk => ⟨hk, (h.wf.fresh ino hk).1⟩
    have hsize : (k.inode ino).iSize ≤ 4194304 := by
      rcases hk' with ⟨-, h0⟩ | hk
      · have h0' : (k.inode ino).iSize = 0 := h0
        omega
      · exact (h.wf.inodes.big ino hk).1
    rw [heq] at hroom
    rcases writeBigFile_spec iocb data h.faults h.wf hk rfl rfl (Nat.max_le.2 ⟨hend, hsize⟩) with
      ⟨k', hrun, hw⟩ | ⟨k', hrun, hw⟩
    · obtain ⟨hcont, htails, hslices⟩ :=
        writeBigFile_writes h.blocksOk hk' hrun (Int.natCast_nonneg _)
      have hframe := hw.spared.fileWrite h.wf.toCore (Or.inr (Or.inl hw.big.2))
      have hns : ¬k.fs.Is ino .small := fun hs => by
        rcases hk with hk | hk <;> cases hk.kind_unique hs
      exact ⟨_, _, k', chain, heq.trans hrun, h.landed hi (heq.trans hrun) hframe hw.kept.wf
        (hw.tight h.tight) (htails ino) (hframe.occupied h.occupied (fun _ => id) hns)
        (Or.inr hslices) hcont⟩
    · have hsame : k'.fs = k.fs := hw.same.resolve_left fun hc => hroom (by rw [hrun]; exact hc)
      exact ⟨_, _, k', chain, heq.trans hrun,
        h.refused hi (by decide) hw.faults hsame (Or.inr hw.lack)⟩
  rcases hok with ⟨hk, hend⟩ | ⟨hk, ⟨hsize, hend⟩ | ⟨hlong, hidx⟩⟩ | ⟨hk, hend⟩
  · have h0 : (k.inode ino).iSize = 0 := (h.wf.fresh ino hk).1
    have hle : iocb.startPos (k.inode ino) ≤ iocb.kiPos := by
      unfold Kiocb.startPos
      split <;> omega
    by_cases hshort : iocb.kiPos + data.length ≤ 3968
    · exact hsmall (Or.inl hk) (by omega) (by omega)
    · exact hbig (Or.inl hk) (customWriteIter_firstBig hk (by omega)) (by omega)
  · exact hsmall (Or.inr hk) hsize hend
  · -- the conversion reads a block that does not exist
    obtain ⟨io, k', hrun, hf', hsame⟩ := convertSmallToBig_outside iocb data h.faults h.wf.toCore hk
      hidx
    exact ⟨_, io, k', chain, (customWriteIter_convert hk hlong).trans hrun,
      h.refused (hk.file (by decide)) (by decide) hf' hsame (Or.inl ⟨hk, hlong⟩)⟩
  · exact hbig (Or.inr hk) (customWriteIter_big h.wf.toCore hk) hend

end Write

/-! ## Directory operations -/

section Dirs

variable {k k' : Kernel} {chain chain' : List Nat} {dir ino f n mode : Nat} {name : List UInt8}

theorem FsInv.tail_of_kept (h : FsInv k chain) {i : Nat} (hl : k.fs.Live i)
    (hk : KeepsFile k.fs k'.fs chain i) (hb : k'.fs.Is i .big) : TailZero k'.fs i := by
  have hb' : k.fs.Is i .big := ⟨hl, hk.view.kind.symm.trans hb.2⟩
  exact hk.tailZero h.wf.toCore hb' (h.tails i hb')

/-- The content of a file that is kept, if it is a file at all. -/
theorem FsInv.contents_kept (h : FsInv k chain) {i : Nat} (hlive : k'.fs.Live i ↔ k.fs.Live i)
    (hk : k.fs.Live i → KeepsFile k.fs k'.fs chain i) : k'.fs.contents i = k.fs.contents i := by
  unfold Fs.contents
  by_cases hl : k.fs.Live i
  · have hfile : k'.fs.File i ↔ k.fs.File i := by
      unfold Fs.File
      rw [(hk hl).view.iMode, hlive]
    simp only [hfile, (hk hl).content h.wf.toCore hl]
  · have hno : ¬k.fs.File i := fun hc => hl hc.1
    have hno' : ¬k'.fs.File i := fun hc => hl (hlive.1 hc.1)
    rw [if_neg hno, if_neg hno']

/-- A directory without entries. -/
theorem FsInv.names_empty (h : FsInv k chain) (hi : k.fs.Is ino .dir) :
    k.fs.names ino = some (fun _ => none) ↔ ∀ j, ¬k.fs.Entry ino j := by
  have hchild : ∀ j, k.fs.names.Child ino j ↔ k.fs.Entry ino j := fun j =>
    Fs.names_child h.wf h.names
  constructor
  · intro hn j hj
    obtain ⟨g, y, hg, hy⟩ := (hchild j).2 hj
    rw [hn] at hg
    cases hg
    cases hy
  · intro hnone
    rw [Fs.names_dir hi]
    congr 1
    funext y
    cases hy : blockMap (k.fs.indexOf ino) y with
    | none => rfl
    | some j => exact absurd ((hchild j).1 ⟨_, y, Fs.names_dir hi, hy⟩) (hnone j)

/-- Creation adds an empty file or an empty directory. -/
theorem FsInv.create (h : FsInv k chain) (hd : k.fs.Is dir .dir) (hv : ValidName name)
    (hnew : blockMap (k.fs.indexOf dir) name = none) (mode : Nat) :
    ∃ r k', ouichefsCreate k dir name mode = .ok (r, k') ∧ FsInv k' chain ∧
      (r < 0 ∧ k'.fs = k.fs ∧ ¬CanCreate k dir name mode ∨
        r = 0 ∧ ∃ ino, ¬k.fs.Live ino ∧ k'.fs.tree = if sIsDir mode
          then ⟨(k.fs.names.insert dir name ino).addDir ino, k.fs.contents⟩
          else ⟨k.fs.names.insert dir name ino, Function.update k.fs.contents ino (some [])⟩) := by
  obtain ⟨r, k', hrun, hinv, -⟩ := h.toTreeInv.create hd hv hnew mode
  obtain ⟨r', k'', hrun', -, -, hres⟩ := ouichefsCreate_spec h.faults h.wf hd name mode
  rw [hrun] at hrun'
  cases hrun'
  rcases hres with ⟨hr, hsame, hcan⟩ | ⟨hr, ino, n, hc⟩
  · exact ⟨r, k', hrun, h.of_fs hinv.faults hsame, Or.inl ⟨hr, hsame, hcan⟩⟩
  have hkeep : ∀ i, k.fs.Live i → KeepsFile k.fs k'.fs chain i := fun i hl =>
    hc.keepsFile h.faults h.wf hd hrun hl
  have hother : ∀ i, i ≠ ino → k'.fs.contents i = k.fs.contents i := fun i hi =>
    h.contents_kept ((hc.live i).trans (or_iff_left hi)) (hkeep i)
  have hdead : k.fs.contents ino = none := if_neg fun hi => hc.dead hi.1
  obtain ⟨-, hnames⟩ := hc.names h.names hd hv hnew
  have hkind := hc.kind
  refine ⟨r, k', hrun, ⟨hinv, hc.tight h.tight, fun i hb => ?_, h.occupied.mono (fun _ => id)
    fun i hi => ⟨(hc.live i).2 (Or.inl hi.1), hc.view i hi.1⟩⟩, Or.inr ⟨hr, ino, hc.dead, ?_⟩⟩
  · rcases (hc.live i).1 hb.1 with hl | rfl
    · exact h.tail_of_kept hl (hkeep i hl) hb
    · have := hb.kind_unique hkind
      split at this <;> cases this
  · by_cases hm : sIsDir mode = true
    · rw [if_pos hm] at hnames hkind ⊢
      refine Tree.ext hnames (funext fun i => ?_)
      show k'.fs.contents i = k.fs.contents i
      by_cases hi : i = ino
      · subst hi
        rw [hdead]
        refine if_neg fun hf => ?_
        have hdm := Inode.kind_dir.1 hkind.2
        rw [hf.2] at hdm
        cases hdm
      · exact hother i hi
    · rw [if_neg hm] at hnames hkind ⊢
      refine Tree.ext hnames (funext fun i => ?_)
      show k'.fs.contents i = Function.update k.fs.contents ino (some []) i
      rw [Function.update_apply]
      split
      · rename_i hi
        rw [hi, Fs.contents_file (hkind.file (by decide)), Fs.content_fresh hkind]
      · rename_i hi
        exact hother i hi

/-- Removal of an inode and its entry. -/
theorem FsInv.remove {r : Int} (h : FsInv k chain) (hd : k.fs.Is dir .dir)
    (hname : blockMap (k.fs.indexOf dir) name = some ino) (hf' : k'.faults = [])
    (hr : Removed k.fs k'.fs chain chain' dir ino f n)
    (he : Idle k k' ∨ r = 0 ∧ RemoveEff k k' dir ino)
    (hkeep : ∀ i, k.fs.Live i → i ≠ ino → KeepsFile k.fs k'.fs chain i)
    (hocc : k'.fs.Occupied chain') :
    FsInv k' chain' ∧ k'.fs.tree = ⟨(k.fs.names.delete dir name).dropDir ino,
      Function.update k.fs.contents ino none⟩ := by
  obtain ⟨hinv, hnames⟩ := h.toTreeInv.remove hd hname hf' hr he
  refine ⟨⟨hinv, hr.tight h.tight, fun i hb => ?_, hocc⟩, Tree.ext hnames (funext fun i => ?_)⟩
  · obtain ⟨hl, hne⟩ := (hr.live i).1 hb.1
    exact h.tail_of_kept hl (hkeep i hl hne) hb
  · show k'.fs.contents i = Function.update k.fs.contents ino none i
    rw [Function.update_apply]
    split
    · rename_i hi
      subst hi
      exact if_neg fun hx => ((hr.live i).1 hx.1).2 rfl
    · rename_i hi
      exact h.contents_kept ((hr.live i).trans (and_iff_left hi)) fun hl => hkeep i hl hi

theorem FsInv.unlink (h : FsInv k chain) (hd : k.fs.Is dir .dir)
    (hname : blockMap (k.fs.indexOf dir) name = some ino) (hnd : ¬k.fs.Is ino .dir) :
    ∃ k' chain', ouichefsUnlink k dir ino = .ok (0, k') ∧ FsInv k' chain' ∧ k.fs.File ino ∧
      k'.fs.tree = ⟨k.fs.names.delete dir name, Function.update k.fs.contents ino none⟩ := by
  obtain ⟨i, hi, h0, -⟩ := (blockMap_some h.wf h.names hd).1 hname
  have hlive := (Fs.Entry.live h.wf ⟨hd, h0, i, hi⟩).1
  have hne : ino ≠ dir := by
    rintro rfl
    exact hnd hd
  obtain ⟨k', chain', n, hrun, hf', -, hr⟩ :=
    ouichefsUnlink_spec h.faults h.wf hd hi h0 fun hc => absurd hc hnd
  obtain ⟨hinv, htree⟩ := h.remove hd hname hf' hr
    (ouichefsUnlink_effect h.faults hlive.2.1 hne hrun)
    (fun i hl hi => hr.keepsFile_unlink h.faults h.wf hd h0 hrun hl hi)
    (ouichefsUnlink_occupied h.faults h.wf h.tight h.occupied hd h0 hrun hr)
  refine ⟨k', chain', hrun, hinv, hlive.is.file fun hk => hnd (hk ▸ hlive.is), ?_⟩
  rw [htree]
  refine Tree.ext ?_ rfl
  -- a file has no map to drop
  show (k.fs.names.delete dir name).dropDir ino = k.fs.names.delete dir name
  unfold Names.dropDir
  apply Function.update_eq_self_iff.2
  unfold Names.delete
  rw [Function.update_of_ne hne, Fs.names_notDir hnd]

theorem FsInv.rmdir (h : FsInv k chain) (hd : k.fs.Is dir .dir)
    (hname : blockMap (k.fs.indexOf dir) name = some ino) (hid : k.fs.Is ino .dir) :
    ∃ r k' chain', ouichefsRmdir k dir ino = .ok (r, k') ∧ FsInv k' chain' ∧
      (r = -ENOTEMPTY ∧ k'.fs = k.fs ∧ (∃ j, k.fs.Entry ino j) ∨
        r = 0 ∧ (∀ j, ¬k.fs.Entry ino j) ∧
          k'.fs.tree = ⟨(k.fs.names.delete dir name).dropDir ino, k.fs.contents⟩) := by
  obtain ⟨i, hi, h0, -⟩ := (blockMap_some h.wf h.names hd).1 hname
  obtain ⟨r, k', chain₁, hrun, hinv, hmap⟩ := h.toTreeInv.rmdir hd hname hid
  rcases hmap with ⟨hr0, hnone, -⟩ | ⟨hr, hsome, hsame⟩
  · obtain ⟨r', k'', hrun', -, -, hres⟩ := ouichefsRmdir_spec h.faults h.wf hd hi hid
    rw [hrun] at hrun'
    cases hrun'
    rcases hres with ⟨hneg, -⟩ | ⟨-, chain', n, hr⟩
    · omega
    have hentry : k.fs.Entry dir ino := ⟨hd, h0, i, hi⟩
    have hne : ino ≠ dir := by
      rintro rfl
      exact hnone ino hentry
    obtain ⟨hinv', htree⟩ := h.remove hd hname hinv.faults hr
      (ouichefsRmdir_effect h.faults hid.1.2.1 hne hrun)
      (fun i hl hi => hr.keepsFile_rmdir h.faults h.wf hd h0 hid hrun hl hi)
      (ouichefsRmdir_occupied h.faults h.wf h.tight h.occupied hd h0 hid hrun hr)
    refine ⟨r, k', chain', hrun, hinv', Or.inr ⟨hr0, hnone, ?_⟩⟩
    rw [htree]
    refine Tree.ext rfl (Function.update_eq_self_iff.2 (if_neg fun hf => ?_).symm)
    have hdm := Inode.kind_dir.1 hid.2
    rw [hf.2] at hdm
    cases hdm
  · exact ⟨r, k', chain, hrun, h.of_fs hinv.faults hsame, Or.inl ⟨hr, hsame, hsome⟩⟩

theorem FsInv.rename {oldDir src newDir flags : Nat} {oldName newName : List UInt8}
    (h : FsInv k chain) (hop : Op.Dir k.fs (.rename oldDir oldName src newDir newName flags)) :
    ∃ r k', ouichefsRename k oldDir oldName src newDir newName flags = .ok (r, k') ∧
      FsInv k' chain ∧
      (r < 0 ∧ k'.fs = k.fs ∧ ¬CanRename k oldDir newDir newName flags ∨
        r = 0 ∧ blockMap (k.fs.indexOf newDir) newName = none ∧
          k'.fs.tree =
            ⟨(k.fs.names.delete oldDir oldName).insert newDir newName src, k.fs.contents⟩) := by
  obtain ⟨r, k', hrun, hinv, -⟩ := h.toTreeInv.rename hop
  obtain ⟨ho, hw, hvo, hvn, hsrc, hroom⟩ := hop
  obtain ⟨r', k'', hrun', -, -, hres⟩ :=
    ouichefsRename_spec h.faults h.wf h.names ho hw hvo hvn hsrc hroom flags
  rw [hrun] at hrun'
  cases hrun'
  rcases hres with ⟨hr, hsame, hcan⟩ | ⟨hr, hcan, hren⟩
  · exact ⟨r, k', hrun, h.of_fs hinv.faults hsame, Or.inl ⟨hr, hsame, hcan⟩⟩
  have hlive : ∀ i, k'.fs.Live i ↔ k.fs.Live i := by
    intro i
    unfold Fs.Live
    rw [hren.sbi]
  have hkeep : ∀ i, KeepsFile k.fs k'.fs chain i := fun i => hren.keepsFile h.wf ho hw hrun
  refine ⟨r, k', hrun, ⟨hinv, hren.tight h.tight, fun i hb => ?_, h.occupied.mono (fun _ => id)
    fun i hi => ⟨(hlive i).2 hi.1, hren.view i⟩⟩, Or.inr ⟨hr, hcan.2.1, ?_⟩⟩
  · exact h.tail_of_kept ((hlive i).1 hb.1) (hkeep i) hb
  · exact Tree.ext hren.names (funext fun i => h.contents_kept (hlive i) fun _ => hkeep i)

end Dirs

/-! ## One call -/

section Step

variable {k : Kernel} {chain : List Nat} {c : Call}

theorem FsInv.setCaller (h : FsInv k chain) (now : Timespec) (fsuid fsgid : Nat) :
    FsInv (k.setCaller now fsuid fsgid) chain :=
  ⟨h.toTreeInv.setCaller now fsuid fsgid, h.tight, h.tails, h.occupied⟩

/-- An inode number that is not in use. -/
theorem Fs.tree_dead {fs : Fs} {ino : Nat} (h : ¬fs.Live ino) :
    fs.tree.dirs ino = none ∧ fs.tree.files ino = none :=
  ⟨Fs.names_notDir fun hd => h hd.1, if_neg fun hf => h hf.1⟩

/-- What one operation returns, keeps and does to the tree. -/
theorem Op.InTree.step {op : Op} (hop : op.InTree k.fs) (h : FsInv k chain)
    (hroom : ¬(op.exec k).kernel.AllocFailed) :
    ∃ r k' chain', op.exec k = .ok (r, k') ∧ FsInv k' chain' ∧
      (∀ now u g, k.fs.tree.Step ⟨op, now, u, g⟩ r k'.fs.tree) ∧ (r < 0 → op.Refused k) := by
  cases op with
  | create dir name mode =>
      obtain ⟨hm, hd, hv, hnew⟩ := hop
      obtain ⟨r, k', hrun, hinv, ⟨hr, hsame, hcan⟩ | ⟨hr, ino, hdead, htree⟩⟩ :=
        h.create hd hv hnew mode
      · exact ⟨r, k', chain, hrun, hinv, fun _ _ _ => Or.inl ⟨hr, by rw [hsame]⟩, fun _ => hcan⟩
      · rw [hm, if_neg Bool.false_ne_true] at htree
        refine ⟨r, k', chain, hrun, hinv, fun _ _ _ => Or.inr ⟨hr, ino, ?_⟩, fun hneg => by omega⟩
        exact ⟨(Fs.tree_dead hdead).1, (Fs.tree_dead hdead).2, htree⟩
  | mkdir dir name mode =>
      obtain ⟨hd, hv, hnew⟩ := hop
      obtain ⟨r, k', hrun, hinv, ⟨hr, hsame, hcan⟩ | ⟨hr, ino, hdead, htree⟩⟩ :=
        h.create hd hv hnew (mode ||| 0o040000)
      · exact ⟨r, k', chain, hrun, hinv, fun _ _ _ => Or.inl ⟨hr, by rw [hsame]⟩, fun _ => hcan⟩
      · have hm : sIsDir (mode ||| 0o040000) = true := by
          rw [hr] at hrun
          exact (ouichefsCreate_mode hrun).resolve_right (by simp [not_sIsReg_mkdir])
        rw [if_pos hm] at htree
        refine ⟨r, k', chain, hrun, hinv, fun _ _ _ => Or.inr ⟨hr, ino, ?_⟩, fun hneg => by omega⟩
        exact ⟨(Fs.tree_dead hdead).1, (Fs.tree_dead hdead).2, htree⟩
  | unlink dir name ino =>
      obtain ⟨hd, hname, hnd⟩ := hop
      obtain ⟨k', chain', hrun, hinv, hi, htree⟩ := h.unlink hd hname hnd
      refine ⟨0, k', chain', hrun, hinv, fun _ _ _ => ⟨rfl, ?_, htree⟩, fun hneg => by omega⟩
      show (k.fs.contents ino).isSome
      rw [Fs.contents_file hi]
      rfl
  | rmdir dir name ino =>
      obtain ⟨hd, hname, hid⟩ := hop
      obtain ⟨r, k', chain', hrun, hinv, ⟨hr, hsame, hsome⟩ | ⟨hr, hnone, htree⟩⟩ :=
        h.rmdir hd hname hid
      · refine ⟨r, k', chain', hrun, hinv, fun _ _ _ => Or.inl ⟨hr, by rw [hsame], fun hc => ?_⟩,
          fun _ => hsome⟩
        obtain ⟨j, hj⟩ := hsome
        exact (h.names_empty hid).1 hc j hj
      · exact ⟨r, k', chain', hrun, hinv,
          fun _ _ _ => Or.inr ⟨hr, (h.names_empty hid).2 hnone, htree⟩, fun hneg => by omega⟩
  | rename oldDir oldName src newDir newName flags =>
      obtain ⟨r, k', hrun, hinv, ⟨hr, hsame, hcan⟩ | ⟨hr, hnew, htree⟩⟩ := h.rename hop
      · exact ⟨r, k', chain, hrun, hinv, fun _ _ _ => Or.inl ⟨hr, by rw [hsame]⟩, fun _ => hcan⟩
      · have hw : k.fs.Is newDir .dir := hop.2.1
        exact ⟨r, k', chain, hrun, hinv,
          fun _ _ _ => Or.inr ⟨hr, ⟨_, Fs.names_dir hw, hnew⟩, htree⟩, fun hneg => by omega⟩
  | write ino pos data =>
      obtain ⟨r, io, k', chain', hrun, hw⟩ := h.write hop (by simpa [Op.exec] using hroom)
      refine ⟨r, k', chain', ?_, hw.inv, fun _ _ _ => ?_, ?_⟩
      · show writeResult _ = _
        rw [hrun]
        rfl
      · exact hw.result.symm.imp (fun hx => ⟨hx.1, hx.2.1⟩)
          fun hx => ⟨hx.1, _, Fs.contents_file hw.file, hx.2⟩
      · intro hneg
        rcases hw.result with ⟨hr, -⟩ | ⟨-, -, href⟩
        · omega
        · exact href
  | append ino pos data =>
      obtain ⟨r, io, k', chain', hrun, hw⟩ := h.write hop (by simpa [Op.exec] using hroom)
      refine ⟨r, k', chain', ?_, hw.inv, fun _ _ _ => ?_, ?_⟩
      · show writeResult _ = _
        rw [hrun]
        rfl
      · refine hw.result.symm.imp (fun hx => ⟨hx.1, hx.2.1⟩)
          fun hx => ⟨hx.1, _, Fs.contents_file hw.file, ?_⟩
        rw [hx.2, ← overwrite_end, h.content_length hw.file]
        rfl
      · intro hneg
        rcases hw.result with ⟨hr, -⟩ | ⟨-, -, href⟩
        · omega
        · exact href

/-- **One call keeps the invariant and does to the tree what it is for.** -/
theorem TreeCall.step (h : FsInv k chain) (hc : TreeCall k c) :
    ∃ r k' chain', c.exec k = .ok (r, k') ∧ FsInv k' chain' ∧
      k.fs.tree.Step c r k'.fs.tree ∧ (r < 0 → c.op.Refused k) := by
  obtain ⟨op, now, u, g⟩ := c
  obtain ⟨r, k', chain', hrun, hinv, hstep, hneg⟩ :=
    Op.InTree.step (k := k.setCaller now u g) hc.1 (h.setCaller now u g) hc.2
  refine ⟨r, k', chain', hrun, hinv, hstep now u g, fun hr => ?_⟩
  have href := hneg hr
  cases op <;> exact href

end Step

/-! ## Whole runs -/

section Runs

variable {k : Kernel} {cs : List Call}

/-- **The file system refines a tree.**  From a formatted image every run returns, its results are
those of the tree, before and after every call the mounted file system shows the tree, and a call
fails only for a reason. -/
theorem tree_refines (hf : k.faults = []) (h : Formatted k.fs) (hz : k.fs.Blank)
    (ha : Admissible Call.exec TreeCall k cs) :
    Simulates Call.exec Shows Tree.Step k Tree.root cs ∧
      ∃ k', runAll Call.exec k cs = .ok k' ∧
        ∀ c, TreeCall k' c → ∃ r k'', c.exec k' = .ok (r, k'') ∧ (r < 0 → c.op.Refused k') := by
  have h0 := h.fsInv hf hz
  constructor
  · refine simulates_of_step (I := fun k => ∃ chain, FsInv k chain) ?_ cs k _ ⟨[], h0⟩
      ((h0.shows_iff _).2 h.tree.symm) ha
    rintro k t c ⟨chain, hi⟩ hr hc
    obtain rfl := (hi.shows_iff t).1 hr
    obtain ⟨r, k', chain', he, hi', hs, -⟩ := hc.step hi
    exact ⟨r, k', _, he, hs, ⟨chain', hi'⟩, hi'.shows⟩
  · obtain ⟨k', hrun, chain', hinv⟩ := runAll_invariant (I := fun k => ∃ chain, FsInv k chain)
      (fun k c ⟨chain, hi⟩ hc => by
        obtain ⟨r, k', chain', he, hi', -⟩ := hc.step hi
        exact ⟨r, k', he, chain', hi'⟩) cs k ⟨[], h0⟩ ha
    refine ⟨k', hrun, fun c hc => ?_⟩
    obtain ⟨r, k'', -, he, -, -, hneg⟩ := hc.step hinv
    exact ⟨r, k'', he, hneg⟩

/-- A small file and a big one in a directory that moves; the small file grows and cannot become
big. -/
def treeCalls : List Call :=
  [(Op.mkdir 1 [100] 0o755).call, (Op.create 2 [97] 0o100644).call, (Op.write 3 0 [7, 8]).call,
    (Op.append 3 0 [9]).call, (Op.write 3 3968 [1]).call, (Op.create 1 [98] 0o100644).call,
    (Op.write 4 5000 [5]).call, (Op.append 4 0 [6]).call, (Op.rename 2 [97] 3 1 [99] 0).call,
    (Op.rmdir 1 [100] 2).call, (Op.unlink 1 [98] 4).call]

theorem treeCalls_admissible : Admissible Call.exec TreeCall (emptyImage 12 8) treeCalls := by
  decide +kernel

theorem tree_refines_treeCalls :
    Simulates Call.exec Shows Tree.Step (emptyImage 12 8) Tree.root treeCalls :=
  (tree_refines rfl (emptyImage_formatted (by decide) (by decide) (by decide) (by decide))
    (emptyImage_blank (by decide)) treeCalls_admissible).1

end Runs

end Ouichefs
