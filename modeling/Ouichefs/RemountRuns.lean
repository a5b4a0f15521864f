import Ouichefs.Remount

/-!
# Runs with unmounts

The runs of the file tree, with an unmount and a mount between any two calls.  `Durable` is what the
next mount needs; every call keeps it.

* `TreeCall.durable`: one call keeps what the next mount needs.
* `remounts_refine`: an unmount and a mount do nothing to the tree, wherever they come.
* `mkfs_durable`: the runs start from what `mkfs` writes.
-/

set_option autoImplicit false

namespace Ouichefs

/-! ## Bounds of the inodes -/

section Bounds

variable {k k' : Kernel} {chain chain' : List Nat} {ino : Nat}

theorem FsInv.nlink_lt (h : FsInv k chain) {i : Nat} (hi : k.fs.Live i) :
    (k.fs.inode i).iNlink < 4294967296 := by
  have hcard := k.fs.card_childDirs i
  rw [h.links i hi]
  split <;> omega

theorem Inode.Storable.of_view {ci ci' : Inode} (h : ci.Storable) (hv : SameView ci ci')
    (hn : ci'.iNlink < 4294967296) : ci'.Storable :=
  ⟨by rw [hv.iMode]; exact h.iMode, by rw [hv.iSize]; exact h.iSize,
    by rw [hv.iBlocks]; exact h.iBlocks, hn, by rw [hv.indexBlock]; exact h.indexBlock,
    by rw [hv.numSlices]; exact h.numSlices⟩

/-- The storage of a file fits its record. -/
theorem FsInv.storable_file (h : FsInv k chain) (hi : k.fs.File ino)
    (hm : (k.fs.inode ino).iMode < 65536)
    (hs : k.fs.Is ino .big → (k.fs.inode ino).numSlices < 65536) :
    (k.fs.inode ino).Storable := by
  have hn := h.nlink_lt hi.1
  rcases h.file_kind hi with hf | hsm | hb
  · obtain ⟨hsize, hslices⟩ := h.wf.fresh ino hf
    obtain ⟨-, hblocks, hidx⟩ := Inode.kind_fresh.1 hf.2
    exact ⟨hm, by omega, by omega, hn, by omega, by omega⟩
  · have hok := h.wf.slices.file ino hsm
    have hbno := (h.wf.toCore.chain_used hok.mem).1
    have hle := h.wf.sb.blocks_le trivial
    have hslices := hok.slices
    have hfits := hok.fits
    have hdec : (k.fs.inode ino).indexBlock =
        32 * (k.fs.inode ino).getBno + (k.fs.inode ino).getSlice := by
      unfold Inode.getBno Inode.getSlice
      omega
    have hslice : (k.fs.inode ino).getSlice < 32 := Nat.mod_lt _ (by decide)
    obtain ⟨-, hblocks, -⟩ := Inode.kind_small.1 hsm.2
    unfold divRoundUp at hslices
    exact ⟨hm, by omega, by omega, hn, by omega, by omega⟩
  · obtain ⟨hsize, -, hblocks⟩ := h.wf.inodes.big ino hb
    have hused := (h.wf.toCore.big_used hb).1
    have hlt := h.wf.sb.blocks_lt
    exact ⟨hm, by omega, by omega, hn, by omega, hs hb⟩

/-- What the next mount needs, after an operation that keeps the geometry and block 0. -/
theorem Durable.of_kept (hd : Durable k.fs) (hg : SameGeom k.fs.sbi k'.fs.sbi)
    (h0 : k'.fs.disk 0 = k.fs.disk 0) (hi : ∀ i, k'.fs.Live i → (k'.fs.inode i).Storable) :
    Durable k'.fs where
  magic := by rw [h0]; exact hd.magic
  ifree := by rw [hg.nrInodes, hg.nrIfree]; exact hd.ifree
  bfree := by rw [hg.nrBlocks, hg.nrBfree]; exact hd.bfree
  ifree_le := by rw [hg.nrIfree]; exact hd.ifree_le
  bfree_le := by rw [hg.nrBfree]; exact hd.bfree_le
  inodes := hi

/-- Block 0 is the superblock. -/
theorem Fs.refers_zero (fs : Fs) (chain : List Nat) : Refers fs chain (.header 0) 0 :=
  ⟨rfl, by unfold SbInfo.metaBlocks; omega⟩

theorem Core.zero_notin {fs : Fs} (h : Core fs chain) : 0 ∉ chain := fun hm =>
  h.isChain.ne_zero 0 hm rfl

theorem Core.zero_ne_dir {fs : Fs} (h : Core fs chain) {d : Nat} (hd : fs.Is d .dir) :
    0 ≠ (fs.inode d).indexBlock :=
  h.ref_dir_block hd (fs.refers_zero chain) (by simp)

end Bounds

/-! ## The new inode -/

section NewInode

variable {k k' : Kernel} {chain : List Nat} {dir ino mode : Nat} {name : List UInt8}

/-- The fields of a new inode. -/
structure NewFields (ci : Inode) (mode : Nat) : Prop where
  iMode : mode < 65536 → ci.iMode < 65536
  iBlocks : ci.iBlocks ≤ 1
  numSlices : ci.numSlices = 0

theorem initInode_newFields (k : Kernel) (ci dir : Inode) (mode idx : Nat) :
    NewFields (initInode k ci dir mode idx) mode := by
  have h2 : (0o2000 : Nat) < 2 ^ 16 := by decide
  refine ⟨fun hm => ?_, ?_, ?_⟩
  · have hor : mode ||| 0o2000 < 2 ^ 16 := Nat.or_lt_two_pow hm h2
    unfold initInode inodeInitOwner
    split <;> cases hd : sIsDir mode <;> simp <;> omega
  · unfold initInode
    cases hd : sIsDir mode <;> simp
  · unfold initInode inodeInitOwner
    split <;> cases hd : sIsDir mode <;> simp

theorem ouichefsNewInode_newFields (hrun : ouichefsNewInode k dir mode = (.ok ino, k')) :
    NewFields (k'.inode ino) mode := by
  have hset : ∀ (k₁ : Kernel) (bno : Nat), NewFields
      ((k₁.setInode ino (initInode k₁ (k₁.inode ino) (k₁.inode dir) mode bno)).inode ino) mode := by
    intro k₁ bno
    have hself : (k₁.setInode ino (initInode k₁ (k₁.inode ino) (k₁.inode dir) mode bno)).inode ino
        = initInode k₁ (k₁.inode ino) (k₁.inode dir) mode bno := by simp [Kernel.inode]
    rw [hself]
    exact initInode_newFields ..
  unfold ouichefsNewInode at hrun
  split at hrun
  · cases hrun
  split at hrun
  · cases hrun
  simp only at hrun
  split at hrun
  · cases hrun
  split at hrun
  · cases hrun
  split at hrun
  · split at hrun
    · cases hrun
    · cases hrun
      exact hset _ _
  · cases hrun
    exact hset _ _

theorem registerInode_view {r : Int} (hrun : registerInode k dir ino name mode = .ok (r, k'))
    (i : Nat) : SameView (k.fs.inode i) (k'.fs.inode i) ∧ k'.fs.sbi = k.fs.sbi := by
  unfold registerInode at hrun
  simp only at hrun
  split at hrun
  · cases hrun
  · cases hrun
    refine ⟨?_, rfl⟩
    have hv := touchDir_view ((k.setBlock (k.inode dir).indexBlock (setSlot
      (k.fs.disk (k.inode dir).indexBlock) (firstFreeSlot (k.fs.disk (k.inode dir).indexBlock))
      ino name)).brelse (k.inode dir).indexBlock) dir
      (fun n => if sIsDir mode then add32 n 1 else n) i
    rwa [Kernel.fs_brelse, Kernel.fs_setBlock, Fs.inode_setBlock] at hv

/-- `ouichefs_create` takes no inode number, or the new inode has these fields. -/
theorem ouichefsCreate_newFields {r : Int} (hf : k.faults = []) (h : WF k.fs chain)
    (hd : k.fs.Is dir .dir) (hrun : ouichefsCreate k dir name mode = .ok (r, k')) :
    k'.fs = k.fs ∨ ∃ i, k.fs.sbi.ifreeBitmap i = true ∧ k'.fs.sbi.ifreeBitmap i = false ∧
      NewFields (k'.fs.inode i) mode := by
  unfold ouichefsCreate at hrun
  split at hrun
  · cases hrun
    exact Or.inl rfl
  have hdb : (k.inode dir).indexBlock < k.fs.sbi.nrBlocks := (h.toCore.dir_used hd).1
  simp only [Kernel.sbBread_ok hf hdb] at hrun
  split at hrun
  · cases hrun
    exact Or.inl rfl
  generalize hk₀ : k.log (.bread (k.inode dir).indexBlock) = k₀ at hrun
  have hfs₀ : k₀.fs = k.fs := by rw [← hk₀]; rfl
  have hf₀ : k₀.faults = [] := by rw [← hk₀]; exact hf
  rcases ouichefsNewInode_spec hf₀ (hfs₀ ▸ h) dir mode with
    ⟨e, -, hnew, -⟩ | ⟨ino, ci, base, k₁, hnew, hf₁, -, hni, hag, hself, -⟩
  · rw [hnew] at hrun
    cases hrun
    exact Or.inl hfs₀
  rw [hnew] at hrun
  have hfields := ouichefsNewInode_newFields hnew
  have hbits : k.fs.sbi.ifreeBitmap ino = true ∧ k₁.fs.sbi.ifreeBitmap ino = false := by
    have hdead := mt (hni.owners.live ino).2 hni.birth.dead
    rw [hfs₀] at hdead
    constructor
    · by_contra hbit
      refine hdead ⟨hni.birth.pos, ?_, by simpa using hbit⟩
      have hlt := hni.birth.lt
      rwa [hni.owners.geom.nrInodes, hfs₀] at hlt
    · rw [hag.ifree]
      exact Function.update_self ..
  -- the rest writes the parent and its block
  have hrest : ∀ k₂, k₂.fs.inode = k₁.fs.inode → k₂.fs.sbi = k₁.fs.sbi →
      registerInode k₂ dir ino name mode = .ok (r, k') →
      ∃ i, k.fs.sbi.ifreeBitmap i = true ∧ k'.fs.sbi.ifreeBitmap i = false ∧
        NewFields (k'.fs.inode i) mode := by
    intro k₂ hi hs hreg
    obtain ⟨hv, hsbi⟩ := registerInode_view hreg ino
    rw [hi] at hv
    refine ⟨ino, hbits.1, by rw [hsbi, hs]; exact hbits.2, fun hm => ?_, ?_, ?_⟩
    · rw [hv.iMode]
      exact hfields.iMode hm
    · rw [hv.iBlocks]
      exact hfields.iBlocks
    · rw [hv.numSlices]
      exact hfields.numSlices
  by_cases hm : sIsDir mode = true
  · simp only [hm, if_true] at hrun
    have hlt : (k₁.inode ino).indexBlock < k₁.fs.sbi.nrBlocks := by
      have hk : ci.kind = .dir := by simpa [hm] using hni.kind
      rw [hself, hag.geom.nrBlocks]
      exact (hni.birth.kind.resolve_left (by simp [hk])).2.1.1
    simp only [Kernel.sbBread_ok hf₁ hlt] at hrun
    exact Or.inr (hrest _ (by simp) (by simp) hrun)
  · simp only [hm] at hrun
    exact Or.inr (hrest k₁ rfl rfl hrun)

end NewInode

/-! ## Calls -/

section Calls

variable {k k' : Kernel} {chain chain' : List Nat} {dir ino mode : Nat} {name : List UInt8} {r : Int}

theorem Durable.create (hd : Durable k.fs) (h : FsInv k chain) (h' : FsInv k' chain)
    (hdir : k.fs.Is dir .dir) (hm : mode < 65536)
    (hrun : ouichefsCreate k dir name mode = .ok (r, k')) : Durable k'.fs := by
  obtain ⟨r', k'', hrun', -, -, hres⟩ := ouichefsCreate_spec h.faults h.wf hdir name mode
  rw [hrun] at hrun'
  cases hrun'
  rcases hres with ⟨-, hsame, -⟩ | ⟨-, ino, n, hc⟩
  · exact hsame ▸ hd
  refine hd.of_kept hc.geom ?_ fun i hi => ?_
  · exact ouichefsCreate_disk h.faults h.wf hdir hrun (k.fs.refers_zero chain)
      (h.wf.toCore.zero_ne_dir hdir)
  by_cases hold : k.fs.Live i
  · exact (hd.inodes i hold).of_view (hc.view i hold) (h'.nlink_lt hi)
  obtain rfl := ((hc.live i).1 hi).resolve_left hold
  -- the new inode
  have hfields : NewFields (k'.fs.inode i) mode := by
    rcases ouichefsCreate_newFields h.faults h.wf hdir hrun with hsame | ⟨j, hfree, hused, hj⟩
    · rw [hsame] at hi
      exact absurd hi hold
    · have hbits := (hc.effect (ouichefsCreate_effect h.faults h.wf.inodes.bit0 h.free_lt
        hdir.1.2.2 hrun)).ifree
      by_cases hji : j = i
      · rw [← hji]
        exact hj
      · rw [hbits, Function.update_of_ne hji, hfree] at hused
        cases hused
  have hkind := hc.kind
  split at hkind
  · rename_i hmode
    have hsize := (hc.effect (ouichefsCreate_effect h.faults h.wf.inodes.bit0 h.free_lt
        hdir.1.2.2 hrun)).size
    rw [if_pos hmode] at hsize
    have hused := (h'.wf.toCore.dir_used hkind).1
    have hlt := h'.wf.sb.blocks_lt
    have hblocks := hfields.iBlocks
    have hslices := hfields.numSlices
    have hsize' : (k'.fs.inode i).iSize = 4096 := hsize
    exact ⟨hfields.iMode hm, by omega, by omega, h'.nlink_lt hi, by omega, by omega⟩
  · refine h'.storable_file (hkind.file (by decide)) (hfields.iMode hm) fun hb => ?_
    cases hb.kind_unique hkind

theorem Durable.unlink (hd : Durable k.fs) (h : FsInv k chain) (h' : FsInv k' chain')
    (hdir : k.fs.Is dir .dir) (hname : blockMap (k.fs.indexOf dir) name = some ino)
    (hnd : ¬k.fs.Is ino .dir) (hrun : ouichefsUnlink k dir ino = .ok (r, k')) : Durable k'.fs := by
  obtain ⟨i, hi, h0, -⟩ := (blockMap_some h.wf h.names hdir).1 hname
  obtain ⟨k'', chain'', n, hrun', -, -, hr⟩ :=
    ouichefsUnlink_spec h.faults h.wf hdir hi h0 fun hc => absurd hc hnd
  rw [hrun] at hrun'
  cases hrun'
  have hc := h.wf.toCore
  refine hd.of_kept hr.geom ?_ fun j hj => ?_
  · exact ouichefsUnlink_disk h.faults h.wf hdir hr.slot h0 hr.notDir hrun
      (k.fs.refers_zero chain) id hc.zero_notin (hc.zero_ne_dir hdir)
  · obtain ⟨hl, hne⟩ := (hr.live j).1 hj
    exact (hd.inodes j hl).of_view (hr.view j hl hne) (h'.nlink_lt hj)

theorem Durable.rmdir (hd : Durable k.fs) (h : FsInv k chain) (h' : FsInv k' chain')
    (hdir : k.fs.Is dir .dir) (hname : blockMap (k.fs.indexOf dir) name = some ino)
    (hid : k.fs.Is ino .dir) (hrun : ouichefsRmdir k dir ino = .ok (r, k')) : Durable k'.fs := by
  obtain ⟨i, hi, h0, -⟩ := (blockMap_some h.wf h.names hdir).1 hname
  obtain ⟨r', k'', hrun', -, -, hres⟩ := ouichefsRmdir_spec h.faults h.wf hdir hi hid
  rw [hrun] at hrun'
  cases hrun'
  rcases hres with ⟨-, hsame⟩ | ⟨-, chain'', n, hr⟩
  · exact hsame ▸ hd
  have hc := h.wf.toCore
  refine hd.of_kept hr.geom ?_ fun j hj => ?_
  · exact ouichefsRmdir_disk h.faults h.wf hdir hr.slot h0 hid hr.notDir hrun
      (k.fs.refers_zero chain) id hc.zero_notin (hc.zero_ne_dir hdir)
  · obtain ⟨hl, hne⟩ := (hr.live j).1 hj
    exact (hd.inodes j hl).of_view (hr.view j hl hne) (h'.nlink_lt hj)

theorem Durable.rename {oldDir src newDir flags : Nat} {oldName newName : List UInt8}
    (hd : Durable k.fs) (h : FsInv k chain) (h' : FsInv k' chain')
    (hop : Op.Dir k.fs (.rename oldDir oldName src newDir newName flags))
    (hrun : ouichefsRename k oldDir oldName src newDir newName flags = .ok (r, k')) :
    Durable k'.fs := by
  obtain ⟨ho, hw, hvo, hvn, hsrc, hroom⟩ := hop
  obtain ⟨r', k'', hrun', -, -, hres⟩ :=
    ouichefsRename_spec h.faults h.wf h.names ho hw hvo hvn hsrc hroom flags
  rw [hrun] at hrun'
  cases hrun'
  rcases hres with ⟨-, hsame, -⟩ | ⟨-, -, hren⟩
  · exact hsame ▸ hd
  have hc := h.wf.toCore
  refine hd.of_kept ?_ ?_ fun j hj => ?_
  · rw [hren.sbi]
    exact .refl _
  · exact ouichefsRename_disk hrun (hc.zero_ne_dir ho) (hc.zero_ne_dir hw)
  · have hl : k.fs.Live j := by
      unfold Fs.Live at hj ⊢
      rwa [hren.sbi] at hj
    exact (hd.inodes j hl).of_view (hren.view j) (h'.nlink_lt hj)

theorem Durable.write {iocb io : Kiocb} {data : List UInt8} (hd : Durable k.fs)
    (h : FsInv k chain) (hrun : customWriteIter k ino iocb data = .ok ((r, io), k'))
    (hw : WroteTree k k' chain chain' ino iocb data r) : Durable k'.fs := by
  have hc := h.wf.toCore
  have ht := customWriteIter_touch (k := k) ino iocb data
  rw [hrun] at ht
  have hmode : (k'.fs.inode ino).iMode = (k.fs.inode ino).iMode := ht.mode
  refine hd.of_kept hw.frame.geom ?_ fun j hj => ?_
  · exact hw.frame.disk 0 (hc.owned.used (k.fs.refers_zero chain)) hc.zero_notin fun s hby hs => by
      rw [← hc.owned.inj (k.fs.refers_zero chain) hs] at hby
      exact hby
  have hl := (hw.frame.live j).1 hj
  by_cases hji : j = ino
  · subst hji
    refine hw.inv.storable_file ⟨hj, by rw [hmode]; exact hw.file.2⟩ ?_ fun hb => ?_
    · rw [hmode]
      exact (hd.inodes j hl).iMode
    · rcases hw.slices with hs | hs
      · cases hb.kind_unique hs
      · rw [hs]
        exact (hd.inodes j hl).numSlices
  · rw [hw.frame.inode j hji]
    exact hd.inodes j hl

/-- The modes fit `umode_t`. -/
def Op.ModeOk : Op → Prop
  | .create _ _ mode => mode < 65536
  | .mkdir _ _ mode => mode < 65536
  | _ => True

instance : (op : Op) → Decidable op.ModeOk
  | .create _ _ mode => inferInstanceAs (Decidable (mode < 65536))
  | .mkdir _ _ mode => inferInstanceAs (Decidable (mode < 65536))
  | .write .. | .append .. | .unlink .. | .rmdir .. | .rename .. => .isTrue trivial

/-- One operation keeps what the next mount needs. -/
theorem Op.InTree.durable {op : Op} (hop : op.InTree k.fs) (hm : op.ModeOk) (h : FsInv k chain)
    (hd : Durable k.fs) (hroom : ¬(op.exec k).kernel.AllocFailed)
    (hrun : op.exec k = .ok (r, k')) : Durable k'.fs := by
  obtain ⟨r', k'', chain', hrun', h', -⟩ := hop.step h hroom
  rw [hrun] at hrun'
  cases hrun'
  cases op with
  | create dir name mode =>
      obtain ⟨r₁, k₁, hrun₁, h₁, -⟩ := h.create hop.2.1 hop.2.2.1 hop.2.2.2 mode
      have he : Op.exec k (.create dir name mode) = .ok (r₁, k₁) := hrun₁
      rw [hrun] at he
      cases he
      exact hd.create h h₁ hop.2.1 hm hrun
  | mkdir dir name mode =>
      obtain ⟨r₁, k₁, hrun₁, h₁, -⟩ := h.create hop.1 hop.2.1 hop.2.2 (mode ||| 0o040000)
      have he : Op.exec k (.mkdir dir name mode) = .ok (r₁, k₁) := hrun₁
      rw [hrun] at he
      cases he
      have hm' : mode < 2 ^ 16 := hm
      exact hd.create h h₁ hop.1 (Nat.or_lt_two_pow hm' (by decide)) hrun
  | unlink dir name ino => exact hd.unlink h h' hop.1 hop.2.1 hop.2.2 hrun
  | rmdir dir name ino => exact hd.rmdir h h' hop.1 hop.2.1 hop.2.2 hrun
  | rename oldDir oldName src newDir newName flags => exact hd.rename h h' hop hrun
  | write ino pos data =>
      obtain ⟨r₁, io, k₁, chain₁, hrun₁, hw⟩ := h.write hop (by simpa [Op.exec] using hroom)
      have he : Op.exec k (.write ino pos data) = .ok (r₁, k₁) := congrArg writeResult hrun₁
      rw [hrun] at he
      cases he
      exact hd.write h hrun₁ hw
  | append ino pos data =>
      obtain ⟨r₁, io, k₁, chain₁, hrun₁, hw⟩ := h.write hop (by simpa [Op.exec] using hroom)
      have he : Op.exec k (.append ino pos data) = .ok (r₁, k₁) := congrArg writeResult hrun₁
      rw [hrun] at he
      cases he
      exact hd.write h hrun₁ hw

/-- **One call keeps what the next mount needs.** -/
theorem TreeCall.durable {c : Call} (hc : TreeCall k c) (hm : c.op.ModeOk) (h : FsInv k chain)
    (hd : Durable k.fs) (hrun : c.exec k = .ok (r, k')) : Durable k'.fs :=
  Op.InTree.durable (k := k.setCaller c.now c.fsuid c.fsgid) hc.1 hm
    (h.setCaller c.now c.fsuid c.fsgid) hd hc.2 hrun

end Calls

/-! ## Runs -/

/-- What happens to a mounted file system: a call, or an unmount and a mount. -/
inductive Request where
  | call (c : Call)
  | mountAgain (long : LongSize) (written loaded : List Nat) (now : Timespec) (fsuid fsgid : Nat)
  deriving DecidableEq

def Request.exec (k : Kernel) : Request → Outcome Int
  | .call c => c.exec k
  | .mountAgain long written loaded now fsuid fsgid => remount long written loaded now fsuid fsgid k

/-- An unmount writes every inode back, in any order, and every inode is used after the mount. -/
def Request.Ok (k : Kernel) : Request → Prop
  | .call c => TreeCall k c ∧ c.op.ModeOk
  | .mountAgain _ written loaded .. =>
    (∀ i < k.fs.sbi.nrInodes, k.fs.Live i → i ∈ written ∧ i ∈ loaded) ∧
      ∀ i ∈ loaded, i < k.fs.sbi.nrInodes

instance (k : Kernel) : (q : Request) → Decidable (q.Ok k)
  | .call _ => inferInstanceAs (Decidable (_ ∧ _))
  | .mountAgain .. => inferInstanceAs (Decidable (_ ∧ _))

/-- What a request does to a tree. -/
def Tree.StepOr (t : Tree) : Request → Int → Tree → Prop
  | .call c, r, t' => t.Step c r t'
  | .mountAgain .., r, t' => r = 0 ∧ t' = t

section Requests

variable {k : Kernel} {chain : List Nat} {qs : List Request}

theorem Request.Ok.step {q : Request} (hq : q.Ok k) (h : FsInv k chain) (hd : Durable k.fs) :
    ∃ r k' chain', q.exec k = .ok (r, k') ∧ FsInv k' chain' ∧ Durable k'.fs ∧
      k.fs.tree.StepOr q r k'.fs.tree := by
  cases q with
  | call c =>
      obtain ⟨hc, hm⟩ := hq
      obtain ⟨r, k', chain', hrun, h', hstep, -⟩ := hc.step h
      exact ⟨r, k', chain', hrun, h', hc.durable hm h hd hrun, hstep⟩
  | mountAgain long written loaded now fsuid fsgid =>
      obtain ⟨hall, hlt⟩ := hq
      obtain ⟨k', hrun, hf, hsame, hmagic⟩ := remount_ok long now fsuid fsgid h hd
        (fun i hi => (hall i hi.2.1 hi).1) (fun i hi => (hall i hi.2.1 hi).2) hlt
      refine ⟨0, k', chain, hrun, hsame.fsInv h hf, ?_, rfl, hsame.tree h⟩
      have hg := hsame.geom
      refine ⟨hmagic, ?_, ?_, ?_, ?_, fun i hi => ?_⟩
      · rw [hg.nrInodes, hg.nrIfree]
        exact hd.ifree
      · rw [hg.nrBlocks, hg.nrBfree]
        exact hd.bfree
      · rw [hg.nrIfree]
        exact hd.ifree_le
      · rw [hg.nrBfree]
        exact hd.bfree_le
      · have hl := (hsame.live i).1 hi
        exact (hd.inodes i hl).of_view (hsame.view i hl) ((hsame.fsInv h hf).nlink_lt hi)

/-- Every run of requests refines the tree it starts from. -/
theorem FsInv.simulates (h : FsInv k chain) (hd : Durable k.fs)
    (ha : Admissible Request.exec Request.Ok k qs) :
    Simulates Request.exec Shows Tree.StepOr k k.fs.tree qs := by
  refine simulates_of_step (I := fun k => ∃ chain, FsInv k chain ∧ Durable k.fs) ?_ qs k _
    ⟨chain, h, hd⟩ h.shows ha
  rintro k t q ⟨chain, hi, hd⟩ hr hq
  obtain rfl := (hi.shows_iff t).1 hr
  obtain ⟨r, k', chain', he, hi', hd', hs⟩ := hq.step hi hd
  exact ⟨r, k', _, he, hs, ⟨chain', hi', hd'⟩, hi'.shows⟩

/-- **Unmounting and mounting between any two calls does nothing to the tree.** -/
theorem remounts_refine (hf : k.faults = []) (h : Formatted k.fs) (hz : k.fs.Blank) (hd : Durable k.fs)
    (ha : Admissible Request.exec Request.Ok k qs) :
    Simulates Request.exec Shows Tree.StepOr k Tree.root qs := by
  rw [← h.tree]
  exact (h.fsInv hf hz).simulates hd ha

/-- A small image with a superblock that says what it is. -/
def magicImage (nrBlocks nrInodes : Nat) : Kernel :=
  let k := emptyImage nrBlocks nrInodes
  { k with fs := k.fs.setBlock 0 (Page.zero.setWord 0 magic) }

theorem magicImage_zero {nrBlocks nrInodes b : Nat} (hb : b ≠ 0) :
    (magicImage nrBlocks nrInodes).fs.disk b = Page.zero := by
  show (Fs.setBlock _ 0 _).disk b = _
  rw [Fs.disk_setBlock, if_neg hb]
  rfl

theorem magicImage_formatted {nrBlocks nrInodes : Nat} (hb : 4 < nrBlocks)
    (hlt : nrBlocks < 4294967296) (hi : 1 < nrInodes) (hle : nrInodes ≤ 51) :
    Formatted (magicImage nrBlocks nrInodes).fs :=
  { emptyImage_formatted hb hlt hi hle with rootZero := magicImage_zero (show (4 : Nat) ≠ 0 by decide) }

theorem magicImage_blank {nrBlocks nrInodes : Nat} (hle : nrBlocks ≤ 134217728) :
    (magicImage nrBlocks nrInodes).fs.Blank where
  blocks_le := hle
  zero b _ hfree := by
    have hb : 4 < b := of_decide_eq_true hfree
    exact magicImage_zero (by omega)

theorem magicImage_durable {nrBlocks nrInodes : Nat} (hb : 4 < nrBlocks) (hlt : nrBlocks ≤ 32768)
    (hi : 1 < nrInodes) (hle : nrInodes ≤ 51) : Durable (magicImage nrBlocks nrInodes).fs where
  magic := by
    show ((Fs.setBlock _ 0 _).disk 0).word 0 = _
    rw [Fs.disk_setBlock, if_pos rfl]
    exact Page.word_setWord_of_lt _ (by decide) (by decide)
  ifree := Nat.le_trans hle (show 51 ≤ 32768 * 1 by decide)
  bfree := hlt
  ifree_le := show 1 ≤ 524288 by decide
  bfree_le := show 1 ≤ 524288 by decide
  inodes i hl := by
    obtain rfl := ((magicImage_formatted hb (by omega) hi hle).live i).1 hl
    have hroot : (rootInode 4).Storable :=
      ⟨by decide, by decide, by decide, by decide, by decide, by decide⟩
    exact hroot

/-- A small file that moves and grows between two mounts, on two kinds of machines. -/
def remountRun : List Request :=
  [.call (Op.mkdir 1 [100] 0o755).call, .call (Op.create 2 [97] 0o100644).call,
    .call (Op.write 3 0 [7, 8]).call, .mountAgain .bits64 [1, 2, 3] [3, 2, 1] ⟨0, 0⟩ 0 0,
    .call (Op.append 3 0 [9]).call, .call (Op.rename 2 [97] 3 1 [99] 0).call,
    .mountAgain .bits32 [3, 2, 1] [1, 2, 3] ⟨0, 0⟩ 0 0]

theorem remountRun_admissible :
    Admissible Request.exec Request.Ok (magicImage 12 8) remountRun := by
  decide +kernel

theorem remounts_refine_remountRun :
    Simulates Request.exec Shows Tree.StepOr (magicImage 12 8) Tree.root remountRun :=
  remounts_refine rfl (magicImage_formatted (by decide) (by decide) (by decide) (by decide))
    (magicImage_blank (by decide))
    (magicImage_durable (by decide) (by decide) (by decide) (by decide)) remountRun_admissible

end Requests

/-! ## Formatting -/

/-- **The runs start from what `mkfs` writes** on a partition of zeros. -/
theorem mkfs_durable {long : LongSize} {now : Timespec} {fsuid fsgid : Nat} {fd fd' : Fd}
    (hrun : mkfs fd = .ok (true, fd')) (hfits : (superblock fd.size).Fits)
    (hn : 5 ≤ (superblock fd.size).nrBlocks) (hz : ∀ b, fd.block b = Page.zero) :
    ∃ k, ouichefsFillSuper long now fsuid fsgid ⟨fd.size / 4096, fd'.block, []⟩ = .ok (.ok k) ∧
      k.faults = [] ∧ Formatted k.fs ∧ k.fs.Blank ∧ Durable k.fs := by
  obtain ⟨k, hfill, hmount, him⟩ := mkfs_mounted long now fsuid fsgid hrun hfits hn
  have hs := superblock_sized hfits hn
  have hfmt := hmount.formatted him hs
  have hcnt := hmount.counters
  have hlt := hs.blocks_lt
  have hmeta := hs.meta_lt
  refine ⟨k, hfill, hmount.faults, hfmt, hmount.blank him hs hz,
    ⟨?_, ?_, ?_, ?_, ?_, fun i hi => ?_⟩⟩
  · rw [hmount.disk, him.superblock, Superblock.page_magic]
    rfl
  · rw [hcnt.nrInodes, hcnt.nrIfreeBlocks]
    exact hs.ifree
  · rw [hcnt.nrBlocks, hcnt.nrBfreeBlocks]
    exact hs.bfree
  · have hle : (superblock fd.size).nrIfreeBlocks ≤ 524288 := by
      unfold Superblock.Fits at hfits
      omega
    rw [hcnt.nrIfreeBlocks]
    exact hle
  · have hle : (superblock fd.size).nrBfreeBlocks ≤ 524288 := by
      unfold Superblock.Fits at hfits
      omega
    rw [hcnt.nrBfreeBlocks]
    exact hle
  · obtain rfl := (hfmt.live i).1 hi
    obtain ⟨ci, hci, hroot⟩ := hmount.root
    have hinode : k.fs.inode 1 = ci := by
      unfold Fs.inode
      rw [hci]
      rfl
    rw [hinode]
    have hidx := hroot.indexBlock
    have hmetaEq : (superblock fd.size).toSbInfo.metaBlocks = 1 + (superblock fd.size).nrIstoreBlocks +
      (superblock fd.size).nrIfreeBlocks + (superblock fd.size).nrBfreeBlocks := rfl
    exact ⟨by rw [hroot.iMode]; decide, by rw [hroot.iSize]; decide, by rw [hroot.iBlocks]; decide,
      by rw [hroot.iNlink]; decide, by omega, by rw [hroot.numSlices]; decide⟩

end Ouichefs
