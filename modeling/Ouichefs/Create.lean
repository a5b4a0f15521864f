import Ouichefs.Lifecycle
import Ouichefs.SmallWrite

/-!
# Creating files and directories

`ouichefs_create` either fails and changes nothing, or allocates one inode (for a directory also
one block) and appends one entry to the parent directory.
-/

set_option autoImplicit false

namespace Ouichefs

open FreeMap

variable {Z : Prop}

/-- Entry `ino`, `name` in slot `n` of directory `dir`. -/
def Fs.enter (fs : Fs) (dir n ino : Nat) (name : List UInt8) : Fs :=
  fs.setBlock (fs.inode dir).indexBlock (setSlot (fs.indexOf dir) n ino name)

section Enter

variable {fs : Fs} {chain : List Nat} {dir ino n : Nat} {ci : Inode} {name : List UInt8}

/-- The block of a directory belongs to no other reference. -/
theorem Core.dir_block_alone (h : Core fs chain Z) (hd : fs.Is dir .dir) :
    fs.sbi.bfreeBitmap (fs.inode dir).indexBlock = false ∧ (fs.inode dir).indexBlock ∉ chain ∧
      (∀ d, fs.Is d .big → (fs.inode d).indexBlock ≠ (fs.inode dir).indexBlock) ∧
      ∀ d, fs.Is d .dir → d ≠ dir → (fs.inode d).indexBlock ≠ (fs.inode dir).indexBlock := by
  refine ⟨(h.dir_used hd).2, h.dir_notin_chain (Or.inl hd), fun d hb => ?_, fun d hd' hne => ?_⟩
  · refine h.ne_of_refs (r := .index d) (s := .index dir) ⟨Or.inr hb, rfl⟩ ⟨Or.inl hd, rfl⟩ ?_
    rintro ⟨⟩
    have := hb.kind_unique hd
    cases this
  · refine h.ne_of_refs (r := .index d) (s := .index dir) ⟨Or.inl hd', rfl⟩ ⟨Or.inl hd, rfl⟩ ?_
    rintro ⟨⟩
    exact hne rfl

/-- The blocks of the directories after one of them was overwritten. -/
theorem Core.indexOf_setDir (h : Core fs chain Z) (hd : fs.Is dir .dir) (nb : Block) {d : Nat}
    (hd' : fs.Is d .dir) : (fs.setBlock (fs.inode dir).indexBlock nb).indexOf d =
      if d = dir then nb else fs.indexOf d := by
  unfold Fs.indexOf
  rw [Fs.inode_setBlock, Fs.disk_setBlock]
  by_cases hdd : d = dir
  · rw [hdd, if_pos rfl, if_pos rfl]
  · rw [if_neg ((h.dir_block_alone hd).2.2.2 d hd' hdd), if_neg hdd]

theorem Core.setDir_kept (h : Core fs chain Z) (hd : fs.Is dir .dir) (nb : Block) (i : Nat) :
    Kept fs (fs.setBlock (fs.inode dir).indexBlock nb) i := by
  refine .of_bytes rfl fun hs x _ _ => ?_
  rw [Fs.disk_setBlock, if_neg]
  intro he
  exact (h.dir_block_alone hd).2.1 (he ▸ (h.slices.file i hs).mem)

theorem BirthOk.kept (hb : BirthOk fs chain ino ci) {i : Nat} (hi : fs.Live i) :
    Kept fs (fs.birth ino ci) i :=
  .of_bytes (hb.inode_of_is hi.is) fun _ _ _ _ => rfl

theorem WF.allocBlock (h : WF fs chain Z) {a : Nat} (ha : a < fs.sbi.nrBlocks)
    (hfree : fs.sbi.bfreeBitmap a = true) : WF (fs.allocBlock a) chain Z :=
  { h.toCore.allocBlock ha hfree with
    dirs := SameOwners.dirs (.of_bfree _ _) h.dirs, table := ⟨h.table.lt, h.table.istore⟩,
      fresh := h.fresh,
    stray := h.stray }

/-- The directories after the birth of `ino` and its entry in `dir`. -/
theorem DirInv.create (h : WF fs chain Z) (hd : fs.Is dir .dir) (hb : BirthOk fs chain ino ci)
    (hz : ci.kind = .dir → fs.disk ci.indexBlock = Page.zero)
    (hn : Compact (slotInode (fs.indexOf dir)) n) (hlt : n < 128) :
    DirInv ((fs.birth ino ci).enter dir n ino name) := by
  have hcore := h.toCore.birth hb
  have hlt32 : ino < 4294967296 := Nat.lt_trans hb.lt h.table.lt
  have hne : dir ≠ ino := by
    rintro rfl
    exact hb.dead hd.1
  have hi : ∀ {i κ}, fs.Is i κ → (fs.birth ino ci).indexOf i = fs.indexOf i := by
    intro i κ hi
    unfold Fs.indexOf
    rw [hb.inode_of_is hi]
    rfl
  have hd' : (fs.birth ino ci).Is dir .dir := (Fs.birth_is hb.pos hb.lt hb.dead _ _).2 (Or.inl hd)
  have hdir : ∀ d, ((fs.birth ino ci).enter dir n ino name).Is d .dir ↔
      fs.Is d .dir ∨ d = ino ∧ ci.kind = .dir :=
    fun d => Fs.birth_is hb.pos hb.lt hb.dead d .dir
  -- the blocks: `dir` has one entry more, `ino` is empty, the others are as before
  have hblk : ∀ d, ((fs.birth ino ci).enter dir n ino name).Is d .dir →
      ((fs.birth ino ci).enter dir n ino name).indexOf d =
        if d = dir then setSlot (fs.indexOf dir) n ino name
        else if d = ino then Page.zero else fs.indexOf d := by
    intro d hdd
    unfold Fs.enter
    rw [hcore.indexOf_setDir hd' _ hdd, hi hd]
    by_cases h1 : d = dir
    · rw [if_pos h1, if_pos h1]
    · rw [if_neg h1, if_neg h1]
      rcases (hdir d).1 hdd with hold | ⟨rfl, hk⟩
      · rw [if_neg, hi hold]
        rintro rfl
        exact hb.dead hold.1
      · rw [if_pos rfl]
        unfold Fs.indexOf
        rw [Fs.birth_inode, if_pos rfl]
        exact hz hk
  have h1 : ino ≠ 1 := by
    rintro rfl
    exact hb.dead h.dirs.root.1
  refine ⟨(hdir 1).2 (Or.inl h.dirs.root), ?_, ?_⟩
  · have hins := h.dirs.tree.insert hd hn hlt hb.dead hb.pos h1
    -- the table of `ino` reads as empty whether or not it is a directory
    have hold : Naming 128 (fs.Is · .dir) (fun y => fs.Live y ∨ y = ino) 1 fun d =>
        if d = ino then fun _ => 0 else
          Function.update (fun d => slotInode (fs.indexOf d)) dir
            (Function.update (slotInode (fs.indexOf dir)) n ino) d := by
      refine hins.congr (fun _ => Iff.rfl) (fun _ => Iff.rfl) fun d hdd i => ?_
      rw [if_neg]
      rintro rfl
      exact hb.dead hdd.1
    by_cases hk : ci.kind = .dir
    · refine (hold.addTable (x := ino) fun i => by simp).congr ?_ ?_ ?_
      · intro d; rw [hdir]; simp [hk]
      · intro x; exact Fs.birth_live ci hb.pos hb.lt x
      · intro d hdd i
        rw [hblk d ((hdir d).2 (by simpa [hk] using hdd))]
        by_cases hd1 : d = dir
        · subst hd1
          rw [if_pos rfl, slotInode_setSlot _ _ hlt hlt32, if_neg hne, Function.update_self,
            Function.update_apply]
        · rw [if_neg hd1]
          by_cases hd2 : d = ino
          · rw [if_pos hd2, if_pos hd2, slotInode_zero]
          · rw [if_neg hd2, if_neg hd2, Function.update_of_ne hd1]
    · refine hold.congr ?_ ?_ ?_
      · intro d; rw [hdir]; simp [hk]
      · intro x; exact Fs.birth_live ci hb.pos hb.lt x
      · intro d hdd i
        have hd2 : d ≠ ino := by
          rintro rfl
          exact hb.dead hdd.1
        rw [hblk d ((hdir d).2 (Or.inl hdd))]
        by_cases hd1 : d = dir
        · subst hd1
          rw [if_pos rfl, slotInode_setSlot _ _ hlt hlt32, if_neg hd2, Function.update_self,
            Function.update_apply]
        · rw [if_neg hd1, if_neg hd2, if_neg hd2, Function.update_of_ne hd1]
  · intro d hdd
    rw [hblk d hdd]
    by_cases hd1 : d = dir
    · rw [if_pos hd1]
      exact (h.dirs.clean dir hd).setSlot name hlt hlt32 hb.pos
    · rw [if_neg hd1]
      split
      · exact Clean.zero
      · rename_i hd2
        refine h.dirs.clean d (((hdir d).1 hdd).resolve_right ?_)
        rintro ⟨rfl, -⟩
        exact hd2 rfl

/-- **A new entry keeps the invariant.** -/
theorem WF.create (name : List UInt8) (h : WF fs chain Z) (hd : fs.Is dir .dir)
    (hb : BirthOk fs chain ino ci)
    (hz : ci.kind = .dir → fs.disk ci.indexBlock = Page.zero)
    (hf : ci.kind = .fresh → ci.iSize = 0 ∧ ci.numSlices = 0)
    (hn : Compact (slotInode (fs.indexOf dir)) n) (hlt : n < 128) :
    WF ((fs.birth ino ci).enter dir n ino name) chain Z := by
  have hcore := h.toCore.birth hb
  have hd' : (fs.birth ino ci).Is dir .dir := (Fs.birth_is hb.pos hb.lt hb.dead _ _).2 (Or.inl hd)
  obtain ⟨hu, hc, hbig, -⟩ := hcore.dir_block_alone hd'
  refine { hcore.setBlock (fun _ => hu) hc hbig _ with
    dirs := DirInv.create h hd hb hz hn hlt, table := ⟨h.table.lt, h.table.istore⟩,
    fresh := fun i hi => ?_, stray := fun i hi => ?_ }
  · have hi' : (fs.birth ino ci).Is i .fresh := hi
    show ((fs.birth ino ci).inode i).iSize = 0 ∧ ((fs.birth ino ci).inode i).numSlices = 0
    rcases (Fs.birth_is hb.pos hb.lt hb.dead i .fresh).1 hi' with hold | ⟨rfl, hk⟩
    · rw [hb.inode_of_is hold]; exact h.fresh i hold
    · rw [Fs.birth_inode, if_pos rfl]; exact hf hk
  · have hi' := (hb.is_other (by decide) (by decide) i).1 (show (fs.birth ino ci).Is i .stray from hi)
    show ((fs.birth ino ci).inode i).iSize = 0
    rw [hb.inode_of_is hi']
    exact h.stray i hi'

end Enter

/-! ## `ouichefs_new_inode` -/

theorem sIsDir_or_sgid (mode : Nat) : sIsDir (mode ||| 0o2000) = sIsDir mode := by
  unfold sIsDir
  rw [Nat.and_or_distrib_right, show 0o2000 &&& 0o170000 = 0 by decide, Nat.or_zero]

theorem sIsReg_of_not_dir {mode : Nat} (h : ¬(!sIsDir mode && !sIsReg mode) = true)
    (hd : sIsDir mode = false) : sIsReg mode = true := by
  simpa [hd] using h

/-- The type of the new inode is that of the requested mode. -/
theorem initInode_mode (k : Kernel) (ci dir : Inode) (mode idx : Nat) :
    sIsDir (initInode k ci dir mode idx).iMode = sIsDir mode ∧
      (sIsDir mode = false → (initInode k ci dir mode idx).iMode = mode) := by
  unfold initInode inodeInitOwner
  by_cases hg : dir.iMode &&& 0o2000 ≠ 0
  · cases hd : sIsDir mode <;> simp [hg, hd, sIsDir_or_sgid]
  · cases hd : sIsDir mode <;> simp [hg, hd]

theorem initInode_kind (k : Kernel) (ci dir : Inode) (mode idx : Nat)
    (h : sIsDir mode = false → idx = 0) : (initInode k ci dir mode idx).kind =
      if sIsDir mode then .dir else .fresh := by
  have hm := (initInode_mode k ci dir mode idx).1
  cases hd : sIsDir mode with
  | true => rw [if_pos rfl, Inode.kind_dir, hm, hd]
  | false =>
      rw [if_neg (by decide), Inode.kind_fresh, hm, hd]
      refine ⟨rfl, ?_, ?_⟩ <;> unfold initInode inodeInitOwner <;> split <;> simp [hd, h hd]

theorem initInode_fields (k : Kernel) (ci dir : Inode) (mode idx : Nat) :
    (initInode k ci dir mode idx).indexBlock = idx ∧ (initInode k ci dir mode idx).numSlices = 0 ∧
      (sIsDir mode = false → (initInode k ci dir mode idx).iSize = 0) := by
  unfold initInode inodeInitOwner
  refine ⟨?_, ?_, fun hd => ?_⟩ <;> split <;> simp_all
  all_goals split <;> rfl

/-- `ouichefs_iget` succeeds for every inode number of the store and only touches the cache. -/
theorem ouichefsIget_ok {k : Kernel} {ino : Nat} (hf : k.faults = [])
    (hm : k.fs.sbi.metaBlocks < k.fs.sbi.nrBlocks) (ht : InodeTable k.fs.sbi)
    (hino : ino < k.fs.sbi.nrInodes) :
    ∃ k', ouichefsIget k ino = (0, k') ∧ k'.faults = [] ∧ (k'.AllocFailed ↔ k.AllocFailed) ∧
      k'.fs.sbi = k.fs.sbi ∧ k'.fs.disk = k.fs.disk ∧
      (k'.fs.icache ino).isSome ∧
      (∀ i, (k.fs.icache i).isSome → k'.fs.icache i = k.fs.icache i) ∧
      ∀ i, i ≠ ino → k'.fs.icache i = k.fs.icache i := by
  unfold ouichefsIget
  rw [if_neg (by omega)]
  cases hc : k.fs.icache ino with
  | some ci => exact ⟨k, rfl, hf, Iff.rfl, rfl, rfl, by simp [hc], fun _ _ => rfl, fun _ _ => rfl⟩
  | none =>
      have hb : ino / 51 + 1 < k.fs.sbi.nrBlocks := by
        have h1 := ht.istore
        unfold SbInfo.metaBlocks at hm
        omega
      simp only [Kernel.sbBread_ok hf hb]
      refine ⟨_, rfl, hf, by simp, rfl, rfl, by simp [Fs.setInode], fun i hi => ?_, fun i hi => ?_⟩
      · have hne : i ≠ ino := by
          rintro rfl
          rw [hc] at hi
          cases hi
        simp [Fs.setInode, hne]
      · simp [Fs.setInode, hi]

/-- State `base` before the birth of inode `ino` with fields `ci`: for a directory its block is
allocated already. -/
structure NewInode (fs base : Fs) (chain : List Nat) (ino : Nat) (ci : Inode) (mode : Nat)
    (Z : Prop := True) : Prop where
  wf : WF base chain Z
  disk : ∀ c, (ci.kind = .dir → c ≠ ci.indexBlock) → base.disk c = fs.disk c
  icache : base.icache = fs.icache
  owners : SameOwners fs base
  birth : BirthOk base chain ino ci
  fresh : ci.kind = .fresh → ci.iSize = 0 ∧ ci.numSlices = 0
  kind : ci.kind = if sIsDir mode then .dir else .fresh
  tight : Tight fs chain →
    TightBut base chain (fun a => ci.kind = .dir ∧ a = ci.indexBlock) fun _ _ => False

theorem NewInode.of_file {fs : Fs} {chain : List Nat} {ino mode : Nat} {ci : Inode}
    (h : WF fs chain Z) (h0 : ino ≠ 0) (hlt : ino < fs.sbi.nrInodes)
    (hfree : fs.sbi.ifreeBitmap ino = true) (hmode : sIsDir mode = false)
    (hk : ci.kind = .fresh)
    (hsz : ci.iSize = 0 ∧ ci.numSlices = 0) : NewInode fs fs chain ino ci mode Z := by
  have hdead : ¬fs.Live ino := by
    rintro ⟨-, -, hb⟩
    rw [hb] at hfree
    cases hfree
  refine ⟨h, fun _ _ => rfl, rfl, .of_icache ⟨rfl, rfl, rfl, rfl, rfl⟩ rfl rfl fun _ _ => rfl,
    ⟨h0, hlt, hdead, Or.inl hk⟩, fun _ => hsz, by simp [hmode, hk],
    fun ht => ⟨?_, ht.bits, ht.noStray, ht.ptrs, ht.blocks⟩⟩
  rintro a ⟨hu, -⟩
  exact ht.covered a ⟨hu, id⟩

theorem NewInode.of_dir {fs : Fs} {chain : List Nat} {ino mode bno : Nat} {ci : Inode}
    (h : WF fs chain Z) (h0 : ino ≠ 0) (hlt : ino < fs.sbi.nrInodes)
    (hfree : fs.sbi.ifreeBitmap ino = true) (hmode : sIsDir mode = true)
    (hk : ci.kind = .dir) (hidx : ci.indexBlock = bno) (hb : bno < fs.sbi.nrBlocks)
    (hbf : fs.sbi.bfreeBitmap bno = true) :
    NewInode fs (fs.allocBlock bno) chain ino ci mode Z := by
  have hdead : ¬fs.Live ino := by
    rintro ⟨-, -, hb⟩
    rw [hb] at hfree
    cases hfree
  refine ⟨h.allocBlock hb hbf, fun _ _ => rfl, rfl, .of_bfree _ _,
    ⟨h0, hlt, hdead, Or.inr ⟨hk, ?_, ?_⟩⟩,
    fun hf => ?_, by simp [hmode, hk], fun ht => ?_⟩
  · rw [hidx]
    exact ⟨hb, by simp [Fs.allocBlock]⟩
  · rw [hidx]
    exact h.toCore.unref_alloc hbf
  · rw [hk] at hf; cases hf
  · have := TightBut.allocBlock (a := bno) ht
    simpa [hk, hidx] using this

/-- The block of a new directory is cleared before the directory is entered anywhere. -/
theorem NewInode.clear {fs base : Fs} {chain : List Nat} {ino mode : Nat} {ci : Inode}
    (h : NewInode fs base chain ino ci mode Z) (hk : ci.kind = .dir) :
    NewInode fs (base.setBlock ci.indexBlock Page.zero) chain ino ci mode Z := by
  obtain ⟨hu, hr⟩ := (h.birth.kind.resolve_left (by simp [hk])).2
  have hbig : ∀ d, base.Is d .big → (base.inode d).indexBlock ≠ ci.indexBlock :=
    fun d hd => hr.ne_index (Or.inr hd)
  have hown : SameOwners base (base.setBlock ci.indexBlock Page.zero) :=
    .of_setBlock _ fun d hd => hr.ne_index hd
  have hcore := h.wf.toCore.setBlock (fun _ => hu.2) (Core.unref_notin hr) hbig Page.zero
  refine ⟨{ hcore with
      dirs := hown.dirs h.wf.dirs, table := h.wf.table, fresh := h.wf.fresh, stray := h.wf.stray },
    fun c hc => ?_, h.icache, h.owners.trans hown, ⟨h.birth.pos, h.birth.lt, h.birth.dead,
      Or.inr ⟨hk, hu, fun r hr' => hr r ?_⟩⟩, h.fresh, h.kind, fun ht => ?_⟩
  · rw [Fs.disk_setBlock, if_neg (hc hk)]
    exact h.disk c hc
  · exact (refers_setBlock _ hbig r _).1 hr'
  · exact (h.tight ht).setBlock (Core.unref_notin hr) hbig _

/-- The directories are what they were. -/
theorem NewInode.parent {fs base : Fs} {chain : List Nat} {ino mode : Nat} {ci : Inode}
    (h : NewInode fs base chain ino ci mode Z) {d : Nat} (hd : fs.Is d .dir) :
    (base.birth ino ci).Is d .dir ∧ (base.birth ino ci).indexOf d = fs.indexOf d := by
  have hbd : base.Is d .dir := (h.owners.is_dir d).2 hd
  have hinode : base.inode d = fs.inode d := by unfold Fs.inode; rw [h.icache]
  refine ⟨(Fs.birth_is h.birth.pos h.birth.lt h.birth.dead _ _).2 (Or.inl hbd), ?_⟩
  unfold Fs.indexOf
  rw [h.birth.inode_of_is hbd, hinode]
  refine h.disk _ fun hk => ?_
  rw [← hinode]
  exact (h.birth.kind.resolve_left (by simp [hk])).2.2.ne_index (Or.inl hbd)

theorem Agree.of_birth {base fs' : Fs} {ino : Nat} {ci : Inode} (hdisk : fs'.disk = base.disk)
    (hsbi : ∃ x, fs'.sbi = { base.sbi with
      ifreeBitmap := Function.update base.sbi.ifreeBitmap ino false, nrFreeInodes := x })
    (hother : ∀ i, i ≠ ino → fs'.icache i = base.icache i) (hself : fs'.icache ino = some ci) :
    Agree (base.birth ino ci) fs' := by
  obtain ⟨x, hsbi⟩ := hsbi
  have hic : fs'.icache = (base.birth ino ci).icache := by
    funext i
    by_cases hi : i = ino
    · rw [hi, hself]; simp [Fs.birth, Fs.setInode]
    · rw [hother i hi]; simp [Fs.birth, Fs.setInode, hi]
  refine ⟨hdisk, ?_, ?_, ?_, ?_, ?_, ?_, fun i _ hi => by rw [hic]; exact hi, fun i _ => .of_eq ?_⟩
  · rw [hsbi]; exact ⟨rfl, rfl, rfl, rfl, rfl⟩
  all_goals try (rw [hsbi]; rfl)
  unfold Fs.inode
  rw [hic]

/-- There is an inode and a block for a new file or directory. -/
def Fs.CanAllocate (fs : Fs) (mode : Nat) : Prop :=
  (sIsDir mode = true ∨ sIsReg mode = true) ∧ fs.sbi.nrFreeInodes ≠ 0 ∧
    fs.sbi.nrFreeBlocks ≠ 0 ∧ ∃ i < fs.sbi.nrInodes, fs.sbi.ifreeBitmap i = true

/-- **`ouichefs_new_inode` fails without a change, or a new inode is born.** -/
theorem ouichefsNewInode_spec {k : Kernel} {chain : List Nat} (hf : k.faults = [])
    (h : WF k.fs chain Z) (dir mode : Nat) :
    (∃ e, e < 0 ∧ ouichefsNewInode k dir mode = (.error e, k) ∧ ¬k.fs.CanAllocate mode) ∨
    ∃ ino ci base k', ouichefsNewInode k dir mode = (.ok ino, k') ∧ k'.faults = [] ∧
      (k'.AllocFailed ↔ k.AllocFailed) ∧ NewInode k.fs base chain ino ci mode Z ∧
      Agree (base.birth ino ci) k'.fs ∧ (k'.inode ino) = ci ∧
      ∀ i, k.fs.Live i → k'.inode i = k.inode i := by
  unfold ouichefsNewInode
  by_cases hm : (!sIsDir mode && !sIsReg mode) = true
  · refine Or.inl ⟨-EINVAL, by decide, by rw [if_pos hm], fun hc => ?_⟩
    rcases hc.1 with hd | hr <;> simp_all
  rw [if_neg hm]
  by_cases hfull : k.fs.sbi.nrFreeInodes = 0 ∨ k.fs.sbi.nrFreeBlocks = 0
  · refine Or.inl ⟨-ENOSPC, by decide, by rw [if_pos hfull], fun hc => ?_⟩
    exact hfull.elim hc.2.1 hc.2.2.1
  rw [if_neg hfull]
  rcases Kernel.getFreeInode_cases h.inodes.bit0 with
    ⟨ino, h0, hlt, hfree, -, heq⟩ | ⟨hnone, heq⟩
  swap
  · refine Or.inl ⟨-ENOSPC, by decide, by rw [heq]; rfl, fun hc => ?_⟩
    obtain ⟨i, hi, hbit⟩ := hc.2.2.2
    rw [hnone i hi] at hbit
    cases hbit
  right
  rw [heq]
  simp only [h0, if_false]
  -- the inode is marked allocated before it is read
  generalize hk₁ : k.setSbi { k.fs.sbi with
    ifreeBitmap := Function.update k.fs.sbi.ifreeBitmap ino false,
    nrFreeInodes := sub32 k.fs.sbi.nrFreeInodes 1 } = k₁
  have hs₁ : SbInv k₁.fs Z := by
    rw [← hk₁]
    exact ⟨h.sb.meta_lt, h.sb.blocks_lt, h.sb.blocks_le, h.sb.count⟩
  obtain ⟨k₂, hget, hf₂, ha₂, hsbi₂, hdisk₂, hsome₂, hsame₂, hother₂⟩ :=
    ouichefsIget_ok (k := k₁) (by rw [← hk₁]; simpa using hf) hs₁.meta_lt
      (by rw [← hk₁]; exact ⟨h.table.lt, h.table.istore⟩)
      (by rw [← hk₁]; exact hlt)
  have hic₁ : k₁.fs.icache = k.fs.icache := by rw [← hk₁]; rfl
  rw [hget]
  simp only [ne_eq, not_true_eq_false, if_false]
  have hlive : ∀ i, k.fs.Live i → i ≠ ino := by
    rintro i ⟨-, -, hb⟩ rfl
    rw [hb] at hfree
    cases hfree
  have hinode₂ : ∀ i, i ≠ ino → k₂.fs.inode i = k.fs.inode i := by
    intro i hi
    unfold Fs.inode
    rw [hother₂ i hi, hic₁]
  cases hd : sIsDir mode with
  | false =>
      simp only [Bool.false_eq_true, if_false]
      generalize hci : initInode k₂ (k₂.inode ino) (k₂.inode dir) mode 0 = ci
      have hmode := initInode_mode k₂ (k₂.inode ino) (k₂.inode dir) mode 0
      have hkind := initInode_kind k₂ (k₂.inode ino) (k₂.inode dir) mode 0 fun _ => rfl
      obtain ⟨-, hns, hsz⟩ := initInode_fields k₂ (k₂.inode ino) (k₂.inode dir) mode 0
      rw [hci] at hmode hkind hns hsz
      refine ⟨ino, ci, k.fs, _, rfl, by simpa using hf₂, ?_, ?_, ?_, ?_, ?_⟩
      · rw [Kernel.allocFailed_setInode, ha₂, ← hk₁]; simp
      · exact .of_file h h0 hlt hfree hd (by simpa [hd] using hkind) ⟨hsz hd, hns⟩
      · refine .of_birth (hdisk₂.trans (by rw [← hk₁]; rfl)) ⟨sub32 k.fs.sbi.nrFreeInodes 1, ?_⟩
          (fun i hi => ?_) (by simp [Fs.setInode])
        · rw [Kernel.fs_setInode, Fs.sbi_setInode, hsbi₂, ← hk₁]; rfl
        · rw [Kernel.fs_setInode]
          simp only [Fs.setInode, Function.update_of_ne hi]
          rw [hother₂ i hi, hic₁]
      · simp [Kernel.inode]
      · intro i hi
        unfold Kernel.inode
        rw [Kernel.fs_setInode, Fs.inode_setInode, if_neg (hlive i hi)]
        exact hinode₂ i (hlive i hi)
  | true =>
      simp only [if_true]
      have hcount : k₂.fs.sbi.nrFreeBlocks = countBits k₂.fs.sbi.bfreeBitmap k₂.fs.sbi.nrBlocks := by
        rw [hsbi₂]; exact hs₁.count
      have hbit : k₂.fs.sbi.bfreeBitmap 0 = false := by rw [hsbi₂, ← hk₁]; exact h.toCore.bit0
      have hb32 : k₂.fs.sbi.nrBlocks < 4294967296 := by
        rw [hsbi₂]
        have := hs₁.blocks_lt
        omega
      rcases Kernel.getFreeBlock_cases hbit hb32 hcount with ⟨b, hbpos, hblt, hbfree, hal⟩ | ⟨hnone, -⟩
      swap
      · -- the counter said that a block is free
        exfalso
        have hz := countBits_eq_zero_iff.2 hnone
        rw [← hcount, hsbi₂, ← hk₁] at hz
        exact hfull (Or.inr hz)
      rw [hal]
      simp only [Nat.pos_iff_ne_zero.1 hbpos, if_false]
      generalize hk₃ : k₂.setSbi { k₂.fs.sbi with
        bfreeBitmap := Function.update k₂.fs.sbi.bfreeBitmap b false,
        nrFreeBlocks := k₂.fs.sbi.nrFreeBlocks - 1 } = k₃
      generalize hci : initInode k₃ (k₃.inode ino) (k₃.inode dir) mode b = ci
      have hkind := initInode_kind k₃ (k₃.inode ino) (k₃.inode dir) mode b
        (fun h => by rw [hd] at h; cases h)
      obtain ⟨hidx, -⟩ := initInode_fields k₃ (k₃.inode ino) (k₃.inode dir) mode b
      rw [hci] at hkind hidx
      have hinode₃ : k₃.fs.inode = k₂.fs.inode := by rw [← hk₃]; rfl
      rw [hsbi₂, ← hk₁] at hbfree hblt
      refine ⟨ino, ci, k.fs.allocBlock b, _, rfl, by simpa [← hk₃] using hf₂, ?_, ?_, ?_, ?_, ?_⟩
      · rw [Kernel.allocFailed_setInode, ← hk₃, Kernel.allocFailed_setSbi, ha₂, ← hk₁]; simp
      · exact .of_dir h h0 hlt hfree hd (by simpa [hd] using hkind) hidx hblt hbfree
      · refine .of_birth (by rw [← hk₃]; exact hdisk₂.trans (by rw [← hk₁]; rfl))
          ⟨sub32 k.fs.sbi.nrFreeInodes 1, ?_⟩ (fun i hi => ?_) (by simp [Fs.setInode])
        · rw [Kernel.fs_setInode, Fs.sbi_setInode, ← hk₃, Kernel.fs_setSbi, Fs.sbi_setSbi, hsbi₂,
            ← hk₁]
          rfl
        · rw [Kernel.fs_setInode, ← hk₃]
          simp only [Fs.setInode, Function.update_of_ne hi, Kernel.fs_setSbi, Fs.icache_setSbi]
          rw [hother₂ i hi, hic₁]
          rfl
      · simp [Kernel.inode]
      · intro i hi
        unfold Kernel.inode
        rw [Kernel.fs_setInode, Fs.inode_setInode, if_neg (hlive i hi), hinode₃]
        exact hinode₂ i (hlive i hi)

/-! ## `ouichefs_create` -/

theorem touchDir_view (k : Kernel) (dir : Nat) (nlink : Nat → Nat) (i : Nat) :
    SameView (k.fs.inode i) ((touchDir k dir nlink).fs.inode i) := by
  unfold touchDir
  rw [Kernel.fs_setInode, Fs.inode_setInode]
  split
  · rename_i hi
    rw [hi]
    exact ⟨rfl, rfl, rfl, rfl, rfl⟩
  · exact .refl _

theorem touchDir_other (k : Kernel) {dir i : Nat} (nlink : Nat → Nat) (hi : i ≠ dir) :
    (touchDir k dir nlink).fs.inode i = k.fs.inode i := by
  unfold touchDir
  rw [Kernel.fs_setInode, Fs.inode_setInode, if_neg hi]

theorem touchDir_nlink (k : Kernel) (dir : Nat) (nlink : Nat → Nat) (i : Nat) :
    ((touchDir k dir nlink).fs.inode i).iNlink =
      if i = dir then nlink (k.fs.inode dir).iNlink else (k.fs.inode i).iNlink := by
  unfold touchDir
  rw [Kernel.fs_setInode, Fs.inode_setInode]
  split <;> rfl

theorem touchDir_agree (k : Kernel) (dir : Nat) (nlink : Nat → Nat) :
    Agree k.fs (touchDir k dir nlink).fs := by
  exact .of_setInode ⟨rfl, rfl, rfl, rfl, rfl⟩

theorem Agree.trans {fs₁ fs₂ fs₃ : Fs} (h : Agree fs₁ fs₂) (h' : Agree fs₂ fs₃) :
    Agree fs₁ fs₃ := by
  refine ⟨h'.disk.trans h.disk, h.geom.trans h'.geom,
    h'.ifree.trans h.ifree, h'.bfree.trans h.bfree, h'.nrFree.trans h.nrFree,
    h'.head.trans h.head, h'.sliced.trans h.sliced,
    fun i hl hi => h'.cached i ((h.live i).2 hl) (h.cached i hl hi), fun i hl => ?_⟩
  exact (h.view i hl).trans (h'.view i ((h.live i).2 hl))

/-- Overwriting the same block on both sides. -/
theorem Agree.setBlock {fs fs' : Fs} (h : Agree fs fs') (a : Nat) (nb : Block) :
    Agree (fs.setBlock a nb) (fs'.setBlock a nb) := by
  refine ⟨?_, h.geom, h.ifree, h.bfree, h.nrFree, h.head, h.sliced, h.cached, h.view⟩
  funext c
  rw [Fs.disk_setBlock, Fs.disk_setBlock, h.disk]

/-- The end of `ouichefs_create` appends the entry. -/
theorem registerInode_spec {fs : Fs} {k : Kernel} {dir n : Nat} (ino mode : Nat)
    (name : List UInt8) (h : Agree fs k.fs) (hd : fs.Is dir .dir)
    (hn : Compact (slotInode (fs.indexOf dir)) n)
    (hlt : n < 128) :
    ∃ k', registerInode k dir ino name mode = .ok (0, k') ∧ k'.faults = k.faults ∧
      (k'.AllocFailed ↔ k.AllocFailed) ∧ Agree (fs.enter dir n ino name) k'.fs ∧
      ∀ i, i ≠ dir → k'.inode i = k.inode i := by
  have hidx : (k.inode dir).indexBlock = (fs.inode dir).indexBlock := (h.view dir hd.1).indexBlock
  have hslot : firstFreeSlot (k.fs.disk (k.inode dir).indexBlock) = n := by
    rw [hidx, h.disk]
    exact firstFreeSlot_eq hn hlt
  unfold registerInode
  simp only [hslot]
  rw [if_neg (by omega)]
  refine ⟨_, rfl, rfl, ?_, ?_, fun i hi => ?_⟩
  · simp [touchDir]
  · refine Agree.trans ?_ (touchDir_agree _ dir _)
    simp only [Kernel.fs_brelse, Kernel.fs_setBlock, hidx, h.disk]
    exact h.setBlock _ _
  · exact touchDir_other _ _ hi

/-- A new entry `name` for the new inode `ino` in slot `n` of directory `dir`. -/
structure Created (fs fs' : Fs) (chain : List Nat) (dir ino n : Nat) (name : List UInt8)
    (mode : Nat) (Z : Prop := True) : Prop where
  wf : WF fs' chain Z
  tight : Tight fs chain → Tight fs' chain
  pos : ino ≠ 0
  lt : ino < fs.sbi.nrInodes
  dead : ¬fs.Live ino
  live : ∀ i, fs'.Live i ↔ fs.Live i ∨ i = ino
  kind : fs'.Is ino (if sIsDir mode then .dir else .fresh)
  view : ∀ i, fs.Live i → SameView (fs.inode i) (fs'.inode i)
  bytes : ∀ i, fs.Is i .small → fs'.smallBytes i = fs.smallBytes i
  geom : SameGeom fs.sbi fs'.sbi
  compact : Compact (slotInode (fs.indexOf dir)) n
  room : n < 128
  block : fs'.indexOf dir = setSlot (fs.indexOf dir) n ino name
  others : ∀ d, fs.Is d .dir → d ≠ dir → fs'.indexOf d = fs.indexOf d
  newDir : sIsDir mode = true → fs'.indexOf ino = Page.zero

theorem SameView.smallBytes {fs fs' : Fs} {i : Nat} (h : SameView (fs.inode i) (fs'.inode i))
    (hd : fs'.disk (fs.inode i).getBno = fs.disk (fs.inode i).getBno) :
    fs'.smallBytes i = fs.smallBytes i := by
  unfold Fs.smallBytes
  rw [h.getBno, h.getSlice, h.iSize, hd]

theorem NewInode.created {fs base fs' : Fs} {chain : List Nat} {dir ino n mode : Nat} {ci : Inode}
    {name : List UInt8} (h : NewInode fs base chain ino ci mode Z)
    (hz : ci.kind = .dir → base.disk ci.indexBlock = Page.zero) (hd : fs.Is dir .dir)
    (hn : Compact (slotInode (fs.indexOf dir)) n) (hlt : n < 128)
    (ha : Agree ((base.birth ino ci).enter dir n ino name) fs') :
    Created fs fs' chain dir ino n name mode Z := by
  have hinode : base.inode = fs.inode := by funext i; simp [Fs.inode, h.icache]
  have hbd : base.Is dir .dir := (h.owners.is_dir dir).2 hd
  obtain ⟨hbd', hbi⟩ := h.parent hd
  have hbn : Compact (slotInode (base.indexOf dir)) n := by
    have : base.indexOf dir = fs.indexOf dir := by
      rw [← hbi]
      unfold Fs.indexOf
      rw [h.birth.inode_of_is hbd]
      rfl
    rwa [this]
  have hwf := h.wf.create name hbd h.birth hz h.fresh hbn hlt
  have hlive : ∀ i, fs'.Live i ↔ fs.Live i ∨ i = ino := by
    intro i
    rw [ha.live, ← h.owners.live]
    exact Fs.birth_live ci h.birth.pos h.birth.lt i
  have hcore := h.wf.toCore.birth h.birth
  have hview : ∀ i, fs.Live i → SameView (fs.inode i) (fs'.inode i) := by
    intro i hi
    have hbi : base.Live i := (h.owners.live i).2 hi
    have hv := ha.view i ((Fs.birth_live ci h.birth.pos h.birth.lt i).2 (Or.inl hbi))
    have heq : ((base.birth ino ci).enter dir n ino name).inode i = fs.inode i := by
      show (base.birth ino ci).inode i = fs.inode i
      rw [h.birth.inode_of_is hbi.is, hinode]
    rwa [heq] at hv
  have hblk : ∀ d, (base.birth ino ci).Is d .dir → fs'.indexOf d =
      if d = dir then setSlot (fs.indexOf dir) n ino name else (base.birth ino ci).indexOf d := by
    intro d hdd
    rw [ha.indexOf hdd.1, ← hbi]
    exact hcore.indexOf_setDir hbd' _ hdd
  refine ⟨ha.wf hwf, fun ht => ?_, h.birth.pos, h.owners.geom.nrInodes ▸ h.birth.lt, ?_, hlive, ?_,
    hview, fun i hi => ?_, ?_, hn, hlt, ?_, ?_, ?_⟩
  · obtain ⟨hu, hc, hbig, -⟩ := hcore.dir_block_alone hbd'
    have htb := (TightBut.birth (h.tight ht) h.birth).setBlock hc hbig
      (setSlot ((base.birth ino ci).indexOf dir) n ino name)
    exact (ha.tight htb).weaken (fun a _ hl => hl.2 hl.1) fun _ _ => id
  · rw [← h.owners.live]; exact h.birth.dead
  · rw [ha.is]
    refine (Fs.birth_is h.birth.pos h.birth.lt h.birth.dead ino _).2 (Or.inr ⟨rfl, h.kind⟩)
  · refine (hview i hi.1).smallBytes ?_
    rw [ha.disk]
    unfold Fs.enter
    rw [Fs.disk_setBlock, if_neg]
    · have hs : base.Is i .small := ⟨(h.owners.live i).2 hi.1, by rw [hinode]; exact hi.2⟩
      refine h.disk _ fun hk he => ?_
      refine Core.unref_notin (h.birth.kind.resolve_left (by simp [hk])).2.2 ?_
      rw [← he, ← hinode]
      exact (h.wf.slices.file i hs).mem
    · have hs : base.Is i .small := ⟨(h.owners.live i).2 hi.1, by rw [hinode]; exact hi.2⟩
      intro he
      refine h.wf.toCore.dir_notin_chain (Or.inl hbd) ?_
      rw [h.birth.inode_of_is hbd] at he
      rw [← he, ← hinode]
      exact (h.wf.slices.file i hs).mem
  · have hbirth : SameGeom base.sbi fs'.sbi :=
      ⟨ha.geom.nrBlocks, ha.geom.nrInodes, ha.geom.nrIstore, ha.geom.nrIfree, ha.geom.nrBfree⟩
    exact h.owners.geom.trans hbirth
  · rw [hblk dir hbd', if_pos rfl]
  · intro d hdd hne
    rw [hblk d (h.parent hdd).1, if_neg hne, (h.parent hdd).2]
  · intro hm
    have hk : ci.kind = .dir := by simpa [hm] using h.kind
    have hne : ino ≠ dir := by
      rintro rfl
      exact h.birth.dead hbd.1
    rw [hblk ino ((Fs.birth_is h.birth.pos h.birth.lt h.birth.dead _ _).2 (Or.inr ⟨rfl, hk⟩)),
      if_neg hne]
    unfold Fs.indexOf
    rw [Fs.birth_inode, if_pos rfl]
    exact hz hk

/-- When `ouichefs_create` succeeds. -/
def CanCreate (k : Kernel) (dir : Nat) (name : List UInt8) (mode : Nat) : Prop :=
  (cstr name).length ≤ 28 ∧ slotInode (k.fs.indexOf dir) 127 = 0 ∧ k.fs.CanAllocate mode

/-- **`ouichefs_create` fails without a change, or adds one inode and one entry.** -/
theorem ouichefsCreate_spec {k : Kernel} {chain : List Nat} {dir : Nat} (hf : k.faults = [])
    (h : WF k.fs chain Z) (hd : k.fs.Is dir .dir) (name : List UInt8) (mode : Nat) :
    ∃ r k', ouichefsCreate k dir name mode = .ok (r, k') ∧ k'.faults = [] ∧
      (k'.AllocFailed ↔ k.AllocFailed) ∧
      (r < 0 ∧ k'.fs = k.fs ∧ ¬CanCreate k dir name mode ∨
        r = 0 ∧ ∃ ino n, Created k.fs k'.fs chain dir ino n name mode Z) := by
  unfold ouichefsCreate
  by_cases hname : (cstr name).length > 28
  · rw [if_pos hname]
    exact ⟨-ENAMETOOLONG, k, rfl, hf, Iff.rfl, Or.inl ⟨by decide, rfl, fun hc => by
      have := hc.1
      omega⟩⟩
  rw [if_neg hname]
  have hdb : (k.inode dir).indexBlock < k.fs.sbi.nrBlocks := (h.toCore.dir_used hd).1
  simp only [Kernel.sbBread_ok hf hdb]
  obtain ⟨n, hn128, hn⟩ := h.dirs.tree.compact dir hd
  have hslot : slotInode (k.fs.disk (k.inode dir).indexBlock) 127 = 0 ↔ n < 128 :=
    slot127_iff hn hn128
  by_cases hfull : slotInode (k.fs.disk (k.inode dir).indexBlock) 127 ≠ 0
  · simp only [Kernel.fs_log, hfull, if_true, ne_eq, not_false_eq_true]
    exact ⟨_, _, rfl, by simpa using hf, by simp, Or.inl ⟨by decide, rfl, fun hc => hfull hc.2.1⟩⟩
  have hlt : n < 128 := hslot.1 (not_not.1 hfull)
  simp only [Kernel.fs_log, hfull, if_false]
  rcases ouichefsNewInode_spec (k := k.log (.bread (k.inode dir).indexBlock)) (by simpa using hf) h
      dir mode with ⟨e, he, hnew, hcan⟩ | ⟨ino, ci, base, k₁, hnew, hf₁, ha₁, hni, hag, hself, hlv⟩
  · rw [hnew]
    exact ⟨e, _, rfl, by simpa using hf, by simp, Or.inl ⟨he, rfl, fun hc => hcan hc.2.2⟩⟩
  · rw [hnew]
    by_cases hm : sIsDir mode = true
    · simp only [hm, if_true]
      have hk : ci.kind = .dir := by simpa [hm] using hni.kind
      have hused : base.Used ci.indexBlock := (hni.birth.kind.resolve_left (by simp [hk])).2.1
      have hblt : (k₁.inode ino).indexBlock < k₁.fs.sbi.nrBlocks := by
        rw [hself, hag.geom.nrBlocks]
        exact hused.1
      simp only [Kernel.sbBread_ok hf₁ hblt]
      have hcl := hni.clear hk
      have hag' : Agree ((base.setBlock ci.indexBlock Page.zero).birth ino ci)
          (((k₁.log (.bread (k₁.inode ino).indexBlock)).setBlock (k₁.inode ino).indexBlock
            Page.zero).brelse (k₁.inode ino).indexBlock).fs := by
        have := hag.setBlock ci.indexBlock Page.zero
        rw [hself]
        exact this
      obtain ⟨hbd', hbi⟩ := hcl.parent hd
      obtain ⟨k', hreg, hf', ha', hag'', -⟩ := registerInode_spec ino mode name
        hag' hbd' (by rw [hbi]; exact hn) hlt
      refine ⟨0, k', hreg, by rw [hf']; simpa using hf₁, ?_, Or.inr ⟨rfl, ino, n, ?_⟩⟩
      · rw [ha']
        simp [ha₁]
      · exact hcl.created (fun _ => by rw [Fs.disk_setBlock, if_pos rfl]) hd hn hlt hag''
    · simp only [hm]
      obtain ⟨hbd', hbi⟩ := hni.parent hd
      obtain ⟨k', hreg, hf', ha', hag'', -⟩ := registerInode_spec ino mode name
        hag hbd' (by rw [hbi]; exact hn) hlt
      refine ⟨0, k', hreg, by rw [hf', hf₁], by rw [ha', ha₁]; simp, Or.inr ⟨rfl, ino, n, ?_⟩⟩
      refine hni.created (fun hk => ?_) hd hn hlt hag''
      rw [hni.kind] at hk
      simp [hm] at hk

end Ouichefs
