import Ouichefs.SameData
import Ouichefs.InodeStore
import Ouichefs.Format

/-!
# Unmount and mount

Unmounting writes every inode back (`ouichefs_write_inode`) and then the superblock and the bitmaps
(`ouichefs_sync_fs`); mounting loads them (`ouichefs_fill_super`), and path walks bring the inodes
into memory again (`ouichefs_iget`).  The kernel chooses the order of the inodes.

* `writeInodes_ok`: in every order, every inode is in its record afterwards.
* `remount_ok`: what is mounted afterwards has the same data.
-/

set_option autoImplicit false

namespace Ouichefs

/-- `f` for every inode of a list, up to the first that fails. -/
def forInodes (f : Kernel → Nat → Int × Kernel) : List Nat → Kernel → Int × Kernel
  | [], k => (0, k)
  | ino :: rest, k =>
    match f k ino with
    | (ret, k) => if ret ≠ 0 then (ret, k) else forInodes f rest k

/-- The superblock with the sizes of the arrays `ouichefs_fill_super` allocated. -/
def Kernel.sbMem (k : Kernel) : SbMem :=
  { k.fs.sbi with
    ifreeBytes := k.fs.sbi.nrIfreeBlocks * 4096 % 4294967296
    bfreeBytes := k.fs.sbi.nrBfreeBlocks * 4096 % 4294967296 }

/-- The device under a mounted file system. -/
def Kernel.device (k : Kernel) : Device := ⟨k.fs.sbi.nrBlocks, k.fs.disk, k.faults⟩

/-- Unmount, writing the inodes `written` back, and mount; then the inodes `loaded` are used. -/
def remount (long : LongSize) (written loaded : List Nat) (now : Timespec) (fsuid fsgid : Nat)
    (k : Kernel) : Outcome Int :=
  match forInodes ouichefsWriteInode written k with
  | (ret, k) =>
    if ret ≠ 0 then .ok (ret, k)
    else
      match ouichefsSyncFs long k.sbMem k.device with
      | .error e => .error (e, k)
      | .ok (ret, d) =>
        if ret ≠ 0 then .ok (ret, k)
        else
          match ouichefsFillSuper long now fsuid fsgid d with
          | .error e => .error (e, k)
          | .ok (.error ret) => .ok (ret, k)
          | .ok (.ok k) => .ok (forInodes ouichefsIget loaded k)

/-! ## One record -/

/-- The values of an inode that its record can hold, owner and times apart. -/
structure Inode.Storable (ci : Inode) : Prop where
  iMode : ci.iMode < 65536
  iSize : ci.iSize < 4294967296
  iBlocks : ci.iBlocks < 4294967296
  iNlink : ci.iNlink < 4294967296
  indexBlock : ci.indexBlock < 4294967296
  numSlices : ci.numSlices < 65536

/-- Inode `ci'` has the storage and the link count of `ci`. -/
def SameStored (ci ci' : Inode) : Prop := SameView ci ci' ∧ ci'.iNlink = ci.iNlink

theorem SameStored.trans {c₁ c₂ c₃ : Inode} (h : SameStored c₁ c₂) (h' : SameStored c₂ c₃) :
    SameStored c₁ c₃ := ⟨h.1.trans h'.1, h'.2.trans h.2⟩

/-- **A record keeps the storage and the link count.** -/
theorem decodeInode_sameStored {ci : Inode} {shift : Nat} (b : Block) (hs : shift < 51)
    (h : ci.Storable) : SameStored ci (decodeInode (encodeInode b shift ci) shift) := by
  have hword : ∀ {off v : Nat}, (off, v) ∈ ci.fields → v < 4294967296 →
      (encodeInode b shift ci).word (80 * shift + off) = v := by
    intro off v hm hv
    rw [word_encodeInode b hs hm, Nat.mod_eq_of_lt hv]
  have hmode : half (encodeInode b shift ci) (80 * shift) = ci.iMode := by
    have hm := h.iMode
    have hw : (encodeInode b shift ci).word (80 * shift + 0) = ci.iMode :=
      hword (by simp [Inode.fields]) (by omega)
    unfold half
    rw [Nat.add_zero] at hw
    rw [hw, Nat.mod_eq_of_lt hm]
  have hslices : half (encodeInode b shift ci) (80 * shift + 76) = ci.numSlices := by
    rw [encodeInode_eq]
    exact half_setHalf _ (by omega) h.numSlices
  exact ⟨⟨hmode, hword (by simp [Inode.fields]) h.iBlocks,
    hword (by simp [Inode.fields]) h.indexBlock, hslices, hword (by simp [Inode.fields]) h.iSize⟩,
    hword (by simp [Inode.fields]) h.iNlink⟩

/-- The record of inode `i` on the device. -/
def Fs.record (fs : Fs) (i : Nat) : Inode := decodeInode (fs.disk (i / 51 + 1)) (i % 51)

/-! ## Writing back -/

/-- What writing the inodes of `l` back leaves. -/
structure WroteBack (l : List Nat) (k k' : Kernel) : Prop where
  faults : k'.faults = []
  sbi : k'.fs.sbi = k.fs.sbi
  icache : k'.fs.icache = k.fs.icache
  disk : ∀ b, ¬(1 ≤ b ∧ b ≤ k.fs.sbi.nrIstoreBlocks) → k'.fs.disk b = k.fs.disk b
  record : ∀ i ∈ l, i < k.fs.sbi.nrInodes → (k.inode i).Storable →
    SameStored (k.inode i) (k'.fs.record i)
  others : ∀ i, i ∉ l → k'.fs.record i = k.fs.record i

section WriteBack

variable {k : Kernel}

theorem ouichefsWriteInode_ok (hf : k.faults = [])
    (hstore : k.fs.sbi.nrInodes ≤ 51 * k.fs.sbi.nrIstoreBlocks)
    (hdev : k.fs.sbi.nrIstoreBlocks < k.fs.sbi.nrBlocks) (ino : Nat) :
    ∃ k', ouichefsWriteInode k ino = (0, k') ∧ WroteBack [ino] k k' := by
  by_cases hino : ino < k.fs.sbi.nrInodes
  · have hblock : ino / 51 + 1 < k.fs.sbi.nrBlocks := by omega
    refine ⟨((k.log (.bread (ino / 51 + 1))).setBlock (ino / 51 + 1)
      (encodeInode (k.fs.disk (ino / 51 + 1)) (ino % 51) (k.inode ino))).brelse (ino / 51 + 1),
      ?_, hf, rfl, rfl, fun b hb => ?_, fun i hi _ hs => ?_, fun i hi => ?_⟩
    · unfold ouichefsWriteInode
      rw [if_neg (by omega), Kernel.sbBread_ok hf hblock]
      rfl
    · show (Fs.setBlock k.fs _ _).disk b = _
      rw [Fs.disk_setBlock, if_neg]
      rintro rfl
      omega
    · obtain rfl := List.mem_singleton.1 hi
      show SameStored _ (decodeInode ((Fs.setBlock k.fs _ _).disk _) _)
      rw [Fs.disk_setBlock, if_pos rfl]
      exact decodeInode_sameStored _ (Nat.mod_lt _ (by decide)) hs
    · show decodeInode ((Fs.setBlock k.fs _ _).disk _) _ = _
      rw [Fs.disk_setBlock]
      exact decodeInode_other (by simpa using hi) _ _
  · refine ⟨k, ?_, hf, rfl, rfl, fun _ _ => rfl, fun i hi hlt => ?_, fun _ _ => rfl⟩
    · unfold ouichefsWriteInode
      rw [if_pos (by omega)]
    · obtain rfl := List.mem_singleton.1 hi
      exact absurd hlt hino

/-- **Writing back in any order.** -/
theorem writeInodes_ok : ∀ (l : List Nat) (k : Kernel), k.faults = [] →
    k.fs.sbi.nrInodes ≤ 51 * k.fs.sbi.nrIstoreBlocks →
    k.fs.sbi.nrIstoreBlocks < k.fs.sbi.nrBlocks →
    ∃ k', forInodes ouichefsWriteInode l k = (0, k') ∧ WroteBack l k k' := by
  intro l
  induction l with
  | nil => exact fun k hf _ _ => ⟨k, rfl, hf, rfl, rfl, fun _ _ => rfl,
      fun i hi => absurd hi List.not_mem_nil, fun _ _ => rfl⟩
  | cons ino rest ih =>
      intro k hf hstore hdev
      obtain ⟨k₁, hrun₁, h₁⟩ := ouichefsWriteInode_ok hf hstore hdev ino
      obtain ⟨k₂, hrun₂, h₂⟩ := ih k₁ h₁.faults (by rw [h₁.sbi]; exact hstore)
        (by rw [h₁.sbi]; exact hdev)
      have hinode : ∀ i, k₁.inode i = k.inode i := by
        intro i
        unfold Kernel.inode Fs.inode
        rw [h₁.icache]
      refine ⟨k₂, ?_, h₂.faults, h₂.sbi.trans h₁.sbi, h₂.icache.trans h₁.icache,
        fun b hb => ?_, fun i hi hlt hs => ?_, fun i hi => ?_⟩
      · unfold forInodes
        rw [hrun₁]
        exact hrun₂
      · rw [h₂.disk b (by rw [h₁.sbi]; exact hb), h₁.disk b hb]
      · by_cases hr : i ∈ rest
        · have hrec := h₂.record i hr (by rw [h₁.sbi]; exact hlt) (by rw [hinode]; exact hs)
          rwa [hinode] at hrec
        · -- the first write is the last one to this record
          have hio : i = ino := (List.mem_cons.1 hi).resolve_right hr
          rw [h₂.others i hr]
          exact h₁.record i (List.mem_singleton.2 hio) hlt hs
      · have hi' : i ≠ ino ∧ i ∉ rest := by simpa using hi
        rw [h₂.others i hi'.2, h₁.others i (by simpa using hi'.1)]

end WriteBack

/-! ## Loading inodes -/

/-- What bringing the inodes of `l` into memory leaves. -/
structure LoadedInodes (l : List Nat) (k k' : Kernel) : Prop where
  faults : k'.faults = []
  sbi : k'.fs.sbi = k.fs.sbi
  disk : k'.fs.disk = k.fs.disk
  kept : ∀ i, (k.fs.icache i).isSome → k'.fs.icache i = k.fs.icache i
  loaded : ∀ i ∈ l, k.fs.icache i = none → k'.fs.icache i = some (k.fs.record i)

section Load

variable {k : Kernel}

theorem ouichefsIget_loads (hf : k.faults = [])
    (hstore : k.fs.sbi.nrInodes ≤ 51 * k.fs.sbi.nrIstoreBlocks)
    (hdev : k.fs.sbi.nrIstoreBlocks < k.fs.sbi.nrBlocks) {ino : Nat}
    (hino : ino < k.fs.sbi.nrInodes) :
    ∃ k', ouichefsIget k ino = (0, k') ∧ LoadedInodes [ino] k k' ∧
      ∀ i, i ≠ ino → k'.fs.icache i = k.fs.icache i := by
  have hblock : ino / 51 + 1 < k.fs.sbi.nrBlocks := by omega
  unfold ouichefsIget
  rw [if_neg (by omega)]
  cases hc : k.fs.icache ino with
  | some ci =>
      refine ⟨k, rfl, ⟨hf, rfl, rfl, fun _ _ => rfl, fun i hi hn => ?_⟩, fun _ _ => rfl⟩
      obtain rfl := List.mem_singleton.1 hi
      rw [hc] at hn
      cases hn
  | none =>
      simp only [Kernel.sbBread_ok hf hblock]
      refine ⟨_, rfl, ⟨hf, rfl, rfl, fun i hi => ?_, fun i hi _ => ?_⟩, fun i hi => ?_⟩
      · refine Fs.icache_setInode_of_ne _ _ _ ?_
        rintro rfl
        rw [hc] at hi
        cases hi
      · obtain rfl := List.mem_singleton.1 hi
        exact Fs.icache_setInode_self _ _ _
      · exact Fs.icache_setInode_of_ne _ _ _ hi

theorem igetAll_ok : ∀ (l : List Nat) (k : Kernel), k.faults = [] →
    k.fs.sbi.nrInodes ≤ 51 * k.fs.sbi.nrIstoreBlocks →
    k.fs.sbi.nrIstoreBlocks < k.fs.sbi.nrBlocks → (∀ i ∈ l, i < k.fs.sbi.nrInodes) →
    ∃ k', forInodes ouichefsIget l k = (0, k') ∧ LoadedInodes l k k' := by
  intro l
  induction l with
  | nil => exact fun k hf _ _ _ => ⟨k, rfl, hf, rfl, rfl, fun _ _ => rfl,
      fun i hi => absurd hi List.not_mem_nil⟩
  | cons ino rest ih =>
      intro k hf hstore hdev hlt
      obtain ⟨k₁, hrun₁, h₁, hother⟩ :=
        ouichefsIget_loads hf hstore hdev (hlt ino (List.mem_cons_self ..))
      obtain ⟨k₂, hrun₂, h₂⟩ := ih k₁ h₁.faults (by rw [h₁.sbi]; exact hstore)
        (by rw [h₁.sbi]; exact hdev)
        fun i hi => by rw [h₁.sbi]; exact hlt i (List.mem_cons_of_mem _ hi)
      refine ⟨k₂, ?_, h₂.faults, h₂.sbi.trans h₁.sbi, h₂.disk.trans h₁.disk, fun i hi => ?_,
        fun i hi hn => ?_⟩
      · unfold forInodes
        rw [hrun₁]
        exact hrun₂
      · have hkept := h₁.kept i hi
        rw [h₂.kept i (by rw [hkept]; exact hi), hkept]
      · by_cases hio : i = ino
        · have hload := h₁.loaded i (List.mem_singleton.2 hio) hn
          rw [h₂.kept i (by rw [hload]; rfl), hload]
        · have hr := (List.mem_cons.1 hi).resolve_left hio
          rw [h₂.loaded i hr (by rw [hother i hio]; exact hn)]
          unfold Fs.record
          rw [h₁.disk]

end Load

/-! ## The superblock -/

/-- A word keeps 32 bits. -/
theorem setWord_wrap (b : Block) (off v : Nat) : b.setWord off (v % 4294967296) = b.setWord off v := by
  apply Page.ext_get
  intro i hi
  unfold Page.setWord
  simp only [Page.get_ofFn, hi, if_true]
  split
  · rename_i hin
    obtain ⟨j, hj, hlt⟩ : ∃ j, i - off = j ∧ j < 4 := ⟨i - off, rfl, by omega⟩
    rw [hj]
    apply UInt8.toNat.inj
    simp only [UInt8.toNat_ofNat']
    rcases (by omega : j = 0 ∨ j = 1 ∨ j = 2 ∨ j = 3) with rfl | rfl | rfl | rfl <;> omega
  · rfl

/-- The superblock with the number of used slices as the device keeps it. -/
def SbMem.wrapped (sbi : SbMem) : SbMem :=
  { sbi with nrUsedSlices := sbi.nrUsedSlices % 4294967296 }

theorem ouichefsSyncFs_wrapped (long : LongSize) (sbi : SbMem) (d : Device) :
    ouichefsSyncFs long sbi.wrapped d = ouichefsSyncFs long sbi d := by
  have hsb : syncSbInfo sbi.wrapped d = syncSbInfo sbi d := by
    unfold syncSbInfo encodeSb SbMem.wrapped
    simp only [setWord_wrap]
  unfold ouichefsSyncFs
  rw [hsb]
  rfl

/-- What the image of a mounted file system must be for a mount to find it again. -/
structure Durable (fs : Fs) : Prop where
  magic : (fs.disk 0).word 0 = magic
  ifree : fs.sbi.nrInodes ≤ 32768 * fs.sbi.nrIfreeBlocks
  bfree : fs.sbi.nrBlocks ≤ 32768 * fs.sbi.nrBfreeBlocks
  ifree_le : fs.sbi.nrIfreeBlocks ≤ 524288
  bfree_le : fs.sbi.nrBfreeBlocks ≤ 524288
  inodes : ∀ i, fs.Live i → (fs.inode i).Storable

section Mount

variable {k : Kernel} {chain : List Nat}

/-- A chain starts at a block, or it is empty. -/
theorem Core.head_lt {fs : Fs} (h : Core fs chain) : fs.sbi.sFreeSlicedBlocks < fs.sbi.nrBlocks := by
  cases hc : chain with
  | nil =>
      have hh : fs.sbi.sFreeSlicedBlocks = 0 := by
        have := h.isChain
        rw [hc] at this
        exact this
      have := h.sb.meta_lt
      omega
  | cons b rest =>
      have hb : fs.sbi.sFreeSlicedBlocks = b := by
        have := h.isChain
        rw [hc] at this
        exact this.1
      rw [hb]
      exact (h.chain_used (by rw [hc]; exact List.mem_cons_self ..)).1

theorem Core.length_lt {fs : Fs} (h : Core fs chain) : chain.length ≤ fs.sbi.nrBlocks := by
  have hsub : chain.toFinset ⊆ Finset.range fs.sbi.nrBlocks := by
    intro b hb
    exact Finset.mem_range.2 (h.chain_used (List.mem_toFinset.1 hb)).1
  have hcard := Finset.card_le_card hsub
  rwa [List.toFinset_card_of_nodup h.nodup, Finset.card_range] at hcard

/-- The superblock of a well-formed file system fits its device. -/
theorem FsInv.sbMem_on (h : FsInv k chain) (hd : Durable k.fs) : k.sbMem.wrapped.On k.device := by
  have hc := h.wf.toCore
  have hmeta := hc.sb.meta_lt
  have hblocks := hc.sb.blocks_le trivial
  have hcount := hc.sb.count
  have hle := FreeMap.countBits_le k.fs.sbi.bfreeBitmap k.fs.sbi.nrBlocks
  have hlen := hc.length_lt
  have hslc := hc.sliced
  have hhead := hc.head_lt
  have hino := h.wf.table.lt
  have hfree := h.free_lt
  have h1 := hd.ifree_le
  have h2 := hd.bfree_le
  unfold SbInfo.metaBlocks at hmeta
  exact {
    fits := ⟨show k.fs.sbi.nrBlocks < _ by omega, hino,
      show k.fs.sbi.nrIstoreBlocks < _ by omega, show k.fs.sbi.nrIfreeBlocks < _ by omega,
      show k.fs.sbi.nrBfreeBlocks < _ by omega, show k.fs.sbi.nrSlicedBlocks < _ by omega, hfree,
      show k.fs.sbi.nrFreeBlocks < _ by omega, Nat.mod_lt _ (by decide),
      show k.fs.sbi.sFreeSlicedBlocks < _ by omega⟩
    regions := show k.fs.sbi.nrIstoreBlocks + k.fs.sbi.nrIfreeBlocks + k.fs.sbi.nrBfreeBlocks <
      k.fs.sbi.nrBlocks by omega
    blocks := show k.fs.sbi.nrBlocks < _ by omega
    ifreeBytes := show k.fs.sbi.nrIfreeBlocks * 4096 % 4294967296 = _ from
      Nat.mod_eq_of_lt (by omega)
    bfreeBytes := show k.fs.sbi.nrBfreeBlocks * 4096 % 4294967296 = _ from
      Nat.mod_eq_of_lt (by omega)
    magic := hd.magic
    size := Nat.le_refl _
    faults := h.faults }

theorem inodeInitOwner_sameStored (k : Kernel) (ci : Inode) :
    SameStored ci (inodeInitOwner k ci Inode.blank ci.iMode) := by
  unfold inodeInitOwner
  rw [if_neg (by decide)]
  exact ⟨⟨rfl, rfl, rfl, rfl, rfl⟩, rfl⟩

/-- **Unmounting and mounting keeps the data.** -/
theorem remount_ok (long : LongSize) {written loaded : List Nat} (now : Timespec)
    (fsuid fsgid : Nat) (h : FsInv k chain) (hd : Durable k.fs)
    (hw : ∀ i, k.fs.Live i → i ∈ written) (hl : ∀ i, k.fs.Live i → i ∈ loaded)
    (hlt : ∀ i ∈ loaded, i < k.fs.sbi.nrInodes) :
    ∃ k', remount long written loaded now fsuid fsgid k = .ok (0, k') ∧ k'.faults = [] ∧
      SameData k.fs k'.fs ∧ (k'.fs.disk 0).word 0 = magic := by
  have hc := h.wf.toCore
  have hmeta := hc.sb.meta_lt
  have hstore := h.wf.table.istore
  unfold SbInfo.metaBlocks at hmeta
  obtain ⟨k₁, hrun₁, h₁⟩ := writeInodes_ok written k h.faults hstore (by omega)
  -- the superblock did not change
  have hdev : k₁.device = ⟨k.fs.sbi.nrBlocks, k₁.fs.disk, []⟩ := by
    unfold Kernel.device
    rw [h₁.sbi, h₁.faults]
  have hsbm : k₁.sbMem = k.sbMem := by
    unfold Kernel.sbMem
    rw [h₁.sbi]
  have hon := h.sbMem_on hd
  have hon₁ : k.sbMem.wrapped.On k₁.device := by
    rw [hdev]
    refine ⟨hon.fits, hon.regions, hon.blocks, hon.ifreeBytes, hon.bfreeBytes, ?_, Nat.le_refl _,
      rfl⟩
    show (k₁.fs.disk 0).word 0 = _
    rw [h₁.disk 0 (by omega)]
    exact hd.magic
  obtain ⟨d, hsync, hs⟩ := ouichefsSyncFs_ok long hon₁ hd.ifree_le hd.bfree_le
  obtain ⟨sbi, hload, hcnt, -, -, hifree, hbfree⟩ :=
    fillSuperLoad_synced long hon₁ hd.ifree_le hd.bfree_le hs
  rw [ouichefsSyncFs_wrapped, ← hsbm] at hsync
  have hblocks : sbi.nrBlocks = k.fs.sbi.nrBlocks := hcnt.nrBlocks
  have hinodes : sbi.nrInodes = k.fs.sbi.nrInodes := hcnt.nrInodes
  have hroot := h.wf.dirs.root.1
  obtain ⟨k₂, hget, hf₂, hsbi₂, hdisk₂, hroot₂, hnone₂⟩ :=
    mountRoot_ok ⟨⟨sbi.toSbInfo, d.block, fun _ => none⟩, d.faults, [], now, fsuid, fsgid⟩ hs.faults
      (show 1 < sbi.nrInodes by rw [hinodes]; exact hroot.2.1)
      (show 1 < sbi.nrBlocks by omega) fun _ => rfl
  generalize hk₃ : k₂.setInode 1 (inodeInitOwner k₂ (k₂.inode 1) Inode.blank (k₂.inode 1).iMode)
    = k₃
  have hf₃ : k₃.faults = [] := by rw [← hk₃]; exact hf₂
  have hfill : ouichefsFillSuper long now fsuid fsgid d = .ok (.ok k₃) := by
    unfold ouichefsFillSuper
    simp only [hload, hget, ne_eq, not_true_eq_false, if_false, hk₃, Kernel.kmalloc_ok hf₃]
  have hsbi₃ : k₃.fs.sbi = sbi.toSbInfo := by
    rw [← hk₃]
    exact hsbi₂
  have hdisk₃ : k₃.fs.disk = d.block := by
    rw [← hk₃]
    exact hdisk₂
  obtain ⟨k₄, hrun₄, h₄⟩ := igetAll_ok loaded k₃ hf₃
    (by rw [hsbi₃, hinodes, hcnt.nrIstoreBlocks]; exact hstore)
    (by rw [hsbi₃, hblocks, hcnt.nrIstoreBlocks]; show k.fs.sbi.nrIstoreBlocks < _; omega)
    (fun i hi => by rw [hsbi₃, hinodes]; exact hlt i hi)
  -- the records survive
  have hrecord : ∀ i, k.fs.Live i → SameStored (k.fs.inode i) (k₃.fs.record i) := by
    intro i hi
    have hrec := h₁.record i (hw i hi) hi.2.1 (hd.inodes i hi)
    have hblk : d.block (i / 51 + 1) = k₁.fs.disk (i / 51 + 1) := by
      rw [hs.same (i / 51 + 1) (Or.inl ⟨by omega, ?_⟩), hdev]
      show _ ≤ k.fs.sbi.nrIstoreBlocks
      have := hi.2.1
      omega
    unfold Fs.record at hrec ⊢
    rw [hdisk₃, hblk]
    exact hrec
  have hcache : ∀ i, k.fs.Live i → ∃ ci, k₄.fs.icache i = some ci ∧
      SameStored (k.fs.inode i) ci := by
    intro i hi
    by_cases h1 : i = 1
    · have hc₃ : k₃.fs.icache 1 =
          some (inodeInitOwner k₂ (k₂.inode 1) Inode.blank (k₂.inode 1).iMode) := by
        rw [← hk₃]
        exact Fs.icache_setInode_self _ _ _
      rw [h1] at hi ⊢
      refine ⟨_, (h₄.kept 1 (by rw [hc₃]; rfl)).trans hc₃, ?_⟩
      refine SameStored.trans ?_ (inodeInitOwner_sameStored k₂ (k₂.inode 1))
      have hrec := hrecord 1 hi
      unfold Fs.record at hrec
      rw [hdisk₃] at hrec
      rw [hroot₂]
      exact hrec
    · have hn : k₃.fs.icache i = none := by
        rw [← hk₃, Kernel.fs_setInode, Fs.icache_setInode_of_ne _ _ _ h1]
        exact hnone₂ i h1
      exact ⟨_, h₄.loaded i (hl i hi) hn, hrecord i hi⟩
  have hsbi₄ : k₄.fs.sbi = sbi.toSbInfo := h₄.sbi.trans hsbi₃
  refine ⟨k₄, ?_, h₄.faults, ⟨⟨?_, ?_, ?_, ?_, ?_⟩, fun i hi => ?_, fun b hb => ?_, ?_, ?_, ?_, ?_,
    fun b hb _ => ?_, fun i hi => ?_, fun i hi => ?_, fun i hi => ?_⟩, ?_⟩
  · unfold remount
    simp only [hrun₁, ne_eq, not_true_eq_false, if_false, hsync, hfill, hrun₄]
  · rw [hsbi₄]
    exact hblocks
  · rw [hsbi₄]
    exact hinodes
  · rw [hsbi₄]
    exact hcnt.nrIstoreBlocks
  · rw [hsbi₄]
    exact hcnt.nrIfreeBlocks
  · rw [hsbi₄]
    exact hcnt.nrBfreeBlocks
  · rw [hsbi₄]
    refine hifree i ?_
    rw [hon.ifreeBytes]
    have := hd.ifree
    show i < 8 * (k.fs.sbi.nrIfreeBlocks * 4096)
    omega
  · rw [hsbi₄]
    refine hbfree b ?_
    rw [hon.bfreeBytes]
    have := hd.bfree
    show b < 8 * (k.fs.sbi.nrBfreeBlocks * 4096)
    omega
  · rw [hsbi₄]
    exact hcnt.nrFreeBlocks
  · rw [hsbi₄]
    exact hcnt.nrFreeInodes
  · rw [hsbi₄]
    exact hcnt.sFreeSlicedBlocks
  · rw [hsbi₄]
    exact hcnt.nrSlicedBlocks
  · unfold SbInfo.metaBlocks at hb
    rw [h₄.disk, hdisk₃, hs.same b (Or.inr ?_), hdev]
    · exact h₁.disk b (by omega)
    · show k.fs.sbi.nrIstoreBlocks + k.fs.sbi.nrIfreeBlocks + k.fs.sbi.nrBfreeBlocks < b
      omega
  · obtain ⟨ci, hci, -⟩ := hcache i hi
    rw [hci]
    rfl
  · obtain ⟨ci, hci, hsame⟩ := hcache i hi
    unfold Fs.inode
    rw [hci]
    exact hsame.1
  · obtain ⟨ci, hci, hsame⟩ := hcache i hi
    unfold Fs.inode
    rw [hci]
    exact hsame.2
  · rw [h₄.disk, hdisk₃, hs.sb, encodeSb_magic, hdev]
    show (k₁.fs.disk 0).word 0 = _
    rw [h₁.disk 0 (by omega)]
    exact hd.magic

end Mount

end Ouichefs
