import Ouichefs.Super
import Ouichefs.Lib.Record

/-!
# The inode store

`ouichefs_write_inode` and `ouichefs_iget` list the fields of `struct ouichefs_inode` in two files.
A record has 80 bytes and 51 records fill a block.  What the one stores the other finds, and a store
stays inside the record of its inode.
-/

set_option autoImplicit false

namespace Ouichefs

/-! ## One record -/

/-- The values of an in-memory inode that its record can hold; the times are not negative. -/
structure Inode.Fits (ci : Inode) : Prop where
  iMode : ci.iMode < 65536
  iUid : ci.iUid < 4294967296
  iGid : ci.iGid < 4294967296
  iSize : ci.iSize < 4294967296
  ctime : ci.iCtime.tvSec < 4294967296 ∧ ci.iCtime.tvNsec < 18446744073709551616
  atime : ci.iAtime.tvSec < 4294967296 ∧ ci.iAtime.tvNsec < 18446744073709551616
  mtime : ci.iMtime.tvSec < 4294967296 ∧ ci.iMtime.tvNsec < 18446744073709551616
  iBlocks : ci.iBlocks < 4294967296
  iNlink : ci.iNlink < 4294967296
  indexBlock : ci.indexBlock < 4294967296
  numSlices : ci.numSlices < 65536

/-- The 32-bit fields of a record; a 64-bit field is two of them. -/
def Inode.fields (ci : Inode) : List (Nat × Nat) :=
  [(0, ci.iMode), (4, ci.iUid), (8, ci.iGid), (12, ci.iSize), (16, ci.iCtime.tvSec),
    (24, ci.iCtime.tvNsec % 4294967296), (28, ci.iCtime.tvNsec / 4294967296),
    (32, ci.iAtime.tvSec), (40, ci.iAtime.tvNsec % 4294967296),
    (44, ci.iAtime.tvNsec / 4294967296), (48, ci.iMtime.tvSec),
    (56, ci.iMtime.tvNsec % 4294967296), (60, ci.iMtime.tvNsec / 4294967296),
    (64, ci.iBlocks), (68, ci.iNlink), (72, ci.indexBlock)]

section Record

variable {b b' : Block} {ci : Inode} {shift : Nat}

theorem encodeInode_eq (b : Block) (shift : Nat) (ci : Inode) :
    encodeInode b shift ci =
      setHalf (b.putRecord (80 * shift) ci.fields) (80 * shift + 76) ci.numSlices := rfl

theorem Inode.fields_apart (ci : Inode) : (ci.fields.map Prod.fst).Pairwise Page.Apart := by
  show [0, 4, 8, 12, 16, 24, 28, 32, 40, 44, 48, 56, 60, 64, 68, 72].Pairwise Page.Apart
  decide

theorem Inode.fields_le (ci : Inode) : ∀ f ∈ ci.fields, f.1 ≤ 72 := by
  have h : ∀ o ∈ ci.fields.map Prod.fst, o ≤ 72 := by
    show ∀ o ∈ [0, 4, 8, 12, 16, 24, 28, 32, 40, 44, 48, 56, 60, 64, 68, 72], o ≤ 72
    decide
  exact fun f hf => h _ (List.mem_map_of_mem hf)

theorem Inode.fields_fit (ci : Inode) (h : shift < 51) :
    ∀ f ∈ ci.fields, 80 * shift + f.1 + 4 ≤ 4096 := by
  intro f hf
  have := ci.fields_le f hf
  omega

/-- The last store has two bytes. -/
theorem get_setHalf (b : Block) {off : Nat} (v : Nat) (h : off + 2 ≤ 4096) (i : Nat) :
    (setHalf b off v).get i = if off ≤ i ∧ i < off + 2 then
      [UInt8.ofNat v, UInt8.ofNat (v / 256)].getD (i - off) 0 else b.get i :=
  Page.get_blit b h i

theorem half_setHalf (b : Block) {off v : Nat} (h : off + 2 ≤ 4096) (hv : v < 65536) :
    half (setHalf b off v) off = v := by
  have h0 := get_setHalf b v h off
  have h1 := get_setHalf b v h (off + 1)
  rw [if_pos (by omega), Nat.sub_self] at h0
  rw [if_pos (by omega), Nat.add_sub_cancel_left] at h1
  have hb0 : ((setHalf b off v).get off).toNat = v % 256 := by rw [h0]; simp
  have hb1 : ((setHalf b off v).get (off + 1)).toNat = v / 256 % 256 := by rw [h1]; simp
  unfold half Page.word
  rw [hb0, hb1]
  omega

/-- A field of the record is read back. -/
theorem word_encodeInode (b : Block) (h : shift < 51) {off v : Nat} (hm : (off, v) ∈ ci.fields) :
    (encodeInode b shift ci).word (80 * shift + off) = v % 4294967296 := by
  have hle := ci.fields_le _ hm
  rw [encodeInode_eq]
  unfold setHalf
  rw [Page.word_blit_of_disjoint _ (by simp; omega) (by simp; omega),
    Page.word_putRecord b (ci.fields_fit h) ci.fields_apart hm]

/-- Bytes outside the record do not change. -/
theorem get_encodeInode (b : Block) (h : shift < 51) {i : Nat}
    (hi : i < 80 * shift ∨ 80 * shift + 80 ≤ i) : (encodeInode b shift ci).get i = b.get i := by
  rw [encodeInode_eq, get_setHalf _ _ (by omega), if_neg (by omega)]
  refine Page.get_putRecord b (ci.fields_fit h) fun f hf => ?_
  have := ci.fields_le f hf
  omega

/-- **What is stored is read back.** -/
theorem decodeInode_encodeInode (b : Block) (h : shift < 51) (hf : ci.Fits) :
    decodeInode (encodeInode b shift ci) shift = ci := by
  have hword : ∀ {off v : Nat}, (off, v) ∈ ci.fields → v < 4294967296 →
      (encodeInode b shift ci).word (80 * shift + off) = v := by
    intro off v hm hv
    rw [word_encodeInode b h hm, Nat.mod_eq_of_lt hv]
  have hdword : ∀ {off v : Nat}, (off, v % 4294967296) ∈ ci.fields →
      (off + 4, v / 4294967296) ∈ ci.fields → v < 18446744073709551616 →
      dword (encodeInode b shift ci) (80 * shift + off) = v := by
    intro off v hlow hhigh hv
    unfold dword
    rw [hword hlow (by omega), Nat.add_assoc, hword hhigh (by omega)]
    omega
  have hmode : half (encodeInode b shift ci) (80 * shift) = ci.iMode := by
    have hm := hf.iMode
    have hw : (encodeInode b shift ci).word (80 * shift + 0) = ci.iMode :=
      hword (by simp [Inode.fields]) (by omega)
    unfold half
    rw [Nat.add_zero] at hw
    rw [hw, Nat.mod_eq_of_lt hm]
  have hslices : half (encodeInode b shift ci) (80 * shift + 76) = ci.numSlices := by
    rw [encodeInode_eq]
    exact half_setHalf _ (by omega) hf.numSlices
  unfold decodeInode
  simp only
  rw [hmode, hword (by simp [Inode.fields]) hf.iUid, hword (by simp [Inode.fields]) hf.iGid,
    hword (by simp [Inode.fields]) hf.iSize, hword (by simp [Inode.fields]) hf.ctime.1,
    hdword (by simp [Inode.fields]) (by simp [Inode.fields]) hf.ctime.2,
    hword (by simp [Inode.fields]) hf.atime.1,
    hdword (by simp [Inode.fields]) (by simp [Inode.fields]) hf.atime.2,
    hword (by simp [Inode.fields]) hf.mtime.1,
    hdword (by simp [Inode.fields]) (by simp [Inode.fields]) hf.mtime.2,
    hword (by simp [Inode.fields]) hf.iBlocks, hword (by simp [Inode.fields]) hf.iNlink,
    hword (by simp [Inode.fields]) hf.indexBlock, hslices]

/-- A record is what its 80 bytes say. -/
theorem decodeInode_congr (h : ∀ i, 80 * shift ≤ i → i < 80 * shift + 80 → b'.get i = b.get i) :
    decodeInode b' shift = decodeInode b shift := by
  have hword : ∀ off, off ≤ 76 → b'.word (80 * shift + off) = b.word (80 * shift + off) := by
    intro off hoff
    exact Page.word_congr fun i hi => h _ (by omega) (by omega)
  have hfirst : b'.word (80 * shift) = b.word (80 * shift) := hword 0 (by decide)
  unfold decodeInode half dword
  simp only [Nat.add_assoc]
  rw [hfirst]
  repeat rw [hword _ (by decide)]

end Record

/-! ## Writing and reading -/

/-- Inode `ino` has left the cache; `answers` are still to come. -/
def Kernel.evict (k : Kernel) (ino : Nat) (answers : List Answer) : Kernel :=
  { k with fs := { k.fs with icache := Function.update k.fs.icache ino none }, faults := answers }

section Store

variable {k k' : Kernel} {ino : Nat} {ret : Int}

/-- A read of an inode that is not cached. -/
theorem ouichefsIget_evict (k : Kernel) (ino : Nat) (answers : List Answer) :
    ouichefsIget (k.evict ino answers) ino =
      if ino ≥ k.fs.sbi.nrInodes then (-EINVAL, k.evict ino answers)
      else match (k.evict ino answers).sbBread (ino / 51 + 1) with
        | (false, k₁) => (- EIO, k₁)
        | (true, k₁) => (0, (k₁.setInode ino
            (decodeInode (k.fs.disk (ino / 51 + 1)) (ino % 51))).brelse (ino / 51 + 1)) := by
  have hnone : (k.evict ino answers).fs.icache ino = none := Function.update_self ..
  have hread := Kernel.fs_sbBread (k.evict ino answers) (ino / 51 + 1)
  unfold ouichefsIget
  rw [hnone]
  by_cases hge : ino ≥ k.fs.sbi.nrInodes
  · rw [if_pos hge]
    exact if_pos hge
  · rw [if_neg hge]
    refine (if_neg hge).trans ?_
    simp only
    cases hb : (k.evict ino answers).sbBread (ino / 51 + 1) with
    | mk ok k₁ =>
        rw [hb] at hread
        cases ok with
        | false => rfl
        | true =>
            simp only at hread ⊢
            rw [hread]
            rfl

/-- What `ouichefs_write_inode` does to the file system. -/
theorem ouichefsWriteInode_cases (hrun : ouichefsWriteInode k ino = (ret, k'))
    (hino : ino < k.fs.sbi.nrInodes) :
    (ret = 0 ∧ k'.fs = k.fs.setBlock (ino / 51 + 1)
        (encodeInode (k.fs.disk (ino / 51 + 1)) (ino % 51) (k.inode ino))) ∨
      (ret = - EIO ∧ k'.fs = k.fs) := by
  have hread := Kernel.fs_sbBread k (ino / 51 + 1)
  unfold ouichefsWriteInode at hrun
  rw [if_neg (by omega)] at hrun
  cases hb : k.sbBread (ino / 51 + 1) with
  | mk ok k₁ =>
      rw [hb] at hread hrun
      have hfs : k₁.fs = k.fs := hread
      cases ok with
      | false =>
          cases hrun
          exact Or.inr ⟨rfl, hfs⟩
      | true =>
          cases hrun
          refine Or.inl ⟨rfl, ?_⟩
          simp only [Kernel.fs_brelse, Kernel.fs_setBlock, Kernel.inode, hfs]

/-- The record of another inode is not touched. -/
theorem decodeInode_other {i : Nat} (hne : i ≠ ino) (ci : Inode) (disk : Nat → Block) :
    decodeInode ((if i / 51 + 1 = ino / 51 + 1 then
      encodeInode (disk (ino / 51 + 1)) (ino % 51) ci else disk (i / 51 + 1))) (i % 51) =
      decodeInode (disk (i / 51 + 1)) (i % 51) := by
  split
  · rename_i hblock
    rw [← hblock]
    refine decodeInode_congr fun x h1 h2 => get_encodeInode _ (Nat.mod_lt _ (by decide)) ?_
    omega
  · rfl

/-- The result of reading an inode that is not cached. -/
theorem ouichefsIget_evict_result (k : Kernel) (ino : Nat) (answers : List Answer) :
    (ouichefsIget (k.evict ino answers) ino).1 =
        (if ino ≥ k.fs.sbi.nrInodes then -EINVAL
          else if ((k.evict ino answers).sbBread (ino / 51 + 1)).1 then 0 else - EIO) ∧
      (ouichefsIget (k.evict ino answers) ino).2.inode ino =
        if ino < k.fs.sbi.nrInodes ∧ ((k.evict ino answers).sbBread (ino / 51 + 1)).1 = true
        then decodeInode (k.fs.disk (ino / 51 + 1)) (ino % 51) else Inode.blank := by
  have hblank : (k.evict ino answers).inode ino = Inode.blank := by
    simp [Kernel.evict, Kernel.inode, Fs.inode]
  have hread := Kernel.fs_sbBread (k.evict ino answers) (ino / 51 + 1)
  rw [ouichefsIget_evict]
  by_cases hge : ino ≥ k.fs.sbi.nrInodes
  · simp only [hge, if_true, Nat.not_lt.2 hge, false_and, if_false]
    exact ⟨trivial, hblank⟩
  · simp only [hge, if_false, Nat.not_le.1 hge, true_and]
    cases hb : (k.evict ino answers).sbBread (ino / 51 + 1) with
    | mk ok k₁ =>
        rw [hb] at hread
        cases ok with
        | false =>
            refine ⟨rfl, ?_⟩
            show k₁.fs.inode ino = _
            rw [show k₁.fs = (k.evict ino answers).fs from hread]
            exact hblank
        | true => exact ⟨rfl, by simp [Kernel.inode]⟩

/-- **The inode store** keeps every inode in its own record.  If both calls succeed,
`ouichefs_iget` returns what `ouichefs_write_inode` was given; with the same answers of the device
every other inode is read as before; and only the inode store is written. -/
theorem ouichefsWriteInode_roundTrip (hfit : (k.inode ino).Fits) (hino : ino < k.fs.sbi.nrInodes)
    (hstore : k.fs.sbi.nrInodes ≤ 51 * k.fs.sbi.nrIstoreBlocks)
    (hrun : ouichefsWriteInode k ino = (ret, k')) :
    (ret = 0 → ∀ answers k₁, ouichefsIget (k'.evict ino answers) ino = (0, k₁) →
      k₁.inode ino = k.inode ino) ∧
    (k.faults = [] → k.fs.sbi.nrIstoreBlocks < k.fs.sbi.nrBlocks → ret = 0 ∧
      (ouichefsIget (k'.evict ino []) ino).1 = 0) ∧
    (∀ i ≠ ino, ∀ answers, (ouichefsIget (k'.evict i answers) i).1 =
        (ouichefsIget (k.evict i answers) i).1 ∧
      (ouichefsIget (k'.evict i answers) i).2.inode i =
        (ouichefsIget (k.evict i answers) i).2.inode i) ∧
    (∀ b, ¬(1 ≤ b ∧ b ≤ k.fs.sbi.nrIstoreBlocks) → k'.fs.disk b = k.fs.disk b) ∧
    k'.fs.sbi = k.fs.sbi ∧ k'.fs.icache = k.fs.icache := by
  have hcases := ouichefsWriteInode_cases hrun hino
  have hsbi : k'.fs.sbi = k.fs.sbi := by
    rcases hcases with ⟨-, hfs⟩ | ⟨-, hfs⟩
    · rw [hfs]
      rfl
    · rw [hfs]
  refine ⟨fun h0 answers k₁ hget => ?_, fun hf hdev => ?_, fun i hne answers => ?_, fun b hb => ?_,
    hsbi, ?_⟩
  · have hfs := (hcases.resolve_right fun h => by rw [h0] at h; exact absurd h.1 (by decide)).2
    obtain ⟨hret, hinode⟩ := ouichefsIget_evict_result k' ino answers
    rw [hget, hsbi, if_neg (by omega)] at hret
    rw [hget, hsbi] at hinode
    have hok : ((k'.evict ino answers).sbBread (ino / 51 + 1)).1 = true := by
      by_contra hno
      rw [if_neg hno] at hret
      have hne : ¬(0 : Int) = - EIO := by decide
      exact hne hret
    rw [if_pos ⟨hino, hok⟩, hfs, Fs.disk_setBlock, if_pos rfl,
      decodeInode_encodeInode _ (Nat.mod_lt _ (by decide)) hfit] at hinode
    exact hinode
  · have hblock : ino / 51 + 1 < k.fs.sbi.nrBlocks := by omega
    have hread := Kernel.sbBread_ok hf hblock
    unfold ouichefsWriteInode at hrun
    rw [if_neg (by omega), hread] at hrun
    refine ⟨(congrArg Prod.fst hrun).symm, ?_⟩
    have hread' : (k'.evict ino []).sbBread (ino / 51 + 1) =
        (true, (k'.evict ino []).log (.bread (ino / 51 + 1))) :=
      Kernel.sbBread_ok rfl (show _ < k'.fs.sbi.nrBlocks by rw [hsbi]; exact hblock)
    rw [(ouichefsIget_evict_result k' ino []).1, hsbi, if_neg (by omega), hread']
    rfl
  · have hn : (k'.evict i answers).fs.sbi.nrBlocks = (k.evict i answers).fs.sbi.nrBlocks := by
      show k'.fs.sbi.nrBlocks = _
      rw [hsbi]
      rfl
    have hread : ((k'.evict i answers).sbBread (i / 51 + 1)).1 =
        ((k.evict i answers).sbBread (i / 51 + 1)).1 := by
      refine Kernel.sbBread_congr ?_ hn _
      rfl
    have hrecord : decodeInode (k'.fs.disk (i / 51 + 1)) (i % 51) =
        decodeInode (k.fs.disk (i / 51 + 1)) (i % 51) := by
      rcases hcases with ⟨-, hfs⟩ | ⟨-, hfs⟩
      · rw [hfs, Fs.disk_setBlock]
        exact decodeInode_other hne _ _
      · rw [hfs]
    obtain ⟨hret', hinode'⟩ := ouichefsIget_evict_result k' i answers
    obtain ⟨hret, hinode⟩ := ouichefsIget_evict_result k i answers
    rw [hret', hret, hinode', hinode, hread, hrecord, hsbi]
    exact ⟨rfl, rfl⟩
  · rcases hcases with ⟨-, hfs⟩ | ⟨-, hfs⟩
    · rw [hfs, Fs.disk_setBlock, if_neg (by rintro rfl; omega)]
    · rw [hfs]
  · rcases hcases with ⟨-, hfs⟩ | ⟨-, hfs⟩
    · rw [hfs]
      rfl
    · rw [hfs]

end Store

/-- A store of two blocks; inode 60 is in the second and is cached as a small file. -/
def cachedFile : Kernel where
  fs :=
    { sbi :=
        { nrBlocks := 8, nrInodes := 102, nrIstoreBlocks := 2, nrIfreeBlocks := 1,
          nrBfreeBlocks := 1, nrSlicedBlocks := 0, nrFreeInodes := 100, nrFreeBlocks := 2,
          nrUsedSlices := 0, sFreeSlicedBlocks := 0,
          ifreeBitmap := fun i => decide (2 ≤ i), bfreeBitmap := fun i => decide (6 ≤ i) }
      disk := fun _ => Page.zero
      icache := fun i =>
        if i = 60 then some ⟨0o100644, 7, 8, 4294967295, ⟨1, 2⟩, ⟨3, 999999999⟩, ⟨5, 6⟩, 1, 1,
          163, 2⟩
        else none }
  faults := []
  trace := []
  now := ⟨9, 9⟩
  fsuid := 0
  fsgid := 0

theorem ouichefsWriteInode_roundTrip_cachedFile :
    (cachedFile.inode 60).iSize = 4294967295 ∧ (ouichefsWriteInode cachedFile 60).1 = 0 ∧
    ∀ k₁, ouichefsIget ((ouichefsWriteInode cachedFile 60).2.evict 60 []) 60 = (0, k₁) →
      k₁.inode 60 = cachedFile.inode 60 := by
  have h := @ouichefsWriteInode_roundTrip cachedFile _ 60 _
    ⟨by decide, by decide, by decide, by decide, by decide, by decide, by decide, by decide,
      by decide, by decide, by decide⟩ (by decide) (by decide) rfl
  have hret := (h.2.1 rfl (by decide)).1
  exact ⟨rfl, hret, h.1 hret []⟩

end Ouichefs
