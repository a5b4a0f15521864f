import Ouichefs.Touch

/-!
# References to slices

A small file refers to its slices by `(block << 5) + slice` in the 32 bits of `index_block`, so a
block number may have 27 bits.  `allocate_and_init_slice_block` hands out block 2²⁷ as well, the
first number with 28 bits, and a file in it is found in the superblock again.

* `Kernel.handsOut_iff`: which block is handed out.
* `refsDecode_iff`: references decode to what was encoded, unless block 2²⁷ is next.
-/

set_option autoImplicit false

namespace Ouichefs

variable {k : Kernel} {b s : Nat} {ci : Inode}

/-! ## The blocks that are handed out -/

/-- Block `b` is the first free one, and it can be read. -/
structure Kernel.NextBlock (k : Kernel) (b : Nat) : Prop where
  lt : b < k.fs.sbi.nrBlocks
  free : k.fs.sbi.bfreeBitmap b = true
  least : ∀ j < b, k.fs.sbi.bfreeBitmap j = false
  reads : (k.sbBread b).1 = true

/-- `allocate_and_init_slice_block` returns block `b` as a success. -/
def Kernel.HandsOut (k : Kernel) (b : Nat) : Prop :=
  0 < b ∧ (allocateAndInitSliceBlock k).1 = b

/-- **The first free block is handed out**, if it can be read and its number is at most 2²⁷. -/
theorem Kernel.handsOut_iff :
    k.HandsOut b ↔ 0 < b ∧ b ≤ 134217728 ∧ k.NextBlock b := by
  have hfaults := k.faults_getFreeBlock
  have hblocks := (Quiet.getFreeBlock 0 k).geom.nrBlocks
  have hread : ∀ c, (k.getFreeBlock.2.sbBread c).1 = (k.sbBread c).1 :=
    Kernel.sbBread_congr hfaults hblocks
  have hfst : k.getFreeBlock.1 = (getFirstFreeBit k.fs.sbi.bfreeBitmap k.fs.sbi.nrBlocks).1 :=
    k.getFreeBlock_fst.trans k.fs.sbi.getFreeBlock_fst
  refine and_congr_right fun hb => ?_
  have hnext : k.NextBlock b ↔ k.getFreeBlock.1 = b ∧ (k.getFreeBlock.2.sbBread b).1 = true := by
    rw [hfst, getFirstFreeBit_eq_iff hb, hread]
    exact ⟨fun h => ⟨⟨h.lt, h.free, h.least⟩, h.reads⟩, fun h => ⟨h.1.1, h.1.2.1, h.1.2.2, h.2⟩⟩
  rw [hnext]
  unfold allocateAndInitSliceBlock initSliceBlock
  generalize k.getFreeBlock = p
  obtain ⟨c, k₁⟩ := p
  simp only
  by_cases hc : c = 0 ∨ c > 134217728
  · rw [if_pos hc]
    have hneg : -ENOSPC < 0 := by decide
    constructor
    · intro h
      simp only at h
      omega
    · rintro ⟨hle, rfl, -⟩
      omega
  rw [if_neg hc]
  generalize hq : k₁.sbBread c = q
  obtain ⟨ok, k₂⟩ := q
  cases ok with
  | false =>
      have hneg : - EIO < 0 := by decide
      constructor
      · intro h
        simp only at h
        omega
      · rintro ⟨-, rfl, hok⟩
        rw [hq] at hok
        cases hok
  | true =>
      constructor
      · intro h
        obtain rfl : c = b := Int.ofNat_inj.1 h
        exact ⟨by omega, rfl, by rw [hq]⟩
      · rintro ⟨-, rfl, -⟩
        rfl

/-! ## The value of `index_block` -/

/-- A write has put a file into the slices from slice `s` of block `b` on, and `ci` is its inode. -/
def StoredAt (b s : Nat) (ci : Inode) : Prop :=
  ∃ k ino iocb data pos newSize io k', ci = k'.inode ino ∧
    copyToSlices k ino iocb data pos newSize b s = .ok (((data.length : Int), io), k')

theorem StoredAt.index (h : StoredAt b s ci) : ci.indexBlock = add32 (32 * b) s := by
  obtain ⟨k, ino, iocb, data, pos, newSize, io, k', rfl, hrun⟩ := h
  rcases copyToSlices_result ino k hrun with hneg | ⟨-, -, hidx, -⟩
  · omega
  · exact hidx

theorem exists_storedAt (b s : Nat) : ∃ ci, StoredAt b s ci := by
  obtain ⟨k', hrun, -⟩ := copyToSlices_ok (k := emptyImage 8 8) rfl 2 ⟨0, false⟩ [] 0 0 b s
  exact ⟨k'.inode 2, _, 2, _, [], 0, 0, _, k', rfl, hrun⟩

/-- A number of 27 bits is stored without loss. -/
theorem StoredAt.index_of_lt (h : StoredAt b s ci) (hb : b < 134217728) (hs : s < 32) :
    ci.indexBlock = 32 * b + s := by
  rw [h.index]
  exact add32_of_lt (by omega)

/-- Block 2²⁷ is lost. -/
theorem StoredAt.index_wide (h : StoredAt 134217728 s ci) (hs : s < 32) : ci.indexBlock = s := by
  rw [h.index]
  unfold add32
  omega

/-- No two pairs of a block that can be handed out and a slice have the same value. -/
theorem StoredAt.inj {b' s' : Nat} {ci' : Inode} (h : StoredAt b s ci) (h' : StoredAt b' s' ci')
    (hb : 0 < b ∧ b ≤ 134217728) (hb' : 0 < b' ∧ b' ≤ 134217728) (hs : s < 32) (hs' : s' < 32)
    (heq : ci'.indexBlock = ci.indexBlock) : b' = b ∧ s' = s := by
  rw [h.index, h'.index] at heq
  unfold add32 at heq
  omega

/-! ## Decoding -/

/-- Whatever block `allocate_and_init_slice_block` hands out and whichever of its slices a file is
stored in, the inode decodes to them, and no file in another place has the same `index_block`. -/
def Kernel.RefsDecode (k : Kernel) : Prop :=
  ∀ b s ci, k.HandsOut b → 1 ≤ s → s ≤ 31 → StoredAt b s ci →
    ci.indexBlock ≠ 0 ∧ ci.getBno = b ∧ ci.getSlice = s ∧
      ∀ (k' : Kernel) (b' s' : Nat) (ci' : Inode), k'.HandsOut b' → 1 ≤ s' → s' ≤ 31 →
        StoredAt b' s' ci' → ci'.indexBlock = ci.indexBlock → b' = b ∧ s' = s

/-- A file in block 2²⁷ is found in the superblock. -/
theorem not_refsDecode (h : k.NextBlock 134217728) : ¬k.RefsDecode := by
  intro hall
  obtain ⟨ci, hci⟩ := exists_storedAt 134217728 1
  have hout : k.HandsOut 134217728 :=
    Kernel.handsOut_iff.2 ⟨by decide, Nat.le_refl _, h⟩
  obtain ⟨-, hbno, -⟩ := hall _ 1 ci hout (by decide) (by decide) hci
  unfold Inode.getBno at hbno
  rw [hci.index_wide (by decide)] at hbno
  omega

/-- **References to slices decode to what was encoded, unless block 2²⁷ is the next one.** -/
theorem refsDecode_iff (k : Kernel) : k.RefsDecode ↔ ¬k.NextBlock 134217728 := by
  constructor
  · exact fun h hnext => not_refsDecode hnext h
  · intro hwide b s ci hout h1 h31 hci
    obtain ⟨hpos, hle, hnext⟩ := Kernel.handsOut_iff.1 hout
    have hlt : b < 134217728 := by
      refine Nat.lt_of_le_of_ne hle ?_
      rintro rfl
      exact hwide hnext
    have hidx := hci.index_of_lt hlt (by omega)
    obtain ⟨hbno, hslice⟩ := Inode.decode hidx (by omega)
    refine ⟨by omega, hbno, hslice, fun k' b' s' ci' hout' h1' h31' hci' heq => ?_⟩
    obtain ⟨hpos', hle', -⟩ := Kernel.handsOut_iff.1 hout'
    exact hci.inj hci' ⟨hpos, hle⟩ ⟨hpos', hle'⟩ (by omega) (by omega) heq

/-- A device of 2²⁷ + 1 blocks; only the last one is free. -/
def wideImage : Kernel :=
  let k := emptyImage 134217729 8
  k.setSbi { k.fs.sbi with
    nrBfreeBlocks := 4097, nrFreeBlocks := 1, bfreeBitmap := fun b => decide (134217728 ≤ b) }

theorem refsDecode_wideImage : ¬wideImage.RefsDecode := by
  refine not_refsDecode ⟨by decide, by decide, fun j hj => ?_, by decide⟩
  exact decide_eq_false (Nat.not_le.2 hj)

end Ouichefs
