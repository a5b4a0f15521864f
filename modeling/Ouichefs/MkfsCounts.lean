import Ouichefs.Format

/-!
# What `mkfs` counts

The counters `write_superblock` stores against the bitmaps that are written, and the sizes for
which its 32-bit arithmetic and the one-block buffer of `write_bfree_blocks` are enough.

* `mkfs_inodes_wrong`: the free inodes are one too many, for every partition.
* `mkfs_handles_iff`: 1665838 blocks are handled, and 1665864.
-/

set_option autoImplicit false

namespace Ouichefs

open FreeMap

/-! ## Inodes -/

/-- The bitmap in the blocks from `first` on. -/
def storedMap (disk : Nat → Block) (first i : Nat) : Bool :=
  blockBit (disk (first + i / 32768)) (i % 32768)

/-- The free inodes are counted, and the inode store has no partial block. -/
structure InodesAccounted (sb : Superblock) (ifree : Nat → Bool) : Prop where
  free : sb.nrFreeInodes = countBits ifree sb.nrInodes
  whole : 51 ∣ sb.nrInodes

section Inodes

variable {size : Nat} {fd fd' : Fd}

theorem superblock_nrBlocks (size : Nat) :
    (superblock size).nrBlocks = size / 4096 % 4294967296 := rfl

theorem superblock_nrInodes (size : Nat) : (superblock size).nrInodes =
    ((superblock size).nrBlocks + (superblock size).nrBlocks % 51) % 4294967296 := by
  show (if size / 4096 % 4294967296 % 51 ≠ 0 then add32 _ _ else _) = _
  rw [superblock_nrBlocks]
  split
  · rfl
  · omega

/-- The inode bitmap has a block for every 32768 inodes. -/
theorem superblock_ifree (size : Nat) :
    (superblock size).nrInodes ≤ 32768 * (superblock size).nrIfreeBlocks := by
  have hlt : (superblock size).nrInodes < 4294967296 := by
    rw [superblock_nrInodes]
    omega
  exact (idivCeil_spec hlt (by decide)).1

/-- **The inode bitmap**: all but the first two inodes are free. -/
theorem writeIfreeBlocks_map (h : writeIfreeBlocks (superblock size) fd = .ok (true, fd')) {i : Nat}
    (hi : i < (superblock size).nrInodes) : storedMap fd'.block fd.pos i = decide (1 < i) := by
  have hle := superblock_ifree size
  have hw := writeRegion_true h (by omega)
  unfold storedMap
  rw [hw.new (i / 32768) (by omega)]
  have hx : i % 32768 < 32768 := Nat.mod_lt _ (by decide)
  split
  · rename_i h0
    rw [(blockBit_ifree hx).1, show i % 32768 = i by omega]
  · rw [(blockBit_ifree hx).2, decide_eq_true (by omega)]

theorem writeIfreeBlocks_count (h : writeIfreeBlocks (superblock size) fd = .ok (true, fd')) :
    countBits (storedMap fd'.block fd.pos) (superblock size).nrInodes =
      (superblock size).nrInodes - 2 := by
  have hprefix := countBits_prefix 2 (superblock size).nrInodes
  rw [← hprefix]
  exact countBits_congr fun i hi => writeIfreeBlocks_map h hi

/-- Rounding either adds the remainder or wraps around to a small even number. -/
theorem superblock_nrInodes_cases (size : Nat) :
    (superblock size).nrInodes = (superblock size).nrBlocks + (superblock size).nrBlocks % 51 ∨
      ∃ y, 1 ≤ y ∧ y ≤ 25 ∧ (superblock size).nrBlocks = 4294967295 - y ∧
        (superblock size).nrInodes = 50 - 2 * y := by
  have hlt : (superblock size).nrBlocks < 4294967296 := Nat.mod_lt _ (by decide)
  rw [superblock_nrInodes]
  generalize (superblock size).nrBlocks = n at *
  by_cases hwrap : n + n % 51 < 4294967296
  · exact Or.inl (Nat.mod_eq_of_lt hwrap)
  · -- 4294967295 is a multiple of 51
    have hr : n % 51 < 51 := Nat.mod_lt _ (by decide)
    obtain ⟨y, hy⟩ : ∃ y, n + y = 4294967295 := ⟨4294967295 - n, by omega⟩
    have hy0 : y ≠ 0 := by
      rintro rfl
      have h51 : n % 51 = 0 := by omega
      omega
    have hmod : n % 51 = 51 - y := by omega
    exact Or.inr ⟨y, by omega, by omega, by omega, by omega⟩

/-- No partition has exactly one inode. -/
theorem superblock_nrInodes_ne_one (size : Nat) : (superblock size).nrInodes ≠ 1 := by
  rcases superblock_nrInodes_cases size with h | ⟨y, -, -, -, h⟩ <;> omega

/-- The counter is one too high, or has wrapped around. -/
theorem superblock_nrFreeInodes (h : writeIfreeBlocks (superblock size) fd = .ok (true, fd')) :
    (superblock size).nrFreeInodes =
      if (superblock size).nrInodes = 0 then 4294967295
      else countBits (storedMap fd'.block fd.pos) (superblock size).nrInodes + 1 := by
  have hne := superblock_nrInodes_ne_one size
  have hlt : (superblock size).nrInodes < 4294967296 := by
    rw [superblock_nrInodes]
    omega
  rw [writeIfreeBlocks_count h]
  show sub32 (superblock size).nrInodes 1 = _
  split
  · rename_i h0
    rw [h0]
    rfl
  · rw [sub32_of_le hlt (by omega)]
    omega

/-- `nr_inodes` is rounded to a multiple of 51 only where it is one already, or 0. -/
theorem superblock_whole_iff (size : Nat) : 51 ∣ (superblock size).nrInodes ↔
    51 ∣ (superblock size).nrBlocks ∨ (superblock size).nrInodes = 0 := by
  rcases superblock_nrInodes_cases size with h | ⟨y, h1, h2, hb, h⟩ <;> omega

/-- **The inodes are never accounted for**, whatever the size of the partition; and the inode store
has no partial block only if the number of blocks is a multiple of 51, or the sum wraps to 0. -/
theorem mkfs_inodes_wrong (h : writeIfreeBlocks (superblock size) fd = .ok (true, fd')) :
    ¬InodesAccounted (superblock size) (storedMap fd'.block fd.pos) ∧
      ((superblock size).nrInodes ≠ 0 → (superblock size).nrFreeInodes =
        countBits (storedMap fd'.block fd.pos) (superblock size).nrInodes + 1) ∧
      (51 ∣ (superblock size).nrInodes ↔
        51 ∣ (superblock size).nrBlocks ∨ (superblock size).nrInodes = 0) := by
  have hfree := superblock_nrFreeInodes h
  refine ⟨fun hacc => ?_, fun h0 => ?_, superblock_whole_iff size⟩
  · have hright := hacc.free
    by_cases h0 : (superblock size).nrInodes = 0
    · rw [if_pos h0] at hfree
      rw [h0, countBits_eq_zero_iff.2 fun j hj => absurd hj (Nat.not_lt_zero j), hfree] at hright
      cases hright
    · rw [if_neg h0] at hfree
      omega
  · rw [hfree, if_neg h0]

end Inodes

/-- The inode bitmap of the smallest partition can be written. -/
theorem writeIfreeBlocks_zeroFile :
    ∃ fd', writeIfreeBlocks (superblock 409600) (zeroFile 409600) = .ok (true, fd') := by
  obtain ⟨fd', hrun, -⟩ := @writeRegion_ok (zeroFile 409600) (setDword ones 0 0xfffffffffffffffc)
    (setDword (setDword ones 0 0xfffffffffffffffc) 0 0xffffffffffffffff)
    (superblock 409600).nrIfreeBlocks rfl
  exact ⟨fd', hrun⟩

/-- The smallest partition has 100 blocks and 149 inodes, of which 147 are free. -/
theorem writeIfreeBlocks_smallest :
    ∃ fd', writeIfreeBlocks (superblock 409600) (zeroFile 409600) = .ok (true, fd') ∧
      (superblock 409600).nrInodes = 149 ∧ (superblock 409600).nrFreeInodes = 148 ∧
      countBits (storedMap fd'.block 0) (superblock 409600).nrInodes = 147 ∧
      ¬InodesAccounted (superblock 409600) (storedMap fd'.block 0) := by
  obtain ⟨fd', hrun⟩ := writeIfreeBlocks_zeroFile
  exact ⟨fd', hrun, by decide, by decide, (writeIfreeBlocks_count hrun).trans (by decide),
    fun hacc => absurd hacc.whole (by decide)⟩

theorem mkfs_inodes_wrong_smallest :
    ∃ fd', writeIfreeBlocks (superblock 409600) (zeroFile 409600) = .ok (true, fd') ∧
      (superblock 409600).nrFreeInodes =
        countBits (storedMap fd'.block 0) (superblock 409600).nrInodes + 1 := by
  obtain ⟨fd', hrun⟩ := writeIfreeBlocks_zeroFile
  exact ⟨fd', hrun, (mkfs_inodes_wrong hrun).2.1 (by decide)⟩

/-! ## Blocks -/

/-- What `write_superblock` and `write_bfree_blocks` rely on: the number of blocks fits into 32
bits, there are data blocks, and the used blocks fit into one block of the bitmap. -/
structure MkfsHandles (size : Nat) : Prop where
  blocks : (superblock size).nrBlocks = size / 4096
  data : 1 + (superblock size).nrIstoreBlocks + (superblock size).nrIfreeBlocks +
    (superblock size).nrBfreeBlocks ≤ (superblock size).nrBlocks
  lines : ∀ fd, writeBfreeBlocks (superblock size) fd ≠ .error .outOfBounds

section Blocks

variable {size : Nat} {fd : Fd}

/-- **The `while` loop** runs over the end of the block if more bits are to be cleared than it
has. -/
theorem clearLines_overrun : ∀ (fuel i nrUsed : Nat) (b : Block), fuel + i = 513 → i ≤ 512 →
    32768 < 64 * i + nrUsed → clearLines fuel i nrUsed b = .error .outOfBounds := by
  intro fuel
  induction fuel with
  | zero => intro i nrUsed b hi hle; omega
  | succ fuel ih =>
      intro i nrUsed b hi hle hlt
      obtain ⟨line, hrun, -⟩ := clearMask_spec 65 0 0xffffffffffffffff nrUsed rfl (by omega)
      have hrun' : clearMask 65 1 0xffffffffffffffff nrUsed = (line, nrUsed - 64) := hrun
      unfold clearLines
      rw [if_neg (by omega), hrun']
      by_cases hi512 : i < 512
      · simp only [if_pos hi512]
        exact ih (i + 1) (nrUsed - 64) _ (by omega) (by omega) (by omega)
      · simp only [if_neg hi512]

/-- A region is written without a crash if its first block is built without one. -/
theorem writeRegion_ne_error {first : Except Crash Block} {other b : Block} {nr : Nat} {e : Crash}
    (h : first = .ok b) : writeRegion first other nr fd ≠ .error e := by
  intro he
  unfold writeRegion at he
  rw [h] at he
  split at he
  · cases he
  · simp only at he
    split at he <;> cases he

/-- The three regions and the two blocks beside them, as `write_bfree_blocks` counts them. -/
theorem superblock_nrUsed (size : Nat) :
    add32 (add32 (add32 (superblock size).nrIstoreBlocks (superblock size).nrIfreeBlocks)
      (superblock size).nrBfreeBlocks) 2 = (superblock size).nrIstoreBlocks +
        (superblock size).nrIfreeBlocks + (superblock size).nrBfreeBlocks + 2 := by
  have hn : (superblock size).nrBlocks < 4294967296 := Nat.mod_lt _ (by decide)
  have hi : (superblock size).nrInodes < 4294967296 := by
    rw [superblock_nrInodes]
    omega
  have hI : 51 * (superblock size).nrIstoreBlocks < (superblock size).nrInodes + 51 :=
    (idivCeil_spec hi (by decide)).2
  have hF : 32768 * (superblock size).nrIfreeBlocks < (superblock size).nrInodes + 32768 :=
    (idivCeil_spec hi (by decide)).2
  have hB : 32768 * (superblock size).nrBfreeBlocks < (superblock size).nrBlocks + 32768 :=
    (idivCeil_spec hn (by decide)).2
  rw [add32_of_lt (a := (superblock size).nrIstoreBlocks) (by omega),
    add32_of_lt (b := (superblock size).nrBfreeBlocks) (by omega), add32_of_lt (by omega)]

/-- **The buffer is large enough** exactly if the used blocks fit into one block of the bitmap. -/
theorem writeBfreeBlocks_lines_iff :
    (∀ fd, writeBfreeBlocks (superblock size) fd ≠ .error .outOfBounds) ↔
      (superblock size).Fits := by
  constructor
  · intro h
    by_contra hlarge
    unfold Superblock.Fits at hlarge
    have hover := clearLines_overrun 513 0 (add32 (add32 (add32 (superblock size).nrIstoreBlocks
      (superblock size).nrIfreeBlocks) (superblock size).nrBfreeBlocks) 2) ones rfl (by omega)
      (by rw [superblock_nrUsed]; omega)
    refine h (zeroFile size) ?_
    unfold writeBfreeBlocks writeRegion
    rw [Fd.call_ok rfl]
    simp only [hover]
  · intro hfits fd
    obtain ⟨b, hb, -⟩ := clearLines_ones hfits
    unfold writeBfreeBlocks
    exact writeRegion_ne_error hb

/-- From 1665839 blocks on the metadata need more than 32768 bits, but for one number. -/
theorem superblock_fits_iff (hlt : size / 4096 < 4294967296) :
    (superblock size).Fits ↔ size / 4096 ≤ 1665838 ∨ size / 4096 = 1665864 := by
  have hn : (superblock size).nrBlocks = size / 4096 := Nat.mod_eq_of_lt hlt
  have hi : (superblock size).nrInodes < 4294967296 := by
    rw [superblock_nrInodes]
    omega
  have hI : (superblock size).nrInodes ≤ 51 * (superblock size).nrIstoreBlocks ∧
      51 * (superblock size).nrIstoreBlocks < (superblock size).nrInodes + 51 :=
    idivCeil_spec hi (by decide)
  have hF : (superblock size).nrInodes ≤ 32768 * (superblock size).nrIfreeBlocks ∧
      32768 * (superblock size).nrIfreeBlocks < (superblock size).nrInodes + 32768 :=
    idivCeil_spec hi (by decide)
  have hB : (superblock size).nrBlocks ≤ 32768 * (superblock size).nrBfreeBlocks ∧
      32768 * (superblock size).nrBfreeBlocks < (superblock size).nrBlocks + 32768 :=
    idivCeil_spec (by omega) (by decide)
  unfold Superblock.Fits
  rcases superblock_nrInodes_cases size with h | ⟨y, h1, h2, hb, h⟩
  · rw [hn] at h hB
    rw [h] at hI hF
    generalize size / 4096 = n at *
    have hq := Nat.div_add_mod n 51
    have hr : n % 51 < 51 := Nat.mod_lt _ (by decide)
    generalize n / 51 = q at *
    generalize n % 51 = r at *
    -- two remainders more than half of 51 take one more block of the inode store
    constructor
    · intro hle
      by_contra hno
      have hq' : q = 32663 ∧ 26 ≤ r ∨ q = 32664 ∧ 1 ≤ r ∨ 32665 ≤ q := by omega
      have h1 : 32665 ≤ (superblock size).nrIstoreBlocks := by
        rcases hq' with ⟨rfl, h26⟩ | ⟨rfl, h1⟩ | h65 <;> omega
      have h2 : 51 ≤ (superblock size).nrIfreeBlocks := by omega
      have h3 : 51 ≤ (superblock size).nrBfreeBlocks := by omega
      omega
    · intro hle
      have hq' : q ≤ 32662 ∨ q = 32663 ∧ r ≤ 25 ∨ q = 32664 ∧ r = 0 := by omega
      have h1 : (superblock size).nrIstoreBlocks ≤ 32664 := by
        rcases hq' with h62 | ⟨rfl, h25⟩ | ⟨rfl, rfl⟩ <;> omega
      have h2 : (superblock size).nrIfreeBlocks ≤ 51 := by omega
      have h3 : (superblock size).nrBfreeBlocks ≤ 51 := by omega
      omega
  · omega

/-- **`mkfs` handles** the partitions of at most 1665838 blocks, and those of 1665864 blocks. -/
theorem mkfs_handles_iff (hsize : 409600 ≤ size) :
    MkfsHandles size ↔ size / 4096 ≤ 1665838 ∨ size / 4096 = 1665864 := by
  constructor
  · intro h
    have hlt : (superblock size).nrBlocks < 4294967296 := Nat.mod_lt _ (by decide)
    rw [h.blocks] at hlt
    exact (superblock_fits_iff hlt).1 (writeBfreeBlocks_lines_iff.1 h.lines)
  · intro h
    have hlt : size / 4096 < 4294967296 := by omega
    have hn : (superblock size).nrBlocks = size / 4096 := Nat.mod_eq_of_lt hlt
    have hfits := (superblock_fits_iff hlt).2 h
    have hs := superblock_sized hfits (by omega)
    exact ⟨hn, hs.meta_lt.le, writeBfreeBlocks_lines_iff.2 hfits⟩

theorem mkfs_handles_iff_smallest : MkfsHandles 409600 :=
  (mkfs_handles_iff (Nat.le_refl _)).2 (Or.inl (by decide))

/-- With 1665839 blocks (6.4 GiB) the bitmap of the used blocks is written past its buffer. -/
theorem writeBfreeBlocks_overrun : 409600 ≤ 6823276544 ∧
    writeBfreeBlocks (superblock 6823276544) (zeroFile 6823276544) = .error .outOfBounds ∧
    ¬MkfsHandles 6823276544 := by
  have hover := clearLines_overrun 513 0 (add32 (add32 (add32
    (superblock 6823276544).nrIstoreBlocks (superblock 6823276544).nrIfreeBlocks)
    (superblock 6823276544).nrBfreeBlocks) 2) ones rfl (by decide) (by decide)
  have hrun : writeBfreeBlocks (superblock 6823276544) (zeroFile 6823276544) =
      .error .outOfBounds := by
    unfold writeBfreeBlocks writeRegion
    rw [Fd.call_ok rfl]
    simp only [hover]
  exact ⟨by decide, hrun, fun h => h.lines _ hrun⟩

end Blocks

end Ouichefs
