import Ouichefs.State

/-!
# Free bitmaps (`bitmap.h`)

`get_free_block` and `get_free_inode` take the first set bit and clear it; 0 is returned when
there is none.  `put_block` and `put_inode` set a bit.  The counters are kept beside the bitmaps.
-/

set_option autoImplicit false

namespace Ouichefs

open FreeMap

/-- `get_first_free_bit`. -/
def getFirstFreeBit (freemap : Nat → Bool) (size : Nat) : Nat × (Nat → Bool) :=
  let ino := firstBit freemap size
  if ino = size then (0, freemap) else (ino, Function.update freemap ino false)

/-- `put_free_bit`: `none` when `i` is rejected. -/
def putFreeBit (freemap : Nat → Bool) (size i : Nat) : Option (Nat → Bool) :=
  if i > size then none else some (Function.update freemap i true)

namespace SbInfo

/-- `get_free_inode`. -/
def getFreeInode (sbi : SbInfo) : Nat × SbInfo :=
  let (ret, map) := getFirstFreeBit sbi.ifreeBitmap sbi.nrInodes
  let sbi := { sbi with ifreeBitmap := map }
  if ret ≠ 0 then (ret, { sbi with nrFreeInodes := sub32 sbi.nrFreeInodes 1 }) else (ret, sbi)

/-- `get_free_block`. -/
def getFreeBlock (sbi : SbInfo) : Nat × SbInfo :=
  let (ret, map) := getFirstFreeBit sbi.bfreeBitmap sbi.nrBlocks
  let sbi := { sbi with bfreeBitmap := map }
  if ret ≠ 0 then (ret, { sbi with nrFreeBlocks := sub32 sbi.nrFreeBlocks 1 }) else (ret, sbi)

/-- `put_inode`. -/
def putInode (sbi : SbInfo) (ino : Nat) : SbInfo :=
  match putFreeBit sbi.ifreeBitmap sbi.nrInodes ino with
  | none => sbi
  | some map => { sbi with ifreeBitmap := map, nrFreeInodes := add32 sbi.nrFreeInodes 1 }

/-- `put_block`. -/
def putBlock (sbi : SbInfo) (bno : Nat) : SbInfo :=
  match putFreeBit sbi.bfreeBitmap sbi.nrBlocks bno with
  | none => sbi
  | some map => { sbi with bfreeBitmap := map, nrFreeBlocks := add32 sbi.nrFreeBlocks 1 }

end SbInfo

namespace Kernel

/-- `get_free_block` on the mounted superblock. -/
def getFreeBlock (k : Kernel) : Nat × Kernel :=
  let (ret, sbi) := k.fs.sbi.getFreeBlock
  let k := k.setSbi sbi
  if ret = 0 then (0, k.log .noFreeBlock) else (ret, k)

/-- `put_block` on the mounted superblock. -/
def putBlock (k : Kernel) (bno : Nat) : Kernel := k.setSbi (k.fs.sbi.putBlock bno)

/-- `get_free_inode` on the mounted superblock. -/
def getFreeInode (k : Kernel) : Nat × Kernel :=
  let (ret, sbi) := k.fs.sbi.getFreeInode
  (ret, k.setSbi sbi)

/-- `put_inode` on the mounted superblock. -/
def putInode (k : Kernel) (ino : Nat) : Kernel := k.setSbi (k.fs.sbi.putInode ino)

end Kernel

/-! ## What the allocator does -/

theorem sub32_of_le {a b : Nat} (ha : a < 4294967296) (h : b ≤ a) : sub32 a b = a - b := by
  unfold sub32
  omega

theorem add32_of_lt {a b : Nat} (h : a + b < 4294967296) : add32 a b = a + b :=
  Nat.mod_eq_of_lt h

/-- A counter that is counted up is another one. -/
theorem add32_one_ne (n : Nat) : add32 n 1 ≠ n := by
  unfold add32
  omega

theorem add32_sub32 {n : Nat} (h : n < 4294967296) : add32 (sub32 n 1) 1 = n := by
  unfold add32 sub32
  omega

/-- With bit 0 clear, the least set bit is taken, or nothing changes. -/
theorem getFirstFreeBit_cases {freemap : Nat → Bool} (size : Nat) (h0 : freemap 0 = false) :
    (∃ b, 0 < b ∧ b < size ∧ freemap b = true ∧ (∀ j < b, freemap j = false) ∧
      getFirstFreeBit freemap size = (b, Function.update freemap b false)) ∨
    ((∀ b < size, freemap b = false) ∧ getFirstFreeBit freemap size = (0, freemap)) := by
  unfold getFirstFreeBit
  by_cases hf : firstBit freemap size = size
  · rw [if_pos hf]
    exact Or.inr ⟨firstBit_eq_size_iff.1 hf, rfl⟩
  · obtain ⟨hb, hset, hleast⟩ := firstBit_lt hf
    have hpos : firstBit freemap size ≠ 0 := by
      intro h
      rw [h, h0] at hset
      cases hset
    rw [if_neg hf]
    exact Or.inl ⟨_, Nat.pos_of_ne_zero hpos, hb, hset, hleast, rfl⟩

/-- With bit 0 clear, `get_free_block` takes the least free block, or logs the failure and changes
nothing. -/
theorem Kernel.getFreeBlock_bits {k : Kernel} (h0 : k.fs.sbi.bfreeBitmap 0 = false) :
    (∃ b, 0 < b ∧ b < k.fs.sbi.nrBlocks ∧ k.fs.sbi.bfreeBitmap b = true ∧
      (∀ j < b, k.fs.sbi.bfreeBitmap j = false) ∧
      k.getFreeBlock = (b, k.setSbi { k.fs.sbi with
        bfreeBitmap := Function.update k.fs.sbi.bfreeBitmap b false,
        nrFreeBlocks := sub32 k.fs.sbi.nrFreeBlocks 1 })) ∨
    ((∀ b < k.fs.sbi.nrBlocks, k.fs.sbi.bfreeBitmap b = false) ∧
      k.getFreeBlock = (0, k.log .noFreeBlock)) := by
  unfold Kernel.getFreeBlock SbInfo.getFreeBlock
  rcases getFirstFreeBit_cases k.fs.sbi.nrBlocks h0 with
    ⟨b, hpos, hb, hset, hleast, heq⟩ | ⟨hno, heq⟩
  · refine Or.inl ⟨b, hpos, hb, hset, hleast, ?_⟩
    simp [heq, Nat.pos_iff_ne_zero.1 hpos]
  · refine Or.inr ⟨hno, ?_⟩
    simp [heq]
    rfl

/-- With an exact counter there is no wrap-around. -/
theorem Kernel.getFreeBlock_cases {k : Kernel} (h0 : k.fs.sbi.bfreeBitmap 0 = false)
    (hlt : k.fs.sbi.nrBlocks < 4294967296)
    (hc : k.fs.sbi.nrFreeBlocks = countBits k.fs.sbi.bfreeBitmap k.fs.sbi.nrBlocks) :
    (∃ b, 0 < b ∧ b < k.fs.sbi.nrBlocks ∧ k.fs.sbi.bfreeBitmap b = true ∧
      k.getFreeBlock = (b, k.setSbi { k.fs.sbi with
        bfreeBitmap := Function.update k.fs.sbi.bfreeBitmap b false,
        nrFreeBlocks := k.fs.sbi.nrFreeBlocks - 1 })) ∨
    ((∀ b < k.fs.sbi.nrBlocks, k.fs.sbi.bfreeBitmap b = false) ∧
      k.getFreeBlock = (0, k.log .noFreeBlock)) := by
  rcases Kernel.getFreeBlock_bits h0 with ⟨b, hpos, hb, hset, -, heq⟩ | hnone
  · have hcount : 0 < k.fs.sbi.nrFreeBlocks := by
      rw [hc]
      exact countBits_pos_iff.2 ⟨_, hb, hset⟩
    have hle := countBits_le k.fs.sbi.bfreeBitmap k.fs.sbi.nrBlocks
    rw [sub32_of_le (by omega) hcount] at heq
    exact Or.inl ⟨b, hpos, hb, hset, heq⟩
  · exact Or.inr hnone

/-- With bit 0 clear, `get_free_inode` takes the least free inode, or changes nothing. -/
theorem Kernel.getFreeInode_cases {k : Kernel} (h0 : k.fs.sbi.ifreeBitmap 0 = false) :
    (∃ ino, ino ≠ 0 ∧ ino < k.fs.sbi.nrInodes ∧ k.fs.sbi.ifreeBitmap ino = true ∧
      (∀ j < ino, k.fs.sbi.ifreeBitmap j = false) ∧
      k.getFreeInode = (ino, k.setSbi { k.fs.sbi with
        ifreeBitmap := Function.update k.fs.sbi.ifreeBitmap ino false,
        nrFreeInodes := sub32 k.fs.sbi.nrFreeInodes 1 })) ∨
    ((∀ i < k.fs.sbi.nrInodes, k.fs.sbi.ifreeBitmap i = false) ∧ k.getFreeInode = (0, k)) := by
  unfold Kernel.getFreeInode SbInfo.getFreeInode
  rcases getFirstFreeBit_cases k.fs.sbi.nrInodes h0 with
    ⟨b, hpos, hb, hset, hleast, heq⟩ | ⟨hno, heq⟩
  · have hne := Nat.pos_iff_ne_zero.1 hpos
    refine Or.inl ⟨b, hne, hb, hset, hleast, ?_⟩
    simp [heq, hne]
  · refine Or.inr ⟨hno, ?_⟩
    simp [heq]
    rfl

/-- Bits at or above the size do not matter. -/
theorem getFirstFreeBit_congr {freemap freemap' : Nat → Bool} {size : Nat}
    (h : ∀ j < size, freemap' j = freemap j) :
    (getFirstFreeBit freemap' size).1 = (getFirstFreeBit freemap size).1 ∧
      ∀ j < size, (getFirstFreeBit freemap' size).2 j = (getFirstFreeBit freemap size).2 j := by
  unfold getFirstFreeBit
  rw [firstBit_congr h]
  by_cases hf : firstBit freemap size = size
  · simp only [hf, if_true]
    exact ⟨trivial, h⟩
  · simp only [hf, if_false]
    refine ⟨trivial, fun j hj => ?_⟩
    simp only [Function.update_apply]
    rw [h j hj]

/-- Only a number below the size is taken, and only its bit changes. -/
theorem getFirstFreeBit_below (freemap : Nat → Bool) (size : Nat) :
    ((getFirstFreeBit freemap size).1 ≠ 0 → (getFirstFreeBit freemap size).1 < size) ∧
      ∀ i, size ≤ i → (getFirstFreeBit freemap size).2 i = freemap i := by
  unfold getFirstFreeBit
  by_cases hf : firstBit freemap size = size
  · simp only [hf, if_true]
    exact ⟨fun h => absurd rfl h, fun _ _ => trivial⟩
  · obtain ⟨hlt, -, -⟩ := firstBit_lt hf
    simp only [hf, if_false]
    refine ⟨fun _ => hlt, fun i hi => Function.update_of_ne ?_ _ _⟩
    exact Nat.ne_of_gt (Nat.lt_of_lt_of_le hlt hi)

/-- The least set bit is taken. -/
theorem getFirstFreeBit_eq_iff {freemap : Nat → Bool} {size b : Nat} (hb : 0 < b) :
    (getFirstFreeBit freemap size).1 = b ↔
      b < size ∧ freemap b = true ∧ ∀ j < b, freemap j = false := by
  unfold getFirstFreeBit
  constructor
  · intro h
    by_cases hf : firstBit freemap size = size
    · rw [if_pos hf] at h
      omega
    · rw [if_neg hf] at h
      obtain rfl : firstBit freemap size = b := h
      exact firstBit_lt hf
  · rintro ⟨hlt, hset, hleast⟩
    have hfirst := firstBit_eq hlt hset hleast
    rw [if_neg (by omega)]
    exact hfirst

theorem SbInfo.getFreeBlock_fst (sbi : SbInfo) :
    sbi.getFreeBlock.1 = (getFirstFreeBit sbi.bfreeBitmap sbi.nrBlocks).1 := by
  unfold SbInfo.getFreeBlock
  simp only
  split <;> rfl

theorem SbInfo.getFreeBlock_lt {sbi : SbInfo} (h0 : sbi.getFreeBlock.1 ≠ 0) :
    sbi.getFreeBlock.1 < sbi.nrBlocks := by
  rw [getFreeBlock_fst] at h0 ⊢
  exact (getFirstFreeBit_below _ _).1 h0

theorem Kernel.getFreeBlock_fst (k : Kernel) :
    k.getFreeBlock.1 = k.fs.sbi.getFreeBlock.1 := by
  unfold Kernel.getFreeBlock
  simp only
  split
  · rename_i h0
    exact h0.symm
  · rfl

theorem Kernel.getFreeBlock_lt (k : Kernel) (h : k.getFreeBlock.1 ≠ 0) :
    k.getFreeBlock.1 < k.fs.sbi.nrBlocks := by
  rw [getFreeBlock_fst] at h ⊢
  exact SbInfo.getFreeBlock_lt h

theorem Kernel.faults_getFreeBlock (k : Kernel) : k.getFreeBlock.2.faults = k.faults := by
  unfold Kernel.getFreeBlock
  simp only
  split <;> rfl

theorem putFreeBit_of_gt (freemap : Nat → Bool) {size i : Nat} (h : i > size) :
    putFreeBit freemap size i = none :=
  if_pos h

theorem putFreeBit_eq (freemap : Nat → Bool) {size i : Nat} (h : i ≤ size) :
    putFreeBit freemap size i = some (Function.update freemap i true) :=
  if_neg (Nat.not_lt.2 h)

/-- `put_block` of an existing block. -/
theorem Kernel.putBlock_eq {k : Kernel} {bno : Nat} (h : bno ≤ k.fs.sbi.nrBlocks) :
    k.putBlock bno = k.setSbi { k.fs.sbi with
      bfreeBitmap := Function.update k.fs.sbi.bfreeBitmap bno true,
      nrFreeBlocks := add32 k.fs.sbi.nrFreeBlocks 1 } := by
  unfold Kernel.putBlock SbInfo.putBlock
  rw [putFreeBit_eq _ h]

end Ouichefs
