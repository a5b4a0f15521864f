import Ouichefs.Mkfs
import Ouichefs.Run
import Ouichefs.Sync
import Mathlib.Order.Interval.Finset.Nat

/-!
# Formatting and mount

`mkfs` places its regions by writing them one after the other; `ouichefs_fill_super` and
`ouichefs_iget` find them by arithmetic on the counters of the superblock.  `Image` says which block
holds what after `mkfs`, and a mount of that image is a `Formatted` file system.  Both sides agree
for every partition whose number of blocks, in 32 bits, is at least 5.
-/

set_option autoImplicit false

namespace Ouichefs

open FreeMap

/-! ## Writing -/

section Writing

variable {fd fd' fd'' : Fd} {n m : Nat} {content content' : Nat → Block} {first other b : Block}

/-- `n` blocks were written from the position on. -/
structure Wrote (fd : Fd) (n : Nat) (content : Nat → Block) (fd' : Fd) : Prop where
  size : fd'.size = fd.size
  pos : fd'.pos = fd.pos + n
  new : ∀ i < n, fd'.block (fd.pos + i) = content i
  old : ∀ x, (x < fd.pos ∨ fd.pos + n ≤ x) → fd'.block x = fd.block x

theorem Wrote.zero (hs : fd'.size = fd.size) (hp : fd'.pos = fd.pos)
    (hb : fd'.block = fd.block) : Wrote fd 0 content fd' where
  size := hs
  pos := hp
  new i hi := by omega
  old x _ := by rw [hb]

/-- One write after another. -/
theorem Wrote.append (h : Wrote fd n content fd') (h' : Wrote fd' m content' fd'') :
    Wrote fd (n + m) (fun i => if i < n then content i else content' (i - n)) fd'' where
  size := h'.size.trans h.size
  pos := by rw [h'.pos, h.pos, Nat.add_assoc]
  new i hi := by
    have hpos := h.pos
    by_cases hlt : i < n
    · rw [if_pos hlt, h'.old _ (by omega), h.new i hlt]
    · rw [if_neg hlt, ← h'.new (i - n) (by omega), hpos]
      congr 1
      omega
  old x hx := by
    have hpos := h.pos
    rw [h'.old x (by omega), h.old x (by omega)]

theorem Wrote.congr (h : Wrote fd n content fd') (hc : ∀ i < n, content i = content' i) :
    Wrote fd n content' fd' where
  size := h.size
  pos := h.pos
  new i hi := by rw [h.new i hi, hc i hi]
  old := h.old

theorem Fd.call_ok (hf : fd.faults = []) : fd.call = (true, fd) := by
  unfold Fd.call
  rw [hf]

theorem Fd.call_same (h : fd.call = (true, fd')) :
    fd'.size = fd.size ∧ fd'.pos = fd.pos ∧ fd'.block = fd.block := by
  unfold Fd.call at h
  split at h
  · cases h
    exact ⟨rfl, rfl, rfl⟩
  · cases h
    exact ⟨rfl, rfl, rfl⟩
  · cases h

theorem Fd.call_true (content : Nat → Block) (h : fd.call = (true, fd')) :
    Wrote fd 0 content fd' := by
  obtain ⟨hs, hp, hb⟩ := Fd.call_same h
  exact Wrote.zero hs hp hb

theorem Fd.write_ok (hf : fd.faults = []) :
    ∃ fd', fd.write b = (true, fd') ∧ fd'.faults = [] := by
  unfold Fd.write
  rw [hf]
  exact ⟨_, rfl, rfl⟩

theorem Fd.write_true (h : fd.write b = (true, fd')) : Wrote fd 1 (fun _ => b) fd' := by
  have hput : ∀ l : List Answer, Wrote fd 1 (fun _ => b)
      { fd with block := Function.update fd.block fd.pos b, pos := fd.pos + 1, faults := l } := by
    intro l
    refine ⟨rfl, rfl, fun i hi => ?_, fun x hx => Function.update_of_ne (by omega) _ _⟩
    rw [show fd.pos + i = fd.pos by omega]
    exact Function.update_self ..
  unfold Fd.write at h
  split at h
  · cases h
    exact hput _
  · cases h
    exact hput _
  · cases h

theorem writeMore_ok : ∀ (n : Nat) (fd : Fd), fd.faults = [] →
    ∃ fd', writeMore b n fd = (true, fd') ∧ fd'.faults = [] := by
  intro n
  induction n with
  | zero => intro fd hf; exact ⟨fd, rfl, hf⟩
  | succ n ih =>
      intro fd hf
      obtain ⟨fd', hw, hf'⟩ := Fd.write_ok (b := b) hf
      unfold writeMore
      rw [hw]
      exact ih fd' hf'

theorem writeMore_true : ∀ (n : Nat) (fd : Fd), writeMore b n fd = (true, fd') →
    Wrote fd n (fun _ => b) fd' := by
  intro n
  induction n with
  | zero =>
      intro fd h
      cases h
      exact Wrote.zero rfl rfl rfl
  | succ n ih =>
      intro fd h
      unfold writeMore at h
      split at h
      · cases h
      · rename_i hw
        have hall := (Fd.write_true hw).append (ih _ h)
        rw [Nat.add_comm n 1]
        exact hall.congr fun i _ => ite_self _

theorem writeRegion_ok (first other : Block) (nr : Nat) (hf : fd.faults = []) :
    ∃ fd', writeRegion (.ok first) other nr fd = .ok (true, fd') ∧ fd'.faults = [] := by
  obtain ⟨fd₁, hw, hf₁⟩ := Fd.write_ok (b := first) hf
  obtain ⟨fd₂, hm, hf₂⟩ := writeMore_ok (b := other) (nr - 1) fd₁ hf₁
  refine ⟨fd₂, ?_, hf₂⟩
  unfold writeRegion
  rw [Fd.call_ok hf]
  simp only [hw, hm]

/-- **A region**: its first block, then the others. -/
theorem writeRegion_true {nr : Nat} (h : writeRegion (.ok first) other nr fd = .ok (true, fd'))
    (hnr : 1 ≤ nr) : Wrote fd nr (fun i => if i = 0 then first else other) fd' := by
  unfold writeRegion at h
  split at h
  · cases h
  · rename_i hc
    simp only at h
    split at h
    · cases h
    · rename_i fd₂ hw
      have hm : writeMore other (nr - 1) fd₂ = (true, fd') := Except.ok.inj h
      have hall := ((Fd.call_true (fun _ => first) hc).append
        (Fd.write_true hw)).append (writeMore_true _ _ hm)
      rw [show 0 + 1 + (nr - 1) = nr by omega] at hall
      refine hall.congr fun i _ => ?_
      by_cases hi : i = 0
      · rw [if_pos (by omega), if_neg (by omega), if_pos hi]
      · rw [if_neg (by omega), if_neg hi]

theorem writeRegion_first {run : Except Crash Block} {nr : Nat}
    (h : writeRegion run other nr fd = .ok (true, fd')) :
    ∃ first, run = .ok first ∧ writeRegion (.ok first) other nr fd = .ok (true, fd') := by
  cases run with
  | ok first => exact ⟨first, rfl, h⟩
  | error e =>
      unfold writeRegion at h
      split at h
      · cases h
      · cases h

theorem writeSuperblock_some {size : Nat} {sb : Superblock}
    (h : writeSuperblock size fd = (some sb, fd')) :
    sb = superblock size ∧ Wrote fd 1 (fun _ => (superblock size).page) fd' := by
  unfold writeSuperblock at h
  split at h
  · cases h
  · rename_i hc
    simp only at h
    split at h
    · cases h
    · rename_i hw
      cases h
      refine ⟨rfl, ?_⟩
      have hall := (Fd.call_true (fun _ => (superblock size).page) hc).append
        (Fd.write_true hw)
      exact hall.congr fun i _ => if_neg (Nat.not_lt_zero i)

end Writing

/-! ## Bitmap blocks -/

section Bits

theorem blockBit_ones {x : Nat} (hx : x < 32768) : blockBit ones x = true := by
  have hget : ∀ i < 4096, ones.get i = 0xff := by
    intro i hi
    unfold ones
    rw [Page.get_ofFn, if_pos hi]
  have hword : ones.word (4 * (x / 32)) = 2 ^ 32 - 1 := by
    unfold Page.word
    rw [hget _ (by omega), hget _ (by omega), hget _ (by omega), hget _ (by omega)]
    rfl
  unfold blockBit
  rw [hword, Nat.testBit_two_pow_sub_one]
  simp only [decide_eq_true_eq]
  omega

/-- **The `for` loop** from mask `1 << s` on clears `nrUsed` bits, or all that are left. -/
theorem clearMask_spec : ∀ (fuel s : Nat) (line : BitVec 64) (nrUsed : Nat), fuel + s = 65 →
    0 < nrUsed → ∃ line', clearMask fuel (1#64 <<< s) line nrUsed = (line', nrUsed - (64 - s)) ∧
      ∀ t < 64, line'.getLsbD t = (line.getLsbD t && decide (t < s ∨ s + nrUsed ≤ t)) := by
  intro fuel
  induction fuel with
  | zero =>
      intro s line nrUsed hs hpos
      refine ⟨line, by rw [clearMask, show 64 - s = 0 by omega]; rfl, fun t ht => ?_⟩
      rw [decide_eq_true (by omega), Bool.and_true]
  | succ fuel ih =>
      intro s line nrUsed hs hpos
      unfold clearMask
      by_cases hend : s = 64
      · subst hend
        refine ⟨line, by simp, fun t ht => ?_⟩
        rw [decide_eq_true (by omega), Bool.and_true]
      · have hmask : 1#64 <<< s ≠ 0 := by
          intro h
          have hbit := congrArg (BitVec.getLsbD · s) h
          simp at hbit
          omega
        have hclear : ∀ t < 64, (line &&& ~~~(1#64 <<< s)).getLsbD t =
            (line.getLsbD t && decide (t ≠ s)) := by
          intro t ht
          have hone : (1#64 <<< s).getLsbD t = decide (t = s) := by
            rw [BitVec.getLsbD_shiftLeft, BitVec.getLsbD_one]
            by_cases hts : t = s
            · simp [hts]; omega
            · simp only [hts, decide_false]
              by_cases hlt : t < s
              · simp [hlt]
              · simp [show t - s ≠ 0 by omega]
          rw [BitVec.getLsbD_and, BitVec.getLsbD_not, hone]
          simp [ht]
        rw [if_neg hmask]
        by_cases hlast : nrUsed - 1 = 0
        · simp only [hlast, if_true]
          refine ⟨_, by rw [show nrUsed - (64 - s) = 0 by omega], fun t ht => ?_⟩
          rw [hclear t ht]
          congr 2
          simp only [eq_iff_iff]
          omega
        · simp only [hlast, if_false]
          obtain ⟨line', hrun, hbits⟩ :=
            ih (s + 1) (line &&& ~~~(1#64 <<< s)) (nrUsed - 1) (by omega) (by omega)
          rw [← BitVec.shiftLeft_add, hrun]
          refine ⟨line', by rw [show nrUsed - 1 - (64 - (s + 1)) = nrUsed - (64 - s) by omega],
            fun t ht => ?_⟩
          rw [hbits t ht, hclear t ht, Bool.and_assoc, ← Bool.decide_and]
          congr 2
          simp only [eq_iff_iff]
          omega

/-- **The `while` loop** clears the first `nrUsed` bits from line `i` on. -/
theorem clearLines_spec : ∀ (fuel i nrUsed : Nat) (b : Block), fuel + i = 513 →
    64 * i + nrUsed ≤ 32768 → (∀ x, 64 * i ≤ x → x < 32768 → blockBit b x = true) →
    ∃ b', clearLines fuel i nrUsed b = .ok b' ∧ ∀ x < 32768, blockBit b' x =
      if x < 64 * i then blockBit b x else decide (64 * i + nrUsed ≤ x) := by
  intro fuel
  induction fuel with
  | zero => intro i nrUsed b hi hle; omega
  | succ fuel ih =>
      intro i nrUsed b hi hle hb
      unfold clearLines
      by_cases hdone : nrUsed = 0
      · refine ⟨b, by rw [if_pos hdone], fun x hx => ?_⟩
        split
        · rfl
        · rw [hb x (by omega) hx, decide_eq_true (by omega)]
      · obtain ⟨line, hrun, hbits⟩ := clearMask_spec 65 0 0xffffffffffffffff nrUsed rfl (by omega)
        have hline : ∀ t < 64, line.getLsbD t = decide (nrUsed ≤ t) := by
          intro t ht
          have hall : (0xffffffffffffffff : BitVec 64).getLsbD t = true := by
            have hones : (BitVec.allOnes 64).getLsbD t = decide (t < 64) := BitVec.getLsbD_allOnes
            rw [decide_eq_true ht] at hones
            exact hones
          rw [hbits t ht, hall, Bool.true_and]
          congr 1
          simp only [eq_iff_iff]
          omega
        have hrun' : clearMask 65 1 0xffffffffffffffff nrUsed = (line, nrUsed - 64) := hrun
        rw [if_neg hdone, hrun']
        have hilt : i < 512 := by omega
        have hset : ∀ x, blockBit (setDword b (8 * i) line.toNat) x =
            if x / 64 = i then line.getLsbD (x % 64) else blockBit b x :=
          fun x => blockBit_setDword b _ x hilt
        simp only [if_pos hilt]
        obtain ⟨b', hrest, hbit'⟩ := ih (i + 1) (nrUsed - 64) (setDword b (8 * i) line.toNat)
          (by omega) (by omega) (fun x h1 h2 => by
            rw [hset, if_neg (by omega)]
            exact hb x (by omega) h2)
        refine ⟨b', hrest, fun x hx => ?_⟩
        rw [hbit' x hx, hset]
        by_cases hbelow : x < 64 * i
        · rw [if_pos (by omega), if_neg (by omega), if_pos hbelow]
        · rw [if_neg hbelow]
          by_cases hhere : x / 64 = i
          · rw [if_pos (by omega), if_pos hhere, hline _ (by omega)]
            congr 1
            simp only [eq_iff_iff]
            omega
          · rw [if_neg (by omega)]
            congr 1
            simp only [eq_iff_iff]
            omega

end Bits

/-! ## Sizes -/

section Sizes

theorem idivCeil_spec {a b : Nat} (ha : a < 4294967296) (hb : 1 < b) :
    a ≤ b * idivCeil a b ∧ b * idivCeil a b < a + b := by
  have hdiv := Nat.div_add_mod a b
  have hmod := Nat.mod_lt a (show 0 < b by omega)
  unfold idivCeil
  split
  · have hle : a / b ≤ a / 2 := Nat.div_le_div_left hb (by decide)
    unfold add32
    rw [Nat.mod_eq_of_lt (by omega), Nat.mul_add]
    omega
  · omega

theorem idivCeil_pos {a b : Nat} (ha : a < 4294967296) (hpos : 0 < a) (hb : 1 < b) :
    1 ≤ idivCeil a b := by
  have hle := (idivCeil_spec ha hb).1
  apply Nat.one_le_iff_ne_zero.2
  intro h
  rw [h] at hle
  omega

/-- The metadata fit where `write_bfree_blocks` supposes they do. -/
def Superblock.Fits (sb : Superblock) : Prop :=
  sb.nrIstoreBlocks + sb.nrIfreeBlocks + sb.nrBfreeBlocks + 2 ≤ 32768

/-- What the sizes are good for: the inode store and the two bitmaps cover their numbers, the
metadata and the root directory leave no counter negative. -/
structure Superblock.Sized (sb : Superblock) : Prop where
  blocks_lt : sb.nrBlocks < 134217728
  meta_lt : 1 + sb.nrIstoreBlocks + sb.nrIfreeBlocks + sb.nrBfreeBlocks < sb.nrBlocks
  inodes_pos : 1 < sb.nrInodes
  inodes_lt : sb.nrInodes < 4294967296
  istore_le : sb.nrInodes ≤ 51 * sb.nrIstoreBlocks
  istore_ge : 51 * sb.nrIstoreBlocks < sb.nrInodes + 51
  ifree : sb.nrInodes ≤ 32768 * sb.nrIfreeBlocks
  bfree : sb.nrBlocks ≤ 32768 * sb.nrBfreeBlocks
  freeInodes : sb.nrFreeInodes = sb.nrInodes - 1
  freeBlocks : sb.nrFreeBlocks =
    sb.nrBlocks - (1 + sb.nrIstoreBlocks + sb.nrIfreeBlocks + sb.nrBfreeBlocks) - 1

variable {size : Nat}

/-- `write_superblock` rounds `nr_inodes` by adding the remainder. -/
theorem superblock_inodes (h : (superblock size).nrBlocks < 2147483648) :
    (superblock size).nrInodes = (superblock size).nrBlocks + (superblock size).nrBlocks % 51 := by
  show (if size / 4096 % 4294967296 % 51 ≠ 0 then _ else _) = _
  have hb : (superblock size).nrBlocks = size / 4096 % 4294967296 := rfl
  rw [hb] at h ⊢
  split
  · exact Nat.mod_eq_of_lt (by omega)
  · omega

theorem superblock_nrBlocks_lt (hfits : (superblock size).Fits) :
    (superblock size).nrBlocks < 2147483648 := by
  have hlt : (superblock size).nrBlocks < 4294967296 := Nat.mod_lt _ (by decide)
  have hbfree : (superblock size).nrBfreeBlocks = idivCeil (superblock size).nrBlocks 32768 := rfl
  have hceil := idivCeil_spec hlt (show 1 < 32768 by decide)
  unfold Superblock.Fits at hfits
  omega

/-- **The sizes work out** from 5 blocks on. -/
theorem superblock_sized (hfits : (superblock size).Fits)
    (hn : 5 ≤ (superblock size).nrBlocks) : (superblock size).Sized := by
  have h31 := superblock_nrBlocks_lt hfits
  have hinodes := superblock_inodes h31
  have hi := idivCeil_spec (show (superblock size).nrInodes < 4294967296 by omega)
    (show 1 < 51 by decide)
  have hf := idivCeil_spec (show (superblock size).nrInodes < 4294967296 by omega)
    (show 1 < 32768 by decide)
  have hb := idivCeil_spec (show (superblock size).nrBlocks < 4294967296 by omega)
    (show 1 < 32768 by decide)
  have hI : (superblock size).nrIstoreBlocks = idivCeil (superblock size).nrInodes 51 := rfl
  have hF : (superblock size).nrIfreeBlocks = idivCeil (superblock size).nrInodes 32768 := rfl
  have hB : (superblock size).nrBfreeBlocks = idivCeil (superblock size).nrBlocks 32768 := rfl
  rw [← hI] at hi
  rw [← hF] at hf
  rw [← hB] at hb
  unfold Superblock.Fits at hfits
  have hmeta : 1 + (superblock size).nrIstoreBlocks + (superblock size).nrIfreeBlocks +
      (superblock size).nrBfreeBlocks < (superblock size).nrBlocks := by
    by_cases hlow : (superblock size).nrBlocks ≤ 25
    · -- one block for each region
      rw [Nat.mod_eq_of_lt (by omega)] at hinodes
      have h1 : (superblock size).nrIstoreBlocks ≤ 1 := by omega
      have h2 : (superblock size).nrIfreeBlocks ≤ 1 := by omega
      have h3 : (superblock size).nrBfreeBlocks ≤ 1 := by omega
      omega
    · by_cases hmid : (superblock size).nrBlocks ≤ 32000
      · have h2 : (superblock size).nrIfreeBlocks ≤ 1 := by omega
        have h3 : (superblock size).nrBfreeBlocks ≤ 1 := by omega
        omega
      · omega
  refine ⟨by omega, hmeta, by omega, by omega, hi.1, hi.2, hf.1, hb.1, ?_, ?_⟩
  · show sub32 (superblock size).nrInodes 1 = _
    exact sub32_of_le (by omega) (by omega)
  · show sub32 (sub32 (sub32 (sub32 (sub32 (superblock size).nrBlocks 1)
      (superblock size).nrIstoreBlocks) (superblock size).nrIfreeBlocks)
      (superblock size).nrBfreeBlocks) 1 = _
    rw [sub32_of_le (a := (superblock size).nrBlocks) (by omega) (by omega),
      sub32_of_le (b := (superblock size).nrIstoreBlocks) (by omega) (by omega),
      sub32_of_le (b := (superblock size).nrIfreeBlocks) (by omega) (by omega),
      sub32_of_le (b := (superblock size).nrBfreeBlocks) (by omega) (by omega),
      sub32_of_le (b := 1) (by omega) (by omega)]
    omega

/-- Fewer than 5 blocks are too few. -/
theorem superblock_meta (hn : (superblock size).nrBlocks < 5) :
    (superblock size).nrBlocks ≤ 1 + (superblock size).nrIstoreBlocks +
      (superblock size).nrIfreeBlocks + (superblock size).nrBfreeBlocks := by
  have hI : (superblock size).nrIstoreBlocks = idivCeil (superblock size).nrInodes 51 := rfl
  have hF : (superblock size).nrIfreeBlocks = idivCeil (superblock size).nrInodes 32768 := rfl
  have hB : (superblock size).nrBfreeBlocks = idivCeil (superblock size).nrBlocks 32768 := rfl
  by_cases h0 : (superblock size).nrBlocks = 0
  · omega
  · have hinodes := superblock_inodes (show (superblock size).nrBlocks < 2147483648 by omega)
    have hi : 1 ≤ idivCeil (superblock size).nrInodes 51 :=
      idivCeil_pos (by omega) (by omega) (by decide)
    have hf : 1 ≤ idivCeil (superblock size).nrInodes 32768 :=
      idivCeil_pos (by omega) (by omega) (by decide)
    have hb : 1 ≤ idivCeil (superblock size).nrBlocks 32768 :=
      idivCeil_pos (by omega) (by omega) (by decide)
    rw [hI, hF, hB]
    omega

end Sizes

theorem SameCounters.metaBlocks {s s' : SbInfo} (h : SameCounters s s') :
    s'.metaBlocks = s.metaBlocks := by
  unfold SbInfo.metaBlocks
  rw [h.nrIstoreBlocks, h.nrIfreeBlocks, h.nrBfreeBlocks]

/-! ## The image -/

/-- The counters of the superblock, as the kernel keeps them. -/
def Superblock.toSbInfo (sb : Superblock) : SbInfo where
  nrBlocks := sb.nrBlocks
  nrInodes := sb.nrInodes
  nrIstoreBlocks := sb.nrIstoreBlocks
  nrIfreeBlocks := sb.nrIfreeBlocks
  nrBfreeBlocks := sb.nrBfreeBlocks
  nrSlicedBlocks := sb.nrSlicedBlocks
  nrFreeInodes := sb.nrFreeInodes
  nrFreeBlocks := sb.nrFreeBlocks
  nrUsedSlices := sb.nrUsedSlices
  sFreeSlicedBlocks := sb.sFreeSlicedBlocks
  ifreeBitmap _ := false
  bfreeBitmap _ := false

/-- Which block holds what; `before` is what the file held before it was formatted. -/
structure Image (sb : Superblock) (before disk : Nat → Block) : Prop where
  superblock : disk 0 = sb.page
  rootInode : disk 1 = rootInodeBlock sb
  istore : ∀ b, 2 ≤ b → b ≤ sb.nrIstoreBlocks → disk b = Page.zero
  ifree : ∀ j < sb.nrIfreeBlocks, ∀ x < 32768,
    blockBit (disk (sb.nrIstoreBlocks + j + 1)) x = decide (1 < 32768 * j + x)
  bfree : ∀ j < sb.nrBfreeBlocks, ∀ x < 32768,
    blockBit (disk (sb.nrIstoreBlocks + sb.nrIfreeBlocks + j + 1)) x =
      decide (sb.toSbInfo.metaBlocks < 32768 * j + x)
  root : disk sb.toSbInfo.metaBlocks = Page.zero
  data : ∀ b, sb.toSbInfo.metaBlocks < b → disk b = before b

section ImageOf

variable {fd fd' : Fd}

/-- Bits of the first and of the other blocks of the inode bitmap. -/
theorem blockBit_ifree {x : Nat} (hx : x < 32768) :
    blockBit (setDword ones 0 0xfffffffffffffffc) x = decide (1 < x) ∧
      blockBit (setDword (setDword ones 0 0xfffffffffffffffc) 0 0xffffffffffffffff) x = true := by
  have hset : ∀ (b : Block) (v : Nat), blockBit (setDword b 0 v) x =
      if x / 64 = 0 then v.testBit (x % 64) else blockBit b x := by
    intro b v
    have hbit := blockBit_setDword b v x (show 0 < 512 by decide)
    rw [Nat.mul_zero] at hbit
    exact hbit
  have hfirst : (0xfffffffffffffffc : Nat).testBit (x % 64) = decide (1 < x % 64) := by
    rw [show (0xfffffffffffffffc : Nat) = 2 ^ 2 * (2 ^ 62 - 1) by decide,
      Nat.testBit_two_pow_mul, Nat.testBit_two_pow_sub_one, ← Bool.decide_and]
    congr 1
    simp only [eq_iff_iff]
    omega
  have hall : (0xffffffffffffffff : Nat).testBit (x % 64) = true := by
    rw [show (0xffffffffffffffff : Nat) = 2 ^ 64 - 1 by decide, Nat.testBit_two_pow_sub_one,
      decide_eq_true (by omega)]
  rw [hset, hset, hset, blockBit_ones hx, hfirst, hall]
  by_cases h0 : x / 64 = 0
  · rw [if_pos h0, if_pos h0, show x % 64 = x by omega]
    exact ⟨rfl, rfl⟩
  · rw [if_neg h0, if_neg h0, decide_eq_true (by omega)]
    exact ⟨rfl, rfl⟩

/-- The first block of the block bitmap. -/
theorem clearLines_ones {sb : Superblock} (hfits : sb.Fits) :
    ∃ b, clearLines 513 0
        (add32 (add32 (add32 sb.nrIstoreBlocks sb.nrIfreeBlocks) sb.nrBfreeBlocks) 2) ones = .ok b ∧
      ∀ x < 32768, blockBit b x = decide (sb.toSbInfo.metaBlocks < x) := by
  unfold Superblock.Fits at hfits
  have hsum : add32 (add32 (add32 sb.nrIstoreBlocks sb.nrIfreeBlocks) sb.nrBfreeBlocks) 2 =
      sb.toSbInfo.metaBlocks + 1 := by
    rw [add32_of_lt (a := sb.nrIstoreBlocks) (by omega),
      add32_of_lt (b := sb.nrBfreeBlocks) (by omega), add32_of_lt (by omega)]
    show _ = 1 + sb.nrIstoreBlocks + sb.nrIfreeBlocks + sb.nrBfreeBlocks + 1
    omega
  have hle : sb.toSbInfo.metaBlocks + 1 ≤ 32768 := by
    show 1 + sb.nrIstoreBlocks + sb.nrIfreeBlocks + sb.nrBfreeBlocks + 1 ≤ 32768
    omega
  obtain ⟨b, hrun, hbits⟩ := clearLines_spec 513 0 (sb.toSbInfo.metaBlocks + 1) ones rfl (by omega)
    fun x _ hx => blockBit_ones hx
  refine ⟨b, by rw [hsum]; exact hrun, fun x hx => ?_⟩
  rw [hbits x hx, if_neg (by omega)]
  congr 1
  simp only [eq_iff_iff]
  omega

/-- The five steps of a run that succeeds. -/
theorem writeImage_steps {size : Nat} (hrun : writeImage size fd = .ok (true, fd'))
    (hs : (superblock size).Sized) :
    ∃ bfree fd₁ fd₂ fd₃ fd₄,
      clearLines 513 0 (add32 (add32 (add32 (superblock size).nrIstoreBlocks
        (superblock size).nrIfreeBlocks) (superblock size).nrBfreeBlocks) 2) ones = .ok bfree ∧
      Wrote fd 1 (fun _ => (superblock size).page) fd₁ ∧
      Wrote fd₁ (superblock size).nrIstoreBlocks
        (fun i => if i = 0 then rootInodeBlock (superblock size) else Page.zero) fd₂ ∧
      Wrote fd₂ (superblock size).nrIfreeBlocks
        (fun i => if i = 0 then setDword ones 0 0xfffffffffffffffc
          else setDword (setDword ones 0 0xfffffffffffffffc) 0 0xffffffffffffffff) fd₃ ∧
      Wrote fd₃ (superblock size).nrBfreeBlocks (fun i => if i = 0 then bfree else ones) fd₄ ∧
      Wrote fd₄ 1 (fun _ => Page.zero) fd' := by
  have hI := hs.istore_le
  have hF := hs.ifree
  have hB := hs.bfree
  have h1 := hs.inodes_pos
  have hlt := hs.meta_lt
  unfold writeImage at hrun
  split at hrun
  · cases hrun
  · rename_i sb fd₁ hsb
    obtain ⟨rfl, w₁⟩ := writeSuperblock_some hsb
    split at hrun
    · cases hrun
    · cases hrun
    · rename_i fd₂ hw₂
      split at hrun
      · cases hrun
      · cases hrun
      · rename_i fd₃ hw₃
        split at hrun
        · cases hrun
        · cases hrun
        · rename_i fd₄ hw₄
          unfold writeBfreeBlocks at hw₄
          obtain ⟨bfree, hclear, hw₄'⟩ := writeRegion_first hw₄
          refine ⟨bfree, fd₁, fd₂, fd₃, fd₄, hclear, w₁, writeRegion_true hw₂ (by omega),
            writeRegion_true hw₃ (by omega), writeRegion_true hw₄' (by omega), ?_⟩
          exact (writeRegion_true hrun (Nat.le_refl 1)).congr fun i hi => ite_self _

/-- **What `mkfs` writes.** -/
theorem writeImage_true {size : Nat} (hrun : writeImage size fd = .ok (true, fd'))
    (hpos : fd.pos = 0) (hfits : (superblock size).Fits) (hs : (superblock size).Sized) :
    Image (superblock size) fd.block fd'.block := by
  have hmeta : (superblock size).toSbInfo.metaBlocks = 1 + (superblock size).nrIstoreBlocks +
      (superblock size).nrIfreeBlocks + (superblock size).nrBfreeBlocks := rfl
  obtain ⟨bfree, fd₁, fd₂, fd₃, fd₄, hclear, w₁, w₂, w₃, w₄, w₅⟩ := writeImage_steps hrun hs
  obtain ⟨first, hclear', hfirst⟩ := clearLines_ones hfits
  obtain rfl : bfree = first := Except.ok.inj (hclear.symm.trans hclear')
  have hI := hs.istore_le
  have hlt := hs.inodes_pos
  have p₁ := w₁.pos
  have p₂ := w₂.pos
  have p₃ := w₃.pos
  have p₄ := w₄.pos
  unfold Superblock.Fits at hfits
  generalize superblock size = sb at *
  generalize hm : sb.toSbInfo.metaBlocks = m at *
  constructor
  · rw [w₅.old _ (by omega), w₄.old _ (by omega), w₃.old _ (by omega), w₂.old _ (by omega)]
    have hnew := w₁.new 0 (by decide)
    rw [hpos] at hnew
    exact hnew
  · rw [w₅.old _ (by omega), w₄.old _ (by omega), w₃.old _ (by omega),
      show 1 = fd₁.pos + 0 by omega, w₂.new 0 (by omega), if_pos rfl]
  · intro b h2 hb
    rw [w₅.old _ (by omega), w₄.old _ (by omega), w₃.old _ (by omega),
      show b = fd₁.pos + (b - 1) by omega, w₂.new _ (by omega), if_neg (by omega)]
  · intro j hj x hx
    rw [w₅.old _ (by omega), w₄.old _ (by omega),
      show sb.nrIstoreBlocks + j + 1 = fd₂.pos + j by omega, w₃.new _ hj]
    split
    · rename_i h0
      rw [(blockBit_ifree hx).1, h0, Nat.mul_zero, Nat.zero_add]
    · rw [(blockBit_ifree hx).2, decide_eq_true (by omega)]
  · intro j hj x hx
    rw [w₅.old _ (by omega),
      show sb.nrIstoreBlocks + sb.nrIfreeBlocks + j + 1 = fd₃.pos + j by omega, w₄.new _ hj, hm]
    split
    · rename_i h0
      rw [hfirst x hx, h0, Nat.mul_zero, Nat.zero_add]
    · rw [blockBit_ones hx, decide_eq_true (by omega)]
  · rw [hm, show m = fd₄.pos + 0 by omega, w₅.new 0 (by decide)]
  · intro b hb
    rw [w₅.old _ (by omega), w₄.old _ (by omega), w₃.old _ (by omega), w₂.old _ (by omega),
      w₁.old _ (by omega)]

end ImageOf

/-! ## `main` -/

section Main

variable {fd fd' : Fd}

theorem Superblock.page_magic (sb : Superblock) : sb.page.word 0 = sb.magic % 4294967296 := by
  unfold Superblock.page
  simp only
  repeat rw [Page.word_setWord_of_disjoint _ (by decide) (by decide)]
  exact Page.word_setWord _ (by decide)

/-- `ouichefs_fill_super` finds the counters where `write_superblock` puts them. -/
theorem Superblock.decodeSb_page {sb : Superblock} (h : sb.toSbInfo.Fits) :
    SameCounters sb.toSbInfo (decodeSb sb.page) := by
  unfold decodeSb Superblock.page
  constructor <;> simp only
  · repeat rw [Page.word_setWord_of_disjoint _ (by decide) (by decide)]
    exact Page.word_setWord_of_lt _ (by decide) h.nrBlocks
  · repeat rw [Page.word_setWord_of_disjoint _ (by decide) (by decide)]
    exact Page.word_setWord_of_lt _ (by decide) h.nrInodes
  · repeat rw [Page.word_setWord_of_disjoint _ (by decide) (by decide)]
    exact Page.word_setWord_of_lt _ (by decide) h.nrIstoreBlocks
  · repeat rw [Page.word_setWord_of_disjoint _ (by decide) (by decide)]
    exact Page.word_setWord_of_lt _ (by decide) h.nrIfreeBlocks
  · repeat rw [Page.word_setWord_of_disjoint _ (by decide) (by decide)]
    exact Page.word_setWord_of_lt _ (by decide) h.nrBfreeBlocks
  · repeat rw [Page.word_setWord_of_disjoint _ (by decide) (by decide)]
    exact Page.word_setWord_of_lt _ (by decide) h.nrSlicedBlocks
  · repeat rw [Page.word_setWord_of_disjoint _ (by decide) (by decide)]
    exact Page.word_setWord_of_lt _ (by decide) h.nrFreeInodes
  · repeat rw [Page.word_setWord_of_disjoint _ (by decide) (by decide)]
    exact Page.word_setWord_of_lt _ (by decide) h.nrFreeBlocks
  · repeat rw [Page.word_setWord_of_disjoint _ (by decide) (by decide)]
    exact Page.word_setWord_of_lt _ (by decide) h.nrUsedSlices
  · exact Page.word_setWord_of_lt _ (by decide) h.sFreeSlicedBlocks

/-- The fields of the root inode. -/
structure RootInode (ci : Inode) (indexBlock : Nat) : Prop where
  iMode : ci.iMode = 0o040775
  iSize : ci.iSize = 4096
  iBlocks : ci.iBlocks = 1
  iNlink : ci.iNlink = 2
  indexBlock : ci.indexBlock = indexBlock
  numSlices : ci.numSlices = 0

/-- `ouichefs_iget` finds the root inode where `write_inode_store` puts it. -/
theorem decodeInode_root {sb : Superblock} (h : sb.toSbInfo.metaBlocks < 4294967296) :
    RootInode (decodeInode (rootInodeBlock sb) 1) sb.toSbInfo.metaBlocks := by
  have hmeta : sb.toSbInfo.metaBlocks =
      1 + sb.nrIstoreBlocks + sb.nrIfreeBlocks + sb.nrBfreeBlocks := rfl
  unfold decodeInode rootInodeBlock setDword
  constructor
  case iMode =>
    simp only [half]
    rw [Page.word_fill_of_disjoint _ (by decide)]
    repeat rw [Page.word_setWord_of_disjoint _ (by decide) (by decide)]
    rw [Page.word_setWord_of_lt _ (by decide) (by decide)]
  case indexBlock =>
    simp only
    rw [Page.word_fill_of_disjoint _ (by decide), add32_of_lt (a := 1) (by omega),
      add32_of_lt (b := sb.nrIfreeBlocks) (by omega), add32_of_lt (by omega),
      show 80 * 1 + 72 = 152 by decide, Page.word_setWord_of_lt _ (by decide) (by omega)]
    omega
  case numSlices =>
    simp only [half, Page.word, Page.get_fill]
    have h0 : UInt8.toNat 0 = 0 := rfl
    rw [if_pos (by decide), if_pos (by decide), h0]
    omega
  all_goals
    simp only
    rw [Page.word_fill_of_disjoint _ (by decide)]
    repeat rw [Page.word_setWord_of_disjoint _ (by decide) (by decide)]
    exact Page.word_setWord_of_lt _ (by decide) (by decide)

/-- `mkfs` refuses a small file; otherwise it writes the image from block 0 on. -/
theorem mkfs_true (h : mkfs fd = .ok (true, fd')) : 409600 ≤ fd.size ∧
    ∃ fd₀, fd₀.pos = 0 ∧ fd₀.block = fd.block ∧ writeImage fd.size fd₀ = .ok (true, fd') := by
  unfold mkfs at h
  split at h
  · cases h
  · rename_i fd₁ hopen
    obtain ⟨hs₁, -, hb₁⟩ := Fd.call_same hopen
    split at h
    · cases h
    · rename_i fd₂ hstat
      obtain ⟨hs₂, hp₂, hb₂⟩ := Fd.call_same hstat
      split at h
      · cases h
      · rename_i fd₃ hioctl
        have hsame : fd₃.size = fd₂.size ∧ fd₃.pos = fd₂.pos ∧ fd₃.block = fd₂.block := by
          split at hioctl
          · exact Fd.call_same hioctl
          · cases hioctl
            exact ⟨rfl, rfl, rfl⟩
        obtain ⟨hs₃, hp₃, hb₃⟩ := hsame
        have hsize : fd₃.size = fd.size := hs₃.trans (hs₂.trans hs₁)
        split at h
        · cases h
        · rename_i hlarge
          rw [hsize] at hlarge h
          exact ⟨by omega, fd₃, hp₃.trans hp₂, hb₃.trans (hb₂.trans hb₁), h⟩

theorem writeImage_ok {size : Nat} (hf : fd.faults = []) (hfits : (superblock size).Fits) :
    ∃ fd', writeImage size fd = .ok (true, fd') := by
  obtain ⟨fd₁, hw₁, hf₁⟩ := Fd.write_ok (b := (superblock size).page) hf
  obtain ⟨fd₂, hw₂, hf₂⟩ := writeRegion_ok (rootInodeBlock (superblock size)) Page.zero
    (superblock size).nrIstoreBlocks hf₁
  obtain ⟨fd₃, hw₃, hf₃⟩ := writeRegion_ok (setDword ones 0 0xfffffffffffffffc)
    (setDword (setDword ones 0 0xfffffffffffffffc) 0 0xffffffffffffffff)
    (superblock size).nrIfreeBlocks hf₂
  obtain ⟨bfree, hclear, -⟩ := clearLines_ones hfits
  obtain ⟨fd₄, hw₄, hf₄⟩ := writeRegion_ok bfree ones (superblock size).nrBfreeBlocks hf₃
  obtain ⟨fd₅, hw₅, -⟩ := writeRegion_ok Page.zero Page.zero 1 hf₄
  refine ⟨fd₅, ?_⟩
  unfold writeImage writeSuperblock writeInodeStore writeIfreeBlocks writeBfreeBlocks
    writeRootIndexBlock
  rw [Fd.call_ok hf]
  simp only [hw₁, hw₂, hw₃, hclear, hw₄, hw₅]

/-- Without failures `mkfs` succeeds. -/
theorem mkfs_ok (hf : fd.faults = []) (hsize : 409600 ≤ fd.size)
    (hfits : (superblock fd.size).Fits) : ∃ fd', mkfs fd = .ok (true, fd') := by
  obtain ⟨fd', hrun⟩ := @writeImage_ok { fd with pos := 0 } fd.size hf hfits
  refine ⟨fd', ?_⟩
  have hf₀ : ({ fd with pos := 0 } : Fd).faults = [] := hf
  unfold mkfs
  rw [Fd.call_ok hf]
  simp only [Fd.call_ok hf₀, ite_self]
  show (if fd.size < 100 * 4096 then _ else _) = _
  rw [if_neg (by omega), hrun]

end Main

/-! ## Mount -/

section Mount

variable {size : Nat} {before disk : Nat → Block}

/-- A mounted image. -/
structure Mounted (sb : Superblock) (disk : Nat → Block) (k : Kernel) : Prop where
  counters : SameCounters sb.toSbInfo k.fs.sbi
  disk : k.fs.disk = disk
  faults : k.faults = []
  ifree : ∀ i < 32768 * sb.nrIfreeBlocks, k.fs.sbi.ifreeBitmap i = decide (1 < i)
  bfree : ∀ i < 32768 * sb.nrBfreeBlocks,
    k.fs.sbi.bfreeBitmap i = decide (sb.toSbInfo.metaBlocks < i)
  root : ∃ ci, k.fs.icache 1 = some ci ∧ RootInode ci sb.toSbInfo.metaBlocks
  uncached : ∀ i, i ≠ 1 → k.fs.icache i = none

theorem superblock_counters (hfits : (superblock size).Fits) (hs : (superblock size).Sized) :
    (superblock size).toSbInfo.Fits := by
  have hb := hs.blocks_lt
  have hi := hs.inodes_lt
  have hfi := hs.freeInodes
  have hfb := hs.freeBlocks
  unfold Superblock.Fits at hfits
  exact ⟨show (superblock size).nrBlocks < _ by omega, hi,
    show (superblock size).nrIstoreBlocks < _ by omega,
    show (superblock size).nrIfreeBlocks < _ by omega,
    show (superblock size).nrBfreeBlocks < _ by omega, show 0 < 4294967296 by decide,
    show (superblock size).nrFreeInodes < _ by omega,
    show (superblock size).nrFreeBlocks < _ by omega, show 0 < 4294967296 by decide,
    show 0 < 4294967296 by decide⟩

/-- The root inode is read and given to the caller. -/
theorem mountRoot_ok (k : Kernel) (hf : k.faults = []) (h1 : 1 < k.fs.sbi.nrInodes)
    (hb : 1 < k.fs.sbi.nrBlocks) (hc : ∀ i, k.fs.icache i = none) :
    ∃ k', ouichefsIget k 1 = (0, k') ∧ k'.faults = [] ∧ k'.fs.sbi = k.fs.sbi ∧
      k'.fs.disk = k.fs.disk ∧ k'.inode 1 = decodeInode (k.fs.disk 1) 1 ∧
      ∀ i, i ≠ 1 → k'.fs.icache i = none := by
  have hread : k.sbBread 1 = (true, k.log (.bread 1)) := Kernel.sbBread_ok hf hb
  refine ⟨((k.log (.bread 1)).setInode 1 (decodeInode (k.fs.disk 1) 1)).brelse 1, ?_, hf, rfl, rfl,
    ?_, fun i hi => ?_⟩
  · unfold ouichefsIget
    rw [if_neg (by omega), hc 1]
    simp only [show 1 / 51 + 1 = 1 by decide, show 1 % 51 = 1 by decide, hread]
    rfl
  · show (Fs.setInode k.fs 1 (decodeInode (k.fs.disk 1) 1)).inode 1 = _
    rw [Fs.inode_setInode, if_pos rfl]
  · show (Fs.setInode k.fs 1 (decodeInode (k.fs.disk 1) 1)).icache i = none
    rw [Fs.icache_setInode_of_ne _ _ _ hi, hc i]

/-- **Mount of the image**: the bitmaps and the root inode are as `mkfs` wrote them. -/
theorem ouichefsFillSuper_image (long : LongSize) (now : Timespec) (fsuid fsgid : Nat)
    {blocks : Nat} (him : Image (superblock size) before disk) (hfits : (superblock size).Fits)
    (hs : (superblock size).Sized) (hsize : (superblock size).nrBlocks ≤ blocks) :
    ∃ k, ouichefsFillSuper long now fsuid fsgid ⟨blocks, disk, []⟩ = .ok (.ok k) ∧
      Mounted (superblock size) disk k := by
  have hb := hs.blocks_lt
  have hm := hs.meta_lt
  have hI := hs.inodes_pos
  have hsmall := hfits
  unfold Superblock.Fits at hsmall
  have hmagic : (disk 0).word 0 = magic := by
    rw [him.superblock, Superblock.page_magic]
    rfl
  have hcounters := Superblock.decodeSb_page (superblock_counters hfits hs)
  rw [← him.superblock] at hcounters
  obtain ⟨sbi, hload, hc, -, -, hifree, hbfree⟩ := fillSuperLoad_ok long
    (d := ⟨blocks, disk, []⟩) rfl hmagic hcounters
    (show (superblock size).nrIstoreBlocks + (superblock size).nrIfreeBlocks +
      (superblock size).nrBfreeBlocks < blocks by omega)
    (show (superblock size).nrIstoreBlocks + (superblock size).nrIfreeBlocks +
      (superblock size).nrBfreeBlocks < 2147483648 by omega)
    (show (superblock size).nrIfreeBlocks ≤ 524288 by omega)
    (show (superblock size).nrBfreeBlocks ≤ 524288 by omega)
  have hinodes : sbi.nrInodes = (superblock size).nrInodes := hc.nrInodes
  have hblocks : sbi.nrBlocks = (superblock size).nrBlocks := hc.nrBlocks
  obtain ⟨k, hget, hf, hsbi, hdisk, hinode, hother⟩ :=
    mountRoot_ok ⟨⟨sbi.toSbInfo, disk, fun _ => none⟩, [], [], now, fsuid, fsgid⟩ rfl
      (show 1 < sbi.nrInodes by omega) (show 1 < sbi.nrBlocks by omega) fun _ => rfl
  have hroot := @decodeInode_root (superblock size)
    (show 1 + (superblock size).nrIstoreBlocks + (superblock size).nrIfreeBlocks +
      (superblock size).nrBfreeBlocks < 4294967296 by omega)
  rw [← him.rootInode, ← hinode] at hroot
  refine ⟨k.setInode 1 (inodeInitOwner k (k.inode 1) Inode.blank (k.inode 1).iMode), ?_,
    ⟨by rw [Kernel.fs_setInode, Fs.sbi_setInode, hsbi]; exact hc, hdisk, hf, fun i hi => ?_,
      fun i hi => ?_, ⟨_, Fs.icache_setInode_self _ _ _, ?_⟩, fun i hi => ?_⟩⟩
  · have hf' : (k.setInode 1 (inodeInitOwner k (k.inode 1) Inode.blank (k.inode 1).iMode)).faults
        = [] := hf
    unfold ouichefsFillSuper
    simp only [hload, hget, ne_eq, not_true_eq_false, if_false, Kernel.kmalloc_ok hf']
  · show k.fs.sbi.ifreeBitmap i = _
    rw [hsbi]
    have hbit := him.ifree (i / 32768) (by omega) (i % 32768) (Nat.mod_lt _ (by decide))
    rw [show 32768 * (i / 32768) + i % 32768 = i by omega] at hbit
    exact (hifree i hi).trans hbit
  · show k.fs.sbi.bfreeBitmap i = _
    rw [hsbi]
    have hbit := him.bfree (i / 32768) (by omega) (i % 32768) (Nat.mod_lt _ (by decide))
    rw [show 32768 * (i / 32768) + i % 32768 = i by omega] at hbit
    exact (hbfree i hi).trans hbit
  · exact ⟨hroot.iMode, hroot.iSize, hroot.iBlocks, hroot.iNlink, hroot.indexBlock,
      hroot.numSlices⟩
  · rw [Kernel.fs_setInode, Fs.icache_setInode_of_ne _ _ _ hi, hother i hi]

end Mount

/-! ## The layout, computed twice -/

/-- Regions of the given lengths, one after the other. -/
def consecutive : Nat → List Nat → List (Finset Nat)
  | _, [] => []
  | start, n :: lengths => Finset.Ico start (start + n) :: consecutive (start + n) lengths

theorem mem_consecutive {b : Nat} : ∀ (lengths : List Nat) (start : Nat),
    (∃ r ∈ consecutive start lengths, b ∈ r) ↔ start ≤ b ∧ b < start + lengths.sum := by
  intro lengths
  induction lengths with
  | nil => intro start; simp [consecutive]
  | cons n lengths ih =>
      intro start
      simp only [consecutive, List.exists_mem_cons_iff, ih, Finset.mem_Ico, List.sum_cons]
      omega

theorem consecutive_disjoint : ∀ (lengths : List Nat) (start : Nat),
    (consecutive start lengths).Pairwise Disjoint := by
  intro lengths
  induction lengths with
  | nil => intro start; exact List.Pairwise.nil
  | cons n lengths ih =>
      intro start
      refine List.Pairwise.cons (fun r hr => ?_) (ih (start + n))
      rw [Finset.disjoint_left]
      intro b hb hbr
      have hlater := (mem_consecutive lengths (start + n)).1 ⟨r, hr, hbr⟩
      have hhere := Finset.mem_Ico.1 hb
      omega

/-- Where the kernel looks for the superblock, the inodes, the two bitmaps and the root
directory. -/
def Kernel.regions (k : Kernel) : List (Finset Nat) :=
  [{0}, (Finset.range k.fs.sbi.nrInodes).image (· / 51 + 1),
    (Finset.range k.fs.sbi.nrIfreeBlocks).image (k.fs.sbi.nrIstoreBlocks + · + 1),
    (Finset.range k.fs.sbi.nrBfreeBlocks).image
      (k.fs.sbi.nrIstoreBlocks + k.fs.sbi.nrIfreeBlocks + · + 1),
    {(k.inode 1).indexBlock}]

/-- The kernel sees what `mkfs` laid out. -/
structure LayoutAgrees (sb : Superblock) (k : Kernel) : Prop where
  counters : SameCounters sb.toSbInfo k.fs.sbi
  regions : k.regions =
    consecutive 0 [1, sb.nrIstoreBlocks, sb.nrIfreeBlocks, sb.nrBfreeBlocks, 1]
  disjoint : k.regions.Pairwise Disjoint
  bfree : ∀ b < k.fs.sbi.nrBlocks,
    (k.fs.sbi.bfreeBitmap b = false ↔ ∃ r ∈ k.regions, b ∈ r)
  count : k.fs.sbi.nrFreeBlocks = countBits k.fs.sbi.bfreeBitmap k.fs.sbi.nrBlocks
  ifree : ∀ i < 32768 * k.fs.sbi.nrIfreeBlocks, k.fs.sbi.ifreeBitmap i = decide (1 < i)
  root : RootInode (k.inode 1) k.fs.sbi.metaBlocks
  rootUsed : k.fs.Used (k.inode 1).indexBlock
  rootZero : k.fs.indexOf 1 = Page.zero
  istore : ∀ ino < k.fs.sbi.nrInodes, 1 ≤ ino / 51 + 1 ∧ ino / 51 + 1 ≤ k.fs.sbi.nrIstoreBlocks
  records : ∀ ino < k.fs.sbi.nrInodes, ino ≠ 1 →
    decodeInode (k.fs.disk (ino / 51 + 1)) (ino % 51) = Inode.blank

/-- The image `fd'` that `mkfs` wrote to `fd`, mounted. -/
def MountAgrees (long : LongSize) (now : Timespec) (fsuid fsgid : Nat) (fd fd' : Fd) : Prop :=
  ∃ k, ouichefsFillSuper long now fsuid fsgid ⟨fd.size / 4096, fd'.block, []⟩ = .ok (.ok k) ∧
    LayoutAgrees (superblock fd.size) k

section Layout

variable {size : Nat} {before disk : Nat → Block} {k : Kernel}

theorem image_shift (first n : Nat) :
    (Finset.range n).image (first + · + 1) = Finset.Ico (first + 1) (first + 1 + n) := by
  ext b
  simp only [Finset.mem_image, Finset.mem_range, Finset.mem_Ico]
  constructor
  · rintro ⟨i, hi, rfl⟩
    omega
  · intro hb
    exact ⟨b - first - 1, by omega, by omega⟩

/-- The inodes fill the inode store. -/
theorem image_istore {n nr : Nat} (hle : n ≤ 51 * nr) (hge : 51 * nr < n + 51) :
    (Finset.range n).image (· / 51 + 1) = Finset.Ico 1 (1 + nr) := by
  ext b
  simp only [Finset.mem_image, Finset.mem_range, Finset.mem_Ico]
  constructor
  · rintro ⟨i, hi, rfl⟩
    omega
  · intro hb
    exact ⟨51 * (b - 1), by omega, by omega⟩

/-- A record of zeros. -/
theorem decodeInode_zero {b : Block} {shift : Nat}
    (h : ∀ off, 80 * shift ≤ off → off + 4 ≤ 80 * shift + 80 → b.word off = 0) :
    decodeInode b shift = Inode.blank := by
  unfold decodeInode dword half Inode.blank
  simp only
  repeat rw [h _ (by omega) (by omega)]

theorem rootInodeBlock_word (sb : Superblock) {off : Nat} (h : off + 4 ≤ 80 ∨ 160 ≤ off) :
    (rootInodeBlock sb).word off = 0 := by
  unfold rootInodeBlock setDword
  simp only
  rw [Page.word_fill_of_disjoint _ (by omega)]
  repeat rw [Page.word_setWord_of_disjoint _ (by decide) (by omega)]
  exact Page.word_zero _

theorem Image.records {sb : Superblock} (him : Image sb before disk) {ino : Nat}
    (hino : ino / 51 + 1 ≤ sb.nrIstoreBlocks) (hne : ino ≠ 1) :
    decodeInode (disk (ino / 51 + 1)) (ino % 51) = Inode.blank := by
  apply decodeInode_zero
  intro off h1 h2
  by_cases hfirst : ino / 51 + 1 = 1
  · rw [hfirst, him.rootInode]
    exact rootInodeBlock_word sb (by omega)
  · rw [him.istore _ (by omega) hino, Page.word_zero]

theorem Mounted.rootIndex {sb : Superblock} (h : Mounted sb disk k) :
    RootInode (k.inode 1) sb.toSbInfo.metaBlocks := by
  obtain ⟨ci, hci, hroot⟩ := h.root
  have hinode : k.inode 1 = ci := by
    show k.fs.inode 1 = ci
    unfold Fs.inode
    rw [hci]
    rfl
  rw [hinode]
  exact hroot

/-- The two computations of the layout agree. -/
theorem Mounted.layoutAgrees (h : Mounted (superblock size) disk k)
    (him : Image (superblock size) before disk) (hs : (superblock size).Sized) :
    LayoutAgrees (superblock size) k := by
  have hB : k.fs.sbi.nrBlocks = (superblock size).nrBlocks := h.counters.nrBlocks
  have hN : k.fs.sbi.nrInodes = (superblock size).nrInodes := h.counters.nrInodes
  have hI : k.fs.sbi.nrIstoreBlocks = (superblock size).nrIstoreBlocks := h.counters.nrIstoreBlocks
  have hF : k.fs.sbi.nrIfreeBlocks = (superblock size).nrIfreeBlocks := h.counters.nrIfreeBlocks
  have hR : k.fs.sbi.nrBfreeBlocks = (superblock size).nrBfreeBlocks := h.counters.nrBfreeBlocks
  have hmeta : (superblock size).toSbInfo.metaBlocks = 1 + (superblock size).nrIstoreBlocks +
      (superblock size).nrIfreeBlocks + (superblock size).nrBfreeBlocks := rfl
  have hmeta' := h.counters.metaBlocks
  have hroot := h.rootIndex
  have hlt := hs.meta_lt
  have hbfree := hs.bfree
  have hregions : k.regions = consecutive 0 [1, (superblock size).nrIstoreBlocks,
      (superblock size).nrIfreeBlocks, (superblock size).nrBfreeBlocks, 1] := by
    unfold Kernel.regions consecutive consecutive consecutive consecutive consecutive consecutive
    rw [hN, hI, hF, hR, image_istore hs.istore_le hs.istore_ge, image_shift, image_shift,
      hroot.indexBlock, hmeta]
    have hsingle : ∀ a : Nat, ({a} : Finset Nat) = Finset.Ico a (a + 1) :=
      fun a => (Nat.Ico_succ_singleton a).symm
    simp only [Nat.zero_add, hsingle, Nat.add_comm _ 1, Nat.add_assoc]
  have hbit : ∀ b < k.fs.sbi.nrBlocks, k.fs.sbi.bfreeBitmap b =
      decide ((superblock size).toSbInfo.metaBlocks < b) := by
    intro b hb
    exact h.bfree b (by omega)
  refine ⟨h.counters, hregions, ?_, fun b hb => ?_, ?_, fun i hi => ?_, ?_, ⟨?_, ?_⟩, ?_,
    fun ino hino => ?_, fun ino hino hne => ?_⟩
  · rw [hregions]
    exact consecutive_disjoint _ _
  · rw [hbit b hb, hregions, mem_consecutive, decide_eq_false_iff_not]
    simp only [List.sum_cons, List.sum_nil]
    omega
  · have hcount := countBits_prefix ((superblock size).toSbInfo.metaBlocks + 1) k.fs.sbi.nrBlocks
    have hfree : k.fs.sbi.nrFreeBlocks = (superblock size).nrFreeBlocks := h.counters.nrFreeBlocks
    rw [hfree, hs.freeBlocks, countBits_congr hbit]
    refine Eq.trans ?_ hcount.symm
    omega
  · exact h.ifree i (by omega)
  · rw [hmeta']
    exact hroot
  · show (k.inode 1).indexBlock < _
    rw [hroot.indexBlock]
    omega
  · show k.fs.sbi.bfreeBitmap (k.inode 1).indexBlock = _
    rw [hroot.indexBlock, hbit _ (by omega)]
    simp
  · show k.fs.disk (k.inode 1).indexBlock = _
    rw [hroot.indexBlock, h.disk]
    exact him.root
  · have := hs.istore_le
    omega
  · rw [h.disk]
    have := hs.istore_le
    exact him.records (by omega) hne

/-- A mounted image is a formatted file system. -/
theorem Mounted.formatted (h : Mounted (superblock size) disk k)
    (him : Image (superblock size) before disk) (hs : (superblock size).Sized) :
    Formatted k.fs := by
  have hB : k.fs.sbi.nrBlocks = (superblock size).nrBlocks := h.counters.nrBlocks
  have hN : k.fs.sbi.nrInodes = (superblock size).nrInodes := h.counters.nrInodes
  have hI : k.fs.sbi.nrIstoreBlocks = (superblock size).nrIstoreBlocks := h.counters.nrIstoreBlocks
  have hfb : k.fs.sbi.nrFreeBlocks = (superblock size).nrFreeBlocks := h.counters.nrFreeBlocks
  have hfi : k.fs.sbi.nrFreeInodes = (superblock size).nrFreeInodes := h.counters.nrFreeInodes
  have hmeta := h.counters.metaBlocks
  have hlt : (superblock size).toSbInfo.metaBlocks < (superblock size).nrBlocks := hs.meta_lt
  have hfree : (superblock size).nrFreeBlocks =
      (superblock size).nrBlocks - (superblock size).toSbInfo.metaBlocks - 1 := hs.freeBlocks
  have hblocks := hs.blocks_lt
  have hifree := hs.ifree
  have hbfree := hs.bfree
  have hinodes := hs.inodes_lt
  have hpos := hs.inodes_pos
  have hstore := hs.istore_le
  have hfreeInodes := hs.freeInodes
  obtain ⟨ci, hci, hroot⟩ := h.root
  exact {
    meta_lt := by omega
    blocks_lt := by omega
    inodes_pos := by omega
    inodes_lt := by omega
    istore := by omega
    bfree := fun b hb => by rw [h.bfree b (by omega), hmeta]
    nrFreeBlocks := by omega
    ifree := fun i hi => h.ifree i (by omega)
    nrFreeInodes := by omega
    nrSliced := h.counters.nrSlicedBlocks
    nrUsedSlices := h.counters.nrUsedSlices
    noSliced := h.counters.sFreeSlicedBlocks
    root := ⟨ci, hci, by rw [hroot.iMode]; rfl, hroot.iSize, hroot.iNlink, by
      rw [hroot.indexBlock, hmeta]⟩
    uncached := h.uncached
    rootZero := by rw [hmeta, h.disk]; exact him.root }

/-- The free blocks are as they were before. -/
theorem Mounted.blank (h : Mounted (superblock size) disk k)
    (him : Image (superblock size) before disk) (hs : (superblock size).Sized)
    (hz : ∀ b, before b = Page.zero) : k.fs.Blank where
  blocks_le := by
    have hB : k.fs.sbi.nrBlocks = (superblock size).nrBlocks := h.counters.nrBlocks
    have hblocks := hs.blocks_lt
    omega
  zero b hb hfree := by
    have hB : k.fs.sbi.nrBlocks = (superblock size).nrBlocks := h.counters.nrBlocks
    have hmeta := h.counters.metaBlocks
    have hbfree := hs.bfree
    rw [h.bfree b (by omega), decide_eq_true_eq] at hfree
    rw [h.disk, him.data b (by omega), hz b]

end Layout

section Format

variable (long : LongSize) (now : Timespec) (fsuid fsgid : Nat) {fd fd' : Fd}

/-- **Formatting and mounting** give a mounted image. -/
theorem mkfs_mounted (hrun : mkfs fd = .ok (true, fd')) (hfits : (superblock fd.size).Fits)
    (hn : 5 ≤ (superblock fd.size).nrBlocks) :
    ∃ k, ouichefsFillSuper long now fsuid fsgid ⟨fd.size / 4096, fd'.block, []⟩ = .ok (.ok k) ∧
      Mounted (superblock fd.size) fd'.block k ∧
      Image (superblock fd.size) fd.block fd'.block := by
  have hs := superblock_sized hfits hn
  obtain ⟨-, fd₀, hpos, hblock, hwrite⟩ := mkfs_true hrun
  have him := writeImage_true hwrite hpos hfits hs
  rw [hblock] at him
  obtain ⟨k, hfill, hmount⟩ := ouichefsFillSuper_image long now fsuid fsgid him hfits hs
    (show fd.size / 4096 % 4294967296 ≤ fd.size / 4096 from Nat.mod_le _ _)
  exact ⟨k, hfill, hmount, him⟩

/-- Runs of the file system start from what `mkfs` writes.  Its free blocks are zero-filled only
where the partition was before. -/
theorem mkfs_formatted (hrun : mkfs fd = .ok (true, fd')) (hfits : (superblock fd.size).Fits)
    (hn : 5 ≤ (superblock fd.size).nrBlocks) :
    ∃ k, ouichefsFillSuper long now fsuid fsgid ⟨fd.size / 4096, fd'.block, []⟩ = .ok (.ok k) ∧
      k.faults = [] ∧ Formatted k.fs ∧ ((∀ b, fd.block b = Page.zero) → k.fs.Blank) := by
  obtain ⟨k, hfill, hmount, him⟩ := mkfs_mounted long now fsuid fsgid hrun hfits hn
  have hs := superblock_sized hfits hn
  exact ⟨k, hfill, hmount.faults, hmount.formatted him hs, hmount.blank him hs⟩

/-- With fewer than 5 blocks the root directory lies past the end. -/
theorem LayoutAgrees.five_le {size : Nat} {k : Kernel} (h : LayoutAgrees (superblock size) k) :
    5 ≤ (superblock size).nrBlocks := by
  by_contra hlt
  have hfew := superblock_meta (show (superblock size).nrBlocks < 5 by omega)
  have hused : (k.inode 1).indexBlock < k.fs.sbi.nrBlocks := h.rootUsed.1
  rw [h.root.indexBlock, h.counters.metaBlocks, h.counters.nrBlocks] at hused
  exact absurd hused (Nat.not_lt.2 hfew)

/-- **`mkfs` and the kernel agree on the layout** exactly when the number of blocks, of which
`write_superblock` keeps 32 bits, is at least 5 there. -/
theorem mkfs_agrees_iff (hsize : 409600 ≤ fd.size) (hfits : (superblock fd.size).Fits) :
    (fd.faults = [] → ∃ fd', mkfs fd = .ok (true, fd')) ∧
      ∀ fd', mkfs fd = .ok (true, fd') →
        (MountAgrees long now fsuid fsgid fd fd' ↔ 5 ≤ fd.size / 4096 % 4294967296) := by
  refine ⟨fun hf => mkfs_ok hf hsize hfits, fun fd' hrun => ⟨?_, fun hn => ?_⟩⟩
  · rintro ⟨k, -, hagree⟩
    exact hagree.five_le
  · obtain ⟨k, hfill, hmount, him⟩ := mkfs_mounted long now fsuid fsgid hrun hfits hn
    exact ⟨k, hfill, hmount.layoutAgrees him (superblock_sized hfits hn)⟩

/-- A zero-filled file of `size` bytes. -/
def zeroFile (size : Nat) : Fd := ⟨false, size, fun _ => Page.zero, 0, []⟩

theorem mkfs_agrees_iff_smallest : ∃ fd', mkfs (zeroFile 409600) = .ok (true, fd') ∧
    MountAgrees .bits64 ⟨0, 0⟩ 0 0 (zeroFile 409600) fd' := by
  have hfits : (superblock 409600).Fits := by
    unfold Superblock.Fits
    decide
  obtain ⟨hok, hagree⟩ := @mkfs_agrees_iff .bits64 ⟨0, 0⟩ 0 0 (zeroFile 409600)
    (Nat.le_refl _) hfits
  obtain ⟨fd', hrun⟩ := hok rfl
  exact ⟨fd', hrun, (hagree fd' hrun).2 (by decide)⟩

/-- A partition of 16 TiB is formatted as if it had no blocks. -/
theorem mkfs_sixteen_tib : 409600 ≤ (zeroFile 17592186044416).size ∧
    (superblock 17592186044416).Fits ∧ ∃ fd', mkfs (zeroFile 17592186044416) = .ok (true, fd') ∧
      ¬MountAgrees .bits64 ⟨0, 0⟩ 0 0 (zeroFile 17592186044416) fd' := by
  have hfits : (superblock 17592186044416).Fits := by
    unfold Superblock.Fits
    decide
  obtain ⟨fd', hrun⟩ := @mkfs_ok (zeroFile 17592186044416) rfl (by decide) hfits
  refine ⟨by decide, hfits, fd', hrun, ?_⟩
  rintro ⟨k, -, hagree⟩
  have hn : 5 ≤ (superblock 17592186044416).nrBlocks := hagree.five_le
  revert hn
  decide

end Format

end Ouichefs
