import Ouichefs.Effect
import Ouichefs.Super
import Mathlib.Algebra.BigOperators.Intervals
import Mathlib.Algebra.Order.BigOperators.Group.Finset

/-!
# Statistics (`sysfs.c`)

`total_data_size`, `total_file_count` and `total_small_file_count` walk over the inode numbers from
1 to the number of used inodes.  `mkfs` counts one free inode too many, so the first two stop one
number short, and after deletions the used numbers are not the first ones anyway.  A free number
among those visited is read like any other: from memory, or, once its inode was evicted, from the
record that was last written back.

* `StatInv`: what every call, every last `iput` and every write-back keeps.
* `stats_right_iff`: the statistics are right where the free numbers they visit make up for the
  allocated ones they miss.
* `StatInv.stale`: that needs a free number with bytes in its record.
-/

set_option autoImplicit false

namespace Ouichefs

open FreeMap

/-! ## The functions -/

/-- The loop of the statistics: `n` inodes from number `i` on, each counted by `f`.  An error
pointer of `ouichefs_iget` is not recognised. -/
def sumInodes (f : Inode → Nat) : Nat → Nat → Kernel → Nat → Outcome Nat
  | 0, _, k, acc => .ok (acc, k)
  | n + 1, i, k, acc =>
    match ouichefsIget k i with
    | (err, k) =>
      if err ≠ 0 then .error (.badPointer, k) else sumInodes f n (i + 1) k (acc + f (k.inode i))

/-- `sbi->nr_inodes - sbi->nr_free_inodes`. -/
def SbInfo.usedInodes (sbi : SbInfo) : Nat := sub32 sbi.nrInodes sbi.nrFreeInodes

/-- `total_data_size`. -/
def totalDataSize (k : Kernel) : Outcome Nat :=
  sumInodes (fun ci => ci.iSize) (k.fs.sbi.usedInodes - 1) 1 k 0

/-- `total_file_count`. -/
def totalFileCount (k : Kernel) : Outcome Nat :=
  sumInodes (fun ci => if sIsDir ci.iMode then 0 else 1) (k.fs.sbi.usedInodes - 1) 1 k 0

/-- `total_small_file_count`, whose loop runs one number further. -/
def totalSmallFileCount (k : Kernel) : Outcome Nat :=
  sumInodes (fun ci => if sIsDir ci.iMode then 0 else if ci.iBlocks = 0 then 1 else 0)
    (add32 k.fs.sbi.usedInodes 1 - 1) 1 k 0

/-- `total_free_slices_show`. -/
def totalFreeSlicesShow (sbi : SbInfo) : Nat :=
  if sbi.sFreeSlicedBlocks = 0 then 0 else sub32 (31 * sbi.nrSlicedBlocks % 4294967296) sbi.nrUsedSlices

/-- `BLOCK_SIZE` of `linux/fs.h`. -/
def blockSize : Nat := 1024

/-- `total_used_size`: the product is taken in `uint32_t`. -/
def totalUsedSize (sbi : SbInfo) : Nat :=
  sub32 sbi.nrBlocks sbi.nrFreeBlocks * blockSize % 4294967296

/-- `efficiency_show`: the percentage. -/
def efficiencyShow (k : Kernel) : Outcome Nat :=
  match totalDataSize k with
  | .error e => .error e
  | .ok (size, k') =>
    if totalUsedSize k.fs.sbi = 0 then .error (.divideError, k')
    else .ok (size * 100 / totalUsedSize k.fs.sbi, k')

/-- What `ouichefs_iget` finds: the in-memory inode, or the record in the inode store. -/
def Fs.igetInode (fs : Fs) (ino : Nat) : Inode :=
  (fs.icache ino).getD (decodeInode (fs.disk (ino / 51 + 1)) (ino % 51))

theorem Fs.igetInode_cached {fs : Fs} {ino : Nat} (h : (fs.icache ino).isSome) :
    fs.igetInode ino = fs.inode ino := by
  obtain ⟨ci, hci⟩ := Option.isSome_iff_exists.1 h
  unfold Fs.igetInode Fs.inode
  rw [hci]
  rfl

/-- `ouichefs_iget` brings an inode into memory and changes no inode. -/
theorem ouichefsIget_found {k : Kernel} {ino : Nat} (hf : k.faults = [])
    (hino : ino < k.fs.sbi.nrInodes) (hb : ino / 51 + 1 < k.fs.sbi.nrBlocks) :
    ∃ k', ouichefsIget k ino = (0, k') ∧ k'.faults = [] ∧ k'.fs.sbi = k.fs.sbi ∧
      k'.inode ino = k.fs.igetInode ino ∧ ∀ i, k'.fs.igetInode i = k.fs.igetInode i := by
  unfold ouichefsIget
  rw [if_neg (Nat.not_le.2 hino)]
  cases hc : k.fs.icache ino with
  | some ci => exact ⟨k, rfl, hf, rfl, (Fs.igetInode_cached (by rw [hc]; rfl)).symm, fun _ => rfl⟩
  | none =>
      simp only [Kernel.sbBread_ok hf hb]
      have hrec : k.fs.igetInode ino = decodeInode (k.fs.disk (ino / 51 + 1)) (ino % 51) := by
        unfold Fs.igetInode
        rw [hc]
        rfl
      refine ⟨_, rfl, hf, rfl, ?_, fun i => ?_⟩
      · rw [hrec]
        simp [Kernel.inode]
      · by_cases hi : i = ino
        · rw [hi, hrec]
          simp [Fs.igetInode]
        · simp [Fs.igetInode, Fs.icache_setInode_of_ne _ _ _ hi]

/-- The loop sums up what `ouichefs_iget` finds. -/
theorem sumInodes_found (f : Inode → Nat) : ∀ (n i acc : Nat) (k : Kernel), k.faults = [] →
    (∀ j, i ≤ j → j < i + n → j < k.fs.sbi.nrInodes ∧ j / 51 + 1 < k.fs.sbi.nrBlocks) →
    (sumInodes f n i k acc).value? =
      some (acc + ∑ j ∈ Finset.Ico i (i + n), f (k.fs.igetInode j)) := by
  intro n
  induction n with
  | zero => intro i acc k _ _; simp [sumInodes, Outcome.value?]
  | succ n ih =>
      intro i acc k hf h
      obtain ⟨hino, hb⟩ := h i (Nat.le_refl _) (by omega)
      obtain ⟨k', hget, hf', hsbi, hown, hall⟩ := ouichefsIget_found hf hino hb
      unfold sumInodes
      rw [hget]
      simp only [ne_eq, not_true_eq_false, if_false]
      rw [ih (i + 1) _ k' hf' fun j h1 h2 => by rw [hsbi]; exact h j (by omega) (by omega)]
      rw [Finset.sum_eq_sum_Ico_succ_bot (by omega : i < i + (n + 1)), hown, Nat.add_assoc,
        show i + 1 + n = i + (n + 1) by omega]
      simp only [hall]

/-! ## What they should compute -/

/-- An allocated regular file. -/
def Fs.Regular (fs : Fs) (ino : Nat) : Prop := fs.Live ino ∧ sIsReg (fs.inode ino).iMode = true

instance (fs : Fs) (ino : Nat) : Decidable (fs.Regular ino) := inferInstanceAs (Decidable (_ ∧ _))

/-- The statistics describe the file system. -/
structure StatsRight (k : Kernel) : Prop where
  files : (totalFileCount k).value? =
    some ((Finset.range k.fs.sbi.nrInodes).filter fun i => k.fs.Regular i).card
  small : (totalSmallFileCount k).value? = some ((Finset.range k.fs.sbi.nrInodes).filter fun i =>
    k.fs.Regular i ∧ (k.fs.inode i).iBlocks = 0).card
  size : (totalDataSize k).value? = some (∑ i ∈ (Finset.range k.fs.sbi.nrInodes).filter
    fun i => k.fs.Live i, (k.fs.inode i).iSize)

/-- The numbers of the allocated inodes. -/
def Fs.liveSet (fs : Fs) : Finset Nat := (Finset.range fs.sbi.nrInodes).filter fun i => fs.Live i

theorem Fs.mem_liveSet (fs : Fs) (i : Nat) : i ∈ fs.liveSet ↔ fs.Live i := by
  unfold Fs.liveSet
  rw [Finset.mem_filter, Finset.mem_range]
  exact and_iff_right_of_imp fun h => h.2.1

/-- The free numbers from 1 up to `n`. -/
def Fs.spare (fs : Fs) (n : Nat) : Finset Nat := Finset.Ico 1 n \ fs.liveSet

/-- The allocated numbers from `n` on. -/
def Fs.missed (fs : Fs) (n : Nat) : Finset Nat := fs.liveSet \ Finset.Ico 1 n

/-- The inodes of the free numbers that are visited make up for the allocated ones that are not. -/
structure StatsBalanced (fs : Fs) : Prop where
  files : ((fs.spare fs.sbi.usedInodes).filter fun i => sIsDir (fs.igetInode i).iMode = false).card =
    ((fs.missed fs.sbi.usedInodes).filter fun i => sIsDir (fs.igetInode i).iMode = false).card
  small : ((fs.spare (fs.sbi.usedInodes + 1)).filter fun i =>
      sIsDir (fs.igetInode i).iMode = false ∧ (fs.igetInode i).iBlocks = 0).card =
    ((fs.missed (fs.sbi.usedInodes + 1)).filter fun i =>
      sIsDir (fs.igetInode i).iMode = false ∧ (fs.igetInode i).iBlocks = 0).card
  size : ∑ i ∈ fs.spare fs.sbi.usedInodes, (fs.igetInode i).iSize =
    ∑ i ∈ fs.missed fs.sbi.usedInodes, (fs.igetInode i).iSize

/-! ## The invariant -/

/-- Allocated inodes are in memory, directories have 4096 bytes, what is no directory is a regular
file, and the counter of free inodes is one too high. -/
structure StatInv (k : Kernel) : Prop where
  faults : k.faults = []
  bit0 : k.fs.sbi.ifreeBitmap 0 = false
  root : k.fs.sbi.ifreeBitmap 1 = false
  rootDir : sIsDir (k.inode 1).iMode = true
  lt : 1 < k.fs.sbi.nrInodes
  inodes_lt : k.fs.sbi.nrInodes < 4294967296
  istore : ∀ i < k.fs.sbi.nrInodes, i / 51 + 1 < k.fs.sbi.nrBlocks
  cached : ∀ i, k.fs.Live i → (k.fs.icache i).isSome
  dirSize : ∀ i, k.fs.Live i → sIsDir (k.inode i).iMode = true → (k.inode i).iSize = 4096
  mode : ∀ i, k.fs.Live i → sIsDir (k.inode i).iMode = false → sIsReg (k.inode i).iMode = true
  count : k.fs.sbi.nrFreeInodes = countBits k.fs.sbi.ifreeBitmap k.fs.sbi.nrInodes + 1

section Steps

variable {k k' : Kernel} {dir ino mode : Nat}

theorem StatInv.root_live (h : StatInv k) : k.fs.Live 1 := ⟨by decide, h.lt, h.root⟩

theorem StatInv.free_lt (h : StatInv k) : k.fs.sbi.nrFreeInodes < 4294967296 := by
  have h1 : countBits k.fs.sbi.ifreeBitmap k.fs.sbi.nrInodes < k.fs.sbi.nrInodes :=
    countBits_lt (i := 0) (by have := h.lt; omega) h.bit0
  have h2 := h.inodes_lt
  rw [h.count]
  omega

/-- What a step does to the allocated inodes: those that stay keep their kind, a directory its size,
and a new one is right. -/
theorem StatInv.frame (h : StatInv k) (hf : k'.faults = []) (hg : SameGeom k.fs.sbi k'.fs.sbi)
    (h0 : k'.fs.sbi.ifreeBitmap 0 = false) (h1 : k'.fs.sbi.ifreeBitmap 1 = false)
    (hroot : (k'.inode 1).iMode = (k.inode 1).iMode)
    (hcached : ∀ i, k'.fs.Live i → (k'.fs.icache i).isSome)
    (hdir : ∀ i, k'.fs.Live i → sIsDir (k'.inode i).iMode = true → (k'.inode i).iSize = 4096)
    (hreg : ∀ i, k'.fs.Live i → sIsDir (k'.inode i).iMode = false →
      sIsReg (k'.inode i).iMode = true)
    (hcount : k'.fs.sbi.nrFreeInodes =
      countBits k'.fs.sbi.ifreeBitmap k'.fs.sbi.nrInodes + 1) : StatInv k' where
  faults := hf
  bit0 := h0
  root := h1
  rootDir := by rw [hroot]; exact h.rootDir
  lt := by rw [hg.nrInodes]; exact h.lt
  inodes_lt := by rw [hg.nrInodes]; exact h.inodes_lt
  istore := by rw [hg.nrInodes, hg.nrBlocks]; exact h.istore
  cached := hcached
  dirSize := hdir
  mode := hreg
  count := hcount

/-- A step that changes no allocated inode. -/
theorem StatInv.kept (h : StatInv k) (hf : k'.faults = []) (hg : SameGeom k.fs.sbi k'.fs.sbi)
    (hi : k'.fs.sbi.ifreeBitmap = k.fs.sbi.ifreeBitmap)
    (hn : k'.fs.sbi.nrFreeInodes = k.fs.sbi.nrFreeInodes)
    (hc : ∀ i, k.fs.Live i → k'.fs.icache i = k.fs.icache i) : StatInv k' := by
  have hlive : ∀ i, k'.fs.Live i ↔ k.fs.Live i := by
    intro i
    unfold Fs.Live
    rw [hg.nrInodes, hi]
  have hin : ∀ i, k'.fs.Live i → k'.inode i = k.inode i := by
    intro i hl
    unfold Kernel.inode Fs.inode
    rw [hc i ((hlive i).1 hl)]
  have hroot := (hlive 1).2 h.root_live
  refine h.frame hf hg (by rw [hi]; exact h.bit0) hroot.2.2 (by rw [hin 1 hroot])
    (fun i hl => ?_) (fun i hl => ?_) (fun i hl => ?_) (by rw [hn, hi, hg.nrInodes]; exact h.count)
  · rw [hc i ((hlive i).1 hl)]
    exact h.cached i ((hlive i).1 hl)
  · rw [hin i hl]
    exact h.dirSize i ((hlive i).1 hl)
  · rw [hin i hl]
    exact h.mode i ((hlive i).1 hl)

theorem StatInv.idle (h : StatInv k) (he : Idle k k') : StatInv k' :=
  h.kept he.faults he.geom he.ifree he.nrFreeInodes fun i hl => he.kept i (h.cached i hl)

/-- A new inode is in memory and has the size of its kind. -/
theorem StatInv.create (h : StatInv k) (he : CreateEff k k' dir ino mode) : StatInv k' := by
  have hfree : ∀ i, i ≠ ino → k'.fs.sbi.ifreeBitmap i = k.fs.sbi.ifreeBitmap i := by
    intro i hi
    rw [he.ifree, Function.update_of_ne hi]
  have hne : ∀ i, k.fs.sbi.ifreeBitmap i = false → i ≠ ino := by
    rintro i hi rfl
    rw [he.free] at hi
    cases hi
  have hold : ∀ i, i ≠ ino → k'.fs.Live i → k.fs.Live i := by
    intro i hi hl
    refine ⟨hl.1, by rw [← he.geom.nrInodes]; exact hl.2.1, by rw [← hfree i hi]; exact hl.2.2⟩
  refine h.frame he.faults he.geom (by rw [hfree 0 he.pos.symm]; exact h.bit0)
    (by rw [hfree 1 (hne 1 h.root)]; exact h.root) (he.view 1 (hne 1 h.root)).iMode
    (fun i hl => ?_) (fun i hl hd => ?_) (fun i hl hd => ?_) ?_
  · refine he.cached i ?_
    by_cases hi : i = ino
    · exact Or.inl hi
    · exact Or.inr (h.cached i (hold i hi hl))
  · by_cases hii : i = ino
    · subst hii
      rw [he.dir] at hd
      rw [he.size, if_pos hd]
    · rw [(he.view i hii).iMode] at hd
      rw [(he.view i hii).iSize]
      exact h.dirSize i (hold i hii hl) hd
  · by_cases hii : i = ino
    · subst hii
      rw [he.dir] at hd
      exact he.reg hd
    · rw [(he.view i hii).iMode] at hd ⊢
      exact h.mode i (hold i hii hl) hd
  · have hc := countBits_clear he.lt he.free
    have hp : 0 < countBits k.fs.sbi.ifreeBitmap k.fs.sbi.nrInodes :=
      countBits_pos_iff.2 ⟨ino, he.lt, he.free⟩
    have hlt := h.inodes_lt
    have hlt' := h.lt
    have h0 : countBits k.fs.sbi.ifreeBitmap k.fs.sbi.nrInodes < k.fs.sbi.nrInodes :=
      countBits_lt (by omega) h.bit0
    rw [he.nrFreeInodes, he.ifree, he.geom.nrInodes, h.count, hc]
    unfold sub32
    omega

theorem StatInv.remove (h : StatInv k) (he : RemoveEff k k' dir ino) (hl : k.fs.Live ino)
    (hroot : ino ≠ 1) : StatInv k' := by
  have hfree : ∀ i, i ≠ ino → k'.fs.sbi.ifreeBitmap i = k.fs.sbi.ifreeBitmap i := by
    intro i hi
    rw [he.ifree, Function.update_of_ne hi]
  have hold : ∀ i, k'.fs.Live i → i ≠ ino ∧ k.fs.Live i := by
    intro i hi
    have hne : i ≠ ino := by
      rintro rfl
      have := hi.2.2
      rw [he.ifree, Function.update_self] at this
      cases this
    exact ⟨hne, hi.1, by rw [← he.geom.nrInodes]; exact hi.2.1, by rw [← hfree i hne]; exact hi.2.2⟩
  refine h.frame he.faults he.geom (by rw [hfree 0 hl.1.symm]; exact h.bit0)
    (by rw [hfree 1 hroot.symm]; exact h.root) (he.view 1 hroot.symm).iMode
    (fun i hi => he.cached i (Or.inr (h.cached i (hold i hi).2))) (fun i hi hd => ?_)
    (fun i hi hd => ?_) ?_
  · obtain ⟨hne, hi'⟩ := hold i hi
    rw [(he.view i hne).iMode] at hd
    rw [(he.view i hne).iSize]
    exact h.dirSize i hi' hd
  · obtain ⟨hne, hi'⟩ := hold i hi
    rw [(he.view i hne).iMode] at hd ⊢
    exact h.mode i hi' hd
  · have hc := countBits_set hl.2.1 hl.2.2
    have h0 := countBits_lt hl.2.1 hl.2.2
    have hlt := h.inodes_lt
    have h01 : countBits (Function.update k.fs.sbi.ifreeBitmap ino true) k.fs.sbi.nrInodes <
        k.fs.sbi.nrInodes := by
      refine countBits_lt (i := 0) (by have := h.lt; omega) ?_
      rw [Function.update_of_ne hl.1.symm]
      exact h.bit0
    rw [he.nrFreeInodes, he.ifree, he.geom.nrInodes, h.count, hc]
    unfold add32
    omega

/-- A write to an allocated file. -/
theorem StatInv.touch (h : StatInv k) (he : Touch ino k k') (hl : k.fs.Live ino)
    (hd : sIsDir (k.inode ino).iMode = false) : StatInv k' := by
  have hin : ∀ i, i ≠ ino → k'.inode i = k.inode i := by
    intro i hi
    unfold Kernel.inode Fs.inode
    rw [he.others i hi]
  have hroot : (1 : Nat) ≠ ino := by
    rintro rfl
    rw [h.rootDir] at hd
    cases hd
  refine h.frame (he.faults h.faults) he.geom (by rw [he.ifree]; exact h.bit0)
    (by rw [he.ifree]; exact h.root) (by rw [hin 1 hroot]) (fun i hi => ?_) (fun i hi hdi => ?_)
    (fun i hi hdi => ?_) (by rw [he.nrFreeInodes, he.ifree, he.geom.nrInodes]; exact h.count)
  · by_cases hii : i = ino
    · subst hii
      exact he.cached (h.cached i hl)
    · rw [he.others i hii]
      exact h.cached i ((he.live i).1 hi)
  · have hii : i ≠ ino := by
      rintro rfl
      rw [he.mode, hd] at hdi
      cases hdi
    rw [hin i hii] at hdi ⊢
    exact h.dirSize i ((he.live i).1 hi) hdi
  · by_cases hii : i = ino
    · subst hii
      rw [he.mode]
      exact h.mode i hl hd
    · rw [hin i hii] at hdi ⊢
      exact h.mode i ((he.live i).1 hi) hdi

/-- The last `iput` of a removed inode. -/
theorem StatInv.evict (h : StatInv k) (hfree : k.fs.sbi.ifreeBitmap ino = true) :
    StatInv (k.uncache ino) := by
  refine h.kept h.faults (.refl _) rfl rfl fun i hl => ?_
  refine Function.update_of_ne ?_ _ _
  rintro rfl
  rw [hl.2.2] at hfree
  cases hfree

/-- Write-back changes a block of the inode store, and no inode in memory. -/
theorem StatInv.writeBack (h : StatInv k) (ino : Nat) : StatInv (ouichefsWriteInode k ino).2 := by
  have hread := Quiet.sbBread 0 k (ino / 51 + 1)
  have hcache : (k.sbBread (ino / 51 + 1)).2.fs = k.fs := Kernel.fs_sbBread k _
  unfold ouichefsWriteInode
  simp only
  split
  · exact h
  · split
    · rename_i k₁ heq
      rw [heq] at hread hcache
      exact h.kept (hread.faults h.faults) hread.geom hread.ifree hread.nrFreeInodes
        fun i _ => by rw [hcache]
    · rename_i k₁ heq
      rw [heq] at hread hcache
      refine h.kept (hread.faults h.faults) hread.geom hread.ifree hread.nrFreeInodes fun i _ => ?_
      show k₁.fs.icache i = k.fs.icache i
      rw [hcache]

end Steps

/-! ## Runs -/

/-- What the VFS guarantees of creations, removals and writes: directories are directories, what is
removed or written is allocated, and the root is never removed. -/
def Op.Vfs (fs : Fs) : Op → Prop
  | .create dir _ _ => fs.Is dir .dir
  | .mkdir dir _ _ => fs.Is dir .dir
  | .unlink dir _ ino => fs.Is dir .dir ∧ fs.Live ino ∧ ¬fs.Is ino .dir
  | .rmdir dir _ ino => fs.Is dir .dir ∧ fs.Is ino .dir ∧ ino ≠ 1 ∧ ino ≠ dir
  | .rename .. => False
  | .write ino _ _ => fs.Live ino ∧ ¬fs.Is ino .dir
  | .append ino _ _ => fs.Live ino ∧ ¬fs.Is ino .dir

instance (fs : Fs) : (op : Op) → Decidable (op.Vfs fs)
  | .create .. => inferInstanceAs (Decidable (Fs.Is ..))
  | .mkdir .. => inferInstanceAs (Decidable (Fs.Is ..))
  | .unlink .. => inferInstanceAs (Decidable (_ ∧ _ ∧ _))
  | .rmdir .. => inferInstanceAs (Decidable (_ ∧ _ ∧ _ ∧ _))
  | .rename .. => inferInstanceAs (Decidable False)
  | .write .. => inferInstanceAs (Decidable (_ ∧ _))
  | .append .. => inferInstanceAs (Decidable (_ ∧ _))

/-- A call, or what the kernel does to an in-memory inode between two calls: the last `iput` of a
removed inode evicts it, and write-back stores an inode in its record. -/
inductive CacheStep where
  | call (c : Call)
  | evict (ino : Nat)
  | writeBack (ino : Nat)
  deriving DecidableEq, Repr

def CacheStep.exec (k : Kernel) : CacheStep → Outcome Int
  | .call c => c.exec k
  | .evict ino => .ok (0, k.uncache ino)
  | .writeBack ino => .ok (ouichefsWriteInode k ino)

/-- Only a removed inode is evicted, and only an inode in memory is written back. -/
def CacheStep.Vfs (k : Kernel) : CacheStep → Prop
  | .call c => c.op.Vfs k.fs
  | .evict ino => k.fs.sbi.ifreeBitmap ino = true
  | .writeBack ino => (k.fs.icache ino).isSome

instance (k : Kernel) : (s : CacheStep) → Decidable (s.Vfs k)
  | .call c => inferInstanceAs (Decidable (c.op.Vfs k.fs))
  | .evict _ => inferInstanceAs (Decidable (_ = true))
  | .writeBack _ => inferInstanceAs (Decidable (_ = true))

section Runs

variable {k k' : Kernel}

theorem Fs.not_dir {fs : Fs} {ino : Nat} (hl : fs.Live ino) (h : ¬fs.Is ino .dir) :
    sIsDir (fs.inode ino).iMode = false := by
  by_contra hd
  exact h ⟨hl, Inode.kind_dir.2 (by simpa using hd)⟩

theorem StatInv.call {c : Call} {r : Int} (h : StatInv k) (hc : c.op.Vfs k.fs)
    (hrun : c.exec k = .ok (r, k')) : StatInv k' := by
  obtain ⟨op, now, uid, gid⟩ := c
  have hk : StatInv (k.setCaller now uid gid) :=
    h.kept h.faults (.refl _) rfl rfl fun _ _ => rfl
  unfold Call.exec at hrun
  simp only at hc hrun
  rw [← Kernel.fs_setCaller k now uid gid] at hc
  generalize k.setCaller now uid gid = k₀ at hc hrun hk
  have hcreate : ∀ dir name mode, k₀.fs.Is dir .dir →
      ouichefsCreate k₀ dir name mode = .ok (r, k') → StatInv k' := by
    intro dir name mode hd hr
    rcases ouichefsCreate_effect hk.faults hk.bit0 hk.free_lt hd.1.2.2 hr with hi | ⟨ino, -, he⟩
    · exact hk.idle hi
    · exact hk.create he
  have hwrite : ∀ ino iocb data, k₀.fs.Live ino ∧ ¬k₀.fs.Is ino .dir →
      writeResult (customWriteIter k₀ ino iocb data) = .ok (r, k') → StatInv k' := by
    intro ino iocb data hl hr
    have ht := customWriteIter_touch ino k₀ iocb data
    have hker := congrArg Outcome.kernel hr
    rw [writeResult_kernel] at hker
    rw [hker] at ht
    exact hk.touch ht hl.1 (Fs.not_dir hl.1 hl.2)
  cases op with
  | create dir name mode => exact hcreate dir name mode hc hrun
  | mkdir dir name mode => exact hcreate dir name _ hc hrun
  | unlink dir name ino =>
      obtain ⟨hd, hl, hnd⟩ := hc
      have hne : ino ≠ dir := by
        rintro rfl
        exact hnd hd
      have hroot : ino ≠ 1 := by
        rintro rfl
        exact hnd ⟨hl, Inode.kind_dir.2 hk.rootDir⟩
      rcases ouichefsUnlink_effect hk.faults hl.2.1 hne hrun with hi | ⟨-, he⟩
      · exact hk.idle hi
      · exact hk.remove he hl hroot
  | rmdir dir name ino =>
      obtain ⟨hd, hl, hroot, hne⟩ := hc
      rcases ouichefsRmdir_effect hk.faults hl.1.2.1 hne hrun with hi | ⟨-, he⟩
      · exact hk.idle hi
      · exact hk.remove he hl.1 hroot
  | rename => exact hc.elim
  | write ino pos data => exact hwrite ino _ data hc hrun
  | append ino pos data => exact hwrite ino _ data hc hrun

theorem StatInv.step {s : CacheStep} {r : Int} (h : StatInv k) (hs : s.Vfs k)
    (hrun : s.exec k = .ok (r, k')) : StatInv k' := by
  cases s with
  | call c => exact h.call hs hrun
  | evict ino =>
      cases hrun
      exact h.evict hs
  | writeBack ino =>
      have hker := congrArg Outcome.kernel hrun
      rw [show k' = (ouichefsWriteInode k ino).2 from hker.symm]
      exact h.writeBack ino

theorem Formatted.statInv (hf : k.faults = []) (h : Formatted k.fs) : StatInv k := by
  obtain ⟨ci, hci, hm, hs, -⟩ := h.root
  have hin : k.inode 1 = ci := by
    unfold Kernel.inode Fs.inode
    rw [hci]
    rfl
  have hp := h.inodes_pos
  have hstore : ∀ i < k.fs.sbi.nrInodes, i / 51 + 1 < k.fs.sbi.nrBlocks := by
    intro i hi
    have hmeta := h.meta_lt
    have hle := h.istore
    unfold SbInfo.metaBlocks at hmeta
    omega
  refine ⟨hf, by rw [h.ifree 0 (by omega)]; rfl, by rw [h.ifree 1 hp]; rfl, by rw [hin]; exact hm,
    hp, h.inodes_lt, hstore, fun i hi => ?_, fun i hi _ => ?_, fun i hi hd => ?_, ?_⟩
  · obtain rfl := (h.live i).1 hi
    rw [hci]
    rfl
  · obtain rfl := (h.live i).1 hi
    rw [hin, hs]
  · obtain rfl := (h.live i).1 hi
    rw [hin, hm] at hd
    cases hd
  · have hcount : countBits k.fs.sbi.ifreeBitmap k.fs.sbi.nrInodes = k.fs.sbi.nrInodes - 2 := by
      rw [← countBits_prefix]
      exact countBits_congr fun j hj => by rw [h.ifree j hj]; rfl
    rw [h.nrFreeInodes, hcount]
    omega

/-- Every number is free or not. -/
theorem card_clear (m : Nat → Bool) (n : Nat) :
    ((Finset.range n).filter fun i => m i = false).card + countBits m n = n := by
  induction n with
  | zero => rfl
  | succ n ih =>
      rw [countBits_succ, Finset.range_add_one, Finset.filter_insert]
      cases hn : m n with
      | false =>
          rw [if_pos rfl, Finset.card_insert_of_notMem (by simp)]
          simp only [Bool.false_eq_true, if_false]
          omega
      | true =>
          simp only [Bool.true_eq_false, if_false, if_true]
          omega

/-- The number the statistics start from is the number of allocated inodes. -/
theorem StatInv.card_live (h : StatInv k) : k.fs.liveSet.card = k.fs.sbi.usedInodes := by
  have hn := h.lt
  have herase : k.fs.liveSet =
      ((Finset.range k.fs.sbi.nrInodes).filter fun i => k.fs.sbi.ifreeBitmap i = false).erase 0 := by
    ext i
    rw [Fs.mem_liveSet, Finset.mem_erase, Finset.mem_filter, Finset.mem_range]
    exact Iff.rfl
  have hmem : 0 ∈ (Finset.range k.fs.sbi.nrInodes).filter fun i => k.fs.sbi.ifreeBitmap i = false := by
    rw [Finset.mem_filter, Finset.mem_range]
    exact ⟨by omega, h.bit0⟩
  have hcard := card_clear k.fs.sbi.ifreeBitmap k.fs.sbi.nrInodes
  have hlt := h.inodes_lt
  have hle : countBits k.fs.sbi.ifreeBitmap k.fs.sbi.nrInodes < k.fs.sbi.nrInodes :=
    countBits_lt (i := 0) (by omega) h.bit0
  rw [herase, Finset.card_erase_of_mem hmem]
  unfold SbInfo.usedInodes
  rw [h.count, sub32_of_le hlt hle]
  omega

theorem StatInv.used_lt (h : StatInv k) : 1 ≤ k.fs.sbi.usedInodes ∧
    k.fs.sbi.usedInodes < k.fs.sbi.nrInodes := by
  rw [← h.card_live]
  constructor
  · exact Finset.card_pos.2 ⟨1, (k.fs.mem_liveSet 1).2 h.root_live⟩
  · have hsub : k.fs.liveSet ⊆ Finset.Ico 1 k.fs.sbi.nrInodes := by
      intro i hi
      rw [Fs.mem_liveSet] at hi
      exact Finset.mem_Ico.2 ⟨Nat.pos_of_ne_zero hi.1, hi.2.1⟩
    have hle := Finset.card_le_card hsub
    rw [Nat.card_Ico] at hle
    have hlt := h.lt
    omega

/-- The statistics as sums over the numbers visited. -/
theorem StatInv.sum (h : StatInv k) (f : Inode → Nat) {n : Nat} (hn : 1 ≤ n)
    (hle : n ≤ k.fs.sbi.nrInodes) : (sumInodes f (n - 1) 1 k 0).value? =
      some (∑ i ∈ Finset.Ico 1 n, f (k.fs.igetInode i)) := by
  rw [sumInodes_found f _ _ _ k h.faults fun j h1 h2 => ⟨by omega, h.istore j (by omega)⟩,
    Nat.zero_add, show 1 + (n - 1) = n by omega]

theorem StatInv.iget_live (h : StatInv k) {i : Nat} (hi : i ∈ k.fs.liveSet) :
    k.fs.igetInode i = k.fs.inode i :=
  Fs.igetInode_cached (h.cached i ((k.fs.mem_liveSet i).1 hi))

/-- The regular files are the allocated inodes that are no directories. -/
theorem StatInv.regular (h : StatInv k) (p : Inode → Prop) [DecidablePred p] :
    ((Finset.range k.fs.sbi.nrInodes).filter fun i => k.fs.Regular i ∧ p (k.fs.inode i)) =
      k.fs.liveSet.filter fun i =>
        sIsDir (k.fs.igetInode i).iMode = false ∧ p (k.fs.igetInode i) := by
  ext i
  rw [Finset.mem_filter, Finset.mem_filter, Finset.mem_range]
  constructor
  · rintro ⟨-, ⟨hl, hreg⟩, hp⟩
    have hm := (k.fs.mem_liveSet i).2 hl
    rw [h.iget_live hm]
    refine ⟨hm, ?_, hp⟩
    rw [Bool.eq_false_iff]
    intro hd
    unfold sIsReg at hreg
    unfold sIsDir at hd
    have h1 := eq_of_beq hreg
    have h2 : (k.fs.inode i).iMode &&& 0o170000 = 0o040000 := eq_of_beq hd
    rw [h2] at h1
    cases h1
  · rintro ⟨hm, hd, hp⟩
    rw [h.iget_live hm] at hd hp
    have hl := (k.fs.mem_liveSet i).1 hm
    exact ⟨hl.2.1, ⟨hl, h.mode i hl hd⟩, hp⟩

/-- Two sums are equal if what one set has beyond the other adds up to the same. -/
theorem Fs.sum_visited (fs : Fs) (g : Nat → Nat) (n : Nat) :
    ∑ i ∈ Finset.Ico 1 n, g i = ∑ i ∈ fs.liveSet, g i ↔
      ∑ i ∈ fs.spare n, g i = ∑ i ∈ fs.missed n, g i :=
  Finset.sum_sdiff_eq_sum_sdiff_iff.symm

/-- The count of the numbers visited that have a property. -/
theorem Fs.card_visited (fs : Fs) (p : Nat → Prop) [DecidablePred p] (n : Nat) :
    (∑ i ∈ Finset.Ico 1 n, if p i then 1 else 0) = (fs.liveSet.filter p).card ↔
      ((fs.spare n).filter p).card = ((fs.missed n).filter p).card := by
  simp only [Finset.card_filter]
  exact fs.sum_visited _ n

/-- The statistics are right exactly where the free numbers visited make up for the allocated ones
that are not. -/
theorem StatInv.right_iff (h : StatInv k) : StatsRight k ↔ StatsBalanced k.fs := by
  obtain ⟨h1, h2⟩ := h.used_lt
  have hlt := h.inodes_lt
  have hnext : add32 k.fs.sbi.usedInodes 1 = k.fs.sbi.usedInodes + 1 := by
    unfold add32
    omega
  have hones : ∀ b : Bool, (if b = true then 0 else 1) = if b = false then 1 else 0 := by decide
  have hfiles : (totalFileCount k).value? = some (((Finset.range k.fs.sbi.nrInodes).filter
      fun i => k.fs.Regular i).card) ↔
      ((k.fs.spare k.fs.sbi.usedInodes).filter
        fun i => sIsDir (k.fs.igetInode i).iMode = false).card =
      ((k.fs.missed k.fs.sbi.usedInodes).filter
        fun i => sIsDir (k.fs.igetInode i).iMode = false).card := by
    have hreg := h.regular fun _ => True
    simp only [and_true] at hreg
    unfold totalFileCount
    rw [h.sum _ h1 (Nat.le_of_lt h2), hreg, Option.some.injEq]
    simp only [hones]
    exact k.fs.card_visited (fun i => sIsDir (k.fs.igetInode i).iMode = false) _
  have hsmall : (totalSmallFileCount k).value? = some (((Finset.range k.fs.sbi.nrInodes).filter
      fun i => k.fs.Regular i ∧ (k.fs.inode i).iBlocks = 0).card) ↔
      ((k.fs.spare (k.fs.sbi.usedInodes + 1)).filter fun i =>
        sIsDir (k.fs.igetInode i).iMode = false ∧ (k.fs.igetInode i).iBlocks = 0).card =
      ((k.fs.missed (k.fs.sbi.usedInodes + 1)).filter fun i =>
        sIsDir (k.fs.igetInode i).iMode = false ∧ (k.fs.igetInode i).iBlocks = 0).card := by
    have hboth : ∀ ci : Inode, (if sIsDir ci.iMode = true then 0 else if ci.iBlocks = 0 then 1
        else 0) = if sIsDir ci.iMode = false ∧ ci.iBlocks = 0 then 1 else 0 := by
      intro ci
      cases sIsDir ci.iMode <;> simp
    unfold totalSmallFileCount
    rw [hnext, h.sum _ (by omega) h2, h.regular fun ci => ci.iBlocks = 0, Option.some.injEq]
    simp only [hboth]
    exact k.fs.card_visited (fun i => sIsDir (k.fs.igetInode i).iMode = false ∧
      (k.fs.igetInode i).iBlocks = 0) _
  have hsize : (totalDataSize k).value? = some (∑ i ∈ (Finset.range k.fs.sbi.nrInodes).filter
      fun i => k.fs.Live i, (k.fs.inode i).iSize) ↔
      ∑ i ∈ k.fs.spare k.fs.sbi.usedInodes, (k.fs.igetInode i).iSize =
        ∑ i ∈ k.fs.missed k.fs.sbi.usedInodes, (k.fs.igetInode i).iSize := by
    have hlive : ∑ i ∈ (Finset.range k.fs.sbi.nrInodes).filter fun i => k.fs.Live i,
        (k.fs.inode i).iSize = ∑ i ∈ k.fs.liveSet, (k.fs.igetInode i).iSize :=
      Finset.sum_congr rfl fun i hi => by rw [h.iget_live hi]
    unfold totalDataSize
    rw [h.sum _ h1 (Nat.le_of_lt h2), hlive, Option.some.injEq]
    exact k.fs.sum_visited _ _
  constructor
  · intro hr
    exact ⟨hfiles.1 hr.files, hsmall.1 hr.small, hsize.1 hr.size⟩
  · intro hb
    exact ⟨hfiles.2 hb.files, hsmall.2 hb.small, hsize.2 hb.size⟩

/-- One more number is missed than free ones are visited. -/
theorem StatInv.card_missed (h : StatInv k) : (k.fs.missed k.fs.sbi.usedInodes).card =
    (k.fs.spare k.fs.sbi.usedInodes).card + 1 := by
  have hvisited := Finset.card_sdiff_add_card_inter (Finset.Ico 1 k.fs.sbi.usedInodes) k.fs.liveSet
  have hlive := Finset.card_sdiff_add_card_inter k.fs.liveSet (Finset.Ico 1 k.fs.sbi.usedInodes)
  rw [Nat.card_Ico] at hvisited
  rw [Finset.inter_comm, h.card_live] at hlive
  have hpos := h.used_lt.1
  unfold Fs.missed Fs.spare
  omega

/-- **Where the statistics are right, a free number has bytes in its record**: a removed file whose
inode was written back before, and evicted. -/
theorem StatInv.stale (h : StatInv k) (hr : StatsRight k) :
    ∃ i ∈ k.fs.spare k.fs.sbi.usedInodes, 0 < (k.fs.igetInode i).iSize := by
  have hb := h.right_iff.1 hr
  by_contra hno
  have hzero : ∑ i ∈ k.fs.spare k.fs.sbi.usedInodes, (k.fs.igetInode i).iSize = 0 := by
    refine Finset.sum_eq_zero fun i hi => ?_
    by_contra hne
    exact hno ⟨i, hi, Nat.pos_of_ne_zero hne⟩
  -- then no directory is missed, and one file too many
  have hsize := Finset.sum_eq_zero_iff.1 (hb.size.symm.trans hzero)
  have hall : (k.fs.missed k.fs.sbi.usedInodes).filter
      (fun i => sIsDir (k.fs.igetInode i).iMode = false) = k.fs.missed k.fs.sbi.usedInodes := by
    refine Finset.filter_eq_self.2 fun i hi => ?_
    rw [Bool.eq_false_iff]
    intro hd
    have hm := (Finset.mem_sdiff.1 hi).1
    have hz := hsize i hi
    rw [h.iget_live hm] at hd hz
    have hsize : (k.fs.inode i).iSize = 4096 := h.dirSize i ((k.fs.mem_liveSet i).1 hm) hd
    exact absurd (hsize.symm.trans hz) (by decide)
  have hfiles := hb.files
  rw [hall, h.card_missed] at hfiles
  have hle := Finset.card_filter_le (k.fs.spare k.fs.sbi.usedInodes)
    fun i => sIsDir (k.fs.igetInode i).iMode = false
  omega

theorem statInv_run {ss : List CacheStep} (hf : k.faults = []) (h : Formatted k.fs)
    (ha : Admissible CacheStep.exec CacheStep.Vfs k ss)
    (hrun : runAll CacheStep.exec k ss = .ok k') : StatInv k' :=
  runAll_safe (fun _ _ _ _ hi hs he => hi.step hs he) ss k k' (h.statInv hf) ha hrun

/-- **When the statistics describe the file system**, in every state a run reaches. -/
theorem stats_right_iff {ss : List CacheStep} (hf : k.faults = []) (h : Formatted k.fs)
    (ha : Admissible CacheStep.exec CacheStep.Vfs k ss)
    (hrun : runAll CacheStep.exec k ss = .ok k') :
    (StatsRight k' ↔ StatsBalanced k'.fs) ∧ (StatsRight k' →
      ∃ i ∈ k'.fs.spare k'.fs.sbi.usedInodes, 0 < (k'.fs.igetInode i).iSize) :=
  ⟨(statInv_run hf h ha hrun).right_iff, (statInv_run hf h ha hrun).stale⟩

/-- In the formatted image the root directory is not counted. -/
theorem stats_emptyImage : (emptyImage 8 8).faults = [] ∧ Formatted (emptyImage 8 8).fs ∧
    ¬StatsRight (emptyImage 8 8) := by
  have hfmt : Formatted (emptyImage 8 8).fs :=
    emptyImage_formatted (by decide) (by decide) (by decide) (by decide)
  refine ⟨rfl, hfmt, fun hr => ?_⟩
  obtain ⟨i, hi, -⟩ := (hfmt.statInv rfl).stale hr
  have hnone : (emptyImage 8 8).fs.spare (emptyImage 8 8).fs.sbi.usedInodes = ∅ := by decide
  rw [hnone] at hi
  exact absurd hi (Finset.notMem_empty i)

/-- A file is written back, removed and evicted: its record stands for the directory behind it. -/
def staleRun : List CacheStep :=
  [.call (Op.create 1 [97] 0o100644).call, .call (Op.create 1 [98] 0o100644).call,
    .call (Op.mkdir 1 [100] 0o755).call, .call (Op.write 2 0 (List.replicate 4096 7)).call,
    .writeBack 2, .call (Op.unlink 1 [97] 2).call, .evict 2]

/-- The state after the run. -/
def staleImage : Kernel :=
  match runAll CacheStep.exec (emptyImage 8 8) staleRun with
  | .ok k' => k'
  | .error (_, k') => k'

theorem staleRun_run : runAll CacheStep.exec (emptyImage 8 8) staleRun = .ok staleImage := by
  have hok : (runAll CacheStep.exec (emptyImage 8 8) staleRun).isOk = true := by decide +kernel
  unfold staleImage
  cases hr : runAll CacheStep.exec (emptyImage 8 8) staleRun with
  | ok k' => rfl
  | error e =>
      rw [hr] at hok
      cases hok

theorem stats_right_iff_staleRun : StatsRight staleImage :=
  (stats_right_iff rfl (emptyImage_formatted (by decide) (by decide) (by decide) (by decide))
    (by decide +kernel) staleRun_run).1.2
      ⟨by decide +kernel, by decide +kernel, by decide +kernel⟩

end Runs

/-! ## Used size -/

/-- `nr_blocks - nr_free_blocks`. -/
def SbInfo.usedBlocks (sbi : SbInfo) : Nat := sbi.nrBlocks - sbi.nrFreeBlocks

/-- The used size is that of the used blocks, and the efficiency is a percentage of it. -/
structure UsedSizeRight (k : Kernel) : Prop where
  exact : totalUsedSize k.fs.sbi = k.fs.sbi.usedBlocks * 4096
  divides : ∀ k', efficiencyShow k ≠ .error (.divideError, k')
  percent : ∀ size k₁, totalDataSize k = .ok (size, k₁) → size ≤ k.fs.sbi.usedBlocks * 4096 →
    ∀ p k₂, efficiencyShow k = .ok (p, k₂) → p ≤ 100

section UsedSize

variable {sbi : SbInfo}

theorem totalUsedSize_eq (h : sbi.nrFreeBlocks ≤ sbi.nrBlocks) (hlt : sbi.nrBlocks < 4294967296) :
    totalUsedSize sbi = sbi.usedBlocks * 1024 % 4294967296 := by
  unfold totalUsedSize
  rw [sub32_of_le hlt h]
  rfl

/-- The product is zero at every multiple of 4194304 blocks. -/
theorem totalUsedSize_eq_zero (h : sbi.nrFreeBlocks ≤ sbi.nrBlocks)
    (hlt : sbi.nrBlocks < 4294967296) : totalUsedSize sbi = 0 ↔ 4194304 ∣ sbi.usedBlocks := by
  rw [totalUsedSize_eq h hlt, ← Nat.dvd_iff_mod_eq_zero,
    show 4294967296 = 4194304 * 1024 from rfl]
  exact Nat.mul_dvd_mul_iff_right (show 0 < 1024 by decide)

theorem totalUsedSize_ne (h : sbi.nrFreeBlocks < sbi.nrBlocks) (hlt : sbi.nrBlocks < 4294967296) :
    totalUsedSize sbi ≠ sbi.usedBlocks * 4096 := by
  rw [totalUsedSize_eq h.le hlt]
  have hpos : 0 < sbi.usedBlocks := Nat.sub_pos_of_lt h
  have hle := Nat.mod_le (sbi.usedBlocks * 1024) 4294967296
  generalize sbi.usedBlocks * 1024 % 4294967296 = n at hle ⊢
  omega

/-- **The used size is never right**: it counts 1024 bytes a block, modulo 2³², and the efficiency
divides by zero where that is 0. -/
theorem usedSize_wrong {k : Kernel} (h : k.fs.sbi.nrFreeBlocks < k.fs.sbi.nrBlocks)
    (hlt : k.fs.sbi.nrBlocks < 4294967296) :
    ¬UsedSizeRight k ∧ totalUsedSize k.fs.sbi = k.fs.sbi.usedBlocks * 1024 % 4294967296 ∧
      ∀ size k', totalDataSize k = .ok (size, k') →
        efficiencyShow k = if 4194304 ∣ k.fs.sbi.usedBlocks then .error (.divideError, k')
          else .ok (size * 100 / (k.fs.sbi.usedBlocks * 1024 % 4294967296), k') := by
  refine ⟨fun hr => totalUsedSize_ne h hlt hr.exact, totalUsedSize_eq h.le hlt, ?_⟩
  intro size k' hsize
  unfold efficiencyShow
  rw [hsize]
  by_cases hz : 4194304 ∣ k.fs.sbi.usedBlocks
  · simp only [(totalUsedSize_eq_zero h.le hlt).2 hz, hz, if_true]
  · have hne : ¬totalUsedSize k.fs.sbi = 0 := fun h0 => hz ((totalUsedSize_eq_zero h.le hlt).1 h0)
    simp only [hne, hz, if_false]
    rw [totalUsedSize_eq h.le hlt]

/-- Eight mebiblocks (32 GiB), of which half are used. -/
def halfUsed : Kernel :=
  (emptyImage 8 8).setSbi { (emptyImage 8 8).fs.sbi with nrBlocks := 8388608, nrFreeBlocks := 4194304 }

theorem efficiencyShow_halfUsed : totalUsedSize halfUsed.fs.sbi = 0 ∧
    efficiencyShow halfUsed = .error (.divideError, halfUsed) ∧ ¬UsedSizeRight halfUsed := by
  have hz : totalUsedSize halfUsed.fs.sbi = 0 := by decide
  have hd : totalDataSize halfUsed = .ok (0, halfUsed) := rfl
  have he : efficiencyShow halfUsed = .error (.divideError, halfUsed) := by
    unfold efficiencyShow
    rw [hd]
    exact if_pos hz
  exact ⟨hz, he, fun h => h.divides _ he⟩

theorem usedSize_wrong_emptyImage : ¬UsedSizeRight (emptyImage 8 8) :=
  (usedSize_wrong (by decide) (by decide)).1

end UsedSize

end Ouichefs
