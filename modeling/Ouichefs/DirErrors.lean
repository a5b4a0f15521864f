import Ouichefs.Run

/-!
# Directory operations that fail

What is left behind when an operation on a directory returns an error, whatever the environment
answers.

* `ouichefsCreate_undone`: a failed creation gives back what it has allocated.
* `ouichefsRename_undone_iff`: a rename between two directories that fails on the second of them
  has already changed the first.
* `ouichefsRename_moves_iff`: a rename out of a full directory runs past the end of its block.
-/

set_option autoImplicit false

namespace Ouichefs

open FreeMap

/-! ## Kernel services -/

section Services

/-- Taking an inode number and giving it back changes nothing. -/
theorem Kernel.getFreeInode_put {k k₁ : Kernel} {ino : Nat}
    (h0 : k.fs.sbi.ifreeBitmap 0 = false) (hlt : k.fs.sbi.nrFreeInodes < 4294967296)
    (hget : k.getFreeInode = (ino, k₁)) :
    (ino = 0 ∧ k₁.fs = k.fs) ∨
    (ino ≠ 0 ∧ k.fs.sbi.ifreeBitmap ino = true ∧ k₁.fs.disk = k.fs.disk ∧
      k₁.fs.icache = k.fs.icache ∧ k₁.fs.sbi.bfreeBitmap = k.fs.sbi.bfreeBitmap ∧
      k₁.fs.sbi.nrFreeBlocks = k.fs.sbi.nrFreeBlocks ∧ k₁.fs.sbi.putInode ino = k.fs.sbi) := by
  rcases Kernel.getFreeInode_cases h0 with ⟨i, hi0, hi, hset, -, heq⟩ | ⟨-, heq⟩
  · rw [hget] at heq
    cases heq
    refine Or.inr ⟨hi0, hset, rfl, rfl, rfl, rfl, ?_⟩
    unfold SbInfo.putInode putFreeBit
    rw [if_neg (by exact Nat.not_lt.2 (Nat.le_of_lt hi))]
    have hmap : Function.update (Function.update k.fs.sbi.ifreeBitmap ino false) ino true =
        k.fs.sbi.ifreeBitmap := by
      rw [Function.update_idem, ← hset, Function.update_eq_self]
    simp only [Kernel.fs_setSbi, Fs.sbi_setSbi, hmap, add32_sub32 hlt]
  · rw [hget] at heq
    cases heq
    exact Or.inl ⟨rfl, rfl⟩

/-- Taking a block and giving it back changes nothing. -/
theorem Kernel.getFreeBlock_put {k k₁ : Kernel} {b : Nat}
    (h0 : k.fs.sbi.bfreeBitmap 0 = false) (hlt : k.fs.sbi.nrFreeBlocks < 4294967296)
    (hget : k.getFreeBlock = (b, k₁)) :
    (b = 0 ∧ k₁.fs = k.fs) ∨
    (b ≠ 0 ∧ k₁.fs.disk = k.fs.disk ∧ k₁.fs.icache = k.fs.icache ∧
      k₁.fs.sbi.putBlock b = k.fs.sbi) := by
  rcases Kernel.getFreeBlock_bits h0 with ⟨a, hpos, ha, hset, -, heq⟩ | ⟨-, heq⟩
  · rw [hget] at heq
    cases heq
    refine Or.inr ⟨Nat.pos_iff_ne_zero.1 hpos, rfl, rfl, ?_⟩
    unfold SbInfo.putBlock putFreeBit
    rw [if_neg (by exact Nat.not_lt.2 (Nat.le_of_lt ha))]
    have hmap : Function.update (Function.update k.fs.sbi.bfreeBitmap b false) b true =
        k.fs.sbi.bfreeBitmap := by
      rw [Function.update_idem, ← hset, Function.update_eq_self]
    simp only [Kernel.fs_setSbi, Fs.sbi_setSbi, hmap, add32_sub32 hlt]
  · rw [hget] at heq
    cases heq
    exact Or.inl ⟨rfl, rfl⟩

end Services

/-! ## Creation -/

/-- Everything but the in-memory inodes of unallocated numbers is the same. -/
structure Undone (fs fs' : Fs) : Prop where
  sbi : fs'.sbi = fs.sbi
  disk : fs'.disk = fs.disk
  icache : ∀ i, fs.sbi.ifreeBitmap i = false → fs'.icache i = fs.icache i

theorem Undone.of_eq {fs fs' : Fs} (h : fs' = fs) : Undone fs fs' := by
  rw [h]
  exact ⟨rfl, rfl, fun _ _ => rfl⟩

/-- `ouichefs_iget` fills the cache for one number. -/
theorem ouichefsIget_frame {k k' : Kernel} {ino : Nat} {err : Int}
    (h : ouichefsIget k ino = (err, k')) :
    k'.fs.sbi = k.fs.sbi ∧ k'.fs.disk = k.fs.disk ∧ ∀ i, i ≠ ino → k'.fs.icache i = k.fs.icache i := by
  unfold ouichefsIget at h
  split at h
  · cases h
    exact ⟨rfl, rfl, fun _ _ => rfl⟩
  split at h
  · cases h
    exact ⟨rfl, rfl, fun _ _ => rfl⟩
  simp only at h
  have hfs := k.fs_sbBread (ino / 51 + 1)
  generalize k.sbBread (ino / 51 + 1) = p at h hfs
  obtain ⟨ok, k₁⟩ := p
  have hfs₁ : k₁.fs = k.fs := hfs
  cases ok with
  | false =>
      cases h
      rw [hfs₁]
      exact ⟨rfl, rfl, fun _ _ => rfl⟩
  | true =>
      cases h
      refine ⟨by simp [hfs₁], by simp [hfs₁], fun i hi => ?_⟩
      rw [Kernel.fs_brelse, Kernel.fs_setInode, Fs.icache_setInode_of_ne _ _ _ hi, hfs₁]

section Create

variable {k k' : Kernel} {dir mode ino : Nat} {name : List UInt8}

/-- A new inode, as far as it matters for undoing: giving back its number, and before it the
block of a directory, restores the superblock. -/
structure Undoable (k k' : Kernel) (ino mode : Nat) : Prop where
  disk : k'.fs.disk = k.fs.disk
  wasFree : k.fs.sbi.ifreeBitmap ino = true
  icache : ∀ i, i ≠ ino → k'.fs.icache i = k.fs.icache i
  undo : sIsDir mode = true →
    (k'.fs.sbi.putBlock (k'.inode ino).indexBlock).putInode ino = k.fs.sbi

theorem ouichefsNewInode_undone {res : Except Int Nat} (h0 : k.fs.sbi.ifreeBitmap 0 = false)
    (hb0 : k.fs.sbi.bfreeBitmap 0 = false) (hi : k.fs.sbi.nrFreeInodes < 4294967296)
    (hb : k.fs.sbi.nrFreeBlocks < 4294967296) (hrun : ouichefsNewInode k dir mode = (res, k')) :
    (∀ e, res = .error e → Undone k.fs k'.fs) ∧ (∀ ino, res = .ok ino → Undoable k k' ino mode) := by
  unfold ouichefsNewInode at hrun
  split at hrun
  · cases hrun
    exact ⟨fun _ _ => .of_eq rfl, fun _ h => by cases h⟩
  split at hrun
  · cases hrun
    exact ⟨fun _ _ => .of_eq rfl, fun _ h => by cases h⟩
  generalize hget : k.getFreeInode = p at hrun
  obtain ⟨ino, k₁⟩ := p
  simp only at hrun
  rcases Kernel.getFreeInode_put h0 hi hget with
    ⟨h1, hfs⟩ | ⟨hne, hset, hdisk₁, hic₁, hbf₁, hnb₁, hput⟩
  · rw [if_pos h1] at hrun
    cases hrun
    exact ⟨fun _ _ => .of_eq hfs, fun _ h => by cases h⟩
  simp only [hne, if_false] at hrun
  generalize higet : ouichefsIget k₁ ino = p at hrun
  obtain ⟨err, k₂⟩ := p
  obtain ⟨hsbi₂, hdisk₂, hic₂⟩ := ouichefsIget_frame higet
  -- giving back the number after `ouichefs_iget`
  have hback : ∀ k₃ : Kernel, k₃.fs.sbi.putInode ino = k.fs.sbi → k₃.fs.disk = k₂.fs.disk →
      k₃.fs.icache = k₂.fs.icache → Undone k.fs (k₃.putInode ino).fs := by
    intro k₃ hs hd hic
    refine ⟨hs, ?_, fun i hfi => ?_⟩
    · show k₃.fs.disk = _
      rw [hd, hdisk₂, hdisk₁]
    · show k₃.fs.icache i = _
      have hin : i ≠ ino := by
        rintro rfl
        rw [hset] at hfi
        cases hfi
      rw [hic, hic₂ i hin, hic₁]
  simp only at hrun
  by_cases herr : err ≠ 0
  · rw [if_pos herr] at hrun
    cases hrun
    exact ⟨fun _ _ => hback k₂ (by rw [hsbi₂, hput]) rfl rfl, fun _ h => by cases h⟩
  rw [if_neg herr] at hrun
  cases hdir : sIsDir mode with
  | false =>
      simp only [hdir, Bool.false_eq_true, if_false] at hrun
      cases hrun
      refine ⟨fun _ h => (by cases h), fun i h => ?_⟩
      cases h
      refine ⟨by rw [Kernel.fs_setInode, Fs.disk_setInode, hdisk₂, hdisk₁], hset, fun i hi' => ?_,
        fun hc => by rw [hdir] at hc; cases hc⟩
      rw [Kernel.fs_setInode, Fs.icache_setInode_of_ne _ _ _ hi', hic₂ i hi', hic₁]
  | true =>
      simp only [hdir, if_true] at hrun
      generalize hblk : k₂.getFreeBlock = p at hrun
      obtain ⟨bno, k₃⟩ := p
      simp only at hrun
      rcases Kernel.getFreeBlock_put (by rw [hsbi₂, hbf₁]; exact hb0)
        (by rw [hsbi₂, hnb₁]; exact hb) hblk with ⟨h1, hfs₃⟩ | ⟨hbne, hdisk₃, hic₃, hput₃⟩
      · rw [if_pos h1] at hrun
        cases hrun
        exact ⟨fun _ _ => hback k₃ (by rw [hfs₃, hsbi₂, hput]) (by rw [hfs₃]) (by rw [hfs₃]),
          fun _ h => by cases h⟩
      · simp only [hbne, if_false] at hrun
        cases hrun
        refine ⟨fun _ h => (by cases h), fun i h => ?_⟩
        cases h
        refine ⟨by rw [Kernel.fs_setInode, Fs.disk_setInode, hdisk₃, hdisk₂, hdisk₁], hset,
          fun i hi' => ?_, fun _ => ?_⟩
        · rw [Kernel.fs_setInode, Fs.icache_setInode_of_ne _ _ _ hi', hic₃, hic₂ i hi', hic₁]
        · have hidx : (k₃.setInode ino (initInode k₃ (k₃.inode ino) (k₃.inode dir) mode bno)).inode
              ino = initInode k₃ (k₃.inode ino) (k₃.inode dir) mode bno := by simp [Kernel.inode]
          rw [hidx, (initInode_fields k₃ _ _ mode bno).1, Kernel.fs_setInode, Fs.sbi_setInode, hput₃,
            hsbi₂, hput]

/-- `registerInode` returns 0 if it returns. -/
theorem registerInode_zero {r : Int} (h : registerInode k dir ino name mode = .ok (r, k')) :
    r = 0 := by
  unfold registerInode at h
  simp only at h
  split at h
  · cases h
  · cases h
    rfl

/-- A failed `ouichefs_create` leaves only the cache of the number it tried. -/
theorem ouichefsCreate_fails {r : Int} (h0 : k.fs.sbi.ifreeBitmap 0 = false)
    (hb0 : k.fs.sbi.bfreeBitmap 0 = false) (hi : k.fs.sbi.nrFreeInodes < 4294967296)
    (hb : k.fs.sbi.nrFreeBlocks < 4294967296)
    (hrun : ouichefsCreate k dir name mode = .ok (r, k')) (hr : r < 0) : Undone k.fs k'.fs := by
  unfold ouichefsCreate at hrun
  split at hrun
  · cases hrun
    exact .of_eq rfl
  simp only at hrun
  have hfs₁ := k.fs_sbBread (k.inode dir).indexBlock
  generalize k.sbBread (k.inode dir).indexBlock = p at hrun hfs₁
  obtain ⟨ok, k₁⟩ := p
  have hk₁ : k₁.fs = k.fs := hfs₁
  cases ok with
  | false =>
      cases hrun
      exact .of_eq hk₁
  | true =>
  simp only at hrun
  split at hrun
  · cases hrun
    exact .of_eq hk₁
  generalize hnew : ouichefsNewInode k₁ dir mode = p at hrun
  obtain ⟨res, k₂⟩ := p
  obtain ⟨herr, hok⟩ := ouichefsNewInode_undone (by rw [hk₁]; exact h0) (by rw [hk₁]; exact hb0)
    (by rw [hk₁]; exact hi) (by rw [hk₁]; exact hb) hnew
  rw [hk₁] at herr
  cases res with
  | error e =>
      cases hrun
      exact herr _ rfl
  | ok ino =>
      have hu := hok ino rfl
      simp only at hrun
      cases hdir : sIsDir mode with
      | false =>
          simp only [hdir, Bool.false_eq_true, if_false] at hrun
          have := registerInode_zero hrun
          omega
      | true =>
          simp only [hdir, if_true] at hrun
          have hfs₃ := k₂.fs_sbBread (k₂.inode ino).indexBlock
          generalize k₂.sbBread (k₂.inode ino).indexBlock = p at hrun hfs₃
          obtain ⟨ok, k₃⟩ := p
          have hk₃ : k₃.fs = k₂.fs := hfs₃
          cases ok with
          | true =>
              have := registerInode_zero hrun
              omega
          | false =>
              cases hrun
              have hundo := hu.undo hdir
              rw [hk₁] at hundo
              refine ⟨?_, ?_, fun i hfi => ?_⟩
              · show (k₃.fs.sbi.putBlock (k₂.inode ino).indexBlock).putInode ino = _
                rw [hk₃, hundo]
              · show k₃.fs.disk = _
                rw [hk₃, hu.disk, hk₁]
              · show k₃.fs.icache i = _
                have hin : i ≠ ino := by
                  rintro rfl
                  have := hu.wasFree
                  rw [hk₁, hfi] at this
                  cases this
                rw [hk₃, hu.icache i hin, hk₁]

/-- **A failed `ouichefs_create` gives back everything.**  Whatever the environment answers, the
bitmaps, the counters, the block of the parent and its link count are as before. -/
theorem ouichefsCreate_undone {k k' : Kernel} {dir mode : Nat} {name : List UInt8} {r : Int}
    (h0 : k.fs.sbi.ifreeBitmap 0 = false) (hb0 : k.fs.sbi.bfreeBitmap 0 = false)
    (hdir : k.fs.sbi.ifreeBitmap dir = false) (hi : k.fs.sbi.nrFreeInodes < 4294967296)
    (hb : k.fs.sbi.nrFreeBlocks < 4294967296)
    (hrun : ouichefsCreate k dir name mode = .ok (r, k')) (hr : r < 0) :
    k'.fs.sbi.ifreeBitmap = k.fs.sbi.ifreeBitmap ∧ k'.fs.sbi.bfreeBitmap = k.fs.sbi.bfreeBitmap ∧
      k'.fs.sbi.nrFreeInodes = k.fs.sbi.nrFreeInodes ∧
      k'.fs.sbi.nrFreeBlocks = k.fs.sbi.nrFreeBlocks ∧
      k'.fs.disk (k.inode dir).indexBlock = k.fs.disk (k.inode dir).indexBlock ∧
      (k'.inode dir).iNlink = (k.inode dir).iNlink := by
  have hu := ouichefsCreate_fails h0 hb0 hi hb hrun hr
  refine ⟨by rw [hu.sbi], by rw [hu.sbi], by rw [hu.sbi], by rw [hu.sbi], by rw [hu.disk], ?_⟩
  unfold Kernel.inode Fs.inode
  rw [hu.icache dir hdir]

end Create

/-- A small image, and the block of the next new directory cannot be read. -/
def noThirdRead : Kernel := { emptyImage 8 8 with faults := [.success, .success, .failure 0] }

theorem ouichefsCreate_undone_noThirdRead : ∃ k',
    ouichefsCreate noThirdRead 1 [97] 0o040755 = .ok (- EIO, k') ∧
      k'.fs.sbi.nrFreeBlocks = 3 ∧ k'.fs.sbi.nrFreeInodes = 7 := by
  have hrun : ouichefsCreate noThirdRead 1 [97] 0o040755 =
      .ok (- EIO, (ouichefsCreate noThirdRead 1 [97] 0o040755).kernel) :=
    Outcome.eq_ok (by decide +kernel)
  have hu := ouichefsCreate_undone (k := noThirdRead) (by decide) (by decide) (by decide)
    (by decide) (by decide) hrun (by decide)
  exact ⟨_, hrun, hu.2.2.2.1, hu.2.2.1⟩

/-! ## Renaming -/

/-- The slot that the scan of the new directory reports is free. -/
theorem renameScan_free {b : Block} {same : Bool} {oldName newName : List UInt8} :
    ∀ (m i : Nat) (fPos newPos res pos : Option Nat) (p : Nat),
      renameScan b same oldName newName m i fPos newPos = some (res, pos) → pos = some p →
      newPos = some p ∨ (p < i + m ∧ slotInode b p = 0) := by
  intro m
  induction m with
  | zero =>
      intro i fPos newPos res pos p h hp
      cases h
      exact Or.inl hp
  | succ m ih =>
      intro i fPos newPos res pos p h hp
      rw [renameScan] at h
      simp only at h
      split at h
      · cases h
      rcases ih (i + 1) _ _ res pos p h hp with hnew | ⟨h1, h2⟩
      · split at hnew
        · rename_i hc
          cases hnew
          simp only [Bool.and_eq_true, beq_iff_eq] at hc
          exact Or.inr ⟨by omega, hc.2⟩
        · exact Or.inl hnew
      · exact Or.inr ⟨by omega, h2⟩

/-- The blocks and the link counts of both directories are as before. -/
def DirsKept (k k' : Kernel) (oldDir newDir : Nat) : Prop :=
  ∀ d, d = oldDir ∨ d = newDir →
    k'.fs.disk (k.inode d).indexBlock = k.fs.disk (k.inode d).indexBlock ∧
      (k'.inode d).iNlink = (k.inode d).iNlink

theorem DirsKept.of_eq {k k' : Kernel} (h : k'.fs = k.fs) (oldDir newDir : Nat) :
    DirsKept k k' oldDir newDir := by
  intro d _
  unfold Kernel.inode
  rw [h]
  exact ⟨rfl, rfl⟩

/-- The rename passes all checks of the new directory, and then the old one cannot be read. -/
structure Torn (k : Kernel) (oldDir : Nat) (oldName : List UInt8) (newDir : Nat)
    (newName : List UInt8) (flags : Nat) : Prop where
  flags : flags &&& 6 = 0
  length : (cstr newName).length ≤ 28
  dirs : oldDir ≠ newDir
  read : (k.sbBread (k.inode newDir).indexBlock).1 = true
  slot : ∃ fPos p, renameScan (k.fs.disk (k.inode newDir).indexBlock) false oldName newName 128 0
    none none = some (fPos, some p)
  unread : ((k.sbBread (k.inode newDir).indexBlock).2.sbBread (k.inode oldDir).indexBlock).1 = false

section Rename

variable {k k' : Kernel} {oldDir src newDir flags : Nat} {oldName newName : List UInt8}

/-- The second half of a move fails only if the old directory cannot be read. -/
theorem removeFromOld_neg {r : Int} (h : removeFromOld k oldDir src = .ok (r, k')) (hr : r < 0) :
    (k.sbBread (k.inode oldDir).indexBlock).1 = false := by
  unfold removeFromOld at h
  simp only at h
  generalize k.sbBread (k.inode oldDir).indexBlock = p at h
  obtain ⟨ok, k₁⟩ := p
  cases ok with
  | false => rfl
  | true =>
      simp only at h
      split at h
      · cases h
      split at h
      · cases h
      · cases h
        exact absurd hr (by decide)

/-- The state in which the old directory is read: the block of the new one is `nb`. -/
def Kernel.moveIn (k : Kernel) (newDir newBlock src : Nat) (nb : Block) : Kernel :=
  let k := (k.setBlock newBlock nb).brelse newBlock
  let ci := k.inode newDir
  k.setInode newDir
    { ci with
      iAtime := k.now, iCtime := k.now, iMtime := k.now,
      iNlink := if sIsDir (k.inode src).iMode then add32 ci.iNlink 1 else ci.iNlink }

theorem Kernel.moveIn_inode {i newBlock : Nat} (nb : Block) (hi : i ≠ newDir) :
    (k.moveIn newDir newBlock src nb).inode i = k.inode i := by
  unfold Kernel.moveIn Kernel.inode
  simp [hi]

/-- The old directory can be read after the entry is in the new one if it can be before. -/
theorem Kernel.moveIn_sbBread (newBlock : Nat) (nb : Block) (hi : oldDir ≠ newDir) :
    ((k.moveIn newDir newBlock src nb).sbBread
      ((k.moveIn newDir newBlock src nb).inode oldDir).indexBlock).1 =
      (k.sbBread (k.inode oldDir).indexBlock).1 := by
  rw [Kernel.moveIn_inode nb hi]
  exact @Kernel.sbBread_congr k (k.moveIn newDir newBlock src nb) rfl rfl _

/-- A rename that fails has changed nothing or is torn. -/
theorem ouichefsRename_neg {r : Int}
    (h : ouichefsRename k oldDir oldName src newDir newName flags = .ok (r, k')) (hr : r < 0) :
    k'.fs = k.fs ∨ Torn k oldDir oldName newDir newName flags := by
  unfold ouichefsRename at h
  by_cases hfl : flags &&& 6 ≠ 0
  · rw [if_pos hfl] at h
    cases h
    exact Or.inl rfl
  rw [if_neg hfl] at h
  by_cases hlen : (cstr newName).length > 28
  · rw [if_pos hlen] at h
    cases h
    exact Or.inl rfl
  rw [if_neg hlen] at h
  simp only at h
  have hfs := k.fs_sbBread (k.inode newDir).indexBlock
  generalize hread : k.sbBread (k.inode newDir).indexBlock = p at h hfs
  obtain ⟨ok, k₁⟩ := p
  have hk₁ : k₁.fs = k.fs := hfs
  cases ok with
  | false =>
      cases h
      exact Or.inl hk₁
  | true =>
  simp only [hk₁] at h
  split at h
  · cases h
    exact Or.inl hk₁
  rename_i fPos newPos hscan
  by_cases hsame : oldDir = newDir
  · simp only [hsame, if_true] at h
    split at h
    · cases h
    · cases h
      exact absurd hr (by decide)
  simp only [hsame, if_false] at h
  split at h
  · cases h
    exact Or.inl hk₁
  rename_i p
  have hneq : (newDir == oldDir) = false := by
    rw [beq_eq_false_iff_ne]
    exact fun hc => hsame hc.symm
  have hun := removeFromOld_neg h hr
  rw [hneq] at hscan
  refine Or.inr ⟨not_not.1 hfl, Nat.not_lt.1 hlen, hsame, by rw [hread], ⟨fPos, p, hscan⟩, ?_⟩
  rw [hread]
  have hinode : k.inode oldDir = k₁.inode oldDir := by
    unfold Kernel.inode
    rw [hk₁]
  have hnb := @Kernel.moveIn_sbBread k₁ oldDir src newDir (k.inode newDir).indexBlock
    (setSlot (k.fs.disk (k.inode newDir).indexBlock) p src newName) hsame
  rw [hinode, ← hnb, ← hun]
  rfl

/-- A torn rename fails after it has filled a slot of the new directory. -/
theorem Torn.run (h : Torn k oldDir oldName newDir newName flags) (h0 : src ≠ 0)
    (h32 : src < 4294967296) :
    ∃ k', ouichefsRename k oldDir oldName src newDir newName flags = .ok (- EIO, k') ∧
      ¬DirsKept k k' oldDir newDir := by
  obtain ⟨fPos, p, hscan⟩ := h.slot
  obtain ⟨hp, hfree⟩ := (renameScan_free 128 0 none none fPos (some p) p hscan rfl).resolve_left
    (by simp)
  have hneq : (newDir == oldDir) = false := by
    rw [beq_eq_false_iff_ne]
    exact fun hc => h.dirs hc.symm
  have hread := h.read
  have hunread := h.unread
  have hfs := k.fs_sbBread (k.inode newDir).indexBlock
  generalize hk : k.sbBread (k.inode newDir).indexBlock = res at hread hunread hfs
  obtain ⟨ok, k₁⟩ := res
  have hok : ok = true := hread
  have hk₁ : k₁.fs = k.fs := hfs
  subst hok
  have hinode : k₁.inode = k.inode := by
    funext i
    unfold Kernel.inode
    rw [hk₁]
  generalize hk₂ : k₁.moveIn newDir (k.inode newDir).indexBlock src
    (setSlot (k.fs.disk (k.inode newDir).indexBlock) p src newName) = k₂
  have hmove : ouichefsRename k oldDir oldName src newDir newName flags =
      removeFromOld k₂ oldDir src := by
    unfold ouichefsRename
    rw [if_neg (by simpa using h.flags), if_neg (Nat.not_lt.2 h.length)]
    simp only [hk, hneq]
    rw [hk₁, hscan]
    simp only [h.dirs, if_false]
    rw [← hk₂]
    rfl
  have hun : (k₂.sbBread (k₂.inode oldDir).indexBlock).1 = false := by
    rw [← hk₂, Kernel.moveIn_sbBread _ _ h.dirs, hinode]
    exact hunread
  have hfs₃ := k₂.fs_sbBread (k₂.inode oldDir).indexBlock
  generalize hk₃ : k₂.sbBread (k₂.inode oldDir).indexBlock = res at hun hfs₃
  obtain ⟨ok, k₃⟩ := res
  have hok : ok = false := hun
  have hfs₃' : k₃.fs = k₂.fs := hfs₃
  subst hok
  refine ⟨k₃, ?_, fun hkept => ?_⟩
  · rw [hmove]
    unfold removeFromOld
    simp only [hk₃]
  · -- the slot was free and now holds `src`
    have hblk := (hkept newDir (Or.inr rfl)).1
    have hnew : k₃.fs.disk (k.inode newDir).indexBlock =
        setSlot (k.fs.disk (k.inode newDir).indexBlock) p src newName := by
      rw [hfs₃', ← hk₂]
      unfold Kernel.moveIn
      simp
    rw [hnew] at hblk
    have hslot := slotInode_setSlot (k.fs.disk (k.inode newDir).indexBlock) newName
      (by omega : p < 128) h32 p
    rw [hblk, if_pos rfl] at hslot
    exact h0 (hslot.symm.trans hfree)

/-- **A failed rename changes nothing, unless it is torn.** -/
theorem ouichefsRename_undone_iff (h0 : src ≠ 0) (h32 : src < 4294967296) :
    (∀ r k', ouichefsRename k oldDir oldName src newDir newName flags = .ok (r, k') → r < 0 →
      DirsKept k k' oldDir newDir) ↔ ¬Torn k oldDir oldName newDir newName flags := by
  constructor
  · intro h ht
    obtain ⟨k', hrun, hno⟩ := ht.run h0 h32
    exact hno (h _ k' hrun (by decide))
  · intro ht r k' hrun hr
    exact .of_eq ((ouichefsRename_neg hrun hr).resolve_right ht) oldDir newDir

end Rename

/-- A directory and a file in the root. -/
def moveImage : Kernel :=
  (emptyImage 8 8).after [(Op.mkdir 1 [97] 0o755).call, (Op.create 1 [98] 0o100644).call]

/-- The second block that is read next fails. -/
def tornImage : Kernel := { moveImage with faults := [.success, .failure 0] }

/-- The file is now in both directories. -/
theorem ouichefsRename_torn : ∃ k', ouichefsRename tornImage 1 [98] 3 2 [99] 0 = .ok (- EIO, k') ∧
    ¬DirsKept tornImage k' 1 2 := by
  have ht : Torn tornImage 1 [98] 2 [99] 0 :=
    ⟨by decide, by decide, by decide, by decide +kernel, ⟨none, 0, by decide +kernel⟩,
      by decide +kernel⟩
  exact ht.run (by decide) (by decide)

/-- A name that is too long is refused before anything is written. -/
theorem ouichefsRename_undone_iff_moveImage : ∃ r k',
    ouichefsRename moveImage 1 [98] 3 2 (List.replicate 29 99) 0 = .ok (r, k') ∧ r < 0 ∧
      DirsKept moveImage k' 1 2 := by
  have hval : (ouichefsRename moveImage 1 [98] 3 2 (List.replicate 29 99) 0).value? =
      some (-ENAMETOOLONG) := by decide +kernel
  refine ⟨_, _, Outcome.eq_ok hval, by decide, ?_⟩
  refine (@ouichefsRename_undone_iff moveImage 1 3 2 0 [98] (List.replicate 29 99) (by decide)
    (by decide)).2 (fun ht => ?_) _ _ (Outcome.eq_ok hval) (by decide)
  have hlen := ht.length
  revert hlen
  decide

/-! ## Moving out of a directory -/

/-- A rename between two compact directories that nothing speaks against: entry `f` of the `n`
entries of the old one is the source, the new one has `m` entries and not the new name. -/
structure MoveReady (k : Kernel) (oldDir src newDir : Nat) (newName : List UInt8)
    (flags f n m : Nat) : Prop where
  faults : k.faults = []
  flags : flags &&& 6 = 0
  length : (cstr newName).length ≤ 28
  old_lt : (k.inode oldDir).indexBlock < k.fs.sbi.nrBlocks
  new_lt : (k.inode newDir).indexBlock < k.fs.sbi.nrBlocks
  apart : (k.inode oldDir).indexBlock ≠ (k.inode newDir).indexBlock
  old : Compact (slotInode (k.fs.indexOf oldDir)) n
  clean : Clean (k.fs.indexOf oldDir)
  cap : n ≤ 128
  new : Compact (slotInode (k.fs.indexOf newDir)) m
  room : m < 128
  slot : slotInode (k.fs.indexOf oldDir) f = src
  pos : src ≠ 0
  unique : ∀ j, slotInode (k.fs.indexOf oldDir) j = src → j = f
  fresh : ∀ j, strncmpEq (slotName (k.fs.indexOf newDir) j) newName 28 = false

/-- The old directory has lost entry `f` and kept the order of the others, the new one has got one
entry behind its `m` entries, and no other block has changed. -/
structure Moved (k k' : Kernel) (oldDir src newDir : Nat) (newName : List UInt8) (f m : Nat) :
    Prop where
  oldSlot : ∀ j, slotInode (k'.fs.disk (k.inode oldDir).indexBlock) j =
    dropSlot (slotInode (k.fs.indexOf oldDir)) f j
  oldName : ∀ j, slotName (k'.fs.disk (k.inode oldDir).indexBlock) j =
    dropSlot (slotName (k.fs.indexOf oldDir)) f j
  newSlot : ∀ j, slotInode (k'.fs.disk (k.inode newDir).indexBlock) j =
    if j = m then src else slotInode (k.fs.indexOf newDir) j
  keptName : ∀ j, j ≠ m → slotName (k'.fs.disk (k.inode newDir).indexBlock) j =
    slotName (k.fs.indexOf newDir) j
  stored : cstr (slotName (k'.fs.disk (k.inode newDir).indexBlock) m) = storedName newName
  others : ∀ b, b ≠ (k.inode oldDir).indexBlock → b ≠ (k.inode newDir).indexBlock →
    k'.fs.disk b = k.fs.disk b

section Move

variable {k : Kernel} {oldDir src newDir flags f n m : Nat} {oldName newName : List UInt8}

theorem MoveReady.dirs (h : MoveReady k oldDir src newDir newName flags f n m) :
    oldDir ≠ newDir := fun hc => h.apart (by rw [hc])

/-- All checks pass, so the call ends with the search of the old directory. -/
theorem MoveReady.run (h : MoveReady k oldDir src newDir newName flags f n m)
    (oldName : List UInt8) : ∃ k₂, ouichefsRename k oldDir oldName src newDir newName flags =
        removeFromOld k₂ oldDir src ∧ k₂.faults = [] ∧ k₂.fs.sbi = k.fs.sbi ∧
      (k₂.inode oldDir).indexBlock = (k.inode oldDir).indexBlock ∧
      k₂.fs.disk = (k.fs.setBlock (k.inode newDir).indexBlock
        (setSlot (k.fs.indexOf newDir) m src newName)).disk := by
  have hneq : (newDir == oldDir) = false := by
    rw [beq_eq_false_iff_ne]
    exact h.dirs.symm
  have hscan := @renameScan_fresh (k.fs.indexOf newDir) false oldName newName 0 m h.new h.fresh
    (fun hc => absurd hc (by decide)) 128 0
  simp only [Bool.false_eq_true, false_and, Nat.not_lt_zero, if_false, Nat.zero_add, h.room,
    if_true] at hscan
  have hscan' : renameScan (k.fs.disk (k.inode newDir).indexBlock) false oldName newName 128 0 none
      none = some (none, some m) := hscan
  refine ⟨(k.log (.bread (k.inode newDir).indexBlock)).moveIn newDir (k.inode newDir).indexBlock src
    (setSlot (k.fs.indexOf newDir) m src newName), ?_, h.faults, rfl, ?_, rfl⟩
  · unfold ouichefsRename
    rw [if_neg (by simpa using h.flags), if_neg (Nat.not_lt.2 h.length)]
    simp only [hneq, Kernel.sbBread_ok h.faults h.new_lt, Kernel.fs_log, hscan', h.dirs, if_false]
    rfl
  · rw [Kernel.moveIn_inode _ h.dirs]
    rfl

/-- The search of a full old directory runs past the end of the block. -/
theorem MoveReady.overruns (h : MoveReady k oldDir src newDir newName flags f n m) (hn : n = 128)
    (oldName : List UInt8) :
    ∃ e, ouichefsRename k oldDir oldName src newDir newName flags = .error e := by
  obtain ⟨k₂, hrun, hf₂, hsbi₂, hidx₂, hdisk₂⟩ := h.run oldName
  have hblk₂ : k₂.fs.disk (k.inode oldDir).indexBlock = k.fs.indexOf oldDir := by
    rw [hdisk₂, Fs.disk_setBlock, if_neg h.apart]
    rfl
  have hlt₂ : (k.inode oldDir).indexBlock < k₂.fs.sbi.nrBlocks := by
    rw [hsbi₂]
    exact h.old_lt
  have hfn : f < n := h.old.lt_iff.2 (by rw [h.slot]; exact h.pos)
  have hscan := scanSlots_spec h.old h.slot h.pos h.unique 128 0 none (by omega) (by omega)
  rw [hrun]
  unfold removeFromOld
  simp only [hidx₂, Kernel.sbBread_ok hf₂ hlt₂, Kernel.fs_log, hblk₂, hscan, hn]
  exact ⟨_, rfl⟩

/-- **A rename moves exactly one entry and stays inside both blocks, unless the old directory is
full.** -/
theorem ouichefsRename_moves_iff (h : MoveReady k oldDir src newDir newName flags f n m) :
    (∃ k', ouichefsRename k oldDir oldName src newDir newName flags = .ok (0, k') ∧
      Moved k k' oldDir src newDir newName f m) ↔ n < 128 := by
  obtain ⟨k₂, hrun, hf₂, hsbi₂, hidx₂, hdisk₂⟩ := h.run oldName
  have hblk₂ : k₂.fs.disk (k.inode oldDir).indexBlock = k.fs.indexOf oldDir := by
    rw [hdisk₂, Fs.disk_setBlock, if_neg h.apart]
    rfl
  have hlt₂ : (k.inode oldDir).indexBlock < k₂.fs.sbi.nrBlocks := by
    rw [hsbi₂]
    exact h.old_lt
  have hfn : f < n := h.old.lt_iff.2 (by rw [h.slot]; exact h.pos)
  constructor
  · rintro ⟨k', hok, -⟩
    by_contra hge
    obtain ⟨e, hover⟩ := h.overruns (Nat.le_antisymm h.cap (Nat.not_lt.1 hge)) oldName
    rw [hover] at hok
    cases hok
  · intro hn
    have hrem := removeFromOld_spec (k := k₂) (f := f) (n := n) hf₂ hidx₂ hlt₂
      (by rw [hblk₂]; exact h.old) hn (by rw [hblk₂]; exact h.slot) h.pos
      (by rw [hblk₂]; exact h.unique)
    rw [hblk₂] at hrem
    have hold : ∀ b, (touchDir (((k₂.log (.bread (k.inode oldDir).indexBlock)).setBlock
        (k.inode oldDir).indexBlock (removeSlot (k.fs.indexOf oldDir) f n)).brelse
        (k.inode oldDir).indexBlock) oldDir
        fun n => if sIsDir (k₂.inode src).iMode then sub32 n 1 else n).fs.disk b =
        if b = (k.inode oldDir).indexBlock then removeSlot (k.fs.indexOf oldDir) f n
        else if b = (k.inode newDir).indexBlock then setSlot (k.fs.indexOf newDir) m src newName
        else k.fs.disk b := by
      intro b
      show (k₂.fs.setBlock _ _).disk b = _
      rw [Fs.disk_setBlock, hdisk₂, Fs.disk_setBlock]
    refine ⟨_, hrun.trans hrem, fun j => ?_, fun j => ?_, fun j => ?_, fun j hj => ?_, ?_,
      fun b h1 h2 => ?_⟩
    · rw [hold, if_pos rfl]
      exact slotInode_removeSlot h.clean h.old hfn h.cap j
    · rw [hold, if_pos rfl]
      exact slotName_removeSlot h.clean h.old hfn h.cap j
    · rw [hold, if_neg h.apart.symm, if_pos rfl]
      exact slotInode_setSlot _ _ h.room (h.slot ▸ slotInode_lt _ _) j
    · rw [hold, if_neg h.apart.symm, if_pos rfl]
      exact slotName_setSlot_other _ _ _ h.room hj
    · rw [hold, if_neg h.apart.symm, if_pos rfl]
      exact cstr_slotName_setSlot _ _ _ h.room
    · rw [hold, if_neg h1, if_neg h2]

end Move

/-- A slot past the end of the block has no name. -/
theorem strncmpEq_of_ge {b : Block} {j : Nat} {name : List UInt8} (hj : 128 ≤ j)
    (hname : cstr (name.take 28) ≠ []) : strncmpEq (slotName b j) name 28 = false := by
  have h0 : slotName b j = List.replicate 28 0 := by
    refine List.eq_replicate_iff.2 ⟨by simp [slotName], fun x hx => ?_⟩
    unfold slotName Page.bytes at hx
    obtain ⟨i, -, rfl⟩ := List.mem_map.1 hx
    exact b.get_of_ge (by omega)
  have hnil : cstr ((List.replicate 28 (0 : UInt8)).take 28) = [] := by decide
  unfold strncmpEq
  rw [h0, hnil, beq_eq_false_iff_ne]
  exact hname.symm

/-- What has to be checked of the 128 slots of each block. -/
theorem MoveReady.of_slots {k : Kernel} {oldDir src newDir flags f n m : Nat} {newName : List UInt8}
    (hk : k.faults = [] ∧ flags &&& 6 = 0 ∧ (cstr newName).length ≤ 28 ∧
      cstr (newName.take 28) ≠ [] ∧ src ≠ 0 ∧ n ≤ 128 ∧ m < 128)
    (hidx : (k.inode oldDir).indexBlock < k.fs.sbi.nrBlocks ∧
      (k.inode newDir).indexBlock < k.fs.sbi.nrBlocks ∧
      (k.inode oldDir).indexBlock ≠ (k.inode newDir).indexBlock)
    (hold : ∀ j < 128, (slotInode (k.fs.indexOf oldDir) j ≠ 0 ↔ j < n) ∧
      (slotInode (k.fs.indexOf oldDir) j = src ↔ j = f))
    (hclean : ∀ j < 128, n ≤ j → ∀ x < 32, (k.fs.indexOf oldDir).get (32 * j + x) = 0)
    (hf : f < 128)
    (hnew : ∀ j < 128, (slotInode (k.fs.indexOf newDir) j ≠ 0 ↔ j < m) ∧
      strncmpEq (slotName (k.fs.indexOf newDir) j) newName 28 = false) :
    MoveReady k oldDir src newDir newName flags f n m := by
  obtain ⟨hfa, hfl, hlen, hname, h0, hn, hm⟩ := hk
  have hlt : ∀ {b : Block} {j : Nat}, slotInode b j ≠ 0 → j < 128 := lt_of_slotInode
  refine ⟨hfa, hfl, hlen, hidx.1, hidx.2.1, hidx.2.2, ⟨fun j hj => ?_, fun j hj => ?_⟩,
    fun j hj x hx => ?_, hn, ⟨fun j hj => ?_, fun j hj => ?_⟩, hm, ((hold f hf).2).2 rfl, h0,
    fun j hj => ?_, fun j => ?_⟩
  · exact ((hold j (by omega)).1).2 hj
  · by_contra hne
    exact absurd (((hold j (hlt hne)).1).1 hne) (by omega)
  · by_cases hj128 : j < 128
    · exact hclean j hj128 (Nat.not_lt.1 fun hc => ((hold j hj128).1).2 hc hj) x hx
    · exact Page.get_of_ge _ (by omega)
  · exact ((hnew j (by omega)).1).2 hj
  · by_contra hne
    exact absurd (((hnew j (hlt hne)).1).1 hne) (by omega)
  · exact ((hold j (hlt (by rw [hj]; exact h0))).2).1 hj
  · by_cases hj : j < 128
    · exact (hnew j hj).2
    · exact strncmpEq_of_ge (by omega) hname

/-- The file `b` moves into the directory `a`. -/
theorem ouichefsRename_moves_iff_moveImage :
    ∃ k', ouichefsRename moveImage 1 [98] 3 2 [99] 0 = .ok (0, k') ∧
      Moved moveImage k' 1 3 2 [99] 1 0 := by
  have h : MoveReady moveImage 1 3 2 [99] 0 1 2 0 :=
    .of_slots (by decide +kernel) (by decide +kernel) (by decide +kernel) (by decide +kernel)
      (by decide) (by decide +kernel)
  exact (ouichefsRename_moves_iff h).2 (by decide)

/-- A directory block with 128 entries: inode `i + 2` has the name `i + 1`. -/
def fullBlock : Block :=
  Page.ofFn fun x =>
    if x % 32 = 0 then UInt8.ofNat (x / 32 + 2) else if x % 32 = 4 then UInt8.ofNat (x / 32 + 1)
    else 0

/-- A root directory with 128 entries: inode 2 is an empty directory, the others are new files. -/
def fullImage : Kernel :=
  { emptyImage 10 153 with
    fs :=
      { sbi :=
          { (emptyImage 10 153).fs.sbi with
            nrIstoreBlocks := 3, nrFreeInodes := 24, nrFreeBlocks := 2
            ifreeBitmap := fun i => decide (129 < i), bfreeBitmap := fun b => decide (7 < b) }
        disk := fun b => if b = 6 then fullBlock else Page.zero
        icache := fun i =>
          if i = 1 then some { rootInode 6 with iNlink := 3 }
          else if i = 2 then some { rootInode 7 with iNlink := 1 }
          else if i < 130 then some { Inode.blank with iMode := 0o100644, iNlink := 1 } else none } }

/-- The scan of the full directory leaves the block. -/
theorem ouichefsRename_overrun : MoveReady fullImage 1 3 2 [99] 0 1 128 0 ∧
    ¬∃ k', ouichefsRename fullImage 1 [2] 3 2 [99] 0 = .ok (0, k') ∧
      Moved fullImage k' 1 3 2 [99] 1 0 := by
  constructor
  · exact .of_slots (by decide +kernel) (by decide +kernel) (by decide +kernel) (by decide +kernel)
      (by decide) (by decide +kernel)
  · rintro ⟨k', hrun, -⟩
    have hval : (ouichefsRename fullImage 1 [2] 3 2 [99] 0).value? = none := by decide +kernel
    rw [hrun] at hval
    cases hval

end Ouichefs
