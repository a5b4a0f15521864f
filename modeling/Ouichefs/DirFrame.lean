import Ouichefs.FileWrite
import Ouichefs.Rename

/-!
# What the directory operations leave alone

The operations on directories write the blocks of the parents, blocks nobody refers to, and the
blocks of the inode they remove.  Every other block that is in use keeps its content:

* `ouichefsCreate_disk`, `ouichefsUnlink_disk`, `ouichefsRmdir_disk`, `ouichefsRename_disk`.

With them the content of the other files survives (`Core.content_congr`).
-/

set_option autoImplicit false

namespace Ouichefs

variable {Z : Prop}

/-- The block of a directory is of no other use. -/
theorem Core.ref_dir_block {fs : Fs} {chain : List Nat} (h : Core fs chain Z) {d c : Nat} {r : Ref}
    (hd : fs.Is d .dir)
    (hr : Refers fs chain r c) (hne : r ≠ .index d) : c ≠ (fs.inode d).indexBlock :=
  h.ne_of_refs hr (show Refers fs chain (.index d) _ from ⟨Or.inl hd, rfl⟩) hne

/-! ## Creation -/

section Create

variable {k k' : Kernel} {chain : List Nat} {dir mode : Nat} {name : List UInt8} {r : Int}

/-- The end of `ouichefs_create` writes the block of the parent. -/
theorem registerInode_disk {ino : Nat} (hrun : registerInode k dir ino name mode = .ok (r, k')) {c : Nat}
    (hc : c ≠ (k.inode dir).indexBlock) : k'.fs.disk c = k.fs.disk c := by
  unfold registerInode at hrun
  simp only at hrun
  split at hrun
  · cases hrun
  · cases hrun
    show (Fs.setBlock k.fs (k.inode dir).indexBlock _).disk c = _
    rw [Fs.disk_setBlock, if_neg hc]

/-- **`ouichefs_create` writes the block of the parent and a block nobody refers to.** -/
theorem ouichefsCreate_disk (hf : k.faults = []) (h : WF k.fs chain Z) (hd : k.fs.Is dir .dir)
    (hrun : ouichefsCreate k dir name mode = .ok (r, k')) {ref : Ref} {c : Nat}
    (hr : Refers k.fs chain ref c) (hc : c ≠ (k.inode dir).indexBlock) :
    k'.fs.disk c = k.fs.disk c := by
  unfold ouichefsCreate at hrun
  split at hrun
  · cases hrun
    rfl
  have hdb : (k.inode dir).indexBlock < k.fs.sbi.nrBlocks := (h.toCore.dir_used hd).1
  simp only [Kernel.sbBread_ok hf hdb] at hrun
  split at hrun
  · cases hrun
    rfl
  rcases ouichefsNewInode_spec (k := k.log (.bread (k.inode dir).indexBlock)) (by simpa using hf) h
      dir mode with ⟨e, -, hnew, -⟩ | ⟨ino, ci, base, k₁, hnew, hf₁, -, hni, hag, hself, hlv⟩
  · rw [hnew] at hrun
    cases hrun
    rfl
  rw [hnew] at hrun
  have hdir : (k₁.inode dir).indexBlock = (k.inode dir).indexBlock :=
    congrArg Inode.indexBlock (hlv dir hd.1)
  -- nobody refers to the block of a new directory
  have hne : ci.kind = .dir → c ≠ ci.indexBlock := by
    rintro hk rfl
    exact (hni.birth.kind.resolve_left (by simp [hk])).2.2 ref ((hni.owners.refers chain ref _).2 hr)
  have hbase : k₁.fs.disk c = k.fs.disk c := by
    rw [hag.disk]
    exact hni.disk c hne
  by_cases hm : sIsDir mode = true
  · simp only [hm, if_true] at hrun
    have hk : ci.kind = .dir := by simpa [hm] using hni.kind
    have hused : base.Used ci.indexBlock := (hni.birth.kind.resolve_left (by simp [hk])).2.1
    have hlt : (k₁.inode ino).indexBlock < k₁.fs.sbi.nrBlocks := by
      rw [hself, hag.geom.nrBlocks]
      exact hused.1
    simp only [Kernel.sbBread_ok hf₁ hlt] at hrun
    rw [registerInode_disk hrun (by rw [← hdir] at hc; exact hc)]
    show (Fs.setBlock k₁.fs (k₁.inode ino).indexBlock _).disk c = _
    rw [Fs.disk_setBlock, hself, if_neg (hne hk), hbase]
  · simp only [hm] at hrun
    rw [registerInode_disk hrun (by rw [hdir]; exact hc), hbase]

end Create

/-! ## Removal -/

section Remove

variable {k k' : Kernel} {chain : List Nat} {dir ino f : Nat} {r : Int}

/-- **`ouichefs_unlink` writes the block of the parent, sliced blocks and what the inode owned.** -/
theorem ouichefsUnlink_disk (hf : k.faults = []) (h : WF k.fs chain Z) (hd : k.fs.Is dir .dir)
    (hs : slotInode (k.fs.indexOf dir) f = ino) (h0 : ino ≠ 0) (hne : ino ≠ dir)
    (hrun : ouichefsUnlink k dir ino = .ok (r, k')) {ref : Ref} {c : Nat}
    (hr : Refers k.fs chain ref c) (hby : ¬ref.By ino) (hm : c ∉ chain)
    (hc : c ≠ (k.inode dir).indexBlock) : k'.fs.disk c = k.fs.disk c := by
  obtain ⟨n, hle, hn⟩ := h.dirs.tree.compact dir hd
  obtain ⟨hu, hnc, hbig, -⟩ := h.toCore.dir_block_alone hd
  obtain ⟨k₁, hdrop, heq⟩ := ouichefsUnlink_entry hf h hd hs h0 hn hle
  have hlive : k.fs.Live ino := hs ▸ (h.dirs.tree.entry (i := f) hd (by rw [hs]; exact h0)).1
  have hcore := hdrop.agree.core (h.toCore.setBlock (fun _ => hu) hnc hbig
    (removeSlot (k.fs.indexOf dir) f n))
  obtain ⟨k₂, X, chain', hrel, -, -, hag, hfreed⟩ :=
    freeInode_spec hdrop.faults hcore ((hdrop.agree.live ino).2 hlive)
  rw [hdrop.inode hne] at hag
  rw [hrel] at heq
  rw [heq] at hrun
  cases hrun
  have hc' : c ≠ (k.fs.inode dir).indexBlock := hc
  rw [hag.disk, hfreed.outside c hm, hdrop.agree.disk, Fs.disk_setBlock, if_neg hc']
  -- the references are those before the entry was removed
  intro s hby' hr'
  have hr₀ : Refers k.fs chain s c := (refers_setBlock _ hbig s c).1
    ((hdrop.agree.owners.refers chain s c).1 hr')
  rw [h.toCore.owned.inj hr hr₀] at hby
  exact hby hby'

/-- `ouichefs_rmdir` likewise. -/
theorem ouichefsRmdir_disk (hf : k.faults = []) (h : WF k.fs chain Z) (hd : k.fs.Is dir .dir)
    (hs : slotInode (k.fs.indexOf dir) f = ino) (h0 : ino ≠ 0) (hi : k.fs.Is ino .dir)
    (hne : ino ≠ dir) (hrun : ouichefsRmdir k dir ino = .ok (r, k')) {ref : Ref} {c : Nat}
    (hr : Refers k.fs chain ref c) (hby : ¬ref.By ino) (hm : c ∉ chain)
    (hc : c ≠ (k.inode dir).indexBlock) : k'.fs.disk c = k.fs.disk c := by
  have hib : (k.inode ino).indexBlock < k.fs.sbi.nrBlocks := (h.toCore.dir_used hi).1
  unfold ouichefsRmdir at hrun
  simp only at hrun
  split at hrun
  · cases hrun
    rfl
  simp only [Kernel.sbBread_ok hf hib] at hrun
  split at hrun
  · cases hrun
    rfl
  · exact ouichefsUnlink_disk
      (k := (k.log (.bread (k.inode ino).indexBlock)).brelse (k.inode ino).indexBlock)
      (by simpa using hf) h hd hs h0 hne hrun hr hby hm hc

end Remove

/-! ## Renaming -/

section Rename

variable {k k' : Kernel} {oldDir src newDir flags : Nat} {oldName newName : List UInt8} {r : Int}

/-- The second half of a move writes the block of the old directory. -/
theorem removeFromOld_disk (hrun : removeFromOld k oldDir src = .ok (r, k')) {c : Nat}
    (hc : c ≠ (k.inode oldDir).indexBlock) : k'.fs.disk c = k.fs.disk c := by
  have hread := Kernel.fs_sbBread k (k.inode oldDir).indexBlock
  unfold removeFromOld at hrun
  simp only at hrun
  split at hrun
  · rename_i k₁ heq
    rw [heq] at hread
    cases hrun
    rw [hread]
  · rename_i k₁ heq
    rw [heq] at hread
    split at hrun
    · cases hrun
    · split at hrun
      · cases hrun
      · cases hrun
        show (Fs.setBlock k₁.fs (k.inode oldDir).indexBlock _).disk c = _
        rw [Fs.disk_setBlock, if_neg hc, hread]

/-- **`ouichefs_rename` writes the blocks of the two directories.** -/
theorem ouichefsRename_disk
    (hrun : ouichefsRename k oldDir oldName src newDir newName flags = .ok (r, k')) {c : Nat}
    (ho : c ≠ (k.inode oldDir).indexBlock) (hn : c ≠ (k.inode newDir).indexBlock) :
    k'.fs.disk c = k.fs.disk c := by
  have hread := Kernel.fs_sbBread k (k.inode newDir).indexBlock
  unfold ouichefsRename at hrun
  split at hrun
  · cases hrun
    rfl
  split at hrun
  · cases hrun
    rfl
  simp only at hrun
  split at hrun
  · rename_i k₁ heq
    rw [heq] at hread
    cases hrun
    rw [hread]
  rename_i k₁ heq
  rw [heq] at hread
  have hset : ∀ b, (Fs.setBlock k₁.fs (k.inode newDir).indexBlock b).disk c = k.fs.disk c := by
    intro b
    rw [Fs.disk_setBlock, if_neg hn, hread]
  split at hrun
  · cases hrun
    show k₁.fs.disk c = _
    rw [hread]
  split at hrun
  · split at hrun
    · cases hrun
    · cases hrun
      exact hset _
  · rename_i hne
    split at hrun
    · cases hrun
      show k₁.fs.disk c = _
      rw [hread]
    · rename_i p
      rw [removeFromOld_disk hrun]
      · exact hset _
      · -- the new directory got its times before
        have hold : k₁.fs.inode oldDir = k.inode oldDir := congrFun (congrArg Fs.inode hread) oldDir
        unfold Kernel.inode
        simp only [Kernel.fs_setInode, Kernel.fs_brelse, Kernel.fs_setBlock, Fs.inode_setInode,
          if_neg hne, Fs.inode_setBlock]
        rw [hold]
        exact ho

end Rename

end Ouichefs
