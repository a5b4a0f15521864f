import Ouichefs.Run

/-!
# The first write of a small file on any chain

What `write_small_file` does to the chain of sliced blocks when nothing is known about the contents
of the free blocks, and what it leaves behind when no block is free.

* `writeSmallFile_keepsChain_iff`: a new sliced block keeps the next word it finds.
* `writeSmallFile_noSpace_dirty`: running out of space hands back block 0.
-/

set_option autoImplicit false

namespace Ouichefs

/-- A chain of used blocks on a device of any size, whatever the free blocks contain. -/
structure Chained (fs : Fs) (chain : List Nat) : Prop where
  bit0 : fs.sbi.bfreeBitmap 0 = false
  blocks_lt : fs.sbi.nrBlocks < 4294967296
  free_lt : fs.sbi.nrFreeBlocks < 4294967296
  isChain : IsLinked fs.next fs.sbi.sFreeSlicedBlocks chain
  nodup : chain.Nodup
  inUse : ∀ b ∈ chain, b < fs.sbi.nrBlocks ∧ fs.sbi.bfreeBitmap b = false

theorem Core.chained {fs : Fs} {chain : List Nat} {Z : Prop} (h : Core fs chain Z) :
    Chained fs chain := by
  refine ⟨h.bit0, h.sb.blocks_lt, ?_, h.isChain, h.nodup, fun _ hb => h.chain_used hb⟩
  have := FreeMap.countBits_le fs.sbi.bfreeBitmap fs.sbi.nrBlocks
  have := h.sb.count
  have := h.sb.blocks_lt
  omega

theorem Chained.length_le {fs : Fs} {chain : List Nat} (h : Chained fs chain) :
    chain.length ≤ fs.sbi.nrBlocks := by
  have hsub : ∀ c ∈ chain, c ∈ List.range fs.sbi.nrBlocks := fun c hc =>
    List.mem_range.2 (h.inUse c hc).1
  simpa using (h.nodup.subperm hsub).length_le

/-- The file has never been written. -/
def Inode.Unwritten (ci : Inode) : Prop := ci.indexBlock = 0 ∧ ci.iSize = 0

section Search

variable {k : Kernel} {chain : List Nat} {ino size : Nat}

/-- The search of a chain that is not empty. -/
theorem placeSlices_walk (ino : Nat) (hf : k.faults = []) (h : Chained k.fs chain) (hne : chain ≠ [])
    (h2 : size ≤ 3968) :
    WalkCases (k.log (.bread k.fs.sbi.sFreeSlicedBlocks)) chain ino size (placeSlices k ino size) := by
  have hlen := h.length_le
  cases chain with
  | nil => exact absurd rfl hne
  | cons head post =>
      obtain ⟨hhead, hhne, hseg⟩ := h.isChain
      have hb := (h.inUse head List.mem_cons_self).1
      rw [(placeSlices_exits k ino size).2 (.searched (by rwa [hhead])
        (Kernel.sbBread_ok hf (by rwa [hhead])) rfl), hhead]
      exact searchChain_walk ino h2 post (searchFuel k.fs.sbi) (k.log (.bread head)) head
        (by simpa using hf) ⟨rfl, hhne, hseg⟩ (fun b hb => (h.inUse b hb).1) (searchFuel_le hlen)

/-- An empty chain gets its first block. -/
theorem placeSlices_nil (ino : Nat) (h0 : k.fs.sbi.sFreeSlicedBlocks = 0) {b : Nat} {k' : Kernel}
    (hb : 0 < b) (hle : b ≤ 134217728) (hal : allocateAndInitSliceBlock k = ((b : Int), k'))
    (hbm : sliceBitmap (k'.fs.disk b) = bitmapAllFree) (h2 : size ≤ 3968) :
    ∃ k₁, placeSlices k ino size = .ok (.ok (b, 1), k₁) ∧ k₁.faults = k'.faults ∧
      k₁.reads = k'.reads ∧ k₁.fs = (k'.fs.setSbi { k'.fs.sbi with sFreeSlicedBlocks := b }).takeSlices b ino
        (divRoundUp size 128) 1 := by
  have hmod : ((b : Int) % 4294967296).toNat = b := by omega
  obtain ⟨fuel, hfuel⟩ : ∃ n, searchFuel k'.fs.sbi = n + 1 :=
    Nat.exists_eq_succ_of_ne_zero (Nat.ne_of_gt (searchFuel_le (Nat.zero_le _)))
  have hrun := searchChain_fresh fuel ino h2
    (show sliceBitmap ((k'.setSbi { k'.fs.sbi with sFreeSlicedBlocks := b }).fs.disk b) =
      bitmapAllFree from hbm)
  rw [(placeSlices_exits k ino size).2 (.newHead h0 hal (by omega) (by omega) rfl), hmod, hfuel,
    hrun]
  exact ⟨_, rfl, rfl, rfl, rfl⟩

/-- An empty chain gets an error number as its head when no block can be allocated. -/
theorem placeSlices_nil_error (h0 : k.fs.sbi.sFreeSlicedBlocks = 0) {k' : Kernel}
    (hal : allocateAndInitSliceBlock k = (-ENOSPC, k')) :
    placeSlices k ino size = .error (.nullDeref,
      k'.setSbi { k'.fs.sbi with sFreeSlicedBlocks := 4294967268 }) := by
  have hmod : (-ENOSPC % 4294967296).toNat = 4294967268 := by decide
  have hle : -ENOSPC ≤ 0 := by decide
  rw [(placeSlices_exits k ino size).2 (.badHead h0 hal (by rw [hmod]; decide) hle rfl), hmod]

end Search

/-! ## The chain after a first write -/

/-- The chain is acyclic and null-terminated again, and consists of the blocks of the old one and at
most one block that was free. -/
def Fs.KeepsChain (fs fs' : Fs) (chain : List Nat) : Prop :=
  ∃ chain', IsLinked fs'.next fs'.sbi.sFreeSlicedBlocks chain' ∧ chain'.Nodup ∧
    ((∀ c, c ∈ chain' ↔ c ∈ chain) ∨
      ∃ b, fs.sbi.bfreeBitmap b = true ∧ fs'.sbi.bfreeBitmap b = false ∧
        ∀ c, c ∈ chain' ↔ c ∈ chain ∨ c = b)

/-- Storing data in slices does not touch the chain. -/
theorem Fs.storeSmall_next (fs : Fs) (ino : Nat) (t : Timespec) (data : List UInt8)
    (pos b : Nat) {s : Nat} (hs : 1 ≤ s) (hfit : s * 128 + pos + data.length ≤ 4096) :
    (fs.storeSmall ino t data pos b s).next = fs.next ∧
      (fs.storeSmall ino t data pos b s).sbi.sFreeSlicedBlocks = fs.sbi.sFreeSlicedBlocks ∧
      (fs.storeSmall ino t data pos b s).sbi.bfreeBitmap = fs.sbi.bfreeBitmap := by
  refine ⟨?_, rfl, rfl⟩
  funext c
  unfold Fs.storeSmall Fs.fillSlices Fs.takeSlices Fs.next
  simp only [Fs.disk_setInode, Fs.disk_setSbi, Fs.disk_setBlock]
  by_cases hc : c = b
  · simp only [hc, if_true]
    rw [← sliceNext_setSliceBitmap (fs.disk b) (sliceBitmap (fs.disk b) &&&
      ~~~runMask 32 (divRoundUp (pos + data.length) 128) s)]
    refine sliceNext_congr fun i _ h2 => ?_
    rw [Page.get_blit _ hfit, if_neg (by omega)]
  · simp only [hc, if_false]

section Grown

variable {fs fs' : Fs} {chain : List Nat} {b : Nat}

/-- A new block joins the chain at its end: what it contains decides about the chain. -/
theorem Chained.keepsChain_iff (h : Chained fs chain) (hb : 0 < b)
    (hfree : fs.sbi.bfreeBitmap b = true) (hused : fs'.sbi.bfreeBitmap b = false)
    (hhead : fs'.sbi.sFreeSlicedBlocks = if chain = [] then b else fs.sbi.sFreeSlicedBlocks)
    (hnext : ∀ c, fs'.next c = if chain.getLast? = some c then b else fs.next c) :
    fs.KeepsChain fs' chain ↔ fs.next b = 0 := by
  have hnb : b ∉ chain := fun hm => by
    rw [(h.inUse b hm).2] at hfree
    cases hfree
  have hb' : fs'.next b = fs.next b := by
    rw [hnext, if_neg]
    exact fun hl => hnb (List.mem_of_getLast? hl)
  have hseg : IsSeg fs'.next fs'.sbi.sFreeSlicedBlocks chain b := by
    rcases List.eq_nil_or_concat chain with rfl | ⟨l, p, rfl⟩
    · exact hhead
    · have hch : IsLinked _ _ _ := h.isChain
      rw [List.concat_eq_append] at *
      have hlast : (l ++ [p]).getLast? = some p := by simp
      have hpl : p ∉ l := fun hm => (List.nodup_append.1 h.nodup).2.2 p hm p (by simp) rfl
      rw [hhead, if_neg (by simp)]
      refine hch.relink hpl (fun c hc => ?_) ?_
      · rw [hnext, hlast, if_neg]
        rintro ⟨⟩
        exact hpl hc
      · rw [hnext, hlast, if_pos rfl]
  constructor
  · rintro ⟨chain', hlinked, hnd, hmem⟩
    have hba : b ∈ chain' := by
      obtain ⟨rest, hrest, hlinked'⟩ := hseg.prefix_of_linked hlinked
      cases rest with
      | nil => exact absurd hlinked' (Nat.pos_iff_ne_zero.1 hb)
      | cons c rest =>
          obtain ⟨rfl, -, -⟩ := hlinked'
          rw [hrest]
          simp
    rw [← hb']
    refine hseg.end_of_linked hlinked hnd (fun c hc => ?_) hba hnb
    rcases hmem with hmem | ⟨a, -, -, hmem⟩
    · exact Or.inl ((hmem c).1 hc)
    · obtain rfl := ((hmem b).1 hba).resolve_left hnb
      exact (hmem c).1 hc
  · intro h0
    refine ⟨chain ++ [b], IsSeg.append_iff.2 ⟨b, hseg, rfl, Nat.pos_iff_ne_zero.1 hb, ?_⟩, ?_,
      Or.inr ⟨b, hfree, hused, by simp⟩⟩
    · show fs'.next b = 0
      rw [hb', h0]
    · rw [List.nodup_append]
      refine ⟨h.nodup, by simp, fun c hc d hd => ?_⟩
      rw [List.mem_singleton.1 hd]
      rintro rfl
      exact hnb hc

end Grown

section Write

variable {k : Kernel} {chain : List Nat} {ino : Nat} {iocb : Kiocb} {data : List UInt8} {pos b : Nat}

/-- The size that a first write gives the file. -/
theorem Inode.Unwritten.newSize {ci : Inode} (h : ci.Unwritten) (data : List UInt8)
    (hpos : iocb.startPos ci = pos) :
    max (iocb.startPos ci + data.length) ci.iSize = pos + data.length := by
  rw [hpos, h.2, Nat.max_zero]

/-- A first write whose slices were found ends with the copy. -/
theorem writeSmallFile_copy {k₁ : Kernel} {s : Nat} (hnew : (k.inode ino).Unwritten)
    (hpos : iocb.startPos (k.inode ino) = pos)
    (hplace : placeSlices k ino (pos + data.length) = .ok (.ok (b, s), k₁)) :
    writeSmallFile k ino iocb data =
      copyToSlices k₁ ino iocb data pos (pos + data.length) b s := by
  have hmax := hnew.newSize data hpos
  rw [writeSmallFile_new _ _ hnew.1, (writeSmallFileNew_exits k ino iocb data).2
    (.placed (by rw [hmax]; exact hplace) rfl), hmax, hpos]

/-- The end of a first write whose slices were found. -/
theorem writeSmallFile_placed {k₁ : Kernel} {s : Nat} (hnew : (k.inode ino).Unwritten)
    (hpos : iocb.startPos (k.inode ino) = pos) (hf₁ : k₁.faults = [])
    (hplace : placeSlices k ino (pos + data.length) = .ok (.ok (b, s), k₁)) :
    ∃ k', writeSmallFile k ino iocb data =
        .ok (((data.length : Int), { iocb with kiPos := pos }), k') ∧
      k'.fs = k₁.fs.fillSlices ino k₁.now data pos (pos + data.length) b s := by
  obtain ⟨k', hrun, -, -, hfs⟩ := copyToSlices_ok hf₁ ino iocb data pos (pos + data.length) b s
  exact ⟨k', (writeSmallFile_copy hnew hpos hplace).trans hrun, hfs⟩

/-- A first write whose search fails. -/
theorem writeSmallFile_unplaced {k₁ : Kernel} {e : Int} (hnew : (k.inode ino).Unwritten)
    (hpos : iocb.startPos (k.inode ino) = pos)
    (hplace : placeSlices k ino (pos + data.length) = .ok (.error e, k₁)) :
    writeSmallFile k ino iocb data = .ok ((e, iocb), k₁) := by
  rw [writeSmallFile_new _ _ hnew.1]
  exact (writeSmallFileNew_exits k ino iocb data).2
    (.noPlace (by rw [hnew.newSize data hpos]; exact hplace) rfl)

/-- A first write whose search does not return. -/
theorem writeSmallFile_crash (data : List UInt8) {e : Crash × Kernel}
    (hnew : (k.inode ino).Unwritten) (hpos : iocb.startPos (k.inode ino) = pos)
    (hplace : placeSlices k ino (pos + data.length) = .error e) :
    writeSmallFile k ino iocb data = .error e := by
  rw [writeSmallFile_new _ _ hnew.1]
  exact (writeSmallFileNew_exits k ino iocb data).2
    (.stopped (by rw [hnew.newSize data hpos]; exact hplace) rfl)

/-- The allocation when `b` is the least free block. -/
theorem Chained.alloc (h : Chained k.fs chain) (hb : b < k.fs.sbi.nrBlocks)
    (hfree : k.fs.sbi.bfreeBitmap b = true) (hleast : ∀ j < b, k.fs.sbi.bfreeBitmap j = false)
    {k₁ : Kernel} (hf₁ : k₁.faults = []) (hfs₁ : k₁.fs = k.fs) :
    (b ≤ 134217728 ∧ ∃ k', allocateAndInitSliceBlock k₁ = ((b : Int), k') ∧ k'.faults = [] ∧
      k'.fs.sbi.bfreeBitmap b = false ∧
      k'.fs.sbi.sFreeSlicedBlocks = k.fs.sbi.sFreeSlicedBlocks ∧
      sliceBitmap (k'.fs.disk b) = bitmapAllFree ∧ k'.fs.next = k.fs.next) ∨
    (134217728 < b ∧ ∃ k', allocateAndInitSliceBlock k₁ = (-ENOSPC, k') ∧ k'.fs = k.fs) := by
  rcases allocateAndInitSliceBlock_bits hf₁ (by rw [hfs₁]; exact h.bit0)
    (by rw [hfs₁]; exact h.free_lt) with ⟨a, k', -, ha, hafree, haleast, hcase⟩ | ⟨hnone, -⟩
  · rw [hfs₁] at ha hafree haleast hcase
    have hab : a = b := by
      rcases Nat.lt_trichotomy a b with hlt | heq | hgt
      · rw [hleast a hlt] at hafree
        cases hafree
      · exact heq
      · rw [haleast b hgt] at hfree
        cases hfree
    subst hab
    rcases hcase with ⟨hle, heq, hf', -, hfs'⟩ | ⟨hgt, heq, hfs'⟩
    · refine Or.inl ⟨hle, k', heq, hf', ?_, ?_, ?_, ?_⟩
      · rw [hfs']; simp
      · rw [hfs']; simp
      · rw [hfs']; simp
      · funext c
        unfold Fs.next
        rw [hfs', Fs.disk_setBlock]
        split
        · rename_i hc
          rw [hc, sliceNext_setSliceBitmap]
        · rfl
    · exact Or.inr ⟨hgt, k', heq, hfs'⟩
  · rw [hfs₁] at hnone
    rw [hnone b hb] at hfree
    cases hfree

/-- Some block of the chain has room for the write, or the block that joins the chain can be
numbered and its next word is zero, or it cannot be numbered and the chain is not empty. -/
def Fs.KeepsCond (fs : Fs) (chain : List Nat) (n b : Nat) : Prop :=
  (∃ c ∈ chain, ∃ t, 1 ≤ t ∧ t + n ≤ 32 ∧ HasRun (sliceBitmap (fs.disk c)) n t) ∨
    (b ≤ 134217728 ∧ fs.next b = 0) ∨ (134217728 < b ∧ chain ≠ [])

/-- **A first write keeps the chain unless it adds a block with a stale next word.**  `b` is the
least free block; its contents are arbitrary. -/
theorem writeSmallFile_keepsChain_iff (hf : k.faults = []) (h : Chained k.fs chain)
    (hnew : (k.inode ino).Unwritten) (hpos : iocb.startPos (k.inode ino) = pos)
    (h1 : 1 ≤ pos + data.length) (h2 : pos + data.length ≤ 3968) (hb : b < k.fs.sbi.nrBlocks)
    (hfree : k.fs.sbi.bfreeBitmap b = true) (hleast : ∀ j < b, k.fs.sbi.bfreeBitmap j = false) :
    (∃ r k', writeSmallFile k ino iocb data = .ok (r, k') ∧ k.fs.KeepsChain k'.fs chain) ↔
      k.fs.KeepsCond chain (divRoundUp (pos + data.length) 128) b := by
  obtain ⟨hn1, hn31⟩ := divRoundUp_128 h1 h2
  have hb0 : 0 < b := by
    by_contra hz
    rw [Nat.eq_zero_of_not_pos hz, h.bit0] at hfree
    cases hfree
  have hblt : b < 4294967296 := Nat.lt_trans hb h.blocks_lt
  have hfit : 1 * 128 + pos + data.length ≤ 4096 := by omega
  have hsame : ∀ fs' : Fs, fs'.next = k.fs.next →
      fs'.sbi.sFreeSlicedBlocks = k.fs.sbi.sFreeSlicedBlocks → k.fs.KeepsChain fs' chain := by
    intro fs' hnext hhead
    refine ⟨chain, ?_, h.nodup, Or.inl fun _ => Iff.rfl⟩
    rw [hnext, hhead]
    exact h.isChain
  by_cases hchain : chain = []
  · have hnone : ¬∃ c ∈ chain, ∃ t, 1 ≤ t ∧ t + divRoundUp (pos + data.length) 128 ≤ 32 ∧
        HasRun (sliceBitmap (k.fs.disk c)) (divRoundUp (pos + data.length) 128) t := by
      rw [hchain]
      simp
    have h0 : k.fs.sbi.sFreeSlicedBlocks = 0 := by
      have := h.isChain
      rwa [hchain] at this
    rcases h.alloc hb hfree hleast hf rfl with
      ⟨hle, k', hal, hf', hused, hhead, hbm, hnext⟩ | ⟨hgt, k', hal, hfs'⟩
    · obtain ⟨k₁, hplace, hf₁, -, hfs₁⟩ := placeSlices_nil ino h0 hb0 hle hal hbm h2
      obtain ⟨k₂, hrun, hfs₂⟩ := writeSmallFile_placed hnew hpos (hf₁.trans hf') hplace
      rw [hfs₁] at hfs₂
      obtain ⟨hnext₂, hhead₂, hused₂⟩ := (k'.fs.setSbi
        { k'.fs.sbi with sFreeSlicedBlocks := b }).storeSmall_next ino k₁.now data pos b
        (Nat.le_refl 1) hfit
      have hfs₂' : k₂.fs = (k'.fs.setSbi { k'.fs.sbi with sFreeSlicedBlocks := b }).storeSmall ino
        k₁.now data pos b 1 := hfs₂
      have hiff : k.fs.KeepsChain k₂.fs chain ↔ k.fs.next b = 0 := by
        refine h.keepsChain_iff hb0 hfree ?_ ?_ fun c => ?_
        · rw [hfs₂', hused₂]; exact hused
        · rw [hfs₂', hhead₂, if_pos hchain]; rfl
        · rw [hfs₂', hnext₂, hchain]
          show k'.fs.next c = _
          rw [hnext]
          simp
      unfold Fs.KeepsCond
      constructor
      · rintro ⟨r, k₃, hrun₃, hkeep⟩
        rw [hrun] at hrun₃
        cases hrun₃
        exact Or.inr (Or.inl ⟨hle, hiff.1 hkeep⟩)
      · rintro (hrun' | ⟨-, h0'⟩ | ⟨hgt, -⟩)
        · exact absurd hrun' hnone
        · exact ⟨_, k₂, hrun, hiff.2 h0'⟩
        · omega
    · have hcrash := writeSmallFile_crash data hnew hpos (placeSlices_nil_error h0 hal)
      unfold Fs.KeepsCond
      constructor
      · rintro ⟨r, k₃, hrun₃, -⟩
        rw [hcrash] at hrun₃
        cases hrun₃
      · rintro (hrun' | ⟨hle, -⟩ | ⟨-, hne⟩)
        · exact absurd hrun' hnone
        · omega
        · exact absurd hchain hne
  · cases placeSlices_walk ino hf h hchain h2 with
    | found pre post a s k₁ hsplit _ hs heq hf₁ _ hfs₁ =>
        obtain ⟨k₂, hrun, hfs₂⟩ := writeSmallFile_placed hnew hpos hf₁ heq
        rw [hfs₁] at hfs₂
        have hfits := hs.fits
        obtain ⟨hnext₂, hhead₂, -⟩ := k.fs.storeSmall_next ino k₁.now data pos a hs.pos
          (by unfold divRoundUp at hfits; omega)
        refine iff_of_true ⟨_, k₂, hrun, hsame _ ?_ ?_⟩
          (Or.inl ⟨a, by rw [hsplit]; simp, s, hs.pos, hs.fits, hs.run⟩)
        · rw [hfs₂]; exact hnext₂
        · rw [hfs₂]; exact hhead₂
    | ends fuel last k₁ hnone hlast hf₁ _ hfs₁ heq =>
        have hno : ¬∃ c ∈ chain, ∃ t, 1 ≤ t ∧ t + divRoundUp (pos + data.length) 128 ≤ 32 ∧
            HasRun (sliceBitmap (k.fs.disk c)) (divRoundUp (pos + data.length) 128) t := by
          rintro ⟨c, hc, t, ht1, ht2, hrun⟩
          exact hnone c hc t ht1 ht2 hrun
        unfold appendBlock at heq
        rcases h.alloc hb hfree hleast hf₁ hfs₁ with
          ⟨hle, k', hal, hf', hused, hhead, hbm, hnext⟩ | ⟨hgt, k', hal, hfs'⟩
        · have hbl : b ≠ last := by
            rintro rfl
            rw [(h.inUse b (List.mem_of_getLast? hlast)).2] at hfree
            cases hfree
          have hnle : ¬((b : Int) ≤ 0) := by omega
          simp only [hal, hnle, if_false, Int.toNat_natCast] at heq
          rw [searchChain_fresh fuel ino h2 (by simp [hbl, hbm])] at heq
          obtain ⟨k₂, hrun, hfs₂⟩ := writeSmallFile_placed hnew hpos
            (show ({ (k'.setBlock last (setSliceNext (k'.fs.disk last) b)).brelse last with fs := _ } :
              Kernel).faults = [] from hf') heq
          obtain ⟨hnext₂, hhead₂, hused₂⟩ := ((k'.setBlock last (setSliceNext (k'.fs.disk last)
            b)).brelse last).fs.storeSmall_next ino k₂.now data pos b (Nat.le_refl 1) hfit
          have hiff : k.fs.KeepsChain k₂.fs chain ↔ k.fs.next b = 0 := by
            refine h.keepsChain_iff hb0 hfree ?_ ?_ fun c => ?_
            · rw [hfs₂]; exact hused₂ ▸ hused
            · rw [hfs₂, if_neg hchain]; exact hhead₂.trans hhead
            · rw [hfs₂]
              refine (congrFun hnext₂ c).trans ?_
              rw [hlast]
              unfold Fs.next at hnext ⊢
              simp only [Kernel.fs_brelse, Kernel.fs_setBlock, Fs.disk_setBlock]
              by_cases hc : c = last
              · simp only [hc, if_true, sliceNext_setSliceNext _ hblt]
              · have hc' : ¬(some last = some c) := fun he => hc (Option.some.inj he).symm
                rw [if_neg hc, if_neg hc']
                exact congrFun hnext c
          unfold Fs.KeepsCond
          constructor
          · rintro ⟨r, k₃, hrun₃, hkeep⟩
            rw [hrun] at hrun₃
            cases hrun₃
            exact Or.inr (Or.inl ⟨hle, hiff.1 hkeep⟩)
          · rintro (hrun' | ⟨-, h0'⟩ | ⟨hgt, -⟩)
            · exact absurd hrun' hno
            · exact ⟨_, k₂, hrun, hiff.2 h0'⟩
            · omega
        · have hle : -ENOSPC ≤ 0 := by decide
          simp only [hal, hle, if_true] at heq
          refine iff_of_true ⟨_, _, writeSmallFile_unplaced hnew hpos heq, hsame _ ?_ ?_⟩
            (Or.inr (Or.inr ⟨hgt, hchain⟩))
          · rw [Kernel.fs_brelse, hfs']
          · rw [Kernel.fs_brelse, hfs']

/-! ## Where the file is placed -/

/-- A first-fit search of the blocks `chain` for `n` slices passes over the blocks `visited` and
takes slices `s …` of block `b`; `fs'` is the file system afterwards. -/
inductive FirstFit (fs fs' : Fs) (chain : List Nat) (n : Nat) (visited : List Nat) (b s : Nat) : Prop
  | found (post : List Nat) (split : chain = visited ++ b :: post)
      (none_before : ∀ c ∈ visited, NoRun (sliceBitmap (fs.disk c)) n)
      (least : LeastRun (sliceBitmap (fs.disk b)) n s)
      (taken : Rewritten (fs.disk b) (fs'.disk b) s n) (others : ∀ c ≠ b, fs'.disk c = fs.disk c)
      (bfree : fs'.sbi.bfreeBitmap = fs.sbi.bfreeBitmap)
      (head : fs'.sbi.sFreeSlicedBlocks = fs.sbi.sFreeSlicedBlocks)
  | grown (all : visited = chain) (none_found : ∀ c ∈ chain, NoRun (sliceBitmap (fs.disk c)) n)
      (first : s = 1) (free : fs.sbi.bfreeBitmap b = true)
      (taken : ∀ j < 32, (sliceBitmap (fs'.disk b)).getLsbD j =
        (bitmapAllFree.getLsbD j && !decide (1 ≤ j ∧ j < 1 + n)))
      (others : ∀ c ≠ b, sliceBitmap (fs'.disk c) = sliceBitmap (fs.disk c) ∧
        fs'.next c = if chain.getLast? = some c then b else fs.next c)
      (bfree : fs'.sbi.bfreeBitmap = Function.update fs.sbi.bfreeBitmap b false)
      (head : fs'.sbi.sFreeSlicedBlocks = if chain = [] then b else fs.sbi.sFreeSlicedBlocks)

/-- The file is stored in `n` slices from slice `s` of block `b` on, and the inode says so if the
block number fits into 27 bits. -/
structure Fs.Holds (fs : Fs) (ino n b s pos : Nat) (data : List UInt8) : Prop where
  index : b < 134217728 → (fs.inode ino).getBno = b ∧ (fs.inode ino).getSlice = s
  count : (fs.inode ino).numSlices = n
  size : (fs.inode ino).iSize = pos + data.length
  bytes : (fs.disk b).bytes (s * 128 + pos) data.length = data

section Store

variable {fs : Fs} {n s : Nat} {t : Timespec}

theorem Fs.storeSmall_disk (hn : divRoundUp (pos + data.length) 128 = n) (c : Nat) :
    (fs.storeSmall ino t data pos b s).disk c = if c = b then
      (setSliceBitmap (fs.disk b) (sliceBitmap (fs.disk b) &&& ~~~runMask 32 n s)).blit
        (s * 128 + pos) data else fs.disk c := by
  by_cases hc : c = b
  · simp [Fs.storeSmall, Fs.fillSlices, Fs.takeSlices, hn, hc]
  · simp [Fs.storeSmall, Fs.fillSlices, Fs.takeSlices, hc]

theorem Fs.storeSmall_taken (hn : divRoundUp (pos + data.length) 128 = n) (hs : 1 ≤ s)
    (hfit : s + n ≤ 32) :
    Rewritten (fs.disk b) ((fs.storeSmall ino t data pos b s).disk b) s n := by
  have hle : pos + data.length ≤ n * 128 := by
    rw [← hn]
    unfold divRoundUp
    omega
  rw [Fs.storeSmall_disk hn, if_pos rfl]
  exact (Rewritten.take _ hs hfit).blit hs hfit (by omega) (by omega)

theorem Fs.storeSmall_holds (hn : divRoundUp (pos + data.length) 128 = n)
    (h1 : 1 ≤ data.length) (hfit : s + n ≤ 32) :
    (fs.storeSmall ino t data pos b s).Holds ino n b s pos data := by
  have hle : pos + data.length ≤ n * 128 := by
    rw [← hn]
    unfold divRoundUp
    omega
  constructor
  · intro hb
    have hidx : ((fs.storeSmall ino t data pos b s).inode ino).indexBlock = 32 * b + s := by
      simp only [Fs.storeSmall, Fs.fillSlices, Fs.inode_setInode, if_true]
      exact add32_of_lt (by omega)
    exact Inode.decode hidx (by omega)
  · simp [Fs.storeSmall, Fs.fillSlices, Fs.takeSlices, hn]
  · simp [Fs.storeSmall, Fs.fillSlices]
  · rw [Fs.storeSmall_disk hn, if_pos rfl]
    exact Page.bytes_blit_self _ (by omega)

end Store

/-- With a free block of small number, the least free block becomes a sliced block. -/
theorem Chained.alloc_least (h : Chained k.fs chain)
    (hfree : ∃ a < k.fs.sbi.nrBlocks, a < 134217728 ∧ k.fs.sbi.bfreeBitmap a = true) {k₁ : Kernel}
    (hf₁ : k₁.faults = []) (hfs₁ : k₁.fs = k.fs) :
    ∃ b k', 0 < b ∧ b < 134217728 ∧ k.fs.sbi.bfreeBitmap b = true ∧
      allocateAndInitSliceBlock k₁ = ((b : Int), k') ∧ k'.faults = [] ∧
      k'.reads = k₁.reads ++ [b] ∧
      k'.fs = (k.fs.setSbi { k.fs.sbi with
        bfreeBitmap := Function.update k.fs.sbi.bfreeBitmap b false,
        nrFreeBlocks := sub32 k.fs.sbi.nrFreeBlocks 1,
        nrSlicedBlocks := add32 k.fs.sbi.nrSlicedBlocks 1 }).setBlock b
          (setSliceBitmap (k.fs.disk b) bitmapAllFree) := by
  obtain ⟨a, ha, halt, hafree⟩ := hfree
  rcases allocateAndInitSliceBlock_bits hf₁ (by rw [hfs₁]; exact h.bit0)
    (by rw [hfs₁]; exact h.free_lt) with ⟨b, k', hb, -, hbfree, hleast, hcase⟩ | ⟨hnone, -⟩
  · rw [hfs₁] at hbfree hleast hcase
    have hba : b ≤ a := by
      by_contra hlt
      rw [hleast a (by omega)] at hafree
      cases hafree
    rcases hcase with ⟨-, heq, hf', -, hfs'⟩ | ⟨hgt, -⟩
    · exact ⟨b, k', hb, by omega, hbfree, heq, hf', allocateAndInitSliceBlock_reads hb heq, hfs'⟩
    · omega
  · rw [hfs₁] at hnone
    rw [hnone a ha] at hafree
    cases hafree

/-- Storing into the first slices of the block `b` that has joined the chain. -/
theorem FirstFit.grow {fs fs₂ : Fs} {n : Nat} (t : Timespec)
    (hn : divRoundUp (pos + data.length) 128 = n)
    (hfit : 1 + n ≤ 32) (hnone : ∀ c ∈ chain, NoRun (sliceBitmap (fs.disk c)) n)
    (hfree : fs.sbi.bfreeBitmap b = true) (hbm : sliceBitmap (fs₂.disk b) = bitmapAllFree)
    (hothers : ∀ c ≠ b, sliceBitmap (fs₂.disk c) = sliceBitmap (fs.disk c) ∧
      fs₂.next c = if chain.getLast? = some c then b else fs.next c)
    (hmap : fs₂.sbi.bfreeBitmap = Function.update fs.sbi.bfreeBitmap b false)
    (hhead : fs₂.sbi.sFreeSlicedBlocks = if chain = [] then b else fs.sbi.sFreeSlicedBlocks) :
    FirstFit fs (fs₂.storeSmall ino t data pos b 1) chain n chain b 1 := by
  refine .grown rfl hnone rfl hfree (fun j hj => ?_) (fun c hc => ?_) hmap hhead
  · rw [(Fs.storeSmall_taken hn (Nat.le_refl 1) hfit).bitmap j hj, hbm]
  · unfold Fs.next at hothers ⊢
    rw [Fs.storeSmall_disk hn, if_neg hc]
    exact hothers c hc

/-- **First fit.**  The search ends after at most one block more than the chain has.  The file gets
the lowest run of free slices of the first block that has one; a block is allocated and linked, at
the end of the chain, only if no block has one. -/
theorem writeSmallFile_firstFit (hf : k.faults = []) (h : Chained k.fs chain)
    (hnew : (k.inode ino).Unwritten) (happ : iocb.append = false)
    (h1 : 1 ≤ data.length) (h2 : iocb.kiPos + data.length ≤ 3968)
    (hfree : ∃ a < k.fs.sbi.nrBlocks, a < 134217728 ∧ k.fs.sbi.bfreeBitmap a = true) :
    ∃ visited b s k', writeSmallFile k ino iocb data = .ok (((data.length : Int), iocb), k') ∧
      k'.reads = k.reads ++ visited ++ [b] ∧ visited.length ≤ chain.length ∧
      FirstFit k.fs k'.fs chain (divRoundUp (iocb.kiPos + data.length) 128) visited b s ∧
      k'.fs.Holds ino (divRoundUp (iocb.kiPos + data.length) 128) b s iocb.kiPos data := by
  have hpos : iocb.startPos (k.inode ino) = iocb.kiPos := by
    unfold Kiocb.startPos
    rw [happ]
    rfl
  have hn31 := divRoundUp_128_le h2
  -- what remains once the slices are found
  have hend : ∀ {visited : List Nat} {b s : Nat} {k₁ : Kernel} {fs₂ : Fs}, k₁.faults = [] →
      placeSlices k ino (iocb.kiPos + data.length) = .ok (.ok (b, s), k₁) →
      k₁.reads = k.reads ++ visited ++ [b] → visited.length ≤ chain.length →
      k₁.fs = fs₂.takeSlices b ino (divRoundUp (iocb.kiPos + data.length) 128) s →
      FirstFit k.fs (fs₂.storeSmall ino k₁.now data iocb.kiPos b s) chain
        (divRoundUp (iocb.kiPos + data.length) 128) visited b s →
      s + divRoundUp (iocb.kiPos + data.length) 128 ≤ 32 →
      ∃ k', writeSmallFile k ino iocb data = .ok (((data.length : Int), iocb), k') ∧
        k'.reads = k.reads ++ visited ++ [b] ∧ visited.length ≤ chain.length ∧
        FirstFit k.fs k'.fs chain (divRoundUp (iocb.kiPos + data.length) 128) visited b s ∧
        k'.fs.Holds ino (divRoundUp (iocb.kiPos + data.length) 128) b s iocb.kiPos data := by
    intro visited b s k₁ fs₂ hf₁ hplace hreads hlen hfs₁ hfit hle
    obtain ⟨k', hrun, -, -, hfs⟩ := copyToSlices_ok hf₁ ino iocb data iocb.kiPos
      (iocb.kiPos + data.length) b s
    have hreads' := copyToSlices_reads k₁ ino iocb data iocb.kiPos (iocb.kiPos + data.length) b s
    rw [hrun] at hreads'
    rw [hfs₁] at hfs
    have hfs' : k'.fs = fs₂.storeSmall ino k₁.now data iocb.kiPos b s := hfs
    refine ⟨k', (writeSmallFile_copy hnew hpos hplace).trans hrun, hreads'.trans hreads, hlen, ?_, ?_⟩
    · rw [hfs']
      exact hfit
    · rw [hfs']
      exact Fs.storeSmall_holds rfl h1 hle
  by_cases hnil : chain = []
  · have h0 : k.fs.sbi.sFreeSlicedBlocks = 0 := by
      have := h.isChain
      rwa [hnil] at this
    obtain ⟨b, k', hb0, hb, hbfree, hal, hf', hreads', hfs'⟩ := h.alloc_least hfree hf rfl
    have hbm : sliceBitmap (k'.fs.disk b) = bitmapAllFree := by
      rw [hfs']
      simp
    obtain ⟨k₁, hplace, hf₁, hreads, hfs₁⟩ := placeSlices_nil ino h0 hb0 (by omega) hal hbm h2
    refine ⟨[], b, 1, hend (hf₁.trans hf') hplace ?_ (Nat.zero_le _) hfs₁ ?_ (by omega)⟩
    · rw [hreads, hreads', List.append_nil]
    · subst hnil
      refine FirstFit.grow k₁.now rfl (by omega) (by simp) hbfree hbm (fun c hc => ?_) ?_ rfl
      · unfold Fs.next
        rw [Fs.disk_setSbi, hfs', Fs.disk_setBlock, if_neg hc, Fs.disk_setSbi]
        simp
      · rw [hfs']
        rfl
  · cases placeSlices_walk ino hf h hnil h2 with
    | found pre post b s k₁ hsplit hbefore hs heq hf₁ _ hfs₁ hreads =>
        refine ⟨pre, b, s, hend hf₁ heq ?_ (by rw [hsplit]; simp) hfs₁ ?_ hs.fits⟩
        · rw [hreads, Kernel.reads_bread]
          have hhead : k.fs.sbi.sFreeSlicedBlocks :: (pre ++ [b]).tail = pre ++ [b] := by
            have hl := h.isChain
            rw [hsplit] at hl
            cases pre with
            | nil => rw [hl.1]; rfl
            | cons a pre => rw [hl.1]; rfl
          rw [List.append_assoc, List.singleton_append, hhead, List.append_assoc]
        · refine .found post hsplit hbefore hs (Fs.storeSmall_taken rfl hs.pos hs.fits) ?_ rfl rfl
          intro c hc
          rw [Fs.storeSmall_disk rfl, if_neg hc]
          rfl
    | ends fuel last k₁ hnone hlast hf₁ _ hfs₁ heq hreads =>
        obtain ⟨b, k', hb0, hb, hbfree, hal, hf', hreads', hfs'⟩ := h.alloc_least hfree hf₁ hfs₁
        have hbl : b ≠ last := by
          rintro rfl
          rw [(h.inUse b (List.mem_of_getLast? hlast)).2] at hbfree
          cases hbfree
        have hnle : ¬((b : Int) ≤ 0) := by omega
        have hbm : sliceBitmap (((k'.setBlock last (setSliceNext (k'.fs.disk last) b)).brelse
            last).fs.disk b) = bitmapAllFree := by
          simp [hbl, hfs']
        unfold appendBlock at heq
        simp only [hal, hnle, if_false, Int.toNat_natCast] at heq
        rw [searchChain_fresh fuel ino h2 hbm] at heq
        refine ⟨chain, b, 1, hend ?_ heq ?_ (Nat.le_refl _) rfl ?_ (by omega)⟩
        · exact hf'
        · show Kernel.reads (Kernel.brelse _ _) = _
          rw [Kernel.reads_brelse]
          show k'.reads = _
          rw [hreads', hreads, Kernel.reads_bread]
          have hhead : k.fs.sbi.sFreeSlicedBlocks :: chain.tail = chain := by
            have hl := h.isChain
            cases chain with
            | nil => exact absurd rfl hnil
            | cons a post => rw [hl.1]; rfl
          rw [List.append_assoc k.reads, List.singleton_append, hhead]
        · refine FirstFit.grow _ rfl (by omega) hnone hbfree hbm (fun c hc => ?_) ?_ ?_
          · unfold Fs.next
            simp only [Kernel.fs_brelse, Kernel.fs_setBlock, Fs.disk_setBlock]
            by_cases hcl : c = last
            · rw [if_pos hcl, hlast, if_pos (by rw [hcl]), sliceBitmap_setSliceNext,
                sliceNext_setSliceNext _ (by omega), hfs', hcl, Fs.disk_setBlock,
                if_neg (Ne.symm hbl)]
              exact ⟨rfl, rfl⟩
            · rw [if_neg hcl, hlast, if_neg (fun he => hcl (Option.some.inj he).symm), hfs',
                Fs.disk_setBlock, if_neg hc]
              exact ⟨rfl, rfl⟩
          · show k'.fs.sbi.bfreeBitmap = _
            rw [hfs']
            rfl
          · show k'.fs.sbi.sFreeSlicedBlocks = _
            rw [hfs', if_neg hnil]
            rfl

/-- A file whose first data block starts with 5 bytes, the fifth of them 1, is truncated on opening;
another file is created. -/
def reusedBlock : Kernel :=
  (ouichefsOpen ((emptyImage 8 8).after [(Op.create 1 [97] 0o100644).call,
    (Op.write 2 4100 [1]).call, (Op.write 2 4 [1]).call]) 2 ⟨true, false, true⟩).kernel.after
    [(Op.create 1 [98] 0o100644).call]

theorem reusedBlock_chained : Chained reusedBlock.fs [] where
  bit0 := by decide +kernel
  blocks_lt := by decide +kernel
  free_lt := by decide +kernel
  isChain := by
    show reusedBlock.fs.sbi.sFreeSlicedBlocks = 0
    decide +kernel
  nodup := List.nodup_nil
  inUse := by simp

/-- The first sliced block is full; the second holds a file with its last byte at `pos`; a third file
is new. -/
def twoBlocks (pos : Nat) : Kernel :=
  (emptyImage 12 8).after [(Op.create 1 [97] 0o100644).call, (Op.create 1 [98] 0o100644).call,
    (Op.create 1 [99] 0o100644).call, (Op.write 2 3967 [7]).call, (Op.write 3 pos [8]).call]

theorem twoBlocks_chained {pos : Nat} (h : (twoBlocks pos).fs.sbi.bfreeBitmap 0 = false ∧
    (twoBlocks pos).fs.sbi.nrBlocks < 4294967296 ∧ (twoBlocks pos).fs.sbi.nrFreeBlocks < 4294967296 ∧
    (twoBlocks pos).fs.sbi.sFreeSlicedBlocks = 5 ∧ (twoBlocks pos).fs.next 5 = 6 ∧
    (twoBlocks pos).fs.next 6 = 0 ∧ ∀ b ∈ [5, 6], b < (twoBlocks pos).fs.sbi.nrBlocks ∧
      (twoBlocks pos).fs.sbi.bfreeBitmap b = false) :
    Chained (twoBlocks pos).fs [5, 6] := by
  obtain ⟨h0, hlt, hfree, hhead, h5, h6, hused⟩ := h
  exact ⟨h0, hlt, hfree, ⟨hhead, by decide, h5, by decide, h6⟩, by decide, hused⟩

/-- The blocks read say what the search passed over and where it ended. -/
theorem reads_split {l visited r : List Nat} {b c : Nat} (h : l ++ visited ++ [b] = l ++ r ++ [c]) :
    visited = r ∧ b = c := by
  rw [List.append_assoc, List.append_assoc] at h
  have h' := List.append_cancel_left h
  exact ⟨(List.append_inj' h' rfl).1, by simpa using (List.append_inj' h' rfl).2⟩

/-- A file of 2 slices goes behind the file in the second block; where that block is full too, a file
of one slice goes into a third one, linked behind it.  Without a chain the file goes into a new
block, even where that has a stale next word. -/
theorem writeSmallFile_firstFit_twoBlocks :
    (∃ s k', writeSmallFile (twoBlocks 0) 4 ⟨199, false⟩ [9] = .ok ((1, ⟨199, false⟩), k') ∧
      FirstFit (twoBlocks 0).fs k'.fs [5, 6] 2 [5] 6 s) ∧
    (∃ s k', writeSmallFile (twoBlocks 3967) 4 ⟨0, false⟩ [9] = .ok ((1, ⟨0, false⟩), k') ∧
      FirstFit (twoBlocks 3967).fs k'.fs [5, 6] 1 [5, 6] 7 s) ∧
    ∃ visited b s k', writeSmallFile reusedBlock 3 ⟨0, false⟩ [7] = .ok ((1, ⟨0, false⟩), k') ∧
      FirstFit reusedBlock.fs k'.fs [] 1 visited b s := by
  refine ⟨?_, ?_, ?_⟩
  · obtain ⟨visited, b, s, k', hrun, hreads, -, hfit, -⟩ :=
      @writeSmallFile_firstFit (twoBlocks 0) [5, 6] 4 ⟨199, false⟩ [9]
        (by decide +kernel) (twoBlocks_chained (by decide +kernel))
        ⟨by decide +kernel, by decide +kernel⟩ rfl (by decide) (by decide)
        ⟨7, by decide +kernel, by decide, by decide +kernel⟩
    have hread : (writeSmallFile (twoBlocks 0) 4 ⟨199, false⟩ [9]).kernel.reads =
        (twoBlocks 0).reads ++ [5] ++ [6] := by decide +kernel
    rw [hrun] at hread
    obtain ⟨rfl, rfl⟩ := reads_split (hreads.symm.trans hread)
    exact ⟨s, k', hrun, hfit⟩
  · obtain ⟨visited, b, s, k', hrun, hreads, -, hfit, -⟩ :=
      @writeSmallFile_firstFit (twoBlocks 3967) [5, 6] 4 ⟨0, false⟩ [9]
        (by decide +kernel) (twoBlocks_chained (by decide +kernel))
        ⟨by decide +kernel, by decide +kernel⟩ rfl (by decide) (by decide)
        ⟨7, by decide +kernel, by decide, by decide +kernel⟩
    have hread : (writeSmallFile (twoBlocks 3967) 4 ⟨0, false⟩ [9]).kernel.reads =
        (twoBlocks 3967).reads ++ [5, 6] ++ [7] := by decide +kernel
    rw [hrun] at hread
    obtain ⟨rfl, rfl⟩ := reads_split (hreads.symm.trans hread)
    exact ⟨s, k', hrun, hfit⟩
  · obtain ⟨visited, b, s, k', hrun, -, -, hfit, -⟩ :=
      @writeSmallFile_firstFit reusedBlock [] 3 ⟨0, false⟩ [7] (by decide +kernel)
        reusedBlock_chained ⟨by decide +kernel, by decide +kernel⟩ rfl (by decide) (by decide)
        ⟨6, by decide +kernel, by decide, by decide +kernel⟩
    exact ⟨visited, b, s, k', hrun, hfit⟩

/-- The block the truncation freed joins the chain with the file's byte as its next word. -/
theorem writeSmallFile_staleChain : reusedBlock.faults = [] ∧ Chained reusedBlock.fs [] ∧
    (reusedBlock.inode 3).Unwritten ∧ reusedBlock.fs.sbi.bfreeBitmap 6 = true ∧
    ¬∃ r k', writeSmallFile reusedBlock 3 ⟨0, false⟩ [7] = .ok (r, k') ∧
      reusedBlock.fs.KeepsChain k'.fs [] := by
  refine ⟨by decide +kernel, reusedBlock_chained, ⟨by decide +kernel, by decide +kernel⟩,
    by decide +kernel, ?_⟩
  rintro ⟨r, k', hrun, chain', hlinked, -, hmem⟩
  have hhead : (writeSmallFile reusedBlock 3 ⟨0, false⟩ [7]).kernel.fs.sbi.sFreeSlicedBlocks = 6 ∧
      (writeSmallFile reusedBlock 3 ⟨0, false⟩ [7]).kernel.fs.next 6 = 1 := by decide +kernel
  rw [hrun] at hhead
  obtain ⟨hhead, hnext⟩ : k'.fs.sbi.sFreeSlicedBlocks = 6 ∧ k'.fs.next 6 = 1 := hhead
  rw [hhead] at hlinked
  cases chain' with
  | nil => exact absurd (show (6 : Nat) = 0 from hlinked) (by decide)
  | cons a l =>
      obtain ⟨rfl, -, hl⟩ := hlinked
      rw [hnext] at hl
      cases l with
      | nil => exact absurd (show (1 : Nat) = 0 from hl) (by decide)
      | cons c l =>
          obtain ⟨rfl, -, -⟩ := hl
          rcases hmem with hmem | ⟨b, -, -, hmem⟩
          · exact absurd ((hmem 6).1 (by simp)) (by simp)
          · have h6 := (hmem 6).1 (by simp)
            have h1 := (hmem 1).1 (by simp)
            simp at h6 h1
            omega

/-- A file that was never written. -/
def newFile : Kernel := (emptyImage 8 8).after [(Op.create 1 [97] 0o100644).call]

theorem newFile_chained : Chained newFile.fs [] where
  bit0 := by decide +kernel
  blocks_lt := by decide +kernel
  free_lt := by decide +kernel
  isChain := by
    show newFile.fs.sbi.sFreeSlicedBlocks = 0
    decide +kernel
  nodup := List.nodup_nil
  inUse := by simp

/-- On a device that was never written the same write keeps the chain. -/
theorem writeSmallFile_keepsChain_iff_newFile :
    ∃ r k', writeSmallFile newFile 2 ⟨0, false⟩ [7] = .ok (r, k') ∧ newFile.fs.KeepsChain k'.fs [] :=
  (writeSmallFile_keepsChain_iff (by decide +kernel) newFile_chained
    ⟨by decide +kernel, by decide +kernel⟩ rfl (by decide) (by decide)
    (show 5 < _ by decide +kernel) (by decide +kernel) (by decide +kernel)).2
    (Or.inr (Or.inl ⟨by decide, by decide +kernel⟩))

/-! ## Out of space -/

/-- The chain, its counters, the bitmap of free blocks and inode `ino` are as they were. -/
structure Fs.KeepsStorage (fs fs' : Fs) (chain : List Nat) (ino : Nat) : Prop where
  head : fs'.sbi.sFreeSlicedBlocks = fs.sbi.sFreeSlicedBlocks
  next : ∀ c ∈ chain, fs'.next c = fs.next c
  bitmaps : ∀ c ∈ chain, sliceBitmap (fs'.disk c) = sliceBitmap (fs.disk c)
  nrSliced : fs'.sbi.nrSlicedBlocks = fs.sbi.nrSlicedBlocks
  nrUsed : fs'.sbi.nrUsedSlices = fs.sbi.nrUsedSlices
  bfree : ∀ b < fs.sbi.nrBlocks, fs'.sbi.bfreeBitmap b = fs.sbi.bfreeBitmap b
  nrFree : fs'.sbi.nrFreeBlocks = fs.sbi.nrFreeBlocks
  inode : fs'.inode ino = fs.inode ino

/-- The allocation when no block is free. -/
theorem Chained.alloc_full (h : Chained k.fs chain)
    (hfull : ∀ b < k.fs.sbi.nrBlocks, k.fs.sbi.bfreeBitmap b = false) {k₁ : Kernel}
    (hf₁ : k₁.faults = []) (hfs₁ : k₁.fs = k.fs) :
    allocateAndInitSliceBlock k₁ = (-ENOSPC, (k₁.log .noFreeBlock).putBlock 0) := by
  rcases allocateAndInitSliceBlock_bits hf₁ (by rw [hfs₁]; exact h.bit0)
    (by rw [hfs₁]; exact h.free_lt) with ⟨b, k', -, hb, hfree, -⟩ | ⟨-, heq⟩
  · rw [hfs₁] at hb hfree
    rw [hfull b hb] at hfree
    cases hfree
  · exact heq

/-- Without room in the chain and without a free block the write reports that there is no space,
and block 0 is handed back; if the chain is empty it does not return. -/
theorem writeSmallFile_noSpace (hf : k.faults = []) (h : Chained k.fs chain)
    (hfull : ∀ b < k.fs.sbi.nrBlocks, k.fs.sbi.bfreeBitmap b = false)
    (hnew : (k.inode ino).Unwritten) (hpos : iocb.startPos (k.inode ino) = pos)
    (h2 : pos + data.length ≤ 3968)
    (hno : ∀ c ∈ chain, NoRun (sliceBitmap (k.fs.disk c)) (divRoundUp (pos + data.length) 128)) :
    (chain = [] ∧ ∃ k', writeSmallFile k ino iocb data = .error (.nullDeref, k')) ∨
    (chain ≠ [] ∧ ∃ k', writeSmallFile k ino iocb data = .ok ((-ENOSPC, iocb), k') ∧
      k'.fs = k.fs.setSbi (k.fs.sbi.putBlock 0)) := by
  by_cases hchain : chain = []
  · have h0 : k.fs.sbi.sFreeSlicedBlocks = 0 := by
      have := h.isChain
      rwa [hchain] at this
    exact Or.inl ⟨hchain, _, writeSmallFile_crash data hnew hpos
      (placeSlices_nil_error h0 (h.alloc_full hfull hf rfl))⟩
  · right
    refine ⟨hchain, ?_⟩
    cases placeSlices_walk ino hf h hchain h2 with
    | found pre post a s k₁ hsplit _ hs heq hf₁ _ hfs₁ =>
        exact absurd hs.run (hno a (by rw [hsplit]; simp) s hs.pos hs.fits)
    | ends fuel last k₁ hnone hlast hf₁ _ hfs₁ heq =>
        unfold appendBlock at heq
        have hle : -ENOSPC ≤ 0 := by decide
        simp only [h.alloc_full hfull hf₁ hfs₁, hle, if_true] at heq
        refine ⟨_, writeSmallFile_unplaced hnew hpos heq, ?_⟩
        show k₁.fs.setSbi (k₁.fs.sbi.putBlock 0) = _
        rw [hfs₁]
        rfl

/-- **Running out of space is never clean.**  The write does not return, or it marks the superblock
as free. -/
theorem writeSmallFile_noSpace_dirty (hf : k.faults = []) (h : Chained k.fs chain)
    (hfull : ∀ b < k.fs.sbi.nrBlocks, k.fs.sbi.bfreeBitmap b = false)
    (hnew : (k.inode ino).Unwritten) (happ : iocb.append = false)
    (h2 : iocb.kiPos + data.length ≤ 3968)
    (hno : ∀ c ∈ chain,
      NoRun (sliceBitmap (k.fs.disk c)) (divRoundUp (iocb.kiPos + data.length) 128)) :
    ¬∃ iocb' k', writeSmallFile k ino iocb data = .ok ((-ENOSPC, iocb'), k') ∧
      k.fs.KeepsStorage k'.fs chain ino := by
  have hpos : iocb.startPos (k.inode ino) = iocb.kiPos := by
    unfold Kiocb.startPos
    rw [happ]
    rfl
  rintro ⟨iocb', k', hrun, hkeep⟩
  rcases writeSmallFile_noSpace hf h hfull hnew hpos h2 hno with
    ⟨-, k₁, hcrash⟩ | ⟨hne, k₁, hok, hfs₁⟩
  · rw [hcrash] at hrun
    cases hrun
  · rw [hok] at hrun
    cases hrun
    obtain ⟨c, hc⟩ := List.exists_mem_of_ne_nil chain hne
    have hlt : 0 < k.fs.sbi.nrBlocks := Nat.zero_lt_of_lt (h.inUse c hc).1
    have hbit := hkeep.bfree 0 hlt
    rw [hfs₁, h.bit0] at hbit
    have hset : (k.fs.sbi.putBlock 0).bfreeBitmap 0 = true := by
      simp [SbInfo.putBlock, putFreeBit]
    exact absurd hbit (by
      show ¬((k.fs.sbi.putBlock 0).bfreeBitmap 0 = false)
      rw [hset]
      decide)

/-- A directory has the last free block, and no file has slices. -/
def fullDisk : Kernel :=
  (emptyImage 6 8).after [(Op.create 1 [97] 0o100644).call, (Op.mkdir 1 [100] 0o755).call]

/-- The first write on a full disk without sliced blocks does not return. -/
theorem writeSmallFile_fullDisk : fullDisk.faults = [] ∧ Chained fullDisk.fs [] ∧
    (∀ b < fullDisk.fs.sbi.nrBlocks, fullDisk.fs.sbi.bfreeBitmap b = false) ∧
    (fullDisk.inode 2).Unwritten ∧
    ∃ k', writeSmallFile fullDisk 2 ⟨0, false⟩ [7] = .error (.nullDeref, k') := by
  have hchained : Chained fullDisk.fs [] :=
    ⟨by decide +kernel, by decide +kernel, by decide +kernel, by
      show fullDisk.fs.sbi.sFreeSlicedBlocks = 0
      decide +kernel, List.nodup_nil, by simp⟩
  refine ⟨by decide +kernel, hchained, by decide +kernel, ⟨by decide +kernel, by decide +kernel⟩, ?_⟩
  have hcrash : (match writeSmallFile fullDisk 2 ⟨0, false⟩ [7] with
      | .error (e, _) => some e | .ok _ => none) = some Crash.nullDeref := by decide +kernel
  revert hcrash
  cases writeSmallFile fullDisk 2 ⟨0, false⟩ [7] with
  | ok r => intro h; cases h
  | error e =>
      obtain ⟨e, k'⟩ := e
      intro h
      cases h
      exact ⟨k', rfl⟩

/-- The last free block is a sliced block with one slice in use. -/
def fullChain : Kernel :=
  (emptyImage 6 8).after [(Op.create 1 [97] 0o100644).call, (Op.create 1 [98] 0o100644).call,
    (Op.write 2 0 [1]).call]

/-- A write that needs all 31 slices marks the superblock as free. -/
theorem writeSmallFile_noSpace_dirty_fullChain :
    ¬∃ iocb' k', writeSmallFile fullChain 3 ⟨3967, false⟩ [9] = .ok ((-ENOSPC, iocb'), k') ∧
      fullChain.fs.KeepsStorage k'.fs [5] 3 := by
  have hchained : Chained fullChain.fs [5] := by
    refine ⟨by decide +kernel, by decide +kernel, by decide +kernel, ?_, by decide,
      by decide +kernel⟩
    show fullChain.fs.sbi.sFreeSlicedBlocks = 5 ∧ 5 ≠ 0 ∧ fullChain.fs.next 5 = 0
    decide +kernel
  refine writeSmallFile_noSpace_dirty (by decide +kernel) hchained (by decide +kernel)
    ⟨by decide +kernel, by decide +kernel⟩ rfl (by decide) ?_
  intro c hc t ht1 ht2 hrun
  have htaken : ∀ c ∈ [5], (sliceBitmap (fullChain.fs.disk c)).getLsbD 1 = false := by
    decide +kernel
  have h31 : divRoundUp (3967 + 1) 128 = 31 := by decide
  have hfree := hrun 1 (by simp [divRoundUp] at ht2; omega) (by simp [divRoundUp])
  rw [htaken c hc] at hfree
  cases hfree

end Write

end Ouichefs
