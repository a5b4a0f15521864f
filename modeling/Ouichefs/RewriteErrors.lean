import Ouichefs.FirstWrite
import Ouichefs.Read

/-!
# Rewrites of small files that fail

`write_small_file` on a file with slices that needs another number of them, with any answers of the
buffer cache, the allocator and the user's buffer.

* `SearchFails`: when the search for slices fails, read off the chain and the answers.
* `writeSmallFile_restores_iff`: a failed rewrite restores the file iff it fails in the search.
-/

set_option autoImplicit false

namespace Ouichefs

/-! ## Answers -/

/-- The next call fails. -/
def Failing (answers : List Answer) : Prop := ∃ c, answers.head? = some (.failure c)

theorem not_failing_nil : ¬Failing [] := fun ⟨_, h⟩ => by cases h

theorem failing_failure (c : Nat) (l : List Answer) : Failing (.failure c :: l) := ⟨c, rfl⟩

theorem not_failing_success (l : List Answer) : ¬Failing (.success :: l) := fun ⟨_, h⟩ => by cases h

namespace Kernel

variable {k : Kernel} {bno : Nat}

theorem sbBread_failing (h : Failing k.faults) : ∃ k', k.sbBread bno = (false, k') ∧ k'.fs = k.fs := by
  obtain ⟨c, hc⟩ := h
  unfold sbBread
  split
  · exact ⟨k, rfl, rfl⟩
  · split
    · rename_i hl
      rw [hl] at hc
      cases hc
    · rename_i hl
      rw [hl] at hc
      cases hc
    · exact ⟨_, rfl, rfl⟩

theorem sbBread_answered (hb : bno < k.fs.sbi.nrBlocks) (h : ¬Failing k.faults) :
    ∃ k', k.sbBread bno = (true, k') ∧ k'.fs = k.fs ∧ k'.faults = k.faults.tail := by
  unfold sbBread
  rw [if_neg (Nat.not_le.2 hb)]
  split
  · rename_i hl
    exact ⟨_, rfl, rfl, by rw [Kernel.faults_log, hl]; rfl⟩
  · rename_i hl
    exact ⟨_, rfl, rfl, by rw [hl]; rfl⟩
  · rename_i c rest hl
    rw [hl] at h
    exact absurd (failing_failure c rest) h

theorem kmalloc_failing (h : Failing k.faults) : ∃ k', k.kmalloc = (false, k') ∧ k'.fs = k.fs := by
  obtain ⟨c, hc⟩ := h
  unfold kmalloc
  split
  · rename_i hl
    rw [hl] at hc
    cases hc
  · rename_i hl
    rw [hl] at hc
    cases hc
  · exact ⟨_, rfl, rfl⟩

theorem kmalloc_answered (h : ¬Failing k.faults) :
    ∃ k', k.kmalloc = (true, k') ∧ k'.fs = k.fs ∧ k'.faults = k.faults.tail := by
  unfold kmalloc
  split
  · rename_i hl
    exact ⟨_, rfl, rfl, by rw [hl]; rfl⟩
  · rename_i hl
    exact ⟨_, rfl, rfl, by rw [hl]; rfl⟩
  · rename_i c rest hl
    rw [hl] at h
    exact absurd (failing_failure c rest) h

/-- A failing copy is short. -/
theorem copyFromIter_failing {data : List UInt8} (hd : 1 ≤ data.length) (h : Failing k.faults) :
    ∃ copied k', k.copyFromIter data.length data = (copied, k') ∧ k'.fs = k.fs ∧
      copied.length ≠ data.length := by
  obtain ⟨c, hc⟩ := h
  unfold copyFromIter
  split
  · rename_i hl
    rw [hl] at hc
    cases hc
  · rename_i hl
    rw [hl] at hc
    cases hc
  · refine ⟨_, _, rfl, rfl, ?_⟩
    rw [List.length_take]
    omega

theorem copyFromIter_answered (data : List UInt8) (h : ¬Failing k.faults) :
    ∃ k', k.copyFromIter data.length data = (data, k') ∧ k'.fs = k.fs ∧
      k'.faults = k.faults.tail := by
  unfold copyFromIter
  rw [List.take_length]
  split
  · rename_i hl
    exact ⟨_, rfl, rfl, by rw [hl]; rfl⟩
  · rename_i hl
    exact ⟨_, rfl, rfl, by rw [hl]; rfl⟩
  · rename_i c rest hl
    rw [hl] at h
    exact absurd (failing_failure c rest) h

end Kernel

/-! ## The search -/

/-- The search for `n` slices in the chain blocks that are left fails: a block cannot be read, or no
block has room and no new one can be had. -/
def Fs.SearchFails (fs : Fs) (n : Nat) : List Nat → List Answer → Prop
  | [], answers => Failing answers ∨ ∀ b < fs.sbi.nrBlocks, fs.sbi.bfreeBitmap b = false
  | b :: l, answers =>
    Failing answers ∨ NoRun (sliceBitmap (fs.disk b)) n ∧ fs.SearchFails n l answers.tail

/-- The search does not look at the inode. -/
theorem Fs.searchFails_detach (fs : Fs) (ino n : Nat) : ∀ (l : List Nat) (answers : List Answer),
    (fs.detach ino).SearchFails n l answers ↔ fs.SearchFails n l answers
  | [], _ => Iff.rfl
  | _ :: l, answers =>
    or_congr Iff.rfl (and_congr Iff.rfl (Fs.searchFails_detach fs ino n l answers.tail))

/-- Nothing but the free bits and their count differ. -/
def OnlyFreeBits (fs fs' : Fs) : Prop :=
  ∃ m c, fs' = fs.setSbi { fs.sbi with bfreeBitmap := m, nrFreeBlocks := c }

theorem OnlyFreeBits.refl (fs : Fs) : OnlyFreeBits fs fs := ⟨_, _, rfl⟩

theorem OnlyFreeBits.putBlock {fs : Fs} {k : Kernel} (b : Nat) (h : OnlyFreeBits fs k.fs) :
    OnlyFreeBits fs (k.putBlock b).fs := by
  obtain ⟨m, c, hfs⟩ := h
  unfold Kernel.putBlock SbInfo.putBlock
  split
  · exact ⟨m, c, hfs⟩
  · rw [Kernel.fs_setSbi, hfs]
    exact ⟨_, _, rfl⟩

/-- The two ways in which the search for `n` slices returns. -/
inductive SearchResult (k : Kernel) (ino n : Nat) (fails : Prop)
    (run : Outcome (Except Int (Nat × Nat))) : Prop
  | failed (h : fails) (e : Int) (k' : Kernel) (nonpos : e ≤ 0) (eq : run = .ok (.error e, k'))
      (fs : OnlyFreeBits k.fs k'.fs)
  | found (h : ¬fails) (b s : Nat) (k' : Kernel) (eq : run = .ok (.ok (b, s), k'))
      (num : (k'.fs.inode ino).numSlices = n)

section Search

variable {k : Kernel} {ino size : Nat}

/-- A new sliced block, with any answer of the buffer cache. -/
theorem allocateAndInitSliceBlock_answers (h0 : k.fs.sbi.bfreeBitmap 0 = false)
    (hle : k.fs.sbi.nrBlocks ≤ 134217728) :
    (k.fs.SearchFails 0 [] k.faults ∧ ∃ e k', allocateAndInitSliceBlock k = (e, k') ∧ e ≤ 0 ∧
      OnlyFreeBits k.fs k'.fs) ∨
    (¬k.fs.SearchFails 0 [] k.faults ∧ ∃ (b : Nat) (k' : Kernel),
      allocateAndInitSliceBlock k = ((b : Int), k') ∧ 0 < b ∧
        sliceBitmap (k'.fs.disk b) = bitmapAllFree) := by
  unfold Fs.SearchFails
  rcases Kernel.getFreeBlock_bits h0 with ⟨b, hpos, hb, hfree, -, heq⟩ | ⟨hnone, heq⟩
  · have hne : ¬(b = 0 ∨ b > 134217728) := by omega
    have hsome : ¬∀ b < k.fs.sbi.nrBlocks, k.fs.sbi.bfreeBitmap b = false := by
      intro hall
      rw [hall b hb] at hfree
      cases hfree
    by_cases hfail : Failing k.faults
    · left
      obtain ⟨k', hread, hfs⟩ := @Kernel.sbBread_failing (k.setSbi { k.fs.sbi with
        bfreeBitmap := Function.update k.fs.sbi.bfreeBitmap b false,
        nrFreeBlocks := sub32 k.fs.sbi.nrFreeBlocks 1 }) b hfail
      refine ⟨Or.inl hfail, _, _, (allocateAndInitSliceBlock_exits k).2 (.unread heq hne hread rfl),
        by decide, OnlyFreeBits.putBlock b ?_⟩
      rw [hfs]
      exact ⟨_, _, rfl⟩
    · right
      obtain ⟨k', hread, -⟩ := @Kernel.sbBread_answered (k.setSbi { k.fs.sbi with
        bfreeBitmap := Function.update k.fs.sbi.bfreeBitmap b false,
        nrFreeBlocks := sub32 k.fs.sbi.nrFreeBlocks 1 }) b (by simpa using hb) hfail
      exact ⟨fun h => h.elim hfail hsome, b, _,
        (allocateAndInitSliceBlock_exits k).2 (.initialised heq hne hread rfl), hpos, by simp⟩
  · left
    exact ⟨Or.inr hnone, _, _,
      (allocateAndInitSliceBlock_exits k).2 (.noBlock heq (Or.inl rfl) rfl), by decide,
      OnlyFreeBits.putBlock 0 (OnlyFreeBits.refl _)⟩

/-- The search loop with any answers, by induction on the blocks behind `cur`. -/
theorem searchChain_answers (ino : Nat) (h2 : size ≤ 3968) :
    ∀ (post : List Nat) (fuel : Nat) (k : Kernel) (cur : Nat), k.fs.sbi.bfreeBitmap 0 = false →
      k.fs.sbi.nrBlocks ≤ 134217728 → IsSeg k.fs.next cur (cur :: post) 0 →
      (∀ b ∈ post, b < k.fs.sbi.nrBlocks) → (cur :: post).length + 1 ≤ fuel →
      SearchResult k ino (divRoundUp size 128)
        (NoRun (sliceBitmap (k.fs.disk cur)) (divRoundUp size 128) ∧
          k.fs.SearchFails (divRoundUp size 128) post k.faults)
        (searchChain fuel k ino size cur) := by
  intro post
  induction post with
  | nil =>
      intro fuel k cur h0 hle hseg _ hfuel
      obtain ⟨fuel, rfl⟩ : ∃ n, fuel = n + 2 := ⟨fuel - 2, by simp at hfuel; omega⟩
      obtain ⟨-, hne, hnext⟩ := hseg
      have hnext : sliceNext (k.fs.disk cur) = 0 := hnext
      rcases getConsequitiveFreeSlices_cases k cur ino h2 with ⟨s, hs, heq⟩ | ⟨hno, heq⟩
      · refine .found (fun h => h.1 s hs.pos hs.fits hs.run) cur s _ (searchChain_found _ hs.pos heq) ?_
        simp [Fs.takeSlices]
      · rcases allocateAndInitSliceBlock_answers h0 hle with
          ⟨hfail, e, k', hal, hneg, hfs⟩ | ⟨hok, b, k', hal, hpos, hfree⟩
        · exact .failed ⟨hno, hfail⟩ e _ hneg
            ((searchChain_exits _ k ino size cur).2 (.noBlock heq hnext hal hneg rfl)) hfs
        · rw [(searchChain_exits _ k ino size cur).2 (.linked heq hnext hal (by omega) rfl),
            Int.toNat_natCast]
          have hb : sliceBitmap (((k'.setBlock cur (setSliceNext (k'.fs.disk cur) b)).brelse
              cur).fs.disk b) = bitmapAllFree := by
            by_cases hbc : b = cur
            · subst hbc
              simp [hfree]
            · simp [hbc, hfree]
          refine .found (fun h => hok h.2) b 1 _ (searchChain_fresh fuel ino h2 hb) ?_
          simp [Fs.takeSlices]
  | cons next post ih =>
      intro fuel k cur h0 hle hseg hin hfuel
      obtain ⟨fuel, rfl⟩ : ∃ n, fuel = n + 1 := ⟨fuel - 1, by simp at hfuel; omega⟩
      obtain ⟨-, hne, hseg⟩ := hseg
      have hnext : sliceNext (k.fs.disk cur) = next := hseg.1
      have hnz : next ≠ 0 := hseg.2.1
      rcases getConsequitiveFreeSlices_cases k cur ino h2 with ⟨s, hs, heq⟩ | ⟨hno, heq⟩
      · refine .found (fun h => h.1 s hs.pos hs.fits hs.run) cur s _ (searchChain_found _ hs.pos heq) ?_
        simp [Fs.takeSlices]
      · have hnz' : sliceNext (k.fs.disk cur) ≠ 0 := by rwa [hnext]
        by_cases hfail : Failing k.faults
        · obtain ⟨k', hread, hfs⟩ := @Kernel.sbBread_failing k next hfail
          rw [(searchChain_exits _ k ino size cur).2
            (.unread heq hnz' (by rw [hnext]; exact hread) rfl)]
          refine .failed ⟨hno, Or.inl hfail⟩ (- EIO) _ (by decide) rfl ?_
          simp only [Kernel.fs_brelse, hfs]
          exact OnlyFreeBits.refl _
        · obtain ⟨k', hread, hfs, hf⟩ := Kernel.sbBread_answered (hin next (by simp)) hfail
          rw [(searchChain_exits _ k ino size cur).2
            (.next heq hnz' (by rw [hnext]; exact hread) rfl), hnext]
          have hseg' : IsSeg (k'.brelse cur).fs.next next (next :: post) 0 := by
            rw [Kernel.fs_brelse, hfs]
            rw [show k.fs.next cur = next from hnext] at hseg
            exact hseg
          have hrec := ih fuel (k'.brelse cur) next (by rwa [Kernel.fs_brelse, hfs])
            (by rwa [Kernel.fs_brelse, hfs]) hseg'
            (fun b hb => by rw [Kernel.fs_brelse, hfs]; exact hin b (List.mem_cons_of_mem _ hb))
            (by simp at hfuel ⊢; omega)
          simp only [Kernel.fs_brelse, Kernel.faults_brelse, hfs, hf] at hrec
          cases hrec with
          | failed h e k'' hneg heq' hfs' => 
              refine .failed ⟨hno, Or.inr h⟩ e k'' hneg heq' ?_
              rw [Kernel.fs_brelse, hfs] at hfs'
              exact hfs'
          | found h b s k'' heq' hnum =>
              exact .found (fun hc => h (hc.2.resolve_left hfail)) b s k'' heq' hnum

/-- The search of a chain that is not empty, with any answers. -/
theorem placeSlices_answers {chain : List Nat} (ino : Nat) (h : Chained k.fs chain)
    (hle : k.fs.sbi.nrBlocks ≤ 134217728) (hne : chain ≠ []) (h2 : size ≤ 3968) :
    SearchResult k ino (divRoundUp size 128)
      (k.fs.SearchFails (divRoundUp size 128) chain k.faults) (placeSlices k ino size) := by
  have hlen := h.length_le
  cases chain with
  | nil => exact absurd rfl hne
  | cons head post =>
      obtain ⟨hhead, hhne, hseg⟩ := h.isChain
      have hb := (h.inUse head List.mem_cons_self).1
      have hhne' : k.fs.sbi.sFreeSlicedBlocks ≠ 0 := by rwa [hhead]
      by_cases hfail : Failing k.faults
      · obtain ⟨k', hread, hfs⟩ := @Kernel.sbBread_failing k head hfail
        rw [(placeSlices_exits k ino size).2 (.unread hhne' (by rw [hhead]; exact hread) rfl)]
        refine .failed (Or.inl hfail) (- EIO) _ (by decide) rfl ?_
        rw [hfs]
        exact OnlyFreeBits.refl _
      · obtain ⟨k', hread, hfs, hf⟩ := Kernel.sbBread_answered hb hfail
        rw [(placeSlices_exits k ino size).2 (.searched hhne' (by rw [hhead]; exact hread) rfl),
          hhead]
        have hrec := searchChain_answers ino h2 post (searchFuel k'.fs.sbi) k' head
          (by rw [hfs]; exact h.bit0) (by rwa [hfs]) (by rw [hfs]; exact ⟨rfl, hhne, hseg⟩)
          (fun b hb => by rw [hfs]; exact (h.inUse b (List.mem_cons_of_mem _ hb)).1)
          (searchFuel_le (by rw [hfs]; exact hlen))
        simp only [hfs, hf] at hrec
        cases hrec with
        | failed h e k'' hneg heq hfs' =>
            rw [← hfs] at heq
            refine .failed (Or.inr h) e k'' hneg heq ?_
            rw [hfs] at hfs'
            exact hfs'
        | found h b s k'' heq hnum =>
            rw [← hfs] at heq
            exact .found (fun hc => h (hc.resolve_left hfail)) b s k'' heq hnum

end Search

/-! ## The recursive call -/

/-- The three ways in which the call on the detached inode ends, when it returns. -/
inductive CallResult (k : Kernel) (ino n : Nat) (fails : Prop) (run : Outcome (Int × Kiocb)) : Prop
  | failed (h : fails) (e : Int) (io : Kiocb) (k' : Kernel) (nonpos : e ≤ 0)
      (eq : run = .ok ((e, io), k')) (fs : OnlyFreeBits k.fs k'.fs)
  | fault (h : ¬fails) (io : Kiocb) (k' : Kernel) (eq : run = .ok ((-EFAULT, io), k'))
      (num : (k'.fs.inode ino).numSlices = n)
  | stored (h : ¬fails) (c : Int) (io : Kiocb) (k' : Kernel) (pos : 0 < c)
      (eq : run = .ok ((c, io), k'))

section Call

variable {k : Kernel} {chain : List Nat} {ino : Nat} {iocb : Kiocb} {data : List UInt8}

theorem writeSmallFileNew_answers (h : Chained k.fs chain) (hle : k.fs.sbi.nrBlocks ≤ 134217728)
    (hne : chain ≠ []) (hsize : (k.inode ino).iSize = 0) (hpos : iocb.startPos (k.inode ino) = 0)
    (h1 : 1 ≤ data.length) (h2 : data.length ≤ 3968) :
    CallResult k ino (divRoundUp data.length 128)
      (k.fs.SearchFails (divRoundUp data.length 128) chain k.faults)
      (writeSmallFileNew k ino iocb data) := by
  have hmax : max (iocb.startPos (k.inode ino) + data.length) (k.inode ino).iSize =
      data.length := by rw [hpos, hsize, Nat.zero_add, Nat.max_zero]
  cases placeSlices_answers ino h hle hne h2 with
  | failed hfail e k' hneg heq hfs =>
      exact .failed hfail e iocb k' hneg ((writeSmallFileNew_exits k ino iocb data).2
        (.noPlace (by rw [hmax]; exact heq) rfl)) hfs
  | found hok b s k₁ heq hnum =>
      rw [(writeSmallFileNew_exits k ino iocb data).2 (.placed (by rw [hmax]; exact heq) rfl)]
      by_cases hfail : Failing k₁.faults
      · obtain ⟨copied, k₂, hcopy, hfs, hshort⟩ := Kernel.copyFromIter_failing h1 hfail
        refine .fault hok iocb _
          ((copyToSlices_exits _ _ _ _ _ _ _ _).2 (.fault hcopy hshort rfl)) ?_
        simp only [Kernel.fs_brelse, Kernel.fs_setBlock, Fs.inode_setBlock, hfs]
        exact hnum
      · obtain ⟨k₂, hcopy, -⟩ := Kernel.copyFromIter_answered data hfail
        exact .stored hok _ _ _ (by omega)
          ((copyToSlices_exits _ _ _ _ _ _ _ _).2 (.copied hcopy rfl rfl))

end Call

/-! ## The rewrite -/

/-- File `ino` is as before, and every slice marked used belongs to one live file. -/
structure Intact (fs fs' : Fs) (ino : Nat) : Prop where
  indexBlock : (fs'.inode ino).indexBlock = (fs.inode ino).indexBlock
  numSlices : (fs'.inode ino).numSlices = (fs.inode ino).numSlices
  iSize : (fs'.inode ino).iSize = (fs.inode ino).iSize
  content : fs'.smallBytes ino = fs.smallBytes ino
  owned : ∃ chain', IsLinked fs'.next fs'.sbi.sFreeSlicedBlocks chain' ∧ ∀ b ∈ chain', ∀ j, 1 ≤ j →
    j < 32 → (sliceBitmap (fs'.disk b)).getLsbD j = false → ∃ i, fs'.OwnsSlice i b j
  disjoint : ∀ i i' b j, fs'.OwnsSlice i b j → fs'.OwnsSlice i' b j → i = i'

/-- Every slice marked used belongs to a file. -/
def Fs.SlicesOwned (fs : Fs) (chain : List Nat) : Prop :=
  ∀ b ∈ chain, ∀ j, 1 ≤ j → j < 32 → (sliceBitmap (fs.disk b)).getLsbD j = false →
    ∃ i, fs.OwnsSlice i b j

/-- The rewrite at `pos` fails before it stores anything, and not for want of memory or data: the
block of the file cannot be read, or the search fails. -/
def Kernel.FailsInSearch (k : Kernel) (chain : List Nat) (pos n : Nat) : Prop :=
  Failing k.faults ∨
    pos = 0 ∧ k.fs.SearchFails n chain (k.faults.drop 1) ∨
    pos ≠ 0 ∧ ¬Failing (k.faults.drop 1) ∧ ¬Failing (k.faults.drop 2) ∧
      ¬Failing (k.faults.drop 3) ∧ k.fs.SearchFails n chain (k.faults.drop 4)

section Rewrite

variable {k k' : Kernel} {chain : List Nat} {ino : Nat} {iocb iocb' : Kiocb} {data : List UInt8}
  {r : Int}

/-- Only free bits and counters changed. -/
theorem Core.intact {Z : Prop} {fs fs' : Fs} (h : Core fs chain Z) (hbits : fs.SlicesOwned chain)
    (hinode : ∀ i, fs'.inode i = fs.inode i) (hdisk : fs'.disk = fs.disk)
    (hhead : fs'.sbi.sFreeSlicedBlocks = fs.sbi.sFreeSlicedBlocks)
    (hnr : fs'.sbi.nrInodes = fs.sbi.nrInodes) (hifree : fs'.sbi.ifreeBitmap = fs.sbi.ifreeBitmap) :
    Intact fs fs' ino := by
  have howns : ∀ i b j, fs'.OwnsSlice i b j ↔ fs.OwnsSlice i b j := by
    intro i b j
    unfold Fs.OwnsSlice Fs.Is Fs.Live
    rw [hinode, hnr, hifree]
  refine ⟨by rw [hinode], by rw [hinode], by rw [hinode], ?_, ⟨chain, ?_, ?_⟩, ?_⟩
  · unfold Fs.smallBytes
    rw [hinode, hdisk]
  · rw [hhead]
    refine h.isChain.congr fun b _ => ?_
    unfold Fs.next
    rw [hdisk]
  · intro b hb j h1 h32 hbit
    rw [hdisk] at hbit
    obtain ⟨i, hi⟩ := hbits b hb j h1 h32 hbit
    exact ⟨i, (howns i b j).2 hi⟩
  · intro i i' b j hi hi'
    exact h.slices.disjoint ((howns i b j).1 hi) ((howns i' b j).1 hi')

/-- What the relocating branch makes of a failed recursive call. -/
theorem finishRelocation_answers {kd : Kernel} {run : Outcome (Int × Kiocb)} {pos count n : Nat}
    {fails Z : Prop} (h : Core k.fs chain Z) (hbits : k.fs.SlicesOwned chain)
    (hd : kd.fs = k.fs.detach ino) (hn : (k.inode ino).numSlices ≠ n)
    (hcall : CallResult kd ino n fails run)
    (hrun : finishRelocation (k.inode ino) ino pos count run = .ok ((r, iocb'), k')) (hr : r < 0) :
    Intact k.fs k'.fs ino ↔ fails := by
  cases hcall with
  | failed hfail e io k₁ hneg heq hfs =>
      refine iff_of_true ?_ hfail
      rw [heq, (finishRelocation_exits _ _ _ _ _).2 (.kept rfl hneg rfl)] at hrun
      cases hrun
      obtain ⟨m, c, hfs⟩ := hfs
      rw [hd] at hfs
      refine h.intact hbits (fun i => ?_) ?_ ?_ ?_ ?_
      · simp only [Kernel.fs_setInode, Kernel.inode, hfs, Fs.inode_setInode, Fs.inode_setSbi]
        split
        · rename_i hi
          rw [hi, Fs.detach]
          simp [Inode.detached]
        · rename_i hi
          exact Fs.detach_other hi
      all_goals
        rw [Kernel.fs_setInode, hfs]
        rfl
  | fault hok io k₁ heq hnum =>
      refine iff_of_false (fun hint => hn ?_) hok
      rw [heq, (finishRelocation_exits _ _ _ _ _).2 (.kept rfl (by decide) rfl)] at hrun
      cases hrun
      rw [← hnum]
      have := hint.numSlices
      simp only [Kernel.fs_setInode, Fs.inode_setInode, if_true] at this
      exact this.symm
  | stored hok c io k₁ hpos heq =>
      rw [heq] at hrun
      cases (finishRelocation_exits _ _ _ _ _).1 hrun with
      | stopped hcall eq => cases eq
      | kept hcall hret eq =>
          cases hcall
          omega
      | stuck hcall hret hdel eq => cases eq
      | moved hcall hret hdel eq =>
          cases eq
          omega

/-- A file of three bytes, and an environment that gives these answers. -/
def threeBytesAnd (answers : List Answer) : Kernel :=
  { (emptyImage 8 8).after threeBytes with faults := answers }

theorem threeBytesAnd_inv (answers : List Answer) : ∃ chain, WF (threeBytesAnd answers).fs chain ∧
    (threeBytesAnd answers).fs.SlicesOwned chain := by
  obtain ⟨chain, hinv⟩ := threeBytes_inv
  refine ⟨chain, hinv.wf, fun b hb j h1 h32 hbit => ?_⟩
  exact (hinv.tight.bits b hb j h1 h32 hbit).resolve_left id

end Rewrite

end Ouichefs
