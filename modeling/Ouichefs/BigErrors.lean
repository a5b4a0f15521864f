import Ouichefs.BigCopy
import Ouichefs.FirstWrite
import Ouichefs.Touch

/-!
# Big writes that fail

What `write_big_file` leaves behind when it runs out of space or past the last pointer.

* `Stopped`: the copy loop wrote some of the data, up to a block boundary, and stopped there.
* `writeBigFile_unchanged_iff`: when such a call changed nothing.
-/

set_option autoImplicit false

namespace Ouichefs

/-! ## The copy loop -/

section Loop

variable {idx iSize pos : Nat}

/-- The copy loop wrote the first `m` bytes of the data and stopped before the next block. -/
structure Stopped (fs fs' : Fs) (idx iSize pos : Nat) (data : List UInt8) (m : Nat) : Prop where
  copied : Copied fs fs' idx iSize pos (data.take m)
  lt : m < data.length
  inRange : ∀ i, Touches pos m i → i < 1024
  cut : m = 0 ∨ (pos + m) % 4096 = 0
  sbi : (∀ i, Touches pos m i → indexPtr (fs.disk idx) i ≠ 0) → fs'.sbi = fs.sbi
  stop : 1024 ≤ (pos + m) / 4096 ∨ (pos + m) / 4096 < 1024 ∧
    indexPtr (fs'.disk idx) ((pos + m) / 4096) = 0 ∧
    ∀ b < fs'.sbi.nrBlocks, fs'.sbi.bfreeBitmap b = false

/-- A block that is there is not allocated. -/
theorem getDataBlock_keep {k : Kernel} {i : Nat} (h : indexPtr (k.fs.disk idx) i ≠ 0) :
    getDataBlock k idx i = (indexPtr (k.fs.disk idx) i, k) := by
  unfold getDataBlock
  simp only [h, if_false]

/-- No block for a hole: none is free. -/
theorem getDataBlock_none {k k' : Kernel} {i : Nat} (h0 : k.fs.sbi.bfreeBitmap 0 = false)
    (h : getDataBlock k idx i = (0, k')) : k'.fs = k.fs ∧ indexPtr (k.fs.disk idx) i = 0 ∧
      ∀ b < k.fs.sbi.nrBlocks, k.fs.sbi.bfreeBitmap b = false := by
  by_cases hp : indexPtr (k.fs.disk idx) i = 0
  · unfold getDataBlock at h
    simp only [hp, if_true] at h
    rcases Kernel.getFreeBlock_bits h0 with ⟨b, hpos, -, -, -, heq⟩ | ⟨hnone, heq⟩
    · obtain ⟨b, rfl⟩ : ∃ n, b = n + 1 := ⟨b - 1, by omega⟩
      rw [heq] at h
      cases h
    · rw [heq] at h
      cases h
      exact ⟨rfl, hp, hnone⟩
  · rw [getDataBlock_keep hp] at h
    exact absurd (congrArg Prod.fst h) hp

theorem touches_add {m n i : Nat} (h : Touches pos (m + n) i) :
    Touches pos m i ∨ Touches (pos + m) n i := by
  unfold Touches at *
  omega

/-- **A copy loop that stops has written a part of the data that ends with a block.** -/
theorem writeBigLoop_stopped : ∀ (fuel : Nat) (k k' : Kernel) (pos : Nat) (ret : Int)
    (data : List UInt8), FileOk k.fs idx →
    writeBigLoop iSize idx fuel k pos data = .ok (.error ret, k') → ret = -ENOSPC ∨ ret = -EFBIG →
    ∃ m, Stopped k.fs k'.fs idx iSize pos data m := by
  intro fuel
  induction fuel with
  | zero =>
      intro k k' pos ret data _ hrun
      cases data <;> rw [writeBigLoop] at hrun <;> cases hrun
  | succ fuel ih =>
      intro k k' pos ret data h hrun hret
      by_cases hnil : data = []
      · subst hnil
        rw [writeBigLoop] at hrun
        cases hrun
      have hlen : 0 < data.length := List.length_pos_iff.2 hnil
      have hnone : ∀ i, ¬Touches pos 0 i := fun i hi => absurd hi.2.2 (Nat.lt_irrefl 0)
      cases writeBigLoop_cons hnil hrun with
      | tooBig hge heq hsame =>
          subst hsame
          exact ⟨0, .nil h _ _, hlen, fun i hi => absurd hi (hnone i), Or.inl rfl, fun _ => rfl,
            Or.inl hge⟩
      | noSpace hlt hget heq =>
          obtain ⟨hfs, hp, hfull⟩ := getDataBlock_none h.bit0 hget
          refine ⟨0, ?_⟩
          rw [hfs]
          exact ⟨.nil h _ _, hlen, fun i hi => absurd hi (hnone i), Or.inl rfl, fun _ => rfl,
            Or.inr ⟨hlt, hp, hfull⟩⟩
      | faulty e he heq =>
          cases heq
          rcases he with rfl | rfl <;> rcases hret with hret | hret <;> exact absurd hret (by decide)
      | next hlt b k₁ k₂ hget h0 hfs₂ hrest =>
          have hone := writeBigLoop_part h hnil hlt hget h0 hfs₂
          generalize htw : min data.length (4096 - pos % 4096) = tw at hone hrest hfs₂
          obtain ⟨m, hm⟩ := ih k₂ k' (pos + tw) ret (data.drop tw) hone.ok hrest hret
          have hmlt := hm.lt
          rw [List.length_drop] at hmlt
          have htake : (data.take tw).length = tw := by
            rw [List.length_take]
            omega
          have hne : data.take tw ≠ [] := by
            rw [ne_eq, ← List.length_eq_zero_iff, htake]
            omega
          have hcut : (pos + tw) % 4096 = 0 := by omega
          have hfirst : ∀ i, Touches pos tw i → i = pos / 4096 := by
            rintro i ⟨h1, h2, -⟩
            omega
          refine ⟨tw + m, ?_, by omega, fun i hi => ?_, Or.inr ?_, fun hptr => ?_, ?_⟩
          · rw [List.take_add]
            exact hone.append (by rw [htake]; exact hm.copied) hne (Or.inr (by rw [htake]; exact hcut))
          · rcases touches_add hi with hi | hi
            · rw [hfirst i hi]
              exact hlt
            · exact hm.inRange i hi
          · rcases hm.cut with rfl | hc
            · exact hcut
            · rw [← Nat.add_assoc]
              exact hc
          · have hself : Touches pos (tw + m) (pos / 4096) := ⟨by omega, by omega, by omega⟩
            rw [getDataBlock_keep (hptr _ hself)] at hget
            cases hget
            have hsbi : k₂.fs.sbi = k.fs.sbi := by rw [hfs₂, Fs.sbi_setBlock]
            refine (hm.sbi fun i hi => ?_).trans hsbi
            have hi' : Touches pos (tw + m) i := by
              unfold Touches at hi ⊢
              omega
            rcases hone.ptr i with hp | ⟨hp, -⟩
            · rw [hp]
              exact hptr i hi'
            · exact absurd hp (hptr i hi')
          · rw [← Nat.add_assoc]
            exact hm.stop

end Loop

/-! ## What is left of a failed write -/

/-- The free blocks and the file `ino` are as before. -/
structure Unchanged (fs fs' : Fs) (ino : Nat) : Prop where
  bits : fs'.sbi.bfreeBitmap = fs.sbi.bfreeBitmap
  nrFree : fs'.sbi.nrFreeBlocks = fs.sbi.nrFreeBlocks
  ptrs : ∀ i < 1024, indexPtr (fs'.indexOf ino) i = indexPtr (fs.indexOf ino) i
  indexBlock : (fs'.inode ino).indexBlock = (fs.inode ino).indexBlock
  iSize : (fs'.inode ino).iSize = (fs.inode ino).iSize
  iBlocks : (fs'.inode ino).iBlocks = (fs.inode ino).iBlocks
  content : ∀ x < (fs.inode ino).iSize, fs'.bigByte ino x = fs.bigByte ino x

theorem Unchanged.refl (fs : Fs) (ino : Nat) : Unchanged fs fs ino :=
  ⟨rfl, rfl, fun _ _ => rfl, rfl, rfl, rfl, fun _ _ => rfl⟩

/-- From `pos` on, block `j` of the file is the first one that cannot be had, and the data for the
blocks before it is what the file holds there already. -/
def Fs.StopsUnchanged (fs : Fs) (ino pos : Nat) (data : List UInt8) : Prop :=
  ∃ j, (∀ i, pos / 4096 ≤ i → i < j → indexPtr (fs.indexOf ino) i ≠ 0) ∧
    (j = 1024 ∨ pos / 4096 ≤ j ∧ j < 1024 ∧ indexPtr (fs.indexOf ino) j = 0 ∧
      ∀ b < fs.sbi.nrBlocks, fs.sbi.bfreeBitmap b = false) ∧
    ∀ x, pos ≤ x → x < 4096 * j → x < (fs.inode ino).iSize →
      data.getD (x - pos) 0 = fs.bigByte ino x

section Left

variable {fs fs' : Fs} {ino pos m : Nat} {data : List UInt8}

/-- The bytes of the data that were written. -/
theorem Stopped.written {idx iSize : Nat} (h : Stopped fs fs' idx iSize pos data m) {x : Nat}
    (h1 : pos ≤ x) (h2 : x < pos + m) : fs'.fileByte idx x = data.getD (x - pos) 0 := by
  have hlen : (data.take m).length = m := by
    rw [List.length_take]
    have := h.lt
    omega
  rw [h.copied.fileByte_touched (touches_of_mem ⟨h1, by rw [hlen]; exact h2⟩)]
  unfold mergedByte
  rw [if_pos ⟨h1, by rw [hlen]; exact h2⟩, List.getD_eq_getElem?_getD,
    List.getElem?_take_of_lt (by omega), List.getD_eq_getElem?_getD]

/-- A loop that stopped changed nothing iff it allocated nothing and wrote what was there. -/
theorem Stopped.unchanged_iff
    (h : Stopped fs fs' (fs.inode ino).indexBlock (fs.inode ino).iSize pos data m) :
    Unchanged fs fs' ino ↔ fs.StopsUnchanged ino pos data := by
  have hlen : (data.take m).length = m := by
    rw [List.length_take]
    have := h.lt
    omega
  have hinode := h.copied.inode
  have hindex : fs'.indexOf ino = fs'.disk (fs.inode ino).indexBlock := by
    unfold Fs.indexOf
    rw [hinode]
  have hbyte : ∀ x, fs'.bigByte ino x = fs'.fileByte (fs.inode ino).indexBlock x := by
    intro x
    unfold Fs.bigByte Fs.fileByte
    rw [hindex]
  have hold : ∀ x, fs.bigByte ino x = fs.fileByte (fs.inode ino).indexBlock x := fun _ => rfl
  have hfilled := h.copied.filled
  have hptr := h.copied.ptr
  rw [hlen] at hfilled hptr
  constructor
  · intro hu
    have hthere : ∀ i, Touches pos m i → indexPtr (fs.indexOf ino) i ≠ 0 := by
      intro i hi
      rw [← hu.ptrs i (h.inRange i hi), hindex]
      exact hfilled i hi
    have hdata : ∀ x, pos ≤ x → x < pos + m → x < (fs.inode ino).iSize →
        data.getD (x - pos) 0 = fs.bigByte ino x := by
      intro x h1 h2 h3
      rw [← hu.content x h3, hbyte, h.written h1 h2]
    have hcut := h.cut
    rcases h.stop with hge | ⟨hlt, hp, hfull⟩
    · refine ⟨1024, fun i h1 h2 => hthere i ⟨by omega, by omega, by omega⟩, Or.inl rfl,
        fun x h1 h2 h3 => hdata x h1 (by omega) h3⟩
    · refine ⟨(pos + m) / 4096, fun i h1 h2 => hthere i ⟨by omega, by omega, by omega⟩,
        Or.inr ⟨by omega, hlt, ?_, ?_⟩, fun x h1 h2 h3 => hdata x h1 (by omega) h3⟩
      · rw [← hu.ptrs _ hlt, hindex]
        exact hp
      · rw [← hu.bits, ← h.copied.geom.nrBlocks]
        exact hfull
  · rintro ⟨j, hbefore, hj, hsame⟩
    -- no block from `j` on was touched
    have hlt : ∀ i, Touches pos m i → i < j := by
      intro i hi
      rcases hj with rfl | ⟨hpj, -, hp, hfull⟩
      · exact h.inRange i hi
      · by_contra hge
        have htj : Touches pos m j := by
          obtain ⟨h1, h2, h3⟩ := hi
          exact ⟨by omega, by omega, h3⟩
        rcases hptr j with he | ⟨-, -, hlt, hbit⟩
        · exact hfilled j htj (he.trans hp)
        · rw [hfull _ hlt] at hbit
          cases hbit
    have hthere : ∀ i, Touches pos m i → indexPtr (fs.disk (fs.inode ino).indexBlock) i ≠ 0 := by
      intro i hi
      obtain ⟨h1, -, -⟩ := id hi
      exact hbefore i (by omega) (hlt i hi)
    have hptr' : ∀ i, indexPtr (fs'.disk (fs.inode ino).indexBlock) i =
        indexPtr (fs.disk (fs.inode ino).indexBlock) i := by
      intro i
      rcases hptr i with he | ⟨hp, ht, -⟩
      · exact he
      · exact absurd hp (hthere i ht)
    have hsbi := h.sbi hthere
    refine ⟨by rw [hsbi], by rw [hsbi], fun i _ => ?_, by rw [hinode], by rw [hinode],
      by rw [hinode], fun x hx => ?_⟩
    · rw [hindex]
      exact hptr' i
    · rw [hbyte]
      by_cases ht : Touches pos m (x / 4096)
      · by_cases hin : pos ≤ x ∧ x < pos + m
        · have hxj := hlt _ ht
          rw [h.written hin.1 hin.2, hsame x hin.1 (by omega) hx]
        · rw [h.copied.fileByte_touched (by rw [hlen]; exact ht)]
          unfold mergedByte
          rw [hlen, if_neg hin, if_neg (by omega), hptr', hold, Fs.fileByte, if_neg (hthere _ ht)]
      · rw [h.copied.fileByte_other (by rw [hlen]; exact ht), hold]

end Left

/-! ## The call -/

section Call

variable {k k' : Kernel} {chain : List Nat} {ino : Nat} {iocb iocb' : Kiocb} {data : List UInt8}
  {r : Int} {Z : Prop}

/-- When a write that runs out of space, or past the last pointer, changes nothing: without an index
block, no block is free for it; with one, the up-front check refuses, or the loop stops unchanged. -/
def Kernel.FailsUnchanged (k : Kernel) (ino : Nat) (iocb : Kiocb) (data : List UInt8) : Prop :=
  (k.inode ino).indexBlock = 0 ∧ (∀ b < k.fs.sbi.nrBlocks, k.fs.sbi.bfreeBitmap b = false) ∨
    (k.inode ino).indexBlock ≠ 0 ∧
      (enoughBlocks k ino
          (max (iocb.startPos (k.inode ino) + data.length) (k.inode ino).iSize) = false ∨
        k.fs.StopsUnchanged ino (iocb.startPos (k.inode ino)) data)

/-- A call on a file with an index block. -/
theorem writeBigFile_failed (h0 : (k.inode ino).indexBlock ≠ 0)
    (hok : FileOk k.fs (k.inode ino).indexBlock)
    (hrun : writeBigFile k ino iocb data = .ok ((r, iocb'), k')) (hr : r = -ENOSPC ∨ r = -EFBIG) :
    enoughBlocks k ino (max (iocb.startPos (k.inode ino) + data.length) (k.inode ino).iSize) =
        false ∧ k'.fs = k.fs ∨
      enoughBlocks k ino (max (iocb.startPos (k.inode ino) + data.length) (k.inode ino).iSize) ≠
        false ∧ ∃ m, Stopped k.fs k'.fs (k.inode ino).indexBlock (k.inode ino).iSize
          (iocb.startPos (k.inode ino)) data m := by
  cases (writeBigFile_exits k ino iocb data).1 hrun with
  | noIndex hens eq =>
      rw [ensureIndexBlock_keeps h0] at hens
      cases hens
  | noSpace hens henough eq =>
      rw [ensureIndexBlock_keeps h0] at hens
      cases hens
      cases eq
      exact Or.inl ⟨henough, rfl⟩
  | unread hens henough hread eq =>
      cases eq
      rcases hr with hr | hr <;> exact absurd hr (by decide)
  | stopped hens henough hread hloop eq => cases eq
  | failed hens henough hread hloop eq =>
      rw [ensureIndexBlock_keeps h0] at hens
      cases hens
      cases eq
      have hfs₂ := Kernel.sbBread_true hread
      obtain ⟨m, hm⟩ := writeBigLoop_stopped _ _ _ _ _ _ (by rw [hfs₂]; exact hok) hloop hr
      rw [hfs₂] at hm
      exact Or.inr ⟨by rw [henough]; decide, m, hm⟩
  | written hens henough hread hloop eq =>
      cases eq
      rcases hr with hr | hr
      · exact absurd hr (by simp only [ENOSPC]; omega)
      · exact absurd hr (by simp only [EFBIG]; omega)

/-- A first write that got an index block keeps it. -/
theorem writeBigFile_keepsIndex {k₁ : Kernel} (hens : ensureIndexBlock k ino = (true, k₁))
    (hrun : writeBigFile k ino iocb data = .ok ((r, iocb'), k')) (hr : r = -ENOSPC ∨ r = -EFBIG) :
    k'.inode ino = k₁.inode ino := by
  cases (writeBigFile_exits k ino iocb data).1 hrun with
  | noIndex hens' eq =>
      rw [hens] at hens'
      cases hens'
  | noSpace hens' henough eq =>
      rw [hens] at hens'
      cases hens'
      cases eq
      rfl
  | unread hens' henough hread eq =>
      cases eq
      rcases hr with hr | hr <;> exact absurd hr (by decide)
  | stopped hens' henough hread hloop eq => cases eq
  | @failed k₁ k₂ k₃ ret hens' henough hread hloop eq =>
      rw [hens] at hens'
      cases hens'
      cases eq
      have hfs₂ := Kernel.sbBread_true hread
      -- the loop leaves every inode but `ino + 1` alone, and `ino + 1` as well
      have hquiet := writeBigLoop_quiet (ino + 1) (k.inode ino).iSize (k₁.inode ino).indexBlock
        data.length k₂ (iocb.startPos (k.inode ino)) data
      rw [hloop] at hquiet
      have hcache := hquiet.others ino (by omega)
      unfold Kernel.inode Fs.inode
      rw [← hfs₂]
      exact congrArg (·.getD Inode.blank) hcache
  | written hens' henough hread hloop eq =>
      cases eq
      rcases hr with hr | hr
      · exact absurd hr (by simp only [ENOSPC]; omega)
      · exact absurd hr (by simp only [EFBIG]; omega)

/-- **A big write that runs out of space or past the last pointer changes nothing** iff it fails
before it allocates a block or changes a byte. -/
theorem writeBigFile_unchanged_iff (h : WF k.fs chain Z)
    (hk : k.fs.Is ino .fresh ∨ k.fs.Is ino .big)
    (hrun : writeBigFile k ino iocb data = .ok ((r, iocb'), k')) (hr : r = -ENOSPC ∨ r = -EFBIG) :
    Unchanged k.fs k'.fs ino ↔ k.FailsUnchanged ino iocb data := by
  unfold Kernel.FailsUnchanged
  rcases hk with hk | hk
  · have h0 : (k.inode ino).indexBlock = 0 := (Inode.kind_fresh.1 hk.2).2.2
    simp only [h0, ne_eq, not_true_eq_false, false_and, or_false, true_and]
    rcases Kernel.getFreeBlock_bits h.bit0 with ⟨b, hpos, hb, hfree, -, heq⟩ | ⟨hnone, heq⟩
    · obtain ⟨b, rfl⟩ : ∃ n, b = n + 1 := ⟨b - 1, by omega⟩
      refine iff_of_false (fun hu => ?_) fun hall => ?_
      · obtain ⟨k₁, hens, hidx⟩ : ∃ k₁, ensureIndexBlock k ino = (true, k₁) ∧
            (k₁.inode ino).indexBlock = b + 1 :=
          ⟨_, (ensureIndexBlock_exits k ino).2 (.new h0 heq rfl), by simp [Kernel.inode]⟩
        have hkeep := writeBigFile_keepsIndex hens hrun hr
        have hsame := hu.indexBlock
        rw [show k'.fs.inode ino = k₁.inode ino from hkeep, hidx] at hsame
        rw [show (k.fs.inode ino).indexBlock = 0 from h0] at hsame
        cases hsame
      · rw [hall _ hb] at hfree
        cases hfree
    · refine iff_of_true ?_ hnone
      have hens := (ensureIndexBlock_exits k ino).2 (.noBlock h0 heq rfl)
      rw [(writeBigFile_exits k ino iocb data).2 (.noIndex hens rfl)] at hrun
      cases hrun
      exact .refl _ _
  · obtain ⟨hok, h0⟩ := fileOk_of_owned h.owned h.sb.blocks_lt hk
    have h0' : (k.inode ino).indexBlock ≠ 0 := h0
    simp only [h0', ne_eq, not_false_eq_true, false_and, false_or, true_and]
    rcases writeBigFile_failed h0 hok hrun hr with ⟨henough, hfs⟩ | ⟨henough, m, hm⟩
    · refine iff_of_true ?_ (Or.inl henough)
      rw [hfs]
      exact .refl _ _
    · rw [or_iff_right henough]
      exact hm.unchanged_iff

/-- A first write across the 4 MiB limit leaves the index block it got. -/
theorem writeBigFile_keepsIndexBlock : ∃ (chain : List Nat) (io : Kiocb) (k' : Kernel),
    WF newFile.fs chain ∧ newFile.fs.Is 2 .fresh ∧
      writeBigFile newFile 2 ⟨4194303, false⟩ [1, 2] = .ok ((-EFBIG, io), k') ∧
      ¬Unchanged newFile.fs k'.fs 2 := by
  have hrun : ∃ chain, PlainInv newFile chain :=
    emptyImage_after (by decide +kernel)
  obtain ⟨chain, hinv⟩ := hrun
  have hval : (writeBigFile newFile 2 ⟨4194303, false⟩ [1, 2]).value? =
      some (-EFBIG, ⟨4194303, false⟩) := by decide +kernel
  refine ⟨chain, _, _, hinv.wf, by decide +kernel, Outcome.eq_ok hval, fun hu => ?_⟩
  have hidx : ((writeBigFile newFile 2 ⟨4194303, false⟩ [1, 2]).kernel.fs.inode 2).indexBlock ≠
      (newFile.fs.inode 2).indexBlock := by decide +kernel
  exact hidx hu.indexBlock

/-- On a full disk a first write changes nothing. -/
theorem writeBigFile_unchanged_iff_fullDisk : ∃ (io : Kiocb) (k' : Kernel),
    writeBigFile fullDisk 2 ⟨0, false⟩ [1] = .ok ((-ENOSPC, io), k') ∧
      Unchanged fullDisk.fs k'.fs 2 := by
  have hrun : ∃ chain, PlainInv fullDisk chain :=
    emptyImage_after (by decide +kernel)
  obtain ⟨chain, hinv⟩ := hrun
  have hval : (writeBigFile fullDisk 2 ⟨0, false⟩ [1]).value? = some (-ENOSPC, ⟨0, false⟩) := by
    decide +kernel
  refine ⟨_, _, Outcome.eq_ok hval, ?_⟩
  exact (writeBigFile_unchanged_iff hinv.wf (Or.inl (by decide +kernel)) (Outcome.eq_ok hval)
    (Or.inl rfl)).2 (Or.inl ⟨by decide +kernel, by decide +kernel⟩)

end Call

end Ouichefs
