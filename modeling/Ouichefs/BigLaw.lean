import Ouichefs.BigCopy
import Ouichefs.Read

/-!
# The law of `write_big_file`

* `customWriteIter_gap`: with arbitrary content in the free blocks, exactly when the gap between the
  old end of the file and the position reads as zeros.
* `writeBigFile_law`: with zero-filled free blocks and zeros behind every big file, the content is
  the old content overwritten at the position, and nobody else's blocks change.
-/

set_option autoImplicit false

namespace Ouichefs

open FreeMap

/-! ## The gap with arbitrary free blocks -/

section Gap

variable {k k' : Kernel} {chain : List Nat} {ino : Nat} {iocb iocb' : Kiocb} {data : List UInt8}
  {n : Int}

/-- What a write of `count` bytes at `pos` finds at byte `x` of the gap: the byte of the file, or,
in the block it is about to allocate, the byte of the least free block. -/
def Fs.foundByte (fs : Fs) (ino pos count x : Nat) : UInt8 :=
  if indexPtr (fs.indexOf ino) (x / 4096) = 0 ∧ x / 4096 = pos / 4096 ∧ 0 < count then
    (fs.disk (firstBit fs.sbi.bfreeBitmap fs.sbi.nrBlocks)).get (x % 4096)
  else fs.bigByte ino x

/-- The write zeroes the gap itself, or finds it zero. -/
def Fs.GapClean (fs : Fs) (ino pos count : Nat) : Prop :=
  (fs.inode ino).iSize / 4096 = pos / 4096 ∧ 0 < count ∨
    ∀ x, (fs.inode ino).iSize ≤ x → x < pos → fs.foundByte ino pos count x = 0

/-- **The gap reads as zeros** exactly when the end of the file and the position lie in one block,
or everything the write finds in the gap is zero. -/
theorem customWriteIter_gap (h : WF k.fs chain False) (hk : k.fs.Is ino .big)
    (happ : iocb.append = false)
    (hrun : customWriteIter k ino iocb data = .ok ((n, iocb'), k')) (hn : 0 ≤ n) :
    (∀ x, (k.fs.inode ino).iSize ≤ x → x < iocb.kiPos → k'.fs.bigByte ino x = 0) ↔
      k.fs.GapClean ino iocb.kiPos data.length := by
  rw [customWriteIter_big h.toCore hk] at hrun
  obtain ⟨-, -, fs₂, hcop, hfs⟩ := writeBigFile_big h.owned h.sb.blocks_lt hk hrun hn
  have hpos : iocb.startPos (k.inode ino) = iocb.kiPos := by
    unfold Kiocb.startPos
    rw [happ]
    rfl
  rw [hpos] at hcop hfs
  generalize hidx : (k.inode ino).indexBlock = idx at hcop
  have hbyte : ∀ x, k'.fs.bigByte ino x = fs₂.fileByte idx x := by
    rw [hfs]
    refine Fs.bigByte_setInode ?_
    rw [← hidx]
    show (fs₂.inode ino).indexBlock = _
    rw [hcop.inode]
    rfl
  have hold : ∀ x, k.fs.bigByte ino x = k.fs.fileByte idx x := by
    intro x
    rw [← hidx]
    rfl
  -- byte `x` of the gap after the write
  have hafter : ∀ x, (k.fs.inode ino).iSize ≤ x → x < iocb.kiPos → k'.fs.bigByte ino x =
      if (k.fs.inode ino).iSize / 4096 = iocb.kiPos / 4096 ∧ 0 < data.length then 0
      else k.fs.foundByte ino iocb.kiPos data.length x := by
    intro x h1 h2
    rw [hbyte]
    unfold Fs.foundByte
    rw [hold, show k.fs.indexOf ino = k.fs.disk idx by rw [← hidx]; rfl]
    by_cases ht : Touches iocb.kiPos data.length (x / 4096)
    · have hin : x / 4096 = iocb.kiPos / 4096 ∧ 0 < data.length := by
        obtain ⟨h3, h4, h5⟩ := ht
        omega
      rw [hcop.fileByte_touched ht]
      unfold mergedByte
      rw [if_neg (by omega)]
      by_cases hsame : (k.fs.inode ino).iSize / 4096 = iocb.kiPos / 4096
      · rw [if_pos ⟨h1, h2, hsame⟩, if_pos ⟨hsame, hin.2⟩]
      · rw [if_neg fun hc => hsame hc.2.2, if_neg fun hc => hsame hc.1]
        rcases hcop.ptr (x / 4096) with hp | ⟨hp, -⟩
        · have h0 := hcop.filled _ ht
          rw [hp] at h0 ⊢
          rw [if_neg fun hc => h0 hc.1, Fs.fileByte, if_neg h0]
        · rw [if_pos ⟨hp, hin⟩, hin.1]
          rw [hin.1] at hp
          rw [hcop.first (List.length_pos_iff.1 hin.2) hp]
    · have hout : ¬(x / 4096 = iocb.kiPos / 4096 ∧ 0 < data.length) := by
        rintro ⟨h3, h4⟩
        exact ht ⟨by omega, by omega, h4⟩
      rw [hcop.fileByte_other ht, if_neg fun hc => hout ⟨by omega, hc.2⟩,
        if_neg fun hc => hout hc.2]
  unfold Fs.GapClean
  by_cases hone : (k.fs.inode ino).iSize / 4096 = iocb.kiPos / 4096 ∧ 0 < data.length
  · refine iff_of_true (fun x h1 h2 => ?_) (Or.inl hone)
    rw [hafter x h1 h2, if_pos hone]
  · rw [or_iff_right hone]
    refine forall_congr' fun x => forall_congr' fun h1 => forall_congr' fun h2 => ?_
    rw [hafter x h1 h2, if_neg hone]

/-- Free blocks may hold anything. -/
theorem WF.soil {fs : Fs} (h : WF fs chain) {b : Nat} (hb : fs.sbi.bfreeBitmap b = true)
    (nb : Block) : WF (fs.setBlock b nb) chain False := by
  have hno : ∀ r, ¬Refers fs chain r b := h.toCore.free_unref hb
  have hcore : Core fs chain False :=
    { h.toCore with
      sb := ⟨h.sb.meta_lt, h.sb.blocks_lt, False.elim, h.sb.count⟩
      zero := False.elim }
  refine { hcore.setBlock False.elim (fun hm => hno (.sliced b) ⟨rfl, hm⟩)
      (fun d hd he => hno (.index d) ⟨Or.inr hd, he.symm⟩) nb with
    dirs := h.dirs.frame (fun _ => Iff.rfl) (fun _ => Iff.rfl) fun d hd => ?_
    table := h.table
    fresh := h.fresh
    stray := h.stray }
  show (fs.setBlock b nb).disk (fs.inode d).indexBlock = _
  rw [Fs.disk_setBlock, if_neg]
  · rfl
  · intro he
    exact hno (.index d) ⟨Or.inl hd, he.symm⟩

/-- A big file of 4099 bytes, and a free block that still holds `old`. -/
def soiled (old : UInt8) : Kernel :=
  let k := (emptyImage 8 8).after holeFile
  k.setBlock 7 (Page.zero.blit 0 [old])

theorem soiled_wf (old : UInt8) : ∃ chain, WF (soiled old).fs chain False := by
  have hrun : ∃ chain, PlainInv ((emptyImage 8 8).after holeFile) chain :=
    emptyImage_after (by decide +kernel)
  obtain ⟨chain, hinv⟩ := hrun
  exact ⟨chain, hinv.wf.soil (by decide +kernel) _⟩

/-- The byte in front of the position is what the block held before. -/
theorem customWriteIter_leaks : ∃ k chain iocb' k', WF k.fs chain False ∧ k.fs.Is 2 .big ∧
    (k.fs.inode 2).iSize = 4099 ∧
    customWriteIter k 2 ⟨8193, false⟩ [5] = .ok ((1, iocb'), k') ∧ k'.fs.bigByte 2 8192 = 42 := by
  obtain ⟨chain, hwf⟩ := soiled_wf 42
  have hval : (customWriteIter (soiled 42) 2 ⟨8193, false⟩ [5]).value? =
      some (1, ⟨8194, false⟩) := by decide +kernel
  exact ⟨soiled 42, chain, _, _, hwf, by decide +kernel, by decide +kernel, Outcome.eq_ok hval,
    by decide +kernel⟩

theorem customWriteIter_gap_soiled : ∃ k', customWriteIter (soiled 42) 2 ⟨4200, false⟩ [5] =
    .ok ((1, ⟨4201, false⟩), k') ∧ ∀ x, 4099 ≤ x → x < 4200 → k'.fs.bigByte 2 x = 0 := by
  obtain ⟨chain, hwf⟩ := soiled_wf 42
  have hval : (customWriteIter (soiled 42) 2 ⟨4200, false⟩ [5]).value? =
      some (1, ⟨4201, false⟩) := by decide +kernel
  have hsize : ((soiled 42).fs.inode 2).iSize = 4099 := by decide +kernel
  have hlaw := customWriteIter_gap hwf (by decide +kernel) rfl (Outcome.eq_ok hval) (by decide)
  rw [hsize] at hlaw
  refine ⟨_, Outcome.eq_ok hval, hlaw.2 (Or.inl ⟨?_, by decide⟩)⟩
  rw [hsize]
  decide

end Gap

/-! ## The law with zero-filled free blocks -/

/-- There are no blocks behind the end of the big file `ino`, and its last block ends in zeros. -/
structure TailZero (fs : Fs) (ino : Nat) : Prop where
  ptrs : ∀ i, divRoundUp (fs.inode ino).iSize 4096 ≤ i → i < 1024 →
    indexPtr (fs.indexOf ino) i = 0
  bytes : ∀ x, (fs.inode ino).iSize ≤ x → x < 4096 * divRoundUp (fs.inode ino).iSize 4096 →
    fs.bigByte ino x = 0

/-- Ownership of blocks is disjoint, free blocks are zero-filled, and big files end in zeros. -/
structure BlocksOk (fs : Fs) (chain : List Nat) : Prop where
  blocks_lt : fs.sbi.nrBlocks < 4294967296
  owned : Owned fs.Used (Refers fs chain)
  small : ∀ ino, fs.Is ino .small → (fs.inode ino).getBno ∈ chain
  zero : ∀ b < fs.sbi.nrBlocks, fs.sbi.bfreeBitmap b = true → fs.disk b = Page.zero
  tails : ∀ ino, fs.Is ino .big → TailZero fs ino

/-- What a successful `write_big_file` of `data` at `pos` leaves. -/
structure BigLaw (fs fs' : Fs) (chain : List Nat) (ino pos : Nat) (data : List UInt8) : Prop where
  big : fs'.Is ino .big
  size : (fs'.inode ino).iSize = max (fs.inode ino).iSize (pos + data.length)
  blocks : (fs'.inode ino).iBlocks = divRoundUp (fs'.inode ino).iSize 4096 + 1
  content : ∀ x, fs'.bigByte ino x = if pos ≤ x ∧ x < pos + data.length then data.getD (x - pos) 0
    else if x < (fs.inode ino).iSize then fs.oldByte ino x else 0
  state : BlocksOk fs' chain
  kept : ∀ r c, Refers fs chain r c → Refers fs' chain r c
  fresh : ∀ r c, Refers fs' chain r c → Refers fs chain r c ∨
    r.By ino ∧ c < fs.sbi.nrBlocks ∧ fs.sbi.bfreeBitmap c = true
  taken : ∀ c, fs.sbi.bfreeBitmap c = true → fs'.sbi.bfreeBitmap c = false →
    ∃ r, r.By ino ∧ Refers fs' chain r c
  disk : ∀ r c, ¬r.By ino → Refers fs chain r c → fs'.disk c = fs.disk c
  inode : ∀ i, i ≠ ino → fs'.inode i = fs.inode i
  bigBytes : ∀ i, i ≠ ino → fs.Is i .big → ∀ x, fs'.bigByte i x = fs.bigByte i x
  smallBytes : ∀ i, i ≠ ino → fs.Is i .small → fs'.smallBytes i = fs.smallBytes i

section Law

variable {fs fs₁ fs₂ : Fs} {chain : List Nat} {ino idx pos : Nat} {data : List UInt8}

/-- `fs₁` is `fs` with the index block `idx` in the inode: the one the file has, or a free block. -/
structure Based (fs fs₁ : Fs) (ino idx : Nat) : Prop where
  file : FileOk fs₁ idx
  other : ∀ i, i ≠ ino → fs₁.inode i = fs.inode i
  self : fs₁.inode ino = { fs.inode ino with indexBlock := idx }
  geom : SameGeom fs.sbi fs₁.sbi
  ifree : fs₁.sbi.ifreeBitmap = fs.sbi.ifreeBitmap
  disk : fs₁.disk = fs.disk
  free : ∀ c, fs₁.sbi.bfreeBitmap c = true → fs.sbi.bfreeBitmap c = true
  taken : ∀ c, fs.sbi.bfreeBitmap c = true → fs₁.sbi.bfreeBitmap c = false → c = idx
  owner : fs.Is ino .big ∧ idx = (fs.inode ino).indexBlock ∨
    fs.Is ino .fresh ∧ (fs.inode ino).iSize = 0 ∧ idx < fs.sbi.nrBlocks ∧
      fs.sbi.bfreeBitmap idx = true

/-- What `ensureIndexBlock` does for a file that is big or was never written. -/
theorem ensureIndexBlock_based {k k₁ : Kernel} (h : BlocksOk k.fs chain)
    (hk : k.fs.Is ino .fresh ∧ (k.fs.inode ino).iSize = 0 ∨ k.fs.Is ino .big)
    (hens : ensureIndexBlock k ino = (true, k₁)) :
    Based k.fs k₁.fs ino (k₁.inode ino).indexBlock := by
  rcases hk with ⟨hk, hsize⟩ | hk
  · have h0 : (k.inode ino).indexBlock = 0 := (Inode.kind_fresh.1 hk.2).2.2
    cases (ensureIndexBlock_exits k ino).1 hens with
    | kept h0' eq => exact absurd h0 h0'
    | noBlock h0 hfree eq => cases eq
    | @new b k₀ h0 hfree hens =>
        obtain ⟨-, hlt, hbit, hfs⟩ := Kernel.getFreeBlock_pos hfree (Nat.succ_ne_zero b)
        cases hens
        have hi : k₀.inode ino = k.inode ino := by
          unfold Kernel.inode
          rw [hfs]
          rfl
        have hself : ((k₀.setInode ino { k₀.inode ino with indexBlock := b + 1 }).inode ino) =
            { k.inode ino with indexBlock := b + 1 } := by
          rw [hi]
          simp [Kernel.inode]
        have hmap : k₀.fs.sbi.bfreeBitmap = Function.update k.fs.sbi.bfreeBitmap (b + 1) false := by
          rw [hfs]
          rfl
        have hzero : ∀ i, indexPtr (k₀.fs.disk (b + 1)) i = 0 := by
          intro i
          rw [hfs]
          show indexPtr (k.fs.disk (b + 1)) i = 0
          rw [h.zero _ hlt hbit]
          exact Page.word_zero _
        have hbit0 : k.fs.sbi.bfreeBitmap 0 = false :=
          (h.owned.used (r := .header 0) ⟨rfl, by unfold SbInfo.metaBlocks; omega⟩).2
        rw [show ((k₀.setInode ino { k₀.inode ino with indexBlock := b + 1 }).inode
          ino).indexBlock = b + 1 by rw [hself]]
        refine ⟨⟨?_, ?_, ?_, fun i hi => absurd (hzero i) hi, fun i _ _ hi => absurd (hzero i) hi⟩,
          fun i hii => ?_, hself, ?_, ?_, ?_, fun c hc => ?_, fun c hc hu => ?_,
          Or.inr ⟨hk, hsize, hlt, hbit⟩⟩
        · show k₀.fs.sbi.bfreeBitmap 0 = false
          rw [hmap, Function.update_of_ne (by omega)]
          exact hbit0
        · show k₀.fs.sbi.nrBlocks < _
          rw [hfs]
          exact h.blocks_lt
        · show k₀.fs.sbi.bfreeBitmap (b + 1) = false
          rw [hmap, Function.update_self]
        · rw [Kernel.fs_setInode, Fs.inode_setInode, if_neg hii, hfs]
          rfl
        · show SameGeom _ k₀.fs.sbi
          rw [hfs]
          exact ⟨rfl, rfl, rfl, rfl, rfl⟩
        · show k₀.fs.sbi.ifreeBitmap = _
          rw [hfs]
          rfl
        · show k₀.fs.disk = _
          rw [hfs]
          rfl
        · have hc' : k₀.fs.sbi.bfreeBitmap c = true := hc
          rw [hmap, Function.update_apply] at hc'
          split at hc'
          · cases hc'
          · exact hc'
        · have hu' : k₀.fs.sbi.bfreeBitmap c = false := hu
          rw [hmap, Function.update_apply] at hu'
          split at hu'
          · assumption
          · rw [hc] at hu'
            cases hu'
  · obtain ⟨hfile, h0⟩ := fileOk_of_owned h.owned h.blocks_lt hk
    rw [ensureIndexBlock_keeps h0] at hens
    cases hens
    refine ⟨hfile, fun _ _ => rfl, rfl, .refl _, rfl, rfl, fun _ => id, fun c hc hu => ?_,
      Or.inl ⟨hk, rfl⟩⟩
    rw [hc] at hu
    cases hu

/-- The pointers of the file before the write are references. -/
theorem Based.ref (hb : Based fs fs₁ ino idx) (h : BlocksOk fs chain) {i : Nat}
    (hi : indexPtr (fs.disk idx) i ≠ 0) :
    Refers fs chain (.data ino i) (indexPtr (fs.disk idx) i) := by
  rcases hb.owner with ⟨hk, he⟩ | ⟨-, -, hlt, hbit⟩
  · refine ⟨hk, ?_, by rw [he]; rfl, hi⟩
    by_contra hge
    refine hi ((Page.word_eq_zero_iff _ _).2 fun y _ => ?_)
    exact Page.get_of_ge _ (by omega)
  · rw [h.zero _ hlt hbit] at hi
    exact absurd (Page.word_zero _) hi

/-- From its end on the file reads as zeros. -/
theorem Based.tail (hb : Based fs fs₁ ino idx) (h : BlocksOk fs chain) {x : Nat}
    (hx : (fs.inode ino).iSize ≤ x) : fs₁.fileByte idx x = 0 := by
  unfold Fs.fileByte
  rw [hb.disk]
  split
  · rfl
  · rename_i hp
    obtain ⟨hk, hlt, hptr, -⟩ := hb.ref h hp
    have ht := h.tails ino hk
    by_cases hin : x < 4096 * divRoundUp (fs.inode ino).iSize 4096
    · have hbyte := ht.bytes x hx hin
      unfold Fs.bigByte at hbyte
      rw [← hptr, if_neg hp] at hbyte
      exact hbyte
    · rw [ht.ptrs _ (by omega) hlt] at hptr
      exact absurd hptr hp

/-- The pointers after the write: old references and free blocks. -/
theorem Based.newPtr (hb : Based fs fs₁ ino idx) (h : BlocksOk fs chain)
    (hc : Copied fs₁ fs₂ idx (fs.inode ino).iSize pos data) {i : Nat}
    (hi : indexPtr (fs₂.disk idx) i ≠ 0) :
    i < 1024 ∧ (Refers fs chain (.data ino i) (indexPtr (fs₂.disk idx) i) ∨
      indexPtr (fs₂.disk idx) i < fs.sbi.nrBlocks ∧
        fs.sbi.bfreeBitmap (indexPtr (fs₂.disk idx) i) = true) := by
  constructor
  · by_contra hge
    refine hi ((Page.word_eq_zero_iff _ _).2 fun y _ => ?_)
    exact Page.get_of_ge _ (by omega)
  · rcases hc.ptr i with hp | ⟨-, -, hlt, hbit⟩
    · rw [hb.disk] at hp
      rw [hp] at hi ⊢
      exact Or.inl (hb.ref h hi)
    · rw [hb.geom.nrBlocks] at hlt
      exact Or.inr ⟨hlt, hb.free _ hbit⟩

/-- Blocks that others refer to are not written. -/
theorem Based.frame (hb : Based fs fs₁ ino idx) (h : BlocksOk fs chain)
    (hc : Copied fs₁ fs₂ idx (fs.inode ino).iSize pos data) {r : Ref} {c : Nat} (hr : ¬r.By ino)
    (hrc : Refers fs chain r c) : fs₂.disk c = fs.disk c := by
  have hfree : ∀ a, fs.sbi.bfreeBitmap a = true → a ≠ c := by
    rintro a ha rfl
    rw [(h.owned.used hrc).2] at ha
    cases ha
  rw [← hb.disk]
  refine hc.disk c ?_ fun i hi he => ?_
  · rintro rfl
    rcases hb.owner with ⟨hk, he⟩ | ⟨-, -, -, hbit⟩
    · rw [h.owned.inj hrc (show Refers fs chain (.index ino) _ from ⟨Or.inr hk, he⟩)] at hr
      exact hr rfl
    · exact hfree _ hbit rfl
  · rcases (hb.newPtr h hc (hc.filled i hi)).2 with hold | ⟨-, hbit⟩
    · rw [he] at hold
      rw [h.owned.inj hrc hold] at hr
      exact hr rfl
    · exact hfree _ hbit he

variable {ci : Inode}

theorem Based.live (hb : Based fs fs₁ ino idx)
    (hc : Copied fs₁ fs₂ idx (fs.inode ino).iSize pos data) (i : Nat) :
    (fs₂.setInode ino ci).Live i ↔ fs.Live i := by
  unfold Fs.Live
  rw [Fs.sbi_setInode, hc.geom.nrInodes, hc.ifree, hb.geom.nrInodes, hb.ifree]

theorem Based.inode_other (hb : Based fs fs₁ ino idx)
    (hc : Copied fs₁ fs₂ idx (fs.inode ino).iSize pos data) {i : Nat} (hi : i ≠ ino) :
    (fs₂.setInode ino ci).inode i = fs.inode i := by
  rw [Fs.inode_setInode, if_neg hi, hc.inode, hb.other i hi]

theorem Based.is_other (hb : Based fs fs₁ ino idx)
    (hc : Copied fs₁ fs₂ idx (fs.inode ino).iSize pos data) {i : Nat} (hi : i ≠ ino) (κ : Kind) :
    (fs₂.setInode ino ci).Is i κ ↔ fs.Is i κ := by
  unfold Fs.Is
  rw [hb.live hc, hb.inode_other hc hi]

theorem Based.refers_self (hb : Based fs fs₁ ino idx)
    (hc : Copied fs₁ fs₂ idx (fs.inode ino).iSize pos data)
    (hbig : ci.kind = .big) (hidx : ci.indexBlock = idx) {r : Ref} (hr : r.By ino) (c : Nat) :
    Refers (fs₂.setInode ino ci) chain r c ↔
      r = .index ino ∧ c = idx ∨
        ∃ i < 1024, r = .data ino i ∧ c = indexPtr (fs₂.disk idx) i ∧ c ≠ 0 := by
  have hl : fs₂.Live ino := by
    have hlive : (fs₂.setInode ino ci).Live ino ↔ fs.Live ino := hb.live hc ino
    refine hlive.2 ?_
    rcases hb.owner with ⟨hk, -⟩ | ⟨hk, -⟩
    · exact hk.1
    · exact hk.1
  rw [refers_setInode_self hl (by rw [hbig]; decide) hr, hidx, and_iff_right hbig]

theorem Based.refers_other (hb : Based fs fs₁ ino idx) (h : BlocksOk fs chain)
    (hc : Copied fs₁ fs₂ idx (fs.inode ino).iSize pos data) {r : Ref} (hr : ¬r.By ino) (c : Nat) :
    Refers (fs₂.setInode ino ci) chain r c ↔ Refers fs chain r c := by
  cases r with
  | header b =>
      have hm : (fs₂.setInode ino ci).sbi.metaBlocks = fs.sbi.metaBlocks := by
        unfold SbInfo.metaBlocks
        rw [Fs.sbi_setInode, hc.geom.nrIstore, hc.geom.nrIfree, hc.geom.nrBfree, hb.geom.nrIstore,
          hb.geom.nrIfree, hb.geom.nrBfree]
      simp only [Refers, hm]
  | sliced b => exact Iff.rfl
  | index i =>
      have hi : i ≠ ino := hr
      simp only [Refers, hb.is_other hc hi, hb.inode_other hc hi]
  | data i j =>
      have hi : i ≠ ino := hr
      have hio : fs.Is i .big → (fs₂.setInode ino ci).indexOf i = fs.indexOf i := by
        intro hk
        unfold Fs.indexOf
        rw [hb.inode_other hc hi]
        exact hb.frame h hc (r := .index i) hi ⟨Or.inr hk, rfl⟩
      simp only [Refers, hb.is_other hc hi]
      constructor
      · rintro ⟨hk, h1, h2, h3⟩
        rw [hio hk] at h2
        exact ⟨hk, h1, h2, h3⟩
      · rintro ⟨hk, h1, h2, h3⟩
        rw [← hio hk] at h2
        exact ⟨hk, h1, h2, h3⟩

/-- Every reference after the write is an old one, or the file got a free block. -/
theorem Based.refers_new (hb : Based fs fs₁ ino idx) (h : BlocksOk fs chain)
    (hc : Copied fs₁ fs₂ idx (fs.inode ino).iSize pos data)
    (hbig : ci.kind = .big) (hidx : ci.indexBlock = idx) {r : Ref} {c : Nat}
    (hr : Refers (fs₂.setInode ino ci) chain r c) :
    Refers fs chain r c ∨ r.By ino ∧ c < fs.sbi.nrBlocks ∧ fs.sbi.bfreeBitmap c = true := by
  by_cases hby : r.By ino
  · rcases (hb.refers_self hc hbig hidx hby c).1 hr with ⟨rfl, rfl⟩ | ⟨i, -, rfl, rfl, h0⟩
    · rcases hb.owner with ⟨hk, he⟩ | ⟨-, -, hlt, hbit⟩
      · exact Or.inl ⟨Or.inr hk, he⟩
      · exact Or.inr ⟨hby, hlt, hbit⟩
    · exact ((hb.newPtr h hc h0).2).imp_right fun hf => ⟨hby, hf⟩
  · exact Or.inl ((hb.refers_other h hc hby c).1 hr)

theorem Based.refers_kept (hb : Based fs fs₁ ino idx) (h : BlocksOk fs chain)
    (hc : Copied fs₁ fs₂ idx (fs.inode ino).iSize pos data)
    (hbig : ci.kind = .big) (hidx : ci.indexBlock = idx) {r : Ref} {c : Nat}
    (hr : Refers fs chain r c) : Refers (fs₂.setInode ino ci) chain r c := by
  by_cases hby : r.By ino
  · rw [hb.refers_self hc hbig hidx hby]
    cases r with
    | header b => exact hby.elim
    | sliced b => exact hby.elim
    | index i =>
        cases hby
        rcases hb.owner with ⟨hk, he⟩ | ⟨hk, -⟩
        · exact Or.inl ⟨rfl, hr.2.trans he.symm⟩
        · rcases hr.1 with hk' | hk' <;> cases hk.kind_unique hk'
    | data i j =>
        cases hby
        obtain ⟨hk', hj, hptr, h0⟩ := hr
        rcases hb.owner with ⟨hk, he⟩ | ⟨hk, -⟩
        · refine Or.inr ⟨j, hj, rfl, ?_, h0⟩
          have hptr' : c = indexPtr (fs₁.disk idx) j := by
            rw [hb.disk, he]
            exact hptr
          rcases hc.ptr j with hp | ⟨hp, -⟩
          · rw [hp, hptr']
          · rw [hp] at hptr'
            exact absurd hptr' h0
        · cases hk.kind_unique hk'
  · exact (hb.refers_other h hc hby c).2 hr

theorem Based.owned (hb : Based fs fs₁ ino idx) (h : BlocksOk fs chain)
    (hc : Copied fs₁ fs₂ idx (fs.inode ino).iSize pos data)
    (hbig : ci.kind = .big) (hidx : ci.indexBlock = idx) :
    Owned (fs₂.setInode ino ci).Used (Refers (fs₂.setInode ino ci) chain) := by
  have hnr : fs₂.sbi.nrBlocks = fs.sbi.nrBlocks := hc.geom.nrBlocks.trans hb.geom.nrBlocks
  have hby : ∀ {r c}, r.By ino → Refers (fs₂.setInode ino ci) chain r c →
      fs₂.sbi.bfreeBitmap c = false := by
    intro r c hr hrc
    rcases (hb.refers_self hc hbig hidx hr c).1 hrc with ⟨-, rfl⟩ | ⟨i, -, -, rfl, h0⟩
    · exact hc.ok.idxUsed
    · exact (hc.ok.ptrUsed i h0).1
  have hused : ∀ {c}, fs.sbi.bfreeBitmap c = false → fs₂.sbi.bfreeBitmap c = false := by
    intro c hcu
    cases hcc : fs₂.sbi.bfreeBitmap c with
    | false => rfl
    | true => rw [hb.free c (hc.free c hcc)] at hcu; cases hcu
  constructor
  · intro r c hr
    refine ⟨?_, ?_⟩
    · show c < fs₂.sbi.nrBlocks
      rw [hnr]
      rcases hb.refers_new h hc hbig hidx hr with hold | ⟨-, hlt, -⟩
      · exact (h.owned.used hold).1
      · exact hlt
    · by_cases hrb : r.By ino
      · exact hby hrb hr
      · exact hused (h.owned.used ((hb.refers_other h hc hrb c).1 hr)).2
  · intro r r' c hr hr'
    have hmix : ∀ {r r' c}, r.By ino → ¬r'.By ino → Refers (fs₂.setInode ino ci) chain r c →
        ¬Refers (fs₂.setInode ino ci) chain r' c := by
      intro r r' c h1 h2 hr hr'
      have hold' := (hb.refers_other h hc h2 c).1 hr'
      rcases hb.refers_new h hc hbig hidx hr with hold | ⟨-, -, hbit⟩
      · rw [h.owned.inj hold hold'] at h1
        exact h2 h1
      · rw [(h.owned.used hold').2] at hbit
        cases hbit
    by_cases h1 : r.By ino <;> by_cases h2 : r'.By ino
    · rcases (hb.refers_self hc hbig hidx h1 c).1 hr with ⟨rfl, rfl⟩ | ⟨i, -, rfl, rfl, h0⟩
      · rcases (hb.refers_self hc hbig hidx h2 _).1 hr' with ⟨rfl, -⟩ | ⟨j, -, rfl, he, h0⟩
        · rfl
        · rw [he] at h0
          exact absurd he.symm (hc.ok.ptrUsed j h0).2
      · rcases (hb.refers_self hc hbig hidx h2 _).1 hr' with ⟨rfl, he⟩ | ⟨j, -, rfl, he, -⟩
        · exact absurd he (hc.ok.ptrUsed i h0).2
        · rw [hc.ok.inj i j he h0]
    · exact absurd hr' (hmix h1 h2 hr)
    · exact absurd hr (hmix h2 h1 hr')
    · exact h.owned.inj ((hb.refers_other h hc h1 c).1 hr) ((hb.refers_other h hc h2 c).1 hr')

/-- The content of the file after the write. -/
theorem Based.content (hb : Based fs fs₁ ino idx) (h : BlocksOk fs chain)
    (hc : Copied fs₁ fs₂ idx (fs.inode ino).iSize pos data) (hidx : ci.indexBlock = idx)
    (x : Nat) : (fs₂.setInode ino ci).bigByte ino x =
      if pos ≤ x ∧ x < pos + data.length then data.getD (x - pos) 0
      else if x < (fs.inode ino).iSize then fs.oldByte ino x else 0 := by
  have hz : ∀ b < fs₁.sbi.nrBlocks, fs₁.sbi.bfreeBitmap b = true → fs₁.disk b = Page.zero := by
    intro b hlt hbit
    rw [hb.geom.nrBlocks] at hlt
    rw [hb.disk, h.zero b hlt (hb.free b hbit)]
  rw [Fs.bigByte_setInode hidx, hc.fileByte_law hz (fun y hy => hb.tail h hy)]
  congr 1
  by_cases hx : x < (fs.inode ino).iSize
  · rw [if_pos hx]
    rcases hb.owner with ⟨hk, he⟩ | ⟨-, hsize, -⟩
    · unfold Fs.oldByte
      rw [if_pos hk.2]
      unfold Fs.fileByte Fs.bigByte Fs.indexOf
      rw [hb.disk, he]
    · omega
  · rw [if_neg hx]
    exact hb.tail h (Nat.not_lt.1 hx)

theorem Based.bigBytes_other (hb : Based fs fs₁ ino idx) (h : BlocksOk fs chain)
    (hc : Copied fs₁ fs₂ idx (fs.inode ino).iSize pos data) {i : Nat} (hi : i ≠ ino)
    (hk : fs.Is i .big) (x : Nat) : (fs₂.setInode ino ci).bigByte i x = fs.bigByte i x := by
  have hio : (fs₂.setInode ino ci).indexOf i = fs.indexOf i := by
    unfold Fs.indexOf
    rw [hb.inode_other hc hi]
    exact hb.frame h hc (r := .index i) hi ⟨Or.inr hk, rfl⟩
  unfold Fs.bigByte
  rw [hio]
  split
  · rfl
  · rename_i h0
    have hlt : x / 4096 < 1024 := by
      by_contra hge
      refine h0 ((Page.word_eq_zero_iff _ _).2 fun y _ => ?_)
      exact Page.get_of_ge _ (by omega)
    have hd : (fs₂.setInode ino ci).disk (indexPtr (fs.indexOf i) (x / 4096)) =
        fs.disk (indexPtr (fs.indexOf i) (x / 4096)) :=
      hb.frame h hc (r := .data i (x / 4096)) hi ⟨hk, hlt, rfl, h0⟩
    rw [hd]

theorem Based.smallBytes_other (hb : Based fs fs₁ ino idx) (h : BlocksOk fs chain)
    (hc : Copied fs₁ fs₂ idx (fs.inode ino).iSize pos data) {i : Nat} (hi : i ≠ ino)
    (hk : fs.Is i .small) : (fs₂.setInode ino ci).smallBytes i = fs.smallBytes i := by
  have hd : (fs₂.setInode ino ci).disk (fs.inode i).getBno = fs.disk (fs.inode i).getBno :=
    hb.frame h hc (r := .sliced (fs.inode i).getBno) id ⟨rfl, h.small i hk⟩
  unfold Fs.smallBytes
  rw [hb.inode_other hc hi, hd]

theorem Based.tailZero (hb : Based fs fs₁ ino idx) (h : BlocksOk fs chain)
    (hc : Copied fs₁ fs₂ idx (fs.inode ino).iSize pos data) (hidx : ci.indexBlock = idx)
    (hsize : ci.iSize = max (fs.inode ino).iSize (pos + data.length)) (i : Nat)
    (hi : (fs₂.setInode ino ci).Is i .big) : TailZero (fs₂.setInode ino ci) i := by
  by_cases hii : i = ino
  · subst hii
    have hself : (fs₂.setInode i ci).inode i = ci := by simp
    refine ⟨fun j h1 h2 => ?_, fun x h1 _ => ?_⟩
    · rw [hself, hsize] at h1
      rw [Fs.setInode_indexOf_self, hidx]
      by_contra h0
      rcases hc.ptr j with hp | ⟨-, ⟨-, ht, -⟩, -⟩
      · rw [hb.disk] at hp
        rw [hp] at h0
        obtain ⟨hk, -, hptr, -⟩ := hb.ref h h0
        refine h0 (hptr.trans ((h.tails i hk).ptrs j ?_ h2))
        unfold divRoundUp at h1 ⊢
        omega
      · unfold divRoundUp at h1
        omega
    · rw [hself, hsize] at h1
      rw [hb.content h hc hidx, if_neg (by omega), if_neg (by omega)]
  · have hk := (hb.is_other hc hii _).1 hi
    obtain ⟨hp, hbytes⟩ := h.tails i hk
    have hin : (fs₂.setInode ino ci).inode i = fs.inode i := hb.inode_other hc hii
    refine ⟨fun j h1 h2 => ?_, fun x h1 h2 => ?_⟩
    · rw [hin] at h1
      unfold Fs.indexOf
      rw [hin, Fs.disk_setInode, hb.frame h hc (r := .index i) hii ⟨Or.inr hk, rfl⟩]
      exact hp j h1 h2
    · rw [hin] at h1 h2
      rw [hb.bigBytes_other h hc hii hk]
      exact hbytes x h1 h2

/-- The loop, followed by the update of the inode, obeys the law. -/
theorem Based.law (hb : Based fs fs₁ ino idx) (h : BlocksOk fs chain)
    (hc : Copied fs₁ fs₂ idx (fs.inode ino).iSize pos data) (hbig : ci.kind = .big)
    (hidx : ci.indexBlock = idx) (hsize : ci.iSize = max (fs.inode ino).iSize (pos + data.length))
    (hblocks : ci.iBlocks = divRoundUp ci.iSize 4096 + 1) :
    BigLaw fs (fs₂.setInode ino ci) chain ino pos data := by
  have hself : (fs₂.setInode ino ci).inode ino = ci := by simp
  have hlive : (fs₂.setInode ino ci).Live ino := by
    refine (hb.live hc ino).2 ?_
    rcases hb.owner with ⟨hk, -⟩ | ⟨hk, -⟩
    · exact hk.1
    · exact hk.1
  have hstate : BlocksOk (fs₂.setInode ino ci) chain := by
    refine ⟨hc.ok.blocks_lt, hb.owned h hc hbig hidx, fun i hi => ?_, fun b hlt hbit => ?_,
      hb.tailZero h hc hidx hsize⟩
    · have hne : i ≠ ino := by
        rintro rfl
        have hk := hi.2
        rw [hself, hbig] at hk
        cases hk
      rw [hb.inode_other hc hne]
      exact h.small i ((hb.is_other hc hne _).1 hi)
    · have hlt' : b < fs.sbi.nrBlocks := by
        rw [← hb.geom.nrBlocks, ← hc.geom.nrBlocks]
        exact hlt
      have hbit' : fs₂.sbi.bfreeBitmap b = true := hbit
      rw [← h.zero b hlt' (hb.free b (hc.free b hbit)), ← hb.disk, Fs.disk_setInode]
      refine hc.disk b ?_ fun i hi he => ?_
      · rintro rfl
        rw [hc.ok.idxUsed] at hbit'
        cases hbit'
      · rw [← he, (hc.ok.ptrUsed i (hc.filled i hi)).1] at hbit'
        cases hbit'
  refine ⟨⟨hlive, by rw [hself]; exact hbig⟩, by rw [hself]; exact hsize,
    by rw [hself]; exact hblocks, hb.content h hc hidx, hstate,
    fun r c => hb.refers_kept h hc hbig hidx, fun r c => hb.refers_new h hc hbig hidx,
    fun c hfree hused => ?_, fun r c => hb.frame h hc, fun i => hb.inode_other hc,
    fun i hi hk => hb.bigBytes_other h hc hi hk, fun i hi hk => hb.smallBytes_other h hc hi hk⟩
  cases hmid : fs₁.sbi.bfreeBitmap c with
  | false =>
      have hindex : Refers (fs₂.setInode ino ci) chain (.index ino) c := by
        rw [hb.refers_self hc hbig hidx (r := .index ino) rfl]
        exact Or.inl ⟨rfl, hb.taken c hfree hmid⟩
      exact ⟨.index ino, rfl, hindex⟩
  | true =>
      obtain ⟨i, ht, hi⟩ := hc.taken c hmid hused
      have h0 := hc.filled i ht
      have hptr : Refers (fs₂.setInode ino ci) chain (.data ino i) c := by
        rw [hb.refers_self hc hbig hidx (r := .data ino i) rfl, ← hi]
        exact Or.inr ⟨i, (hb.newPtr h hc h0).1, rfl, rfl, h0⟩
      exact ⟨.data ino i, rfl, hptr⟩

end Law

/-- **The law of `write_big_file`.**  Whatever the kernel services answered, a call that returns a
byte count wrote the data. -/
theorem writeBigFile_law {k k' : Kernel} {chain : List Nat} {ino : Nat} {iocb iocb' : Kiocb}
    {data : List UInt8} {n : Int} (h : BlocksOk k.fs chain)
    (hk : k.fs.Is ino .fresh ∧ (k.fs.inode ino).iSize = 0 ∨ k.fs.Is ino .big)
    (happ : iocb.append = false)
    (hrun : writeBigFile k ino iocb data = .ok ((n, iocb'), k')) (hn : 0 ≤ n) :
    n = data.length ∧ iocb'.kiPos = iocb.kiPos + data.length ∧
      BigLaw k.fs k'.fs chain ino iocb.kiPos data := by
  have hpos : iocb.startPos (k.inode ino) = iocb.kiPos := by
    unfold Kiocb.startPos
    rw [happ]
    rfl
  obtain ⟨k₁, hens, hrest⟩ := writeBigFile_ok hrun hn
  have hb := ensureIndexBlock_based h hk hens
  obtain ⟨hret, hiocb, fs₂, hcop, hfs⟩ := hrest hb.file
  rw [hpos] at hiocb hcop hfs
  refine ⟨hret, by rw [hiocb], ?_⟩
  have hino : fs₂.inode ino = { k.fs.inode ino with indexBlock := (k₁.inode ino).indexBlock } := by
    rw [hcop.inode]
    exact hb.self
  have hmode : sIsDir (k.fs.inode ino).iMode = false := by
    rcases hk with ⟨hk, -⟩ | hk
    · exact (Inode.kind_fresh.1 hk.2).1
    · exact (Inode.kind_big.1 hk.2).1
  rw [hfs]
  refine hb.law h hcop ?_ (by rw [hino]) (Nat.max_comm _ _) rfl
  rw [Inode.kind_big, hino]
  exact ⟨hmode, Nat.succ_ne_zero _⟩

/-- A small file and two new ones. -/
def smallAndNew : Kernel :=
  (emptyImage 12 8).after [(Op.create 1 [97] 0o100644).call, (Op.create 1 [98] 0o100644).call,
    (Op.create 1 [99] 0o100644).call, (Op.write 3 0 [9]).call]

theorem smallAndNew_ok : ∃ chain, BlocksOk smallAndNew.fs chain := by
  have hrun : ∃ chain, PlainInv smallAndNew chain := emptyImage_after (by decide +kernel)
  obtain ⟨chain, hinv⟩ := hrun
  have hnone : ∀ i < smallAndNew.fs.sbi.nrInodes, (smallAndNew.fs.inode i).kind ≠ .big := by
    decide +kernel
  exact ⟨chain, hinv.wf.sb.blocks_lt, hinv.wf.owned, fun i hi => (hinv.wf.slices.file i hi).mem,
    hinv.wf.zero trivial, fun i hi => absurd hi.2 (hnone i hi.1.2.1)⟩

/-- Two files are written behind a hole; then the first is overwritten past its end, beside the small
file and the other big one. -/
theorem writeBigFile_law_smallAndNew : ∃ chain k₁ k₂ k₃,
    writeBigFile smallAndNew 2 ⟨4097, false⟩ [7, 8] = .ok ((2, ⟨4099, false⟩), k₁) ∧
      BigLaw smallAndNew.fs k₁.fs chain 2 4097 [7, 8] ∧
    writeBigFile k₁ 4 ⟨8192, false⟩ [5] = .ok ((1, ⟨8193, false⟩), k₂) ∧
      BigLaw k₁.fs k₂.fs chain 4 8192 [5] ∧
    k₂.fs.Is 2 .big ∧ k₂.fs.Is 3 .small ∧ k₂.fs.Is 4 .big ∧
    writeBigFile k₂ 2 ⟨4098, false⟩ [1, 2, 3] = .ok ((3, ⟨4101, false⟩), k₃) ∧
      BigLaw k₂.fs k₃.fs chain 2 4098 [1, 2, 3] := by
  obtain ⟨chain, hok⟩ := smallAndNew_ok
  have hval₁ : (writeBigFile smallAndNew 2 ⟨4097, false⟩ [7, 8]).value? =
      some (2, ⟨4099, false⟩) := by decide +kernel
  have hrun₁ := Outcome.eq_ok hval₁
  obtain ⟨-, -, hlaw₁⟩ := writeBigFile_law hok
    (Or.inl (show _ ∧ _ by decide +kernel)) rfl hrun₁ (by decide)
  generalize hk₁ : (writeBigFile smallAndNew 2 ⟨4097, false⟩ [7, 8]).kernel = k₁ at hrun₁ hlaw₁
  have hval₂ : (writeBigFile k₁ 4 ⟨8192, false⟩ [5]).value? = some (1, ⟨8193, false⟩) := by
    rw [← hk₁]
    decide +kernel
  have hrun₂ := Outcome.eq_ok hval₂
  have hfresh₂ : k₁.fs.Is 4 .fresh ∧ (k₁.fs.inode 4).iSize = 0 := by
    rw [← hk₁]
    decide +kernel
  obtain ⟨-, -, hlaw₂⟩ := writeBigFile_law hlaw₁.state (Or.inl hfresh₂) rfl hrun₂ (by decide)
  generalize hk₂ : (writeBigFile k₁ 4 ⟨8192, false⟩ [5]).kernel = k₂ at hrun₂ hlaw₂
  have hkinds : k₂.fs.Is 2 .big ∧ k₂.fs.Is 3 .small ∧ k₂.fs.Is 4 .big := by
    rw [← hk₂, ← hk₁]
    decide +kernel
  have hval₃ : (writeBigFile k₂ 2 ⟨4098, false⟩ [1, 2, 3]).value? = some (3, ⟨4101, false⟩) := by
    rw [← hk₂, ← hk₁]
    decide +kernel
  have hrun₃ := Outcome.eq_ok hval₃
  obtain ⟨-, -, hlaw₃⟩ := writeBigFile_law hlaw₂.state (Or.inr hkinds.1) rfl hrun₃ (by decide)
  exact ⟨chain, k₁, k₂, _, hrun₁, hlaw₁, hrun₂, hlaw₂, hkinds.1, hkinds.2.1, hkinds.2.2, hrun₃,
    hlaw₃⟩

end Ouichefs
