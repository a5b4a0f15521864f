import Ouichefs.BigWrite

/-!
# A successful `write_big_file`, block by block

What a call that returns a byte count did to the file, read off the code alone: nothing is assumed
about the counters, the directories or the content of free blocks, and kernel services may answer in
any way.

* `FileOk`: the index block and the data blocks of one file are in use and distinct.
* `Copied`: pointers were filled with free blocks, the data arrived, and the gap was zeroed in the
  one block that the source zeroes.  `Copied.append` puts two parts of the data together.
* `writeBigLoop_copied` is the loop by induction on the bytes still to copy, and `writeBigFile_ok`
  the call.
-/

set_option autoImplicit false

namespace Ouichefs

open FreeMap

/-! ## Successful kernel services -/

section Services

variable {k k' : Kernel}

theorem Kernel.sbBread_true {bno : Nat} (h : k.sbBread bno = (true, k')) : k'.fs = k.fs := by
  unfold Kernel.sbBread at h
  split at h
  · cases h
  · split at h <;> cases h <;> rfl

/-- A copy that transfers all bytes transfers the bytes of the buffer. -/
theorem Kernel.copyFromIter_full {n : Nat} {iter copied : List UInt8} (hn : 0 < n)
    (h : k.copyFromIter n iter = (copied, k')) (hfull : copied.length = n) :
    copied = iter.take n ∧ k'.fs = k.fs := by
  unfold Kernel.copyFromIter at h
  split at h
  · cases h
    exact ⟨rfl, rfl⟩
  · cases h
    exact ⟨rfl, rfl⟩
  · cases h
    rw [List.length_take] at hfull
    omega

/-- `get_free_block` takes the least free block. -/
theorem Kernel.getFreeBlock_pos {b : Nat} (h : k.getFreeBlock = (b, k')) (h0 : b ≠ 0) :
    b = firstBit k.fs.sbi.bfreeBitmap k.fs.sbi.nrBlocks ∧ b < k.fs.sbi.nrBlocks ∧
      k.fs.sbi.bfreeBitmap b = true ∧ k'.fs = k.fs.setSbi { k.fs.sbi with
        bfreeBitmap := Function.update k.fs.sbi.bfreeBitmap b false,
        nrFreeBlocks := sub32 k.fs.sbi.nrFreeBlocks 1 } := by
  unfold Kernel.getFreeBlock SbInfo.getFreeBlock getFirstFreeBit at h
  by_cases hf : firstBit k.fs.sbi.bfreeBitmap k.fs.sbi.nrBlocks = k.fs.sbi.nrBlocks
  · simp only [hf, if_true, ne_eq, not_true_eq_false, if_false] at h
    cases h
    exact absurd rfl h0
  · obtain ⟨hb, hset, -⟩ := firstBit_lt hf
    simp only [hf, if_false] at h
    by_cases hz : firstBit k.fs.sbi.bfreeBitmap k.fs.sbi.nrBlocks = 0
    · simp only [hz, ne_eq, not_true_eq_false, if_false, if_true] at h
      cases h
      exact absurd rfl h0
    · simp only [hz, ne_eq, not_false_eq_true, if_false, if_true] at h
      cases h
      exact ⟨rfl, hb, hset, rfl⟩

end Services

/-! ## One file -/

/-- The index block `idx` and the data blocks of one file are in use and distinct. -/
structure FileOk (fs : Fs) (idx : Nat) : Prop where
  bit0 : fs.sbi.bfreeBitmap 0 = false
  blocks_lt : fs.sbi.nrBlocks < 4294967296
  idxUsed : fs.sbi.bfreeBitmap idx = false
  ptrUsed : ∀ i, indexPtr (fs.disk idx) i ≠ 0 →
    fs.sbi.bfreeBitmap (indexPtr (fs.disk idx) i) = false ∧ indexPtr (fs.disk idx) i ≠ idx
  inj : ∀ i j, indexPtr (fs.disk idx) i = indexPtr (fs.disk idx) j →
    indexPtr (fs.disk idx) i ≠ 0 → i = j

/-- Writing `len` bytes at `pos` touches block `i` of the file. -/
def Touches (pos len i : Nat) : Prop := pos < 4096 * (i + 1) ∧ 4096 * i < pos + len ∧ 0 < len

/-- Byte `x` of a touched block: the data, the zeroed part of the gap, or what the block held. -/
def mergedByte (iSize pos : Nat) (data : List UInt8) (x : Nat) (old : UInt8) : UInt8 :=
  if pos ≤ x ∧ x < pos + data.length then data.getD (x - pos) 0
  else if iSize ≤ x ∧ x < pos ∧ iSize / 4096 = pos / 4096 then 0
  else old

/-- What a copy loop that ran to its end did to the file with index block `idx`. -/
structure Copied (fs fs' : Fs) (idx iSize pos : Nat) (data : List UInt8) : Prop where
  ok : FileOk fs' idx
  icache : fs'.icache = fs.icache
  geom : SameGeom fs.sbi fs'.sbi
  ifree : fs'.sbi.ifreeBitmap = fs.sbi.ifreeBitmap
  ptr : ∀ i, indexPtr (fs'.disk idx) i = indexPtr (fs.disk idx) i ∨
    indexPtr (fs.disk idx) i = 0 ∧ Touches pos data.length i ∧
      indexPtr (fs'.disk idx) i < fs.sbi.nrBlocks ∧
      fs.sbi.bfreeBitmap (indexPtr (fs'.disk idx) i) = true
  filled : ∀ i, Touches pos data.length i → indexPtr (fs'.disk idx) i ≠ 0
  first : data ≠ [] → indexPtr (fs.disk idx) (pos / 4096) = 0 →
    indexPtr (fs'.disk idx) (pos / 4096) = firstBit fs.sbi.bfreeBitmap fs.sbi.nrBlocks
  free : ∀ c, fs'.sbi.bfreeBitmap c = true → fs.sbi.bfreeBitmap c = true
  taken : ∀ c, fs.sbi.bfreeBitmap c = true → fs'.sbi.bfreeBitmap c = false →
    ∃ i, Touches pos data.length i ∧ indexPtr (fs'.disk idx) i = c
  disk : ∀ c, c ≠ idx → (∀ i, Touches pos data.length i → indexPtr (fs'.disk idx) i ≠ c) →
    fs'.disk c = fs.disk c
  bytes : ∀ i, Touches pos data.length i → ∀ y < 4096,
    (fs'.disk (indexPtr (fs'.disk idx) i)).get y =
      mergedByte iSize pos data (4096 * i + y)
        ((fs.disk (indexPtr (fs'.disk idx) i)).get y)

section Block

variable {fs fs₁ fs₂ : Fs} {idx i b : Nat}

/-- `fs₁` is `fs` with block `b` behind pointer `i`. -/
structure GotBlock (fs fs₁ : Fs) (idx i b : Nat) : Prop where
  ok : FileOk fs₁ idx
  icache : fs₁.icache = fs.icache
  geom : SameGeom fs.sbi fs₁.sbi
  ifree : fs₁.sbi.ifreeBitmap = fs.sbi.ifreeBitmap
  ptr : ∀ j, indexPtr (fs₁.disk idx) j = if j = i then b else indexPtr (fs.disk idx) j
  fresh : indexPtr (fs.disk idx) i = b ∨ indexPtr (fs.disk idx) i = 0 ∧ b < fs.sbi.nrBlocks ∧
    fs.sbi.bfreeBitmap b = true ∧ b = firstBit fs.sbi.bfreeBitmap fs.sbi.nrBlocks
  free : ∀ c, fs₁.sbi.bfreeBitmap c = true → fs.sbi.bfreeBitmap c = true
  taken : ∀ c, fs.sbi.bfreeBitmap c = true → fs₁.sbi.bfreeBitmap c = false → c = b
  disk : ∀ c, c ≠ idx → fs₁.disk c = fs.disk c

theorem getDataBlock_got {k k₁ : Kernel} (h : FileOk k.fs idx) (hi : i < 1024)
    (hget : getDataBlock k idx i = (b, k₁)) (h0 : b ≠ 0) : GotBlock k.fs k₁.fs idx i b := by
  unfold getDataBlock at hget
  by_cases hp : indexPtr (k.fs.disk idx) i = 0
  · simp only [hp, if_true] at hget
    obtain ⟨c, k₀, hfree⟩ : ∃ c k₀, k.getFreeBlock = (c, k₀) := ⟨_, _, rfl⟩
    rw [hfree] at hget
    cases c with
    | zero =>
        cases hget
        exact absurd rfl h0
    | succ c =>
        cases hget
        obtain ⟨hleast, hlt, hbit, hfs⟩ := Kernel.getFreeBlock_pos hfree h0
        have h32 : c + 1 < 4294967296 := Nat.lt_trans hlt h.blocks_lt
        have hci : c + 1 ≠ idx := by
          intro he
          rw [he, h.idxUsed] at hbit
          cases hbit
        have hd : k₀.fs.disk = k.fs.disk := by rw [hfs]; rfl
        have hmap : k₀.fs.sbi.bfreeBitmap = Function.update k.fs.sbi.bfreeBitmap (c + 1) false := by
          rw [hfs]; rfl
        have hptr : ∀ j, indexPtr ((k₀.setBlock idx
            ((k₀.fs.disk idx).setWord (4 * i) (c + 1))).fs.disk idx) j =
              if j = i then c + 1 else indexPtr (k.fs.disk idx) j := by
          intro j
          rw [Kernel.fs_setBlock, Fs.disk_setBlock, if_pos rfl, indexPtr_setWord _ hi h32, hd]
        have hused : ∀ a, k.fs.sbi.bfreeBitmap a = false → k₀.fs.sbi.bfreeBitmap a = false := by
          intro a ha
          rw [hmap, Function.update_apply]
          split
          · rfl
          · exact ha
        have hnew : ∀ j, indexPtr (k.fs.disk idx) j ≠ c + 1 := by
          intro j hj
          have := (h.ptrUsed j (by omega)).1
          rw [hj, hbit] at this
          cases this
        refine ⟨⟨hused _ h.bit0, ?_, hused _ h.idxUsed, fun j => ?_, fun j l => ?_⟩, ?_, ?_, ?_,
          hptr, Or.inr ⟨hp, hlt, hbit, hleast⟩, fun a ha => ?_, fun a ha hu => ?_, fun a ha => ?_⟩
        · show k₀.fs.sbi.nrBlocks < _
          rw [hfs]
          exact h.blocks_lt
        · rw [hptr]
          split
          · intro _
            refine ⟨?_, hci⟩
            show k₀.fs.sbi.bfreeBitmap (c + 1) = false
            rw [hmap, Function.update_self]
          · intro hj
            exact ⟨hused _ (h.ptrUsed j hj).1, (h.ptrUsed j hj).2⟩
        · rw [hptr, hptr]
          split <;> split
          · rename_i hj hl
            exact fun _ _ => hj.trans hl.symm
          · exact fun he => absurd he.symm (hnew l)
          · exact fun he => absurd he (hnew j)
          · exact h.inj j l
        · show k₀.fs.icache = _
          rw [hfs]; rfl
        · show SameGeom _ k₀.fs.sbi
          rw [hfs]
          exact ⟨rfl, rfl, rfl, rfl, rfl⟩
        · show k₀.fs.sbi.ifreeBitmap = _
          rw [hfs]; rfl
        · have ha' : k₀.fs.sbi.bfreeBitmap a = true := ha
          rw [hmap, Function.update_apply] at ha'
          split at ha'
          · cases ha'
          · exact ha'
        · have hu' : k₀.fs.sbi.bfreeBitmap a = false := hu
          rw [hmap, Function.update_apply] at hu'
          split at hu'
          · assumption
          · rw [ha] at hu'
            cases hu'
        · rw [Kernel.fs_setBlock, Fs.disk_setBlock, if_neg ha, hd]
  · simp only [hp, if_false] at hget
    cases hget
    refine ⟨h, rfl, .refl _, rfl, fun j => ?_, Or.inl rfl, fun _ => id, fun c hc hu => ?_,
      fun _ _ => rfl⟩
    · split
      · rename_i hj
        rw [hj]
      · rfl
    · rw [hc] at hu
      cases hu

/-- The block gets its part of the data. -/
theorem GotBlock.copied {iSize pos : Nat} {data : List UInt8} (h : GotBlock fs fs₁ idx i b)
    (h0 : b ≠ 0) (hi : pos / 4096 = i) (hne : data ≠ []) (hfit : pos % 4096 + data.length ≤ 4096) :
    Copied fs (fs₁.setBlock b ((zeroGap (fs₁.disk b) iSize pos i).blit (pos % 4096) data)) idx iSize
      pos data := by
  have hlen : 0 < data.length := List.length_pos_iff.2 hne
  have hb : b ≠ idx := by
    have hpi := h.ptr i
    rw [if_pos rfl] at hpi
    have := (h.ok.ptrUsed i (by rw [hpi]; exact h0)).2
    rwa [hpi] at this
  have hidx : ∀ nb, (fs₁.setBlock b nb).disk idx = fs₁.disk idx := by
    intro nb
    rw [Fs.disk_setBlock, if_neg (Ne.symm hb)]
  have honly : ∀ j, Touches pos data.length j → j = i := by
    rintro j ⟨h1, h2, -⟩
    omega
  have hself : Touches pos data.length i := ⟨by omega, by omega, hlen⟩
  refine ⟨⟨h.ok.bit0, h.ok.blocks_lt, h.ok.idxUsed, ?_, ?_⟩, h.icache, h.geom, h.ifree, fun j => ?_,
    fun j hj => ?_, fun _ hz => ?_, h.free, fun c hc hu => ⟨i, hself, ?_⟩, fun c hc hn => ?_,
    fun j hj y hy => ?_⟩
  · rw [hidx]
    exact h.ok.ptrUsed
  · rw [hidx]
    exact h.ok.inj
  · rw [hidx, h.ptr]
    split
    · rename_i hji
      rw [hji]
      rcases h.fresh with hf | ⟨hf, hlt, hbit, -⟩
      · exact Or.inl hf.symm
      · exact Or.inr ⟨hf, hself, hlt, hbit⟩
    · exact Or.inl rfl
  · rw [hidx, h.ptr, if_pos (honly j hj)]
    exact h0
  · rw [hidx, hi, h.ptr, if_pos rfl]
    rcases h.fresh with hf | ⟨-, -, -, hl⟩
    · rw [hi, hf] at hz
      exact absurd hz h0
    · exact hl
  · rw [hidx, h.ptr, if_pos rfl]
    exact (h.taken c hc hu).symm
  · rw [Fs.disk_setBlock, if_neg, h.disk c hc]
    intro hcb
    have := hn i hself
    rw [hidx, h.ptr, if_pos rfl] at this
    exact this hcb.symm
  · rw [hidx, h.ptr, if_pos (honly j hj), Fs.disk_setBlock, if_pos rfl, honly j hj,
      Page.get_blit _ hfit, ← h.disk b hb]
    unfold mergedByte
    by_cases hin : pos % 4096 ≤ y ∧ y < pos % 4096 + data.length
    · rw [if_pos hin, if_pos (by omega)]
      congr 1
      omega
    · rw [if_neg hin, if_neg (by omega)]
      unfold zeroGap
      by_cases hg : pos > iSize ∧ iSize / 4096 = i
      · rw [if_pos hg, Page.get_fill]
        split
        · rw [if_pos (by omega)]
        · split
          · rename_i h1 h2
            omega
          · rfl
      · rw [if_neg hg, if_neg (by omega)]

end Block

/-! ## The loop -/

section Loop

variable {fs fs₁ fs₂ : Fs} {idx iSize pos : Nat}

theorem Copied.nil (h : FileOk fs idx) (iSize pos : Nat) : Copied fs fs idx iSize pos [] := by
  have hno : ∀ i, ¬Touches pos ([] : List UInt8).length i := by
    rintro i ⟨-, -, h⟩
    exact absurd h (by decide)
  exact ⟨h, rfl, .refl _, rfl, fun _ => Or.inl rfl, fun i hi => absurd hi (hno i),
    fun hne => absurd rfl hne, fun _ => id, fun c hc hu => absurd (hc.symm.trans hu) (by decide),
    fun _ _ _ => rfl, fun i hi => absurd hi (hno i)⟩

/-- One part of the data after another, the second one from a block boundary on. -/
theorem Copied.append {d₁ d₂ : List UInt8} (h₁ : Copied fs fs₁ idx iSize pos d₁)
    (h₂ : Copied fs₁ fs₂ idx iSize (pos + d₁.length) d₂) (hne : d₁ ≠ [])
    (hcut : d₂ = [] ∨ (pos + d₁.length) % 4096 = 0) :
    Copied fs fs₂ idx iSize pos (d₁ ++ d₂) := by
  have hlen₁ : 0 < d₁.length := List.length_pos_iff.2 hne
  have hlen : (d₁ ++ d₂).length = d₁.length + d₂.length := List.length_append
  have hcut' : d₂.length = 0 ∨ (pos + d₁.length) % 4096 = 0 := by
    rcases hcut with h | h
    · exact Or.inl (by rw [h]; rfl)
    · exact Or.inr h
  have hsplit : ∀ i, Touches pos (d₁ ++ d₂).length i ↔
      Touches pos d₁.length i ∨ Touches (pos + d₁.length) d₂.length i := by
    intro i
    unfold Touches
    omega
  -- no block is touched by both parts
  have hone : ∀ i, Touches pos d₁.length i → ¬Touches (pos + d₁.length) d₂.length i := by
    rintro i ⟨-, h2, -⟩ ⟨h3, -, h5⟩
    omega
  have hold : ∀ i, indexPtr (fs₁.disk idx) i ≠ 0 →
      indexPtr (fs₂.disk idx) i = indexPtr (fs₁.disk idx) i := by
    intro i hi
    rcases h₂.ptr i with h | ⟨h, -⟩
    · exact h
    · exact absurd h hi
  have hfirst : Touches pos d₁.length (pos / 4096) := ⟨by omega, by omega, hlen₁⟩
  refine ⟨h₂.ok, h₂.icache.trans h₁.icache, h₁.geom.trans h₂.geom, h₂.ifree.trans h₁.ifree,
    fun i => ?_, fun i hi => ?_, fun _ hz => ?_, fun c hc => h₁.free c (h₂.free c hc),
    fun c hc hu => ?_, fun c hc hn => ?_, fun i hi y hy => ?_⟩
  · rcases h₂.ptr i with h | ⟨hz, ht, hlt, hbit⟩
    · rw [h]
      rcases h₁.ptr i with h' | ⟨hz, ht, hlt, hbit⟩
      · exact Or.inl h'
      · exact Or.inr ⟨hz, (hsplit i).2 (Or.inl ht), hlt, hbit⟩
    · have hz' : indexPtr (fs.disk idx) i = 0 := by
        rcases h₁.ptr i with h' | ⟨h', -⟩
        · rw [← h', hz]
        · exact h'
      rw [h₁.geom.nrBlocks] at hlt
      exact Or.inr ⟨hz', (hsplit i).2 (Or.inr ht), hlt, h₁.free _ hbit⟩
  · rcases (hsplit i).1 hi with ht | ht
    · rw [hold i (h₁.filled i ht)]
      exact h₁.filled i ht
    · exact h₂.filled i ht
  · rw [hold _ (h₁.filled _ hfirst)]
    exact h₁.first hne hz
  · cases hmid : fs₁.sbi.bfreeBitmap c with
    | true =>
        obtain ⟨i, ht, hi⟩ := h₂.taken c hmid hu
        exact ⟨i, (hsplit i).2 (Or.inr ht), hi⟩
    | false =>
        obtain ⟨i, ht, hi⟩ := h₁.taken c hc hmid
        exact ⟨i, (hsplit i).2 (Or.inl ht), (hold i (h₁.filled i ht)).trans hi⟩
  · rw [h₂.disk c hc fun i ht => hn i ((hsplit i).2 (Or.inr ht)),
      h₁.disk c hc fun i ht => ?_]
    rw [← hold i (h₁.filled i ht)]
    exact hn i ((hsplit i).2 (Or.inl ht))
  · rcases (hsplit i).1 hi with ht | ht
    · -- the second part does not touch the block
      have hp := h₁.filled i ht
      have hq := hold i hp
      have hsame : fs₂.disk (indexPtr (fs₁.disk idx) i) = fs₁.disk (indexPtr (fs₁.disk idx) i) := by
        refine h₂.disk _ (h₁.ok.ptrUsed i hp).2 fun j hj he => ?_
        have hj' : j = i := by
          refine h₂.ok.inj j i (he.trans hq.symm) ?_
          rw [he]
          exact hp
        rw [hj'] at hj
        exact hone i ht hj
      rw [hq, hsame, h₁.bytes i ht y hy]
      unfold mergedByte
      obtain ⟨ht1, ht2, -⟩ := ht
      by_cases hin : pos ≤ 4096 * i + y ∧ 4096 * i + y < pos + d₁.length
      · rw [if_pos hin, if_pos (by omega), List.getD_append _ _ _ _ (by omega)]
      · have hout : ¬(pos ≤ 4096 * i + y ∧ 4096 * i + y < pos + (d₁ ++ d₂).length) := by omega
        rw [if_neg hin, if_neg hout]
    · -- the first part did not touch the block
      have hsame : fs₁.disk (indexPtr (fs₂.disk idx) i) = fs.disk (indexPtr (fs₂.disk idx) i) := by
        refine h₁.disk _ (h₂.ok.ptrUsed i (h₂.filled i ht)).2 fun j hj he => ?_
        have hj' : j = i := by
          refine h₂.ok.inj j i ((hold j (h₁.filled j hj)).trans he) ?_
          rw [hold j (h₁.filled j hj)]
          exact h₁.filled j hj
        rw [hj'] at hj
        exact hone i hj ht
      rw [h₂.bytes i ht y hy, hsame]
      unfold mergedByte
      obtain ⟨ht1, ht2, ht3⟩ := ht
      by_cases hin : pos + d₁.length ≤ 4096 * i + y ∧ 4096 * i + y < pos + d₁.length + d₂.length
      · rw [if_pos hin, if_pos (by omega), List.getD_append_right _ _ _ _ (by omega)]
        congr 1
        omega
      · have hout : ¬(pos ≤ 4096 * i + y ∧ 4096 * i + y < pos + (d₁ ++ d₂).length) := by omega
        rw [if_neg hin, if_neg hout, if_neg (by omega), if_neg (by omega)]

/-- How one iteration on data that is left ends, when the loop returns. -/
inductive LoopStep (iSize idx fuel : Nat) (k k' : Kernel) (pos : Nat) (data : List UInt8)
    (res : Except Int Nat) : Prop
  | tooBig (ge : 1024 ≤ pos / 4096) (eq : res = .error (-EFBIG)) (same : k' = k)
  | noSpace (lt : pos / 4096 < 1024) (get : getDataBlock k idx (pos / 4096) = (0, k'))
      (eq : res = .error (-ENOSPC))
  | faulty (e : Int) (fault : e = - EIO ∨ e = -EFAULT) (eq : res = .error e)
  | next (lt : pos / 4096 < 1024) (b : Nat) (k₁ k₂ : Kernel)
      (get : getDataBlock k idx (pos / 4096) = (b, k₁)) (ne_zero : b ≠ 0)
      (fs : k₂.fs = k₁.fs.setBlock b
        ((zeroGap (k₁.fs.disk b) iSize pos (pos / 4096)).blit (pos % 4096)
          (data.take (min data.length (4096 - pos % 4096)))))
      (rest : writeBigLoop iSize idx fuel k₂ (pos + min data.length (4096 - pos % 4096))
        (data.drop (min data.length (4096 - pos % 4096))) = .ok (res, k'))

theorem writeBigLoop_cons {fuel : Nat} {k k' : Kernel} {data : List UInt8} {res : Except Int Nat}
    (hne : data ≠ []) (h : writeBigLoop iSize idx (fuel + 1) k pos data = .ok (res, k')) :
    LoopStep iSize idx fuel k k' pos data res := by
  cases data with
  | nil => exact absurd rfl hne
  | cons x xs =>
      have hlen : 0 < min (x :: xs).length (4096 - pos % 4096) := by
        rw [List.length_cons]
        omega
      cases (writeBigLoop_exits iSize idx fuel k pos x xs).1 h with
      | tooBig hpos eq =>
          cases eq
          exact .tooBig hpos rfl rfl
      | noBlock hpos hblock eq =>
          cases eq
          exact .noSpace (Nat.lt_of_not_le hpos) hblock rfl
      | unread hpos hblock hread eq =>
          cases eq
          exact .faulty _ (Or.inl rfl) rfl
      | fault hpos hblock hread hcopy hfull eq =>
          cases eq
          exact .faulty _ (Or.inr rfl) rfl
      | @copied b k₁ k₂ k₃ copied hpos hblock hread hcopy hfull eq =>
          have hfs₂ := Kernel.sbBread_true hread
          obtain ⟨hcop, hfs₃⟩ := Kernel.copyFromIter_full hlen hcopy hfull
          refine .next (Nat.lt_of_not_le hpos) (b + 1) k₁ _ hblock (by omega) ?_ eq.symm
          rw [Kernel.fs_brelse, Kernel.fs_setBlock, hfs₃, Kernel.fs_setBlock, hfs₂, hcop,
            Fs.disk_setBlock, if_pos rfl]
          unfold Fs.setBlock
          rw [Function.update_idem]

/-- A loop that stops early returns an error number. -/
theorem writeBigLoop_error : ∀ (fuel : Nat) (k k' : Kernel) (pos : Nat) (ret : Int)
    (data : List UInt8), writeBigLoop iSize idx fuel k pos data = .ok (.error ret, k') →
    ret < 0 := by
  intro fuel
  induction fuel with
  | zero =>
      intro k k' pos ret data h
      cases data <;> rw [writeBigLoop] at h <;> cases h
  | succ fuel ih =>
      intro k k' pos ret data h
      by_cases hnil : data = []
      · subst hnil
        rw [writeBigLoop] at h
        cases h
      cases writeBigLoop_cons hnil h with
      | tooBig _ heq _ =>
          cases heq
          decide
      | noSpace _ _ heq =>
          cases heq
          decide
      | faulty e he heq =>
          cases heq
          rcases he with rfl | rfl <;> decide
      | next _ b k₁ k₂ _ _ _ hrest => exact ih _ _ _ _ _ hrest

/-- One part of the data is copied into its block. -/
theorem writeBigLoop_part {k k₁ k₂ : Kernel} {b : Nat} {data : List UInt8} (h : FileOk k.fs idx)
    (hne : data ≠ []) (hlt : pos / 4096 < 1024) (hget : getDataBlock k idx (pos / 4096) = (b, k₁))
    (h0 : b ≠ 0) (hfs : k₂.fs = k₁.fs.setBlock b
      ((zeroGap (k₁.fs.disk b) iSize pos (pos / 4096)).blit (pos % 4096)
        (data.take (min data.length (4096 - pos % 4096))))) :
    Copied k.fs k₂.fs idx iSize pos (data.take (min data.length (4096 - pos % 4096))) := by
  have hlen : 0 < data.length := List.length_pos_iff.2 hne
  rw [hfs]
  refine (getDataBlock_got h hlt hget h0).copied h0 rfl ?_ ?_
  · rw [ne_eq, ← List.length_eq_zero_iff, List.length_take]
    omega
  · rw [List.length_take]
    omega

/-- **A copy loop that ran to its end copied the data.** -/
theorem writeBigLoop_copied : ∀ (fuel : Nat) (k k' : Kernel) (pos e : Nat) (data : List UInt8),
    FileOk k.fs idx → writeBigLoop iSize idx fuel k pos data = .ok (.ok e, k') →
    e = pos + data.length ∧ Copied k.fs k'.fs idx iSize pos data := by
  intro fuel
  induction fuel with
  | zero =>
      intro k k' pos e data h hrun
      cases data with
      | nil =>
          rw [writeBigLoop] at hrun
          cases hrun
          exact ⟨rfl, .nil h _ _⟩
      | cons x xs =>
          rw [writeBigLoop] at hrun
          cases hrun
  | succ fuel ih =>
      intro k k' pos e data h hrun
      by_cases hnil : data = []
      · subst hnil
        rw [writeBigLoop] at hrun
        cases hrun
        exact ⟨rfl, .nil h _ _⟩
      have hlen : 0 < data.length := List.length_pos_iff.2 hnil
      cases writeBigLoop_cons hnil hrun with
      | tooBig _ heq _ => cases heq
      | noSpace _ _ heq => cases heq
      | faulty _ _ heq => cases heq
      | next hlt b k₁ k₂ hget h0 hfs₂ hrest =>
          have hone := writeBigLoop_part h hnil hlt hget h0 hfs₂
          generalize htw : min data.length (4096 - pos % 4096) = tw at hone hrest
          have htake : (data.take tw).length = tw := by
            rw [List.length_take]
            omega
          have hne : data.take tw ≠ [] := by
            rw [ne_eq, ← List.length_eq_zero_iff, htake]
            omega
          obtain ⟨he, hall⟩ := ih k₂ k' (pos + tw) e (data.drop tw) hone.ok hrest
          rw [List.length_drop] at he
          refine ⟨by omega, ?_⟩
          have hcut : data.drop tw = [] ∨ (pos + (data.take tw).length) % 4096 = 0 := by
            by_cases hend : data.length ≤ tw
            · exact Or.inl (List.drop_eq_nil_of_le hend)
            · exact Or.inr (by omega)
          have hboth := hone.append (by rw [htake]; exact hall) hne hcut
          rwa [List.take_append_drop] at hboth

end Loop

/-! ## The bytes of the file -/

/-- Byte `x` of the file with index block `idx`. -/
def Fs.fileByte (fs : Fs) (idx x : Nat) : UInt8 :=
  if indexPtr (fs.disk idx) (x / 4096) = 0 then 0
  else (fs.disk (indexPtr (fs.disk idx) (x / 4096))).get (x % 4096)

section Bytes

variable {fs fs' : Fs} {idx iSize pos : Nat} {data : List UInt8}

theorem Copied.inode (h : Copied fs fs' idx iSize pos data) (i : Nat) :
    fs'.inode i = fs.inode i := by
  unfold Fs.inode
  rw [h.icache]

theorem Fs.bigByte_setInode {ino : Nat} {ci : Inode} (h : ci.indexBlock = idx) (x : Nat) :
    (fs.setInode ino ci).bigByte ino x = fs.fileByte idx x := by
  unfold Fs.bigByte Fs.fileByte
  rw [Fs.setInode_indexOf_self, h]
  rfl

theorem touches_of_mem {x len : Nat} (h : pos ≤ x ∧ x < pos + len) : Touches pos len (x / 4096) :=
  ⟨by omega, by omega, by omega⟩

/-- Bytes of a touched block. -/
theorem Copied.fileByte_touched (h : Copied fs fs' idx iSize pos data) {x : Nat}
    (ht : Touches pos data.length (x / 4096)) :
    fs'.fileByte idx x = mergedByte iSize pos data x
      ((fs.disk (indexPtr (fs'.disk idx) (x / 4096))).get (x % 4096)) := by
  unfold Fs.fileByte
  rw [if_neg (h.filled _ ht), h.bytes _ ht _ (by omega), Nat.div_add_mod]

/-- Other bytes are as before. -/
theorem Copied.fileByte_other (h : Copied fs fs' idx iSize pos data) {x : Nat}
    (ht : ¬Touches pos data.length (x / 4096)) : fs'.fileByte idx x = fs.fileByte idx x := by
  have hp : indexPtr (fs'.disk idx) (x / 4096) = indexPtr (fs.disk idx) (x / 4096) := by
    rcases h.ptr (x / 4096) with hp | ⟨-, hp, -⟩
    · exact hp
    · exact absurd hp ht
  unfold Fs.fileByte
  rw [hp]
  split
  · rfl
  · rename_i h0
    rw [← hp] at h0
    rw [← hp, h.disk _ (h.ok.ptrUsed _ h0).2]
    intro i hi he
    rw [h.ok.inj _ _ he (by rw [he]; exact h0)] at hi
    exact ht hi

/-- With zero-filled free blocks a new block holds what the hole read as. -/
theorem Copied.held (h : Copied fs fs' idx iSize pos data)
    (hz : ∀ b < fs.sbi.nrBlocks, fs.sbi.bfreeBitmap b = true → fs.disk b = Page.zero) {x : Nat}
    (ht : Touches pos data.length (x / 4096)) :
    (fs.disk (indexPtr (fs'.disk idx) (x / 4096))).get (x % 4096) = fs.fileByte idx x := by
  unfold Fs.fileByte
  rcases h.ptr (x / 4096) with hp | ⟨hp, -, hlt, hfree⟩
  · have h0 := h.filled _ ht
    rw [hp] at h0 ⊢
    rw [if_neg h0]
  · rw [if_pos hp, hz _ hlt hfree, Page.get_zero]

/-- **The content law**: the old bytes overwritten at `pos`, if the file reads as zeros from its
end on. -/
theorem Copied.fileByte_law (h : Copied fs fs' idx iSize pos data)
    (hz : ∀ b < fs.sbi.nrBlocks, fs.sbi.bfreeBitmap b = true → fs.disk b = Page.zero)
    (htail : ∀ x, iSize ≤ x → fs.fileByte idx x = 0) (x : Nat) :
    fs'.fileByte idx x = if pos ≤ x ∧ x < pos + data.length then data.getD (x - pos) 0
      else fs.fileByte idx x := by
  by_cases ht : Touches pos data.length (x / 4096)
  · rw [h.fileByte_touched ht, h.held hz ht]
    unfold mergedByte
    split
    · rfl
    · split
      · rename_i hgap
        exact (htail x hgap.1).symm
      · rfl
  · rw [h.fileByte_other ht, if_neg]
    intro hin
    exact ht (touches_of_mem hin)

end Bytes

/-! ## The call -/

section Call

variable {k k' : Kernel} {ino : Nat} {iocb iocb' : Kiocb} {data : List UInt8} {n : Int}

/-- A call that returns a byte count: the file had or got an index block, the loop ran to its end,
and the inode has its new fields. -/
theorem writeBigFile_ok (hrun : writeBigFile k ino iocb data = .ok ((n, iocb'), k')) (hn : 0 ≤ n) :
    ∃ k₁, ensureIndexBlock k ino = (true, k₁) ∧
      (FileOk k₁.fs (k₁.inode ino).indexBlock →
        n = data.length ∧
        iocb' = { iocb with kiPos := iocb.startPos (k.inode ino) + data.length } ∧
        ∃ fs₂, Copied k₁.fs fs₂ (k₁.inode ino).indexBlock (k.inode ino).iSize
            (iocb.startPos (k.inode ino)) data ∧
          k'.fs = fs₂.setInode ino { fs₂.inode ino with
            iSize := max (iocb.startPos (k.inode ino) + data.length) (k.inode ino).iSize,
            iBlocks := divRoundUp (max (iocb.startPos (k.inode ino) + data.length)
              (k.inode ino).iSize) 4096 + 1,
            iMtime := (k'.inode ino).iMtime, iCtime := (k'.inode ino).iCtime }) := by
  cases (writeBigFile_exits k ino iocb data).1 hrun with
  | noIndex hens eq =>
      cases eq
      exact absurd hn (by decide)
  | noSpace hens henough eq =>
      cases eq
      exact absurd hn (by decide)
  | unread hens henough hread eq =>
      cases eq
      exact absurd hn (by decide)
  | stopped hens henough hread hloop eq => cases eq
  | failed hens henough hread hloop eq =>
      cases eq
      exact absurd (writeBigLoop_error _ _ _ _ _ _ hloop) (by omega)
  | @written k₁ k₂ k₃ e hens henough hread hloop eq =>
      refine ⟨k₁, hens, fun hok => ?_⟩
      have hfs₂ := Kernel.sbBread_true hread
      obtain ⟨he, hcop⟩ := writeBigLoop_copied _ _ _ _ _ _ (by rw [hfs₂]; exact hok) hloop
      rw [hfs₂] at hcop
      cases eq
      refine ⟨rfl, by rw [he], k₃.fs, hcop, ?_⟩
      rw [he]
      simp [Kernel.inode]

/-- The blocks of a big file in a state with disjoint ownership. -/
theorem fileOk_of_owned {fs : Fs} {chain : List Nat} (h : Owned fs.Used (Refers fs chain))
    (hlt : fs.sbi.nrBlocks < 4294967296) (hk : fs.Is ino .big) :
    FileOk fs (fs.inode ino).indexBlock ∧ (fs.inode ino).indexBlock ≠ 0 := by
  generalize hidx : (fs.inode ino).indexBlock = idx
  have hindex : Refers fs chain (.index ino) idx := ⟨Or.inr hk, hidx.symm⟩
  have hhead : Refers fs chain (.header 0) 0 := ⟨rfl, by unfold SbInfo.metaBlocks; omega⟩
  have hdata : ∀ i, indexPtr (fs.disk idx) i ≠ 0 →
      Refers fs chain (.data ino i) (indexPtr (fs.disk idx) i) := by
    intro i hi
    refine ⟨hk, ?_, by rw [Fs.indexOf, hidx], hi⟩
    by_contra hge
    refine hi ((Page.word_eq_zero_iff _ _).2 fun y _ => ?_)
    exact Page.get_of_ge _ (by omega)
  refine ⟨⟨(h.used hhead).2, hlt, (h.used hindex).2, fun i hi => ⟨(h.used (hdata i hi)).2, ?_⟩,
    fun i j he hi => ?_⟩, ?_⟩
  · intro he
    have hri := hdata i hi
    rw [he] at hri
    cases h.inj hri hindex
  · have hri := hdata i hi
    rw [he] at hi hri
    cases h.inj hri (hdata j hi)
    rfl
  · rintro rfl
    cases h.inj hhead hindex

/-- A successful write to a big file. -/
theorem writeBigFile_big {chain : List Nat} (ho : Owned k.fs.Used (Refers k.fs chain))
    (hlt : k.fs.sbi.nrBlocks < 4294967296) (hk : k.fs.Is ino .big)
    (hrun : writeBigFile k ino iocb data = .ok ((n, iocb'), k')) (hn : 0 ≤ n) :
    n = data.length ∧ iocb' = { iocb with kiPos := iocb.startPos (k.inode ino) + data.length } ∧
      ∃ fs₂, Copied k.fs fs₂ (k.inode ino).indexBlock (k.inode ino).iSize
          (iocb.startPos (k.inode ino)) data ∧
        k'.fs = fs₂.setInode ino { fs₂.inode ino with
          iSize := max (iocb.startPos (k.inode ino) + data.length) (k.inode ino).iSize,
          iBlocks := divRoundUp (max (iocb.startPos (k.inode ino) + data.length)
            (k.inode ino).iSize) 4096 + 1,
          iMtime := (k'.inode ino).iMtime, iCtime := (k'.inode ino).iCtime } := by
  obtain ⟨hfile, h0⟩ := fileOk_of_owned ho hlt hk
  obtain ⟨k₁, hens, hrest⟩ := writeBigFile_ok hrun hn
  rw [ensureIndexBlock_keeps h0] at hens
  cases hens
  exact hrest hfile

end Call

end Ouichefs
