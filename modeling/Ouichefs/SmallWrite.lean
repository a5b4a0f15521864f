import Ouichefs.SliceRelease

/-!
# What writing a small file does

Each of the three branches of `write_small_file` (first write, in place, relocation) keeps the
invariant, changes the content of the file to the old content overwritten at the position, and
leaves every other file alone.  They differ in the position they leave in the `kiocb`.
-/

set_option autoImplicit false

namespace Ouichefs

open FreeMap

/-! ## Content -/

/-- The bytes of a small file. -/
def Fs.smallBytes (fs : Fs) (ino : Nat) : List UInt8 :=
  (fs.disk (fs.inode ino).getBno).bytes ((fs.inode ino).getSlice * 128) (fs.inode ino).iSize

@[simp] theorem Fs.smallBytes_length (fs : Fs) (ino : Nat) :
    (fs.smallBytes ino).length = (fs.inode ino).iSize := Page.bytes_length _ _ _

@[simp] theorem combinedBuf_length (old data : List UInt8) (pos : Nat) :
    (combinedBuf old pos data).length = max (pos + data.length) old.length := by
  simp [combinedBuf]
  omega

/-- Byte `i` of the overwritten content. -/
theorem combinedBuf_getD (old data : List UInt8) (pos i : Nat) :
    (combinedBuf old pos data).getD i 0 =
      if pos ≤ i ∧ i < pos + data.length then data.getD (i - pos) 0 else old.getD i 0 := by
  have hbuf : ∀ k, (old ++ List.replicate (pos - old.length) (0 : UInt8)).getD k 0 =
      old.getD k 0 := by
    intro k
    by_cases hk : k < old.length
    · simp [List.getD_eq_getElem?_getD, List.getElem?_append_left hk]
    · by_cases hk' : k - old.length < pos - old.length
      · simp [List.getD_eq_getElem?_getD, List.getElem?_append_right (Nat.le_of_not_lt hk), hk',
          List.getElem?_eq_none (Nat.le_of_not_lt hk)]
      · simp [List.getD_eq_getElem?_getD, List.getElem?_append_right (Nat.le_of_not_lt hk), hk',
          List.getElem?_eq_none (Nat.le_of_not_lt hk)]
  have hlen : (old ++ List.replicate (pos - old.length) (0 : UInt8)).length =
      max pos old.length := by
    simp; omega
  unfold combinedBuf
  simp only
  generalize hg : old ++ List.replicate (pos - old.length) (0 : UInt8) = buf at hbuf hlen
  have htake : (buf.take pos).length = pos := by
    simp only [List.length_take, hlen]; omega
  by_cases h1 : i < pos
  · rw [if_neg (by omega), ← hbuf, List.append_assoc]
    simp only [List.getD_eq_getElem?_getD]
    rw [List.getElem?_append_left (by omega), List.getElem?_take_of_lt h1]
  · by_cases h2 : i < pos + data.length
    · rw [if_pos (by omega)]
      simp only [List.getD_eq_getElem?_getD]
      rw [List.getElem?_append_left (by simp only [List.length_append, htake]; omega),
        List.getElem?_append_right (by omega), htake]
    · rw [if_neg (by omega), ← hbuf]
      simp only [List.getD_eq_getElem?_getD]
      rw [List.getElem?_append_right (by simp only [List.length_append, htake]; omega),
        List.getElem?_drop]
      congr 2
      simp only [List.length_append, htake]
      omega

/-- The bytes on a page are the overwritten content when every byte is. -/
theorem bytes_eq_combinedBuf {b : Block} {off pos size : Nat} {old data : List UInt8}
    (hsize : size = max (pos + data.length) old.length)
    (h : ∀ i < size, b.get (off + i) =
      if pos ≤ i ∧ i < pos + data.length then data.getD (i - pos) 0 else old.getD i 0) :
    b.bytes off size = combinedBuf old pos data := by
  refine List.ext_getElem (by simp [hsize]) fun i h1 h2 => ?_
  have hi : i < size := by simpa using h1
  have hc := combinedBuf_getD old data pos i
  rw [List.getD_eq_getElem _ _ h2] at hc
  rw [Page.bytes_getElem, h i hi, hc]

theorem combinedBuf_nil_zero (data : List UInt8) : combinedBuf [] 0 data = data := by
  simp [combinedBuf]

theorem combinedBuf_cover {old data : List UInt8} (h : old.length ≤ data.length) :
    combinedBuf old 0 data = data := by
  simp [combinedBuf, List.drop_eq_nil_of_le h]

/-- File `i` is the same in both states. -/
structure Kept (fs fs' : Fs) (i : Nat) : Prop where
  inode : fs'.inode i = fs.inode i
  bytes : fs.Is i .small → fs'.smallBytes i = fs.smallBytes i

theorem Kept.trans {fs₁ fs₂ fs₃ : Fs} {i : Nat} (h : Kept fs₁ fs₂ i) (ho : SameOwners fs₁ fs₂)
    (h' : Kept fs₂ fs₃ i) : Kept fs₁ fs₃ i := by
  refine ⟨h'.inode.trans h.inode, fun hs => ?_⟩
  have hs₂ : fs₂.Is i .small := ⟨(ho.live i).2 hs.1, by rw [h.inode]; exact hs.2⟩
  exact (h'.bytes hs₂).trans (h.bytes hs)

/-- Untouched slices hold the same bytes. -/
theorem Kept.of_bytes {fs fs' : Fs} {i : Nat} (hi : fs'.inode i = fs.inode i)
    (hb : fs.Is i .small → ∀ x, (fs.inode i).getSlice * 128 ≤ x →
      x < (fs.inode i).getSlice * 128 + (fs.inode i).iSize →
      (fs'.disk (fs.inode i).getBno).get x = (fs.disk (fs.inode i).getBno).get x) :
    Kept fs fs' i := by
  refine ⟨hi, fun hs => ?_⟩
  unfold Fs.smallBytes
  rw [hi]
  exact Page.bytes_congr fun x hx => hb hs _ (by omega) (by omega)

theorem SameOwners.trans {fs₁ fs₂ fs₃ : Fs} (h : SameOwners fs₁ fs₂) (h' : SameOwners fs₂ fs₃) :
    SameOwners fs₁ fs₃ := by
  have hview : ∀ ino, fs₁.Is ino .dir ∨ fs₁.Is ino .big →
      SameView (fs₁.inode ino) (fs₃.inode ino) := by
    intro ino hi
    have h1 := h.view ino (by tauto)
    have h2 := h'.view ino (by rw [h.is_dir, h.is_big]; tauto)
    exact h1.trans h2
  refine ⟨h.geom.trans h'.geom, h'.ifree.trans h.ifree,
    fun i hl hi => h'.cached i ((h.live i).2 hl) (h.cached i hl hi),
    fun i hl => (h'.mode i ((h.live i).2 hl)).trans (h.mode i hl), ?_, ?_⟩
  · intro ino hi
    rw [h'.is_dir, h'.is_big, h.is_dir, h.is_big] at hi
    exact hview ino (by tauto)
  · intro ino hi
    rw [h'.index ino (by rw [h.is_dir, h.is_big]; exact hi), h.index ino hi]

/-! ## Effects on the other files -/

section KeptBy

variable {fs fs' : Fs} {chain : List Nat} {ino b s n size : Nat}

/-- The size of a small file fits in its slices. -/
theorem SmallOk.size_le {i : Nat} (h : SmallOk fs chain i) :
    (fs.inode i).iSize ≤ (fs.inode i).numSlices * 128 := by
  have := h.slices
  unfold divRoundUp at this
  omega

theorem SmallOk.size_pos {i : Nat} (h : SmallOk fs chain i) (hs : fs.Is i .small) :
    1 ≤ (fs.inode i).iSize ∧ (fs.inode i).iSize ≤ 3968 := by
  have h1 := h.slices
  have h2 := (Inode.kind_small.1 hs.2).2.2.2
  have h3 := h.fits
  have h4 := h.slice_pos
  unfold divRoundUp at h1
  omega

theorem PlaceEff.kept (he : PlaceEff fs fs' ino b s n size)
    (hok : PlaceOk fs chain ino b s n size) (h : Core fs chain) {i : Nat} (hi : i ≠ ino) :
    Kept fs fs' i := by
  refine .of_bytes (he.inode_other hi) fun hs x h1 h2 => ?_
  have hsl := h.slices.file i hs
  have hsize := hsl.size_le
  have hpos := hsl.slice_pos
  by_cases hcb : (fs.inode i).getBno = b
  · rw [hcb]
    refine he.block.outside x (by omega) ?_
    rintro ⟨h3, h4⟩
    exact hok.avail i hi (x / 128) (by omega) (by omega) ⟨hs, hcb, by omega, by omega⟩
  · rw [he.disk _ hcb]

theorem Core.grow_kept (h : Core fs chain) (hfree : fs.sbi.bfreeBitmap b = true) (i : Nat) :
    Kept fs (fs.growChain chain.getLast? b) i := by
  refine .of_bytes (by simp [Fs.inode, Fs.growChain_icache]) fun hs x h1 h2 => ?_
  have hsl := h.slices.file i hs
  have hpos := hsl.slice_pos
  refine h.grow_same hfree ?_ x (by omega)
  intro hb
  have hu := (h.chain_used hsl.mem).2
  rw [hb, hfree] at hu
  cases hu

theorem Fs.detach_kept (fs : Fs) {ino i : Nat} (hi : i ≠ ino) : Kept fs (fs.detach ino) i :=
  .of_bytes (Fs.detach_other hi) fun _ _ _ _ => rfl

theorem Core.markFree_kept {Z : Prop} (h : Core fs chain Z)
    (hfree : ∀ i j, s ≤ j → j < s + n → ¬fs.OwnsSlice i b j) (i : Nat) :
    Kept fs (fs.markFree b s n) i := by
  refine .of_bytes rfl fun hs x h1 h2 => ?_
  have hsl := h.slices.file i hs
  have hsize := hsl.size_le
  have hpos := hsl.slice_pos
  rw [Fs.markFree_disk]
  split
  · rename_i hcb
    rw [get_freeSlices _ (by omega), ← hcb, if_neg]
    rintro ⟨h3, h4⟩
    exact hfree i (x / 128) (by omega) (by omega) ⟨hs, hcb, by omega, by omega⟩
  · rfl

theorem PruneEff.kept {Z : Prop} (he : PruneEff fs fs' [] chain) (h : Core fs chain Z) (i : Nat) :
    Kept fs fs' i := by
  refine .of_bytes (by rw [he.inode]) fun hs x h1 h2 => ?_
  have hsl := h.slices.file i hs
  have hpos := hsl.slice_pos
  exact he.restSame _ hsl.mem (h.slices.not_allFree hs) x (by omega)

end KeptBy

/-! ## Deleting the slices of a file -/

/-- What deleting slices `s … s + n - 1` of block `bno` leaves behind. -/
structure Deleted (fs fs' : Fs) (chain chain' : List Nat) (bno s n : Nat) (Z : Prop := True) :
    Prop where
  core : Core fs' chain' Z
  length : chain'.length ≤ chain.length
  owners : SameOwners fs fs'
  kept : ∀ i, Kept fs fs' i
  icache : fs'.icache = fs.icache
  outside : ∀ c, c ∉ chain → fs'.disk c = fs.disk c
  tight : ∀ lost leak, TightBut fs chain lost leak →
    (∀ c j, leak c j → c = bno ∧ s ≤ j ∧ j < s + n) → TightBut fs' chain' lost fun _ _ => False

/-- Freeing slices that belong to nobody and pruning the chain. -/
theorem PruneEff.deleted {fs fs' : Fs} {chain : List Nat} {bno s n : Nat} {Z : Prop}
    (he : PruneEff (fs.markFree bno s n) fs' [] chain) (h : Core fs chain Z) (hb : bno ∈ chain)
    (hs : 1 ≤ s) (hn : s + n ≤ 32) (hfree : ∀ i j, s ≤ j → j < s + n → ¬fs.OwnsSlice i bno j) :
    Deleted fs fs' chain (keepUsed (fs.markFree bno s n) chain) bno s n Z := by
  have hmark := h.markFree hb hs hn hfree
  have hown := h.markFree_owners (s := s) (n := n) hb
  refine ⟨hmark.prune he, List.length_filter_le _ _, hown.trans (he.owners hmark),
    fun i => (h.markFree_kept hfree i).trans hown (he.kept hmark i), he.icache,
    fun c hc => ?_, fun lost leak ht hl => ?_⟩
  · rw [he.outside c (by simp) hc, Fs.markFree_disk, if_neg]
    rintro rfl
    exact hc hb
  · exact (ht.markFree h hb hs hn hl).prune hmark he

/-! ## Filling slices -/

namespace Rewritten

variable {ob nb : Block} {s n : Nat}

theorem of_taken
    (h : ∀ j, s ≤ j → j < s + n → (sliceBitmap ob).getLsbD j = false) : Rewritten ob ob s n := by
  refine ⟨fun j hj => ?_, rfl, fun _ _ _ => rfl⟩
  by_cases hin : s ≤ j ∧ j < s + n
  · simp [h j hin.1 hin.2]
  · simp [hin]

theorem take (ob : Block) (hs : 1 ≤ s) (hn : s + n ≤ 32) :
    Rewritten ob (setSliceBitmap ob (sliceBitmap ob &&& ~~~runMask 32 n s)) s n := by
  refine ⟨fun j hj => ?_, sliceNext_setSliceBitmap _ _, fun i hi _ =>
    get_setSliceBitmap _ _ (by omega)⟩
  rw [sliceBitmap_setSliceBitmap, BitVec.getLsbD_and, BitVec.getLsbD_not,
    getLsbD_runMask (by omega) hj]
  simp [hj]

theorem blit (h : Rewritten ob nb s n) (hs : 1 ≤ s) (hn : s + n ≤ 32) {off : Nat}
    {data : List UInt8} (h1 : s * 128 ≤ off) (h2 : off + data.length ≤ (s + n) * 128) :
    Rewritten ob (nb.blit off data) s n := by
  have hget := @Page.get_blit _ nb off data (by omega)
  refine ⟨fun j hj => ?_, ?_, fun i hi hout => ?_⟩
  · rw [← h.bitmap j hj]
    congr 1
    exact sliceBitmap_congr fun i hi => by rw [hget, if_neg (by omega)]
  · rw [← h.next]
    exact sliceNext_congr fun i _ hi => by rw [hget, if_neg (by omega)]
  · rw [hget, if_neg (by omega)]
    exact h.outside i hi hout

end Rewritten

section Fill

variable {fs : Fs} {ino pos newSize b s n : Nat} {t : Timespec} {data : List UInt8}

/-- Writing into slices the inode already counts. -/
theorem Fs.fillSlices_eff (hn : (fs.inode ino).numSlices = n) (hn0 : n ≠ 0) (hb : b < 134217728)
    (hs : 1 ≤ s) (hfit : s + n ≤ 32) (hpos : pos + data.length ≤ newSize) (hsize : newSize ≤ n * 128)
    (htaken : ∀ j, s ≤ j → j < s + n → (sliceBitmap (fs.disk b)).getLsbD j = false)
    (htail : ∀ i, newSize ≤ i → i < n * 128 → (fs.disk b).get (s * 128 + i) = 0) :
    PlaceEff fs (fs.fillSlices ino t data pos newSize b s) ino b s n newSize := by
  have hblk : (fs.fillSlices ino t data pos newSize b s).disk b =
      (fs.disk b).blit (s * 128 + pos) data := by simp [Fs.fillSlices]
  have hget := @Page.get_blit _ (fs.disk b) (s * 128 + pos) data (by omega)
  refine ⟨⟨_, rfl⟩, fun c hc => by simp [Fs.fillSlices, hc], ?_, fun i h1 h2 => ?_,
    ⟨_, rfl, rfl, rfl, ?_, hn, rfl⟩⟩
  · rw [hblk]
    exact (Rewritten.of_taken htaken).blit hs hfit (by omega) (by omega)
  · rw [hblk, hget, if_neg (by omega)]
    exact htail i h1 h2
  · exact add32_of_lt (by omega)

/-- Taking free slices and writing into them. -/
theorem Fs.storeSmall_eff (hb : b < 134217728) (hs : 1 ≤ s) (h1 : 1 ≤ pos + data.length)
    (hfit : s + divRoundUp (pos + data.length) 128 ≤ 32)
    (hzero : ∀ i, i < divRoundUp (pos + data.length) 128 * 128 →
      (fs.disk b).get (s * 128 + i) = 0) :
    PlaceEff fs (fs.storeSmall ino t data pos b s) ino b s (divRoundUp (pos + data.length) 128)
      (pos + data.length) := by
  have hle : pos + data.length ≤ divRoundUp (pos + data.length) 128 * 128 := by
    unfold divRoundUp; omega
  have hidx : 32 * b + s < 4294967296 := by omega
  generalize hn : divRoundUp (pos + data.length) 128 = n at *
  have hblk : (fs.storeSmall ino t data pos b s).disk b =
      (setSliceBitmap (fs.disk b) (sliceBitmap (fs.disk b) &&& ~~~runMask 32 n s)).blit
        (s * 128 + pos) data := by
    simp [Fs.storeSmall, Fs.fillSlices, Fs.takeSlices, hn]
  refine ⟨⟨_, rfl⟩, fun c hc => ?_, ?_, fun i h1 h2 => ?_,
    ⟨{ fs.inode ino with
        iSize := pos + data.length, iMtime := t, iCtime := t, numSlices := n,
        indexBlock := 32 * b + s }, ?_, rfl, rfl, rfl, rfl, rfl⟩⟩
  · simp [Fs.storeSmall, Fs.fillSlices, Fs.takeSlices, hc]
  · rw [hblk]
    exact (Rewritten.take _ hs hfit).blit hs hfit (by omega) (by omega)
  · rw [hblk, Page.get_blit _ (by omega), if_neg (by omega), get_setSliceBitmap _ _ (by omega)]
    exact hzero i h2
  · funext i
    simp only [Fs.storeSmall, Fs.fillSlices, Fs.takeSlices, hn, Fs.setInode, Fs.setBlock,
      Fs.setSbi, Function.update_apply]
    by_cases hi : i = ino
    · simp [hi, Fs.inode, add32_of_lt hidx]
    · simp [hi]

end Fill

/-! ## The first write -/

/-- `ino` is a file without storage. -/
structure Fs.Unplaced (fs : Fs) (ino : Nat) : Prop where
  fresh : fs.Is ino .fresh
  size : (fs.inode ino).iSize = 0

/-- File `ino`, which had no storage, now holds `content` in slices that were free. -/
structure Stored (fs fs' : Fs) (chain chain' : List Nat) (ino : Nat) (content : List UInt8) :
    Prop where
  core : Core fs' chain'
  sub : ∀ c ∈ chain, c ∈ chain'
  added : ∀ c ∈ chain', c ∈ chain ∨ fs.sbi.bfreeBitmap c = true
  outside : ∀ c, fs.Used c → c ∉ chain → fs'.disk c = fs.disk c
  length : chain'.length ≤ chain.length + 1
  owners : SameOwners fs fs'
  kept : ∀ i, i ≠ ino → Kept fs fs' i
  small : fs'.Is ino .small
  bytes : fs'.smallBytes ino = content
  wasFree : ∀ c ∈ chain, ∀ j, fs'.OwnsSlice ino c j → (sliceBitmap (fs.disk c)).getLsbD j = true
  tight : ∀ lost leak, TightBut fs chain lost leak → TightBut fs' chain' lost leak

section Store

variable {fs : Fs} {chain : List Nat} {ino pos b s : Nat} {t : Timespec} {data : List UInt8}

theorem Core.placeOk_run (h : Core fs chain) (hino : fs.Is ino .fresh) {n size : Nat}
    (hb : b ∈ chain) (hs : 1 ≤ s) (hfit : s + n ≤ 32) (hn : n ≠ 0) (hsize : n = divRoundUp size 128)
    (hrun : HasRun (sliceBitmap (fs.disk b)) n s) : PlaceOk fs chain ino b s n size := by
  obtain ⟨h1, h2, -⟩ := Inode.kind_fresh.1 hino.2
  refine ⟨hino.1, h1, h2, hb, hs, hfit, hn, hsize, ?_⟩
  rintro i - j hj1 hj2 ⟨hsm, hbno, h3, h4⟩
  have htaken := (h.slices.file i hsm).taken j h3 h4
  rw [hbno, hrun j hj1 hj2] at htaken
  cases htaken

theorem Core.run_zero (h : Core fs chain) {n : Nat} (hb : b ∈ chain) (hs : 1 ≤ s)
    (hfit : s + n ≤ 32) (hrun : HasRun (sliceBitmap (fs.disk b)) n s) :
    ∀ i, i < n * 128 → (fs.disk b).get (s * 128 + i) = 0 := by
  intro i hi
  exact h.slices.freeZero b hb _ (by omega) (by omega) (hrun _ (by omega) (by omega))

/-- Storing a file in a run of free slices. -/
theorem Core.store (h : Core fs chain) (hino : fs.Unplaced ino) (hb : b ∈ chain) (hs : 1 ≤ s)
    (h1 : 1 ≤ pos + data.length) (hfit : s + divRoundUp (pos + data.length) 128 ≤ 32)
    (hrun : HasRun (sliceBitmap (fs.disk b)) (divRoundUp (pos + data.length) 128) s) :
    Stored fs (fs.storeSmall ino t data pos b s) chain chain ino (combinedBuf [] pos data) := by
  have hblt : b < 134217728 := by
    have := (h.chain_used hb).1
    have := h.sb.blocks_le trivial
    omega
  have hzero := h.run_zero hb hs hfit hrun
  have he := @Fs.storeSmall_eff fs ino pos b s t data hblt hs h1 hfit hzero
  have hn : divRoundUp (pos + data.length) 128 ≠ 0 := by unfold divRoundUp; omega
  have hok := h.placeOk_run hino.fresh hb hs hfit hn rfl hrun
  obtain ⟨hk, hbno, hsl, -, hsize⟩ := he.inode_self hok
  have hown := he.owners hok h
  refine ⟨h.place hok he, fun _ => id, fun _ => Or.inl, fun c _ hc => he.disk c ?_, Nat.le_succ _,
    hown, fun i hi => he.kept hok h hi, ⟨(hown.live ino).2 hino.fresh.1, hk⟩, ?_, ?_, ?_⟩
  · rintro rfl
    exact hc hb
  · unfold Fs.smallBytes
    rw [hbno, hsl, hsize]
    refine bytes_eq_combinedBuf (by simp) fun i hi => ?_
    have hblk : (fs.storeSmall ino t data pos b s).disk b = (setSliceBitmap (fs.disk b)
        (sliceBitmap (fs.disk b) &&& ~~~runMask 32 (divRoundUp (pos + data.length) 128) s)).blit
          (s * 128 + pos) data := by
      simp [Fs.storeSmall, Fs.fillSlices, Fs.takeSlices]
    have hle : pos + data.length ≤ divRoundUp (pos + data.length) 128 * 128 := by
      unfold divRoundUp; omega
    rw [hblk, Page.get_blit _ (by omega)]
    by_cases hin : pos ≤ i ∧ i < pos + data.length
    · rw [if_pos (by omega), if_pos hin]
      congr 1
      omega
    · rw [if_neg (by omega), if_neg hin, get_setSliceBitmap _ _ (by omega), hzero i (by omega)]
      rfl
  · intro c _ j hj
    obtain ⟨rfl, h2, h3⟩ := (he.owns_self hok h).1 hj
    exact hrun j h2 h3
  · intro lost leak ht
    refine ht.place h hok he ?_
    rintro c j ⟨hsm, -⟩
    have := hino.fresh.kind_unique hsm
    cases this

/-- Storing a file in the first slices of a new block at the end of the chain. -/
theorem Core.growStore (h : Core fs chain) (hino : fs.Unplaced ino) (hb : 0 < b)
    (hlt : b < fs.sbi.nrBlocks) (hfree : fs.sbi.bfreeBitmap b = true)
    (h1 : 1 ≤ pos + data.length) (h2 : pos + data.length ≤ 3968) :
    Stored fs ((fs.growChain chain.getLast? b).storeSmall ino t data pos b 1) chain (chain ++ [b])
      ino (combinedBuf [] pos data) := by
  have hg := h.grow hb hlt hfree
  have hown := h.grow_owners hfree
  have hinode : (fs.growChain chain.getLast? b).inode = fs.inode := by
    funext i; simp [Fs.inode, Fs.growChain_icache]
  have hn := (divRoundUp_128 h1 h2).2
  have hino' : (fs.growChain chain.getLast? b).Unplaced ino :=
    ⟨⟨(hown.live ino).2 hino.fresh.1, hinode ▸ hino.fresh.2⟩, hinode ▸ hino.size⟩
  have hbm : sliceBitmap ((fs.growChain chain.getLast? b).disk b) = bitmapAllFree := by
    rw [h.growChain_disk hfree, if_pos rfl, sliceBitmap_setSliceBitmap]
  have hst := hg.store (b := b) (t := t) hino' (by simp) (Nat.le_refl 1) h1
    (by omega) (by rw [hbm]; exact bitmapAllFree_hasRun hn)
  have hne : ∀ c, fs.Used c → c ≠ b := by
    rintro c hu rfl
    rw [hu.2] at hfree
    cases hfree
  refine ⟨hst.core, fun c hc => List.mem_append_left _ hc, fun c hc => ?_, fun c hu hc => ?_,
    by simp, hown.trans hst.owners,
    fun i hi => (h.grow_kept hfree i).trans hown (hst.kept i hi), hst.small, hst.bytes, ?_,
    fun lost leak ht => hst.tight lost leak (ht.grow h hfree)⟩
  · rcases List.mem_append.1 hc with hc | hc
    · exact Or.inl hc
    · rw [List.mem_singleton.1 hc]
      exact Or.inr hfree
  · have hcb := hne c hu
    have hu' : (fs.growChain chain.getLast? b).Used c := by
      unfold Fs.Used
      rw [Fs.growChain_sbi]
      exact ⟨hu.1, (Function.update_of_ne hcb _ _).trans hu.2⟩
    rw [hst.outside c hu' (by simp [hc, hcb]), h.growChain_disk hfree, if_neg hcb, if_neg]
    exact fun hl => hc (List.mem_of_getLast? hl.symm)
  intro c hc j hj
  have hcb : c ≠ b := hne c (h.chain_used hc)
  have := hst.wasFree c (List.mem_append_left _ hc) j hj
  rwa [(h.grow_same hfree hcb).sliceBitmap] at this

end Store

/-- No slices and no block are left for `n` slices. -/
def Fs.NoRoom (fs : Fs) (chain : List Nat) (n : Nat) : Prop :=
  (∀ c ∈ chain, NoRun (sliceBitmap (fs.disk c)) n) ∧
    ∀ b < fs.sbi.nrBlocks, fs.sbi.bfreeBitmap b = false

/-- A write that found no room: block 0 was handed back. -/
structure Overflowed (run : Outcome (Int × Kiocb)) : Prop where
  failed : run.kernel.AllocFailed
  bit0 : run.kernel.fs.sbi.bfreeBitmap 0 = true
  nonpos : ∀ r k', run = .ok (r, k') → r.1 ≤ 0

/-- **The first write of a file stores it, or finds no room.** -/
theorem writeSmallFileNew_core {k : Kernel} {chain : List Nat} {ino : Nat} {iocb : Kiocb}
    {data : List UInt8} {pos : Nat} (hf : k.faults = []) (h : Core k.fs chain)
    (hino : k.fs.Unplaced ino) (hpos : iocb.startPos (k.inode ino) = pos)
    (h1 : 1 ≤ pos + data.length) (h2 : pos + data.length ≤ 3968) :
    (∃ k' chain', writeSmallFileNew k ino iocb data =
        .ok (((data.length : Int), { iocb with kiPos := pos }), k') ∧ k'.faults = [] ∧
      (k'.AllocFailed ↔ k.AllocFailed) ∧
      Stored k.fs k'.fs chain chain' ino (combinedBuf [] pos data)) ∨
    (k.fs.NoRoom chain (divRoundUp (pos + data.length) 128) ∧
      Overflowed (writeSmallFileNew k ino iocb data)) := by
  cases writeSmallFileNew_spec hf h.chainOk hino.size hpos h2 with
  | found b s t k' hb hs heq hf' ha hfs =>
      refine Or.inl ⟨k', chain, heq, hf', ha, ?_⟩
      rw [hfs]
      exact h.store hino hb hs.pos h1 hs.fits hs.run
  | grown b t k' hnone hb hlt hfree heq hf' ha hfs =>
      refine Or.inl ⟨k', chain ++ [b], heq, hf', ha, ?_⟩
      rw [hfs]
      exact h.growStore hino hb hlt hfree h1 h2
  | full hnone hfull hfail hbit hnonpos => exact Or.inr ⟨⟨hnone, hfull⟩, hfail, hbit, hnonpos⟩

/-! ## The three branches -/

/-- A small write that succeeded, whatever the directories say. -/
structure Landed (k k' : Kernel) (chain chain' : List Nat) (ino : Nat) (content : List UInt8) :
    Prop where
  faults : k'.faults = []
  alloc : k'.AllocFailed ↔ k.AllocFailed
  core : Core k'.fs chain'
  outside : ∀ c, k.fs.Used c → c ∉ chain → k'.fs.disk c = k.fs.disk c
  length : chain'.length ≤ chain.length + 1
  owners : SameOwners k.fs k'.fs
  kept : ∀ i, i ≠ ino → Kept k.fs k'.fs i
  small : k'.fs.Is ino .small
  bytes : k'.fs.smallBytes ino = content
  tight : Tight k.fs chain → Tight k'.fs chain'

/-- A small write that succeeded. -/
structure Written (k k' : Kernel) (chain chain' : List Nat) (ino : Nat) (content : List UInt8) :
    Prop extends Landed k k' chain chain' ino content where
  wf : WF k'.fs chain'

theorem WF.of_small {fs fs' : Fs} {chain chain' : List Nat} {ino : Nat} (h : WF fs chain)
    (hc : Core fs' chain') (ho : SameOwners fs fs') (hk : ∀ i, i ≠ ino → Kept fs fs' i)
    (hs : fs'.Is ino .small) : WF fs' chain' := by
  have hold : ∀ i κ, κ ≠ .small → fs'.Is i κ → i ≠ ino ∧ fs.Is i κ := by
    intro i κ hκ hi
    have hne : i ≠ ino := by
      rintro rfl
      exact hκ (hi.kind_unique hs)
    exact ⟨hne, (ho.live i).1 hi.1, by rw [← (hk i hne).inode]; exact hi.2⟩
  refine { hc with
    dirs := ho.dirs h.dirs, table := h.table.frame ho.geom, fresh := fun i hi => ?_,
    stray := fun i hi => ?_ }
  · obtain ⟨hne, hi'⟩ := hold i .fresh (by decide) hi
    rw [(hk i hne).inode]
    exact h.fresh i hi'
  · obtain ⟨hne, hi'⟩ := hold i .stray (by decide) hi
    rw [(hk i hne).inode]
    exact h.stray i hi'

theorem Landed.written {k k' : Kernel} {chain chain' : List Nat} {ino : Nat}
    {content : List UInt8} (hl : Landed k k' chain chain' ino content) (h : WF k.fs chain) :
    Written k k' chain chain' ino content :=
  ⟨hl, h.of_small hl.core hl.owners hl.kept hl.small⟩

section Branches

variable {k : Kernel} {chain : List Nat} {ino : Nat} {iocb : Kiocb} {data : List UInt8}

/-- The old content of a file without slices. -/
def Fs.oldBytes (fs : Fs) (ino : Nat) : List UInt8 :=
  if (fs.inode ino).kind = .small then fs.smallBytes ino else []

theorem writeSmallFile_first {pos : Nat} (hf : k.faults = []) (h : Core k.fs chain)
    (hino : k.fs.Unplaced ino) (hpos : iocb.startPos (k.inode ino) = pos)
    (h1 : 1 ≤ pos + data.length) (h2 : pos + data.length ≤ 3968) :
    (∃ k' chain', writeSmallFile k ino iocb data =
        .ok (((data.length : Int), { iocb with kiPos := pos }), k') ∧
      Landed k k' chain chain' ino (combinedBuf [] pos data)) ∨
    (k.fs.NoRoom chain (divRoundUp (pos + data.length) 128) ∧
      Overflowed (writeSmallFile k ino iocb data)) := by
  have hidx := (Inode.kind_fresh.1 hino.fresh.2).2.2
  rw [writeSmallFile_new _ _ hidx]
  rcases writeSmallFileNew_core hf h hino hpos h1 h2 with
    ⟨k', chain', heq, hf', ha, hst⟩ | hno
  · exact Or.inl ⟨k', chain', heq, hf', ha, hst.core, hst.outside, hst.length, hst.owners, hst.kept,
      hst.small, hst.bytes, hst.tight _ _⟩
  · exact Or.inr hno

/-- The checks at the start of `rewriteSmallFile` pass. -/
theorem rewriteSmallFile_eq (hf : k.faults = []) (h : Core k.fs chain) (hino : k.fs.Is ino .small) :
    (k.inode ino).numSlices ≠ 0 ∧ ¬((k.inode ino).getBno = 0 ∨ (k.inode ino).getSlice = 0) ∧
      k.sbBread (k.inode ino).getBno = (true, k.log (.bread (k.inode ino).getBno)) := by
  have hok := h.slices.file ino hino
  have hpos := hok.slice_pos
  refine ⟨(Inode.kind_small.1 hino.2).2.2.2, ?_, Kernel.sbBread_ok hf (h.chain_used hok.mem).1⟩
  rintro (h0 | h0)
  · exact h.isChain.ne_zero _ hok.mem h0
  · exact absurd hpos (by rw [show (k.fs.inode ino).getSlice = 0 from h0]; decide)

theorem writeSmallFile_inPlace {pos : Nat} (hf : k.faults = []) (h : Core k.fs chain)
    (hino : k.fs.Is ino .small) (hpos : iocb.startPos (k.inode ino) = pos)
    (hslices : (k.inode ino).numSlices = divRoundUp (max (pos + data.length) (k.inode ino).iSize) 128) :
    ∃ k', writeSmallFile k ino iocb data =
        .ok (((data.length : Int), { iocb with kiPos := pos }), k') ∧
      Landed k k' chain chain ino (combinedBuf (k.fs.smallBytes ino) pos data) := by
  have hok := h.slices.file ino hino
  obtain ⟨hk1, hk2, hk3, hk4⟩ := Inode.kind_small.1 hino.2
  obtain ⟨hn, hz, hread⟩ := rewriteSmallFile_eq hf h hino
  generalize hsz : max (pos + data.length) (k.inode ino).iSize = newSize at hslices
  have hle : newSize ≤ (k.fs.inode ino).numSlices * 128 := by
    have : (k.fs.inode ino).numSlices = divRoundUp newSize 128 := hslices
    unfold divRoundUp at this
    omega
  have hblt : (k.fs.inode ino).getBno < 134217728 := by
    have := (h.chain_used hok.mem).1
    have := h.sb.blocks_le trivial
    omega
  have hsz' : max (pos + data.length) (k.fs.inode ino).iSize = newSize := hsz
  have hfits := hok.fits
  have hsp := hok.slice_pos
  have he : PlaceEff k.fs (k.fs.fillSlices ino k.now data pos newSize (k.fs.inode ino).getBno
      (k.fs.inode ino).getSlice) ino (k.fs.inode ino).getBno (k.fs.inode ino).getSlice
      (k.fs.inode ino).numSlices newSize := Fs.fillSlices_eff rfl hn hblt hok.slice_pos hok.fits
    (by omega) hle hok.taken fun i h3 h4 => hok.tail i (by omega) h4
  have hpok : PlaceOk k.fs chain ino (k.fs.inode ino).getBno (k.fs.inode ino).getSlice
      (k.fs.inode ino).numSlices newSize := by
    refine ⟨hino.1, hk1, hk2, hok.mem, hok.slice_pos, hok.fits, hk4, hslices, ?_⟩
    intro i hi j h3 h4 hown
    exact hi (h.slices.disjoint hown ⟨hino, rfl, h3, h4⟩)
  obtain ⟨k', hrun, hf', ha', hfs'⟩ := copyToSlices_ok
    (k := k.log (.bread (k.inode ino).getBno)) (by simpa using hf) ino iocb data pos newSize
    (k.inode ino).getBno (k.inode ino).getSlice
  have hfs : k'.fs = k.fs.fillSlices ino k.now data pos newSize (k.fs.inode ino).getBno
      (k.fs.inode ino).getSlice := hfs'
  refine ⟨k', ?_, ?_⟩
  · rw [writeSmallFile_rewrite _ _ hk3, (rewriteSmallFile_exits k ino iocb data).2
      (.inPlace hn hz hread (by rw [hpos, hsz]; exact hslices) rfl), hpos, hsz]
    exact hrun
  · obtain ⟨hkind, hbno, hsl, -, hsize⟩ := he.inode_self hpok
    have hown := he.owners hpok h
    have hsmall : k'.fs.Is ino .small := hfs ▸ ⟨(hown.live ino).2 hino.1, hkind⟩
    have hkept : ∀ i, i ≠ ino → Kept k.fs k'.fs i := fun i hi => hfs ▸ he.kept hpok h hi
    have hcore : Core k'.fs chain := hfs ▸ h.place hpok he
    refine ⟨hf', by rw [ha']; simp, hcore, fun c _ hc => ?_, Nat.le_succ _, hfs ▸ hown, hkept,
      hsmall, ?_, fun ht => ?_⟩
    · rw [hfs]
      refine he.disk c ?_
      rintro rfl
      exact hc hok.mem
    · rw [hfs]
      unfold Fs.smallBytes
      rw [hbno, hsl, hsize]
      refine bytes_eq_combinedBuf (by simpa using hsz'.symm) fun i hi => ?_
      have hblk : (k.fs.fillSlices ino k.now data pos newSize (k.fs.inode ino).getBno
          (k.fs.inode ino).getSlice).disk (k.fs.inode ino).getBno =
          (k.fs.disk (k.fs.inode ino).getBno).blit ((k.fs.inode ino).getSlice * 128 + pos) data := by
        simp [Fs.fillSlices]
      rw [hblk, Page.get_blit _ (by omega)]
      by_cases hin : pos ≤ i ∧ i < pos + data.length
      · rw [if_pos (by omega), if_pos hin]
        congr 1
        omega
      · rw [if_neg (by omega), if_neg hin]
        by_cases hold : i < (k.fs.inode ino).iSize
        · rw [Page.bytes_getD _ hold]
        · -- past the old size the slices are zero
          rw [hok.tail i (by omega) (by omega), List.getD_eq_default]
          simpa using hold
    · rw [hfs]
      refine ht.place h hpok he ?_
      rintro c j ⟨-, h3, h4, h5⟩
      exact ⟨h3.symm, h4, h5⟩

/-- The slices the file had before it was stored elsewhere belong to nobody. -/
theorem Stored.old_unowned {fs fs' : Fs} {chain' : List Nat} {content : List UInt8}
    (h : Core fs chain) (hino : fs.Is ino .small)
    (hst : Stored (fs.detach ino) fs' chain chain' ino content) :
    ∀ i j, (fs.inode ino).getSlice ≤ j → j < (fs.inode ino).getSlice + (fs.inode ino).numSlices →
      ¬fs'.OwnsSlice i (fs.inode ino).getBno j := by
  intro i j h1 h2 hown
  have hok := h.slices.file ino hino
  by_cases hi : i = ino
  · subst hi
    have hfree := hst.wasFree _ hok.mem j hown
    have htaken := hok.taken j h1 h2
    rw [show (fs.detach i).disk = fs.disk from rfl, htaken] at hfree
    cases hfree
  · have hkept := (hst.kept i hi).inode.trans (Fs.detach_other hi)
    have hown' : fs.OwnsSlice i (fs.inode ino).getBno j := by
      unfold Fs.OwnsSlice Fs.Is at hown ⊢
      rwa [hst.owners.live, (Fs.detach_owners hino).live, hkept] at hown
    exact hi (h.slices.disjoint hown' ⟨hino, rfl, h1, h2⟩)

/-- The kernel in which `write_small_file` calls itself: it holds the old block, and the inode has
let its slices go. -/
def Kernel.detach (k : Kernel) (ino : Nat) : Kernel :=
  (k.log (.bread (k.inode ino).getBno)).setInode ino (k.inode ino).detached

@[simp] theorem Kernel.fs_detach (k : Kernel) (ino : Nat) :
    (k.detach ino).fs = k.fs.detach ino := rfl

@[simp] theorem Kernel.faults_detach (k : Kernel) (ino : Nat) :
    (k.detach ino).faults = k.faults := rfl

@[simp] theorem Kernel.allocFailed_detach (k : Kernel) (ino : Nat) :
    (k.detach ino).AllocFailed ↔ k.AllocFailed := by
  simp [Kernel.detach]

theorem Fs.detach_unplaced {fs : Fs} (hs : fs.Is ino .small) : (fs.detach ino).Unplaced ino :=
  ⟨⟨((Fs.detach_owners hs).live ino).2 hs.1, Fs.detach_kind hs⟩,
    by simp [Fs.detach, Inode.detached]⟩

/-- **A write that needs another number of slices makes the file longer**, and writes the whole new
content as the first one of the detached inode. -/
theorem writeSmallFile_moves {pos : Nat} (hf : k.faults = []) (h : Core k.fs chain)
    (hino : k.fs.Is ino .small) (hpos : iocb.startPos (k.inode ino) = pos)
    (hslices : (k.inode ino).numSlices ≠
      divRoundUp (max (pos + data.length) (k.inode ino).iSize) 128) :
    (k.fs.inode ino).iSize < pos + data.length ∧
      ∃ io : Kiocb, io.startPos ((k.detach ino).inode ino) = 0 ∧
        writeSmallFile k ino iocb data = finishRelocation (k.inode ino) ino pos data.length
          (writeSmallFileNew (k.detach ino) ino io
            (combinedBuf (k.fs.smallBytes ino) pos data)) := by
  have hok := h.slices.file ino hino
  obtain ⟨-, -, hk3, hk4⟩ := Inode.kind_small.1 hino.2
  obtain ⟨hn, hz, hread⟩ := rewriteSmallFile_eq hf h hino
  -- otherwise the number of slices would be unchanged
  have hgrow : (k.fs.inode ino).iSize < pos + data.length := by
    by_contra hle
    refine hslices ?_
    rw [Nat.max_eq_right (show pos + data.length ≤ (k.inode ino).iSize from Nat.le_of_not_lt hle)]
    exact hok.slices
  refine ⟨hgrow, ?_⟩
  have hreloc : Relocates k ino iocb data (k.log (.bread (k.inode ino).getBno)) :=
    ⟨hn, hz, hread, by rw [hpos]; exact hslices⟩
  have hold : (k.fs.smallBytes ino).length < pos + data.length := by simpa using hgrow
  rw [writeSmallFile_rewrite _ _ hk3]
  by_cases hp0 : pos = 0
  · subst hp0
    refine ⟨iocb, ?_, ?_⟩
    · unfold Kiocb.startPos at hpos ⊢
      split
      · exact (Fs.detach_unplaced hino).size
      · rename_i happ
        rwa [if_neg happ] at hpos
    · have hcover : combinedBuf (k.fs.smallBytes ino) 0 data = data := combinedBuf_cover (by omega)
      rw [(rewriteSmallFile_exits k ino iocb data).2 (.fromStart hreloc hpos rfl), hpos, hcover]
      rfl
  · have hcopy : (k.detach ino).copyFromIter data.length data = (data, k.detach ino) := by
      rw [Kernel.copyFromIter_ok (by exact hf), List.take_length]
    refine ⟨⟨0, false⟩, rfl, ?_⟩
    rw [(rewriteSmallFile_exits k ino iocb data).2 (.combined hreloc (by rwa [hpos])
      (Kernel.kmalloc_ok (by exact hf)) hcopy rfl (Kernel.kmalloc_ok (by exact hf)) rfl), hpos]
    rfl

/-- The relocating branch after the detached inode was written. -/
theorem finishRelocation_spec {kd : Kernel} (pos count : Nat) {n c : Nat} {content : List UInt8}
    {iocb' : Kiocb} {run : Outcome (Int × Kiocb)} (h : Core k.fs chain) (hino : k.fs.Is ino .small)
    (hd : kd.fs = k.fs.detach ino) (hda : kd.AllocFailed ↔ k.AllocFailed) (hc : 1 ≤ c)
    (hrun : (∃ k₁ chain₁, run = .ok (((c : Int), iocb'), k₁) ∧ k₁.faults = [] ∧
        (k₁.AllocFailed ↔ kd.AllocFailed) ∧ Stored kd.fs k₁.fs chain chain₁ ino content) ∨
      (kd.fs.NoRoom chain n ∧ Overflowed run)) :
    (∃ k' chain', finishRelocation (k.inode ino) ino pos count run =
        .ok (((count : Int), { iocb' with kiPos := pos + count }), k') ∧
      Landed k k' chain chain' ino content) ∨
    (k.fs.NoRoom chain n ∧ Overflowed (finishRelocation (k.inode ino) ino pos count run)) := by
  rcases hrun with ⟨k₁, chain₁, rfl, hf₁, ha₁, hst⟩ | ⟨hno, hover⟩
  · left
    rw [hd] at hst
    have hok := h.slices.file ino hino
    have hn := (Inode.kind_small.1 hino.2).2.2.2
    have hfree := hst.old_unowned h hino
    obtain ⟨k', hdel, hf', ha', he⟩ := deleteSlice_spec hf₁ hst.core.pruneInv (hst.sub _ hok.mem)
      hok.slice_pos hn
    have hdone := he.deleted hst.core (hst.sub _ hok.mem) hok.slice_pos hok.fits hfree
    have hown := (Fs.detach_owners hino).trans hst.owners
    have hkept : ∀ i, i ≠ ino → Kept k.fs k'.fs i := fun i hi =>
      (((Fs.detach_kept k.fs hi).trans (Fs.detach_owners hino) (hst.kept i hi)).trans hown
        (hdone.kept i))
    have hsmall : k'.fs.Is ino .small :=
      ⟨(hdone.owners.live ino).2 hst.small.1, by rw [(hdone.kept ino).inode]; exact hst.small.2⟩
    refine ⟨k', _, ?_, hf', ?_, hdone.core, fun c hu hc => ?_, ?_, hown.trans hdone.owners,
      hkept, hsmall, ((hdone.kept ino).bytes hst.small).trans hst.bytes, fun ht => ?_⟩
    · have hpos : ((c : Nat) : Int) > 0 := by omega
      exact (finishRelocation_exits _ _ _ _ _).2 (.moved rfl hpos hdel rfl)
    · rw [ha', ha₁, hda]
    · rw [hdone.outside c fun hm => ?_, hst.outside c hu hc]
      · rfl
      · rcases hst.added c hm with hm | hfr
        · exact hc hm
        · rw [show (k.fs.detach ino).sbi = k.fs.sbi from rfl, hu.2] at hfr
          cases hfr
    · exact Nat.le_trans hdone.length hst.length
    · refine hdone.tight _ _ (hst.tight _ _ (ht.detach hino)) ?_
      rintro b j (hl | ⟨-, h1, h2, h3⟩)
      · exact hl.elim
      · exact ⟨h1.symm, h2, h3⟩
  · right
    rw [hd] at hno
    refine ⟨hno, ?_⟩
    rcases hrun : run with ⟨e, k₁⟩ | ⟨⟨ret, io⟩, k₁⟩
    · rw [hrun] at hover
      exact ⟨hover.failed, hover.bit0, fun r k' h => by cases h⟩
    · rw [hrun] at hover
      have hret : ret ≤ 0 := hover.nonpos _ _ rfl
      rw [(finishRelocation_exits _ _ _ _ _).2 (.kept rfl hret rfl)]
      refine ⟨?_, ?_, ?_⟩
      · simpa [Outcome.kernel] using hover.failed
      · simpa [Outcome.kernel] using hover.bit0
      · rintro r k' heq
        cases heq
        exact hover.nonpos (ret, io) k₁ rfl

theorem writeSmallFile_relocate {pos : Nat} (hf : k.faults = []) (h : Core k.fs chain)
    (hino : k.fs.Is ino .small) (hpos : iocb.startPos (k.inode ino) = pos)
    (h2 : pos + data.length ≤ 3968)
    (hslices : (k.inode ino).numSlices ≠
      divRoundUp (max (pos + data.length) (k.inode ino).iSize) 128) :
    (∃ (k' : Kernel) (chain' : List Nat) (iocb' : Kiocb), writeSmallFile k ino iocb data =
        .ok (((data.length : Int), { iocb' with kiPos := pos + data.length }), k') ∧
      Landed k k' chain chain' ino (combinedBuf (k.fs.smallBytes ino) pos data)) ∨
    (k.fs.NoRoom chain (divRoundUp (pos + data.length) 128) ∧
      Overflowed (writeSmallFile k ino iocb data)) := by
  obtain ⟨hgrow, io, hstart, heq⟩ := writeSmallFile_moves hf h hino hpos hslices
  have hcap : (combinedBuf (k.fs.smallBytes ino) pos data).length = pos + data.length := by
    rw [combinedBuf_length, Fs.smallBytes_length]
    omega
  have hrun := @writeSmallFileNew_core (k.detach ino) chain ino io
    (combinedBuf (k.fs.smallBytes ino) pos data) 0 hf (h.detach hino) (Fs.detach_unplaced hino)
    hstart (by omega) (by omega)
  rw [combinedBuf_nil_zero, hcap, Nat.zero_add] at hrun
  rw [heq]
  rcases finishRelocation_spec pos data.length h hino rfl (by simp) (by omega) hrun with
    ⟨k', chain', heq, hw⟩ | hno
  · exact Or.inl ⟨k', chain', _, heq, hw⟩
  · exact Or.inr hno

/-- Slices needed by a write of `data` at `pos`. -/
def Fs.slicesFor (fs : Fs) (ino pos : Nat) (data : List UInt8) : Nat :=
  divRoundUp (max (pos + data.length) (fs.inode ino).iSize) 128

/-- A file that has slices is overwritten in place or moved, or there is no room for it. -/
theorem writeSmallFile_again {pos : Nat} (hf : k.faults = []) (h : Core k.fs chain)
    (hino : k.fs.Is ino .small) (hpos : iocb.startPos (k.inode ino) = pos)
    (h2 : pos + data.length ≤ 3968) :
    (∃ k' chain' io, writeSmallFile k ino iocb data = .ok (((data.length : Int), io), k') ∧
      Landed k k' chain chain' ino (combinedBuf (k.fs.smallBytes ino) pos data)) ∨
    ((k.inode ino).numSlices ≠ k.fs.slicesFor ino pos data ∧
      k.fs.NoRoom chain (k.fs.slicesFor ino pos data) ∧
      Overflowed (writeSmallFile k ino iocb data)) := by
  by_cases hs : (k.inode ino).numSlices =
      divRoundUp (max (pos + data.length) (k.inode ino).iSize) 128
  · obtain ⟨k', heq, hw⟩ := writeSmallFile_inPlace hf h hino hpos hs
    exact Or.inl ⟨k', chain, _, heq, hw⟩
  · have hok := h.slices.file ino hino
    have hn : k.fs.slicesFor ino pos data = divRoundUp (pos + data.length) 128 := by
      unfold Fs.slicesFor
      rw [Nat.max_eq_left]
      by_contra hle
      refine hs ?_
      have hle' : pos + data.length ≤ (k.inode ino).iSize := Nat.le_of_lt (Nat.lt_of_not_le hle)
      rw [Nat.max_eq_right hle']
      exact hok.slices
    rcases writeSmallFile_relocate hf h hino hpos h2 hs with ⟨k', chain', io, heq, hw⟩ | hno
    · exact Or.inl ⟨k', chain', _, heq, hw⟩
    · rw [← hn] at hno
      exact Or.inr ⟨hs, hno⟩

/-- **`write_small_file` overwrites the content at the position, or finds no room.** -/
theorem writeSmallFile_spec {pos : Nat} (hf : k.faults = []) (h : WF k.fs chain)
    (hino : k.fs.Is ino .fresh ∨ k.fs.Is ino .small) (hpos : iocb.startPos (k.inode ino) = pos)
    (hlen : 1 ≤ data.length) (h2 : pos + data.length ≤ 3968) :
    (∃ k' chain' io, writeSmallFile k ino iocb data = .ok (((data.length : Int), io), k') ∧
      Written k k' chain chain' ino (combinedBuf (k.fs.oldBytes ino) pos data)) ∨
    (k.fs.NoRoom chain (k.fs.slicesFor ino pos data) ∧
      Overflowed (writeSmallFile k ino iocb data)) := by
  rcases hino with hino | hino
  · have hold : k.fs.oldBytes ino = [] := by simp [Fs.oldBytes, hino.2]
    have hn : k.fs.slicesFor ino pos data = divRoundUp (pos + data.length) 128 := by
      unfold Fs.slicesFor
      rw [(h.fresh ino hino).1, Nat.max_zero]
    rw [hold, hn]
    rcases writeSmallFile_first hf h.toCore ⟨hino, (h.fresh ino hino).1⟩ hpos (by omega) h2 with
      ⟨k', chain', heq, hw⟩ | hno
    · exact Or.inl ⟨k', chain', _, heq, hw.written h⟩
    · exact Or.inr hno
  · have hold : k.fs.oldBytes ino = k.fs.smallBytes ino := by simp [Fs.oldBytes, hino.2]
    rw [hold]
    rcases writeSmallFile_again hf h.toCore hino hpos h2 with ⟨k', chain', io, heq, hw⟩ | hno
    · exact Or.inl ⟨k', chain', io, heq, hw.written h⟩
    · exact Or.inr hno.2

/-- `custom_write_iter` sends a write that stays small to `write_small_file`. -/
theorem customWriteIter_small (hino : k.fs.Is ino .fresh ∨ k.fs.Is ino .small)
    (hsize : max (iocb.kiPos + data.length) (k.inode ino).iSize ≤ 3968) :
    customWriteIter k ino iocb data = writeSmallFile k ino iocb data := by
  unfold customWriteIter willBeSmall isNew isSmallFile
  simp only [hsize, decide_true, if_true]
  rcases hino with hino | hino
  · rw [show (k.inode ino).indexBlock = 0 from (Inode.kind_fresh.1 hino.2).2.2]
    rfl
  · obtain ⟨-, h1, h2, -⟩ := Inode.kind_small.1 hino.2
    have h1' : (k.inode ino).iBlocks = 0 := h1
    simp [h1']

end Branches

end Ouichefs
