import Ouichefs.BigInv

/-!
# The copy loop of `write_big_file`

The loop does not look at inodes, and the inode gets its final size and
block count only at the end.  The loop invariant is therefore about the state in which the inode
already has its final fields `vi`: there every block that the loop allocates belongs to a big file
at once.  `writeBigLoop_spec` is the loop by induction on the bytes still to copy.
-/

set_option autoImplicit false

namespace Ouichefs

open FreeMap

/-- Byte `i` of the big file `ino`; a hole reads as zero. -/
def Fs.bigByte (fs : Fs) (ino i : Nat) : UInt8 :=
  if indexPtr (fs.indexOf ino) (i / 4096) = 0 then 0
  else (fs.disk (indexPtr (fs.indexOf ino) (i / 4096))).get (i % 4096)

/-- Only blocks that were free or belonged to `ino` change. -/
structure BigFrame (fs fs' : Fs) (chain : List Nat) (ino : Nat) : Prop where
  geom : SameGeom fs.sbi fs'.sbi
  ifree : fs'.sbi.ifreeBitmap = fs.sbi.ifreeBitmap
  used : ∀ c, fs.Used c → fs'.Used c
  others : ∀ r c, ¬r.By ino → (Refers fs' chain r c ↔ Refers fs chain r c)
  refs : ∀ r c, fs.Used c → Refers fs' chain r c → Refers fs chain r c
  disk : ∀ c, fs.Used c → (∀ r : Ref, r.By ino → ¬Refers fs chain r c) → fs'.disk c = fs.disk c

namespace BigFrame

variable {fs fs₁ fs₂ : Fs} {chain : List Nat} {ino : Nat}

theorem refl (fs : Fs) (chain : List Nat) (ino : Nat) : BigFrame fs fs chain ino :=
  ⟨⟨rfl, rfl, rfl, rfl, rfl⟩, rfl, fun _ => id, fun _ _ _ => Iff.rfl, fun _ _ _ => id,
    fun _ _ _ => rfl⟩

theorem trans (h : BigFrame fs fs₁ chain ino) (h' : BigFrame fs₁ fs₂ chain ino) :
    BigFrame fs fs₂ chain ino := by
  refine ⟨h.geom.trans h'.geom, h'.ifree.trans h.ifree,
    fun c hc => h'.used c (h.used c hc),
    fun r c hr => (h'.others r c hr).trans (h.others r c hr),
    fun r c hc hr => h.refs r c hc (h'.refs r c (h.used c hc) hr), fun c hc hn => ?_⟩
  rw [h'.disk c (h.used c hc) fun r hby hr => hn r hby (h.refs r c hc hr), h.disk c hc hn]

end BigFrame

section Step

variable {fs : Fs} {chain : List Nat} {ino i b : Nat}

/-- A block that only `ino` refers to may be overwritten. -/
theorem BigFrame.setBlock (h : Core fs chain) {r₀ : Ref} (hr₀ : Refers fs chain r₀ b)
    (hby : r₀.By ino) (hidx : b ≠ (fs.inode ino).indexBlock)
    (nb : Block) : BigFrame fs (fs.setBlock b nb) chain ino := by
  have hbig : ∀ d, fs.Is d .big → (fs.inode d).indexBlock ≠ b := by
    intro d hd he
    have hr : Refers fs chain (.index d) b := ⟨Or.inr hd, he.symm⟩
    have := h.owned.inj hr hr₀
    rw [← this] at hby
    cases hby
    exact hidx he.symm
  refine ⟨⟨rfl, rfl, rfl, rfl, rfl⟩, rfl, fun _ => id, fun r c _ => refers_setBlock nb hbig r c,
    fun r c _ => (refers_setBlock nb hbig r c).1, fun c hc hn => ?_⟩
  rw [Fs.disk_setBlock, if_neg]
  rintro rfl
  exact hn r₀ hby hr₀

theorem BigFrame.alloc (h : Core fs chain) (hk : fs.Is ino .big) (hi : i < 1024)
    (hb : b < fs.sbi.nrBlocks) (hfree : fs.sbi.bfreeBitmap b = true) (h0 : b ≠ 0)
    (hole : indexPtr (fs.indexOf ino) i = 0) :
    BigFrame fs ((fs.allocBlock b).linkData (fs.inode ino).indexBlock i b) chain ino := by
  have hown : SameOwners fs (fs.allocBlock b) := .of_bfree _ _
  have hb32 : b < 4294967296 := by
    have := h.sb.blocks_lt
    omega
  have href : ∀ r c, Refers ((fs.allocBlock b).linkData (fs.inode ino).indexBlock i b) chain r c ↔
      Refers fs chain r c ∨ r = .data ino i ∧ c = b := by
    intro r c
    have := (h.allocBlock hb hfree).linkData_refers hk hi hb32 h0 hole r c
    rwa [hown.refers] at this
  refine ⟨⟨rfl, rfl, rfl, rfl, rfl⟩, rfl, fun c hc => ⟨hc.1, ?_⟩, fun r c hr => ?_,
    fun r c hc hr => ?_, fun c hc hn => ?_⟩
  · show Function.update fs.sbi.bfreeBitmap b false c = false
    rw [Function.update_apply]
    split
    · rfl
    · exact hc.2
  · rw [href]
    refine or_iff_left ?_
    rintro ⟨rfl, -⟩
    exact hr rfl
  · rcases (href r c).1 hr with hr | ⟨-, rfl⟩
    · exact hr
    · rw [hc.2] at hfree; cases hfree
  · show ((fs.allocBlock b).setBlock _ _).disk c = _
    rw [Fs.disk_setBlock, if_neg]
    · rfl
    · rintro rfl
      exact hn (.index ino) rfl ⟨Or.inr hk, rfl⟩

/-- Filling a hole with a zero block does not change the content. -/
theorem Fs.bigByte_alloc (h : Core fs chain) (hk : fs.Is ino .big) (hi : i < 1024)
    (hb : b < fs.sbi.nrBlocks) (hfree : fs.sbi.bfreeBitmap b = true)
    (hole : indexPtr (fs.indexOf ino) i = 0) (x : Nat) :
    ((fs.allocBlock b).linkData (fs.inode ino).indexBlock i b).bigByte ino x = fs.bigByte ino x := by
  have hb32 : b < 4294967296 := by
    have := h.sb.blocks_lt
    omega
  have hidx : ((fs.allocBlock b).linkData (fs.inode ino).indexBlock i b).indexOf ino =
      (fs.indexOf ino).setWord (4 * i) b := by
    have := (h.allocBlock hb hfree).linkData_index (i := i) (b := b) hk (Or.inr hk)
    rwa [if_pos rfl] at this
  have hbi : b ≠ (fs.inode ino).indexBlock := by
    rintro rfl
    rw [(h.big_used hk).2] at hfree
    cases hfree
  have hdisk : ∀ c, c ≠ (fs.inode ino).indexBlock →
      ((fs.allocBlock b).linkData (fs.inode ino).indexBlock i b).disk c = fs.disk c := by
    intro c hc
    show ((fs.allocBlock b).setBlock _ _).disk c = _
    rw [Fs.disk_setBlock, if_neg hc]
    rfl
  unfold Fs.bigByte
  rw [hidx, indexPtr_setWord _ hi hb32]
  by_cases hx : x / 4096 = i
  · rw [if_pos hx, hx, hole]
    simp only [if_true]
    rw [hdisk b hbi, h.zero trivial b hb hfree, Page.get_zero, ite_self]
  · rw [if_neg hx]
    by_cases hp : indexPtr (fs.indexOf ino) (x / 4096) = 0
    · rw [if_pos hp, if_pos hp]
    · rw [if_neg hp, if_neg hp, hdisk]
      intro he
      by_cases hlt : x / 4096 < 1024
      · exact h.ne_of_refs (r := .data ino (x / 4096)) (s := .index ino) ⟨hk, hlt, rfl, hp⟩
          ⟨Or.inr hk, rfl⟩ (by simp) he
      · refine hp ((Page.word_eq_zero_iff _ _).2 fun y _ => ?_)
        exact Page.get_of_ge _ (by omega)

/-- The content after one data block was overwritten. -/
theorem Fs.bigByte_setBlock (h : Core fs chain) (hk : fs.Is ino .big) (hi : i < 1024)
    (hptr : indexPtr (fs.indexOf ino) i = b) (h0 : b ≠ 0) (nb : Block) (x : Nat) :
    (fs.setBlock b nb).bigByte ino x =
      if x / 4096 = i then nb.get (x % 4096) else fs.bigByte ino x := by
  have hr : Refers fs chain (.data ino i) b := ⟨hk, hi, hptr.symm, h0⟩
  have hbi : (fs.inode ino).indexBlock ≠ b :=
    h.ne_of_refs (r := .index ino) ⟨Or.inr hk, rfl⟩ hr (by simp)
  have hidx : (fs.setBlock b nb).indexOf ino = fs.indexOf ino := by
    unfold Fs.indexOf
    rw [Fs.inode_setBlock, Fs.disk_setBlock, if_neg hbi]
  unfold Fs.bigByte
  rw [hidx]
  by_cases hx : x / 4096 = i
  · rw [if_pos hx, hx, hptr, if_neg h0, Fs.disk_setBlock, if_pos rfl]
  · rw [if_neg hx]
    by_cases hp : indexPtr (fs.indexOf ino) (x / 4096) = 0
    · rw [if_pos hp, if_pos hp]
    · rw [if_neg hp, if_neg hp, Fs.disk_setBlock, if_neg]
      have hlt : x / 4096 < 1024 := by
        by_contra hge
        refine hp ((Page.word_eq_zero_iff _ _).2 fun y _ => ?_)
        exact Page.get_of_ge _ (by omega)
      exact h.ne_of_refs (r := .data ino (x / 4096)) ⟨hk, hlt, rfl, hp⟩ hr (by simpa using hx)

end Step

/-! ## Data blocks -/

section Loop

variable {ino : Nat} {vi : Inode} {chain : List Nat}

/-- What the loop keeps: with the final inode in place, the file is a well-formed big file. -/
structure LoopInv (ino : Nat) (vi : Inode) (chain : List Nat) (fs : Fs) : Prop where
  core : Core (fs.setInode ino vi) chain
  big : (fs.setInode ino vi).Is ino .big

/-- What a part of the loop does. -/
structure LoopEff (ino : Nat) (vi : Inode) (chain : List Nat) (k k' : Kernel) : Prop where
  faults : k'.faults = []
  icache : k'.fs.icache = k.fs.icache
  inv : LoopInv ino vi chain k'.fs
  frame : BigFrame (k.fs.setInode ino vi) (k'.fs.setInode ino vi) chain ino
  tight : ∀ lost leak, TightBut (k.fs.setInode ino vi) chain lost leak →
    TightBut (k'.fs.setInode ino vi) chain lost leak

theorem LoopEff.trans {k k₁ k₂ : Kernel} (h : LoopEff ino vi chain k k₁)
    (h' : LoopEff ino vi chain k₁ k₂) : LoopEff ino vi chain k k₂ :=
  ⟨h'.faults, h'.icache.trans h.icache, h'.inv, h.frame.trans h'.frame,
    fun lost leak ht => h'.tight lost leak (h.tight lost leak ht)⟩

/-- The index block of the file, seen in the state itself. -/
theorem LoopInv.indexOf (fs : Fs) (ino : Nat) (vi : Inode) :
    (fs.setInode ino vi).indexOf ino = fs.disk vi.indexBlock := Fs.setInode_indexOf_self

theorem getDataBlock_spec {k : Kernel} {i : Nat} (hf : k.faults = [])
    (h : LoopInv ino vi chain k.fs) (hi : i < 1024) (hib : i < vi.iBlocks - 1) :
    (∃ b k', getDataBlock k vi.indexBlock i = (b, k') ∧ b ≠ 0 ∧ LoopEff ino vi chain k k' ∧
      (k'.AllocFailed ↔ k.AllocFailed) ∧
      indexPtr ((k'.fs.setInode ino vi).indexOf ino) i = b ∧
      k.fs.sbi.nrFreeBlocks ≤ k'.fs.sbi.nrFreeBlocks + 1 ∧
      ∀ x, (k'.fs.setInode ino vi).bigByte ino x = (k.fs.setInode ino vi).bigByte ino x) ∨
    (getDataBlock k vi.indexBlock i = (0, k.log .noFreeBlock) ∧ k.fs.sbi.nrFreeBlocks = 0) := by
  have hself : ((k.fs.setInode ino vi).inode ino) = vi := by simp
  by_cases hp : indexPtr (k.fs.disk vi.indexBlock) i = 0
  · have hbit : k.fs.sbi.bfreeBitmap 0 = false := h.core.bit0
    have hblt : k.fs.sbi.nrBlocks < 4294967296 := h.core.sb.blocks_lt
    have hcount : k.fs.sbi.nrFreeBlocks = countBits k.fs.sbi.bfreeBitmap k.fs.sbi.nrBlocks :=
      h.core.sb.count
    rcases Kernel.getFreeBlock_cases hbit hblt hcount with ⟨b, hpos, hb, hfree, heq⟩ | ⟨hnone, heq⟩
    · left
      obtain ⟨b, rfl⟩ := Nat.exists_eq_succ_of_ne_zero (Nat.pos_iff_ne_zero.1 hpos)
      have h0 : b + 1 ≠ 0 := by omega
      have hole : indexPtr ((k.fs.setInode ino vi).indexOf ino) i = 0 := by
        rw [LoopInv.indexOf]; exact hp
      have hb' : b + 1 < (k.fs.setInode ino vi).sbi.nrBlocks := hb
      have hfree' : (k.fs.setInode ino vi).sbi.bfreeBitmap (b + 1) = true := hfree
      have hal := h.core.allocBlock hb' hfree'
      have hbig' : ((k.fs.setInode ino vi).allocBlock (b + 1)).Is ino .big := h.big
      -- the state afterwards, with the final inode in place
      have hV : ((k.fs.allocBlock (b + 1)).linkData vi.indexBlock i (b + 1)).setInode ino vi =
          ((k.fs.setInode ino vi).allocBlock (b + 1)).linkData
            ((k.fs.setInode ino vi).inode ino).indexBlock i (b + 1) := by
        rw [hself]; rfl
      have hu : ((k.fs.setInode ino vi).allocBlock (b + 1)).Used (b + 1) :=
        ⟨hb, by simp [Fs.allocBlock]⟩
      have hb32 : b + 1 < 4294967296 := Nat.lt_trans hb hblt
      refine ⟨b + 1, { k with
        fs := (k.fs.allocBlock (b + 1)).linkData vi.indexBlock i (b + 1) }, ?_, h0, ?_, Iff.rfl, ?_,
        ?_, ?_⟩
      · unfold getDataBlock
        simp only [hp, if_true, heq]
        rfl
      · refine ⟨hf, rfl, ⟨?_, ?_⟩, ?_, fun lost leak ht => ?_⟩
        · simp only [hV]
          exact hal.linkData hbig' hi hu (h.core.unref_alloc hfree') h0 hole
        · simp only [hV]
          exact h.big
        · simp only [hV]
          exact .alloc h.core h.big hi hb' hfree' h0 hole
        · simp only [hV]
          have hib' : i < (((k.fs.setInode ino vi).allocBlock (b + 1)).inode ino).iBlocks - 1 := by
            show i < ((k.fs.setInode ino vi).inode ino).iBlocks - 1
            rw [hself]
            exact hib
          have := (TightBut.allocBlock (a := b + 1) ht).linkData hal hbig' hi hib' hb32 h0 hole
          refine this.weaken (fun a _ hl => ?_) fun _ _ => id
          exact hl.1.resolve_right hl.2
      · simp only [hV]
        have hx := hal.linkData_index (i := i) (b := b + 1) hbig' (Or.inr hbig')
        rw [if_pos rfl] at hx
        have hx' : (((k.fs.setInode ino vi).allocBlock (b + 1)).linkData
            ((k.fs.setInode ino vi).inode ino).indexBlock i (b + 1)).indexOf ino = _ := hx
        rw [hx', indexPtr_setWord _ hi hb32, if_pos rfl]
      · have hpos' := countBits_pos_iff.2 ⟨b + 1, hb, hfree⟩
        show k.fs.sbi.nrFreeBlocks ≤ k.fs.sbi.nrFreeBlocks - 1 + 1
        omega
      · intro x
        simp only [hV]
        exact Fs.bigByte_alloc h.core h.big hi hb' hfree' hole x
    · right
      constructor
      · unfold getDataBlock
        simp only [hp, if_true, heq]
      · rw [hcount, countBits_eq_zero_iff]
        exact hnone
  · left
    refine ⟨_, k, ?_, hp, ⟨hf, rfl, h, .refl _ _ _, fun _ _ => id⟩, Iff.rfl, ?_, by omega,
      fun _ => rfl⟩
    · unfold getDataBlock
      simp only [hp, if_false]
    · rw [LoopInv.indexOf]

/-- Overwriting data block `i` of the file. -/
theorem LoopInv.write {k : Kernel} {i b : Nat} (hf : k.faults = []) (h : LoopInv ino vi chain k.fs)
    (hi : i < 1024) (hptr : indexPtr ((k.fs.setInode ino vi).indexOf ino) i = b) (h0 : b ≠ 0)
    (nb : Block) : LoopEff ino vi chain k (k.setBlock b nb) ∧
      ∀ x, ((k.setBlock b nb).fs.setInode ino vi).bigByte ino x =
        if x / 4096 = i then nb.get (x % 4096) else (k.fs.setInode ino vi).bigByte ino x := by
  have hr : Refers (k.fs.setInode ino vi) chain (.data ino i) b := ⟨h.big, hi, hptr.symm, h0⟩
  have hidx : b ≠ ((k.fs.setInode ino vi).inode ino).indexBlock :=
    (h.core.ne_of_refs (r := .index ino) ⟨Or.inr h.big, rfl⟩ hr (by simp)).symm
  have hbig : ∀ d, (k.fs.setInode ino vi).Is d .big →
      ((k.fs.setInode ino vi).inode d).indexBlock ≠ b := fun d hd =>
    h.core.ne_of_refs (r := .index d) ⟨Or.inr hd, rfl⟩ hr (by simp)
  have hc : b ∉ chain := fun hm =>
    h.core.ne_of_refs hr (s := .sliced b) ⟨rfl, hm⟩ (by simp) rfl
  exact ⟨⟨hf, rfl, ⟨h.core.setBlock (fun _ => (h.core.owned.used hr).2) hc hbig nb, h.big⟩,
    .setBlock h.core hr rfl hidx nb, fun _ _ ht => ht.setBlock hc hbig nb⟩,
    fun x => Fs.bigByte_setBlock h.core h.big hi hptr h0 nb x⟩

/-- The part of the gap in front of `pos` that the loop zeroes is empty. -/
def NoGap (iSize pos : Nat) : Prop := pos ≤ iSize ∨ pos % 4096 = 0

theorem zeroGap_eq {iSize pos : Nat} (h : NoGap iSize pos) (b : Block) :
    zeroGap b iSize pos (pos / 4096) = b := by
  unfold zeroGap
  rw [if_neg]
  rintro ⟨h1, h2⟩
  rcases h with h | h <;> omega

/-- One iteration of the loop with a block at hand. -/
theorem writeBigLoop_step {k : Kernel} {iSize fuel pos b : Nat} {k₁ : Kernel} {data : List UInt8}
    (hne : data ≠ []) (hpos : pos / 4096 < 1024)
    (hget : getDataBlock k vi.indexBlock (pos / 4096) = (b, k₁)) (h0 : b ≠ 0)
    (hf : k₁.faults = []) (hb : b < k₁.fs.sbi.nrBlocks) :
    writeBigLoop iSize vi.indexBlock (fuel + 1) k pos data =
      writeBigLoop iSize vi.indexBlock fuel
        ((((k₁.log (.bread b)).setBlock b (zeroGap (k₁.fs.disk b) iSize pos (pos / 4096))).setBlock b
          ((zeroGap (k₁.fs.disk b) iSize pos (pos / 4096)).blit (pos % 4096)
            (data.take (min data.length (4096 - pos % 4096))))).brelse b)
        (pos + min data.length (4096 - pos % 4096))
        (data.drop (min data.length (4096 - pos % 4096))) := by
  obtain ⟨b, rfl⟩ := Nat.exists_eq_succ_of_ne_zero h0
  rw [Nat.succ_eq_add_one] at *
  cases data with
  | nil => exact absurd rfl hne
  | cons x xs =>
      have hlen : ((x :: xs).take (min (x :: xs).length (4096 - pos % 4096))).length =
          min (x :: xs).length (4096 - pos % 4096) := by
        rw [List.length_take]; omega
      rw [(writeBigLoop_exits iSize vi.indexBlock fuel k pos x xs).2 (.copied (by omega) hget
        (Kernel.sbBread_ok hf hb) (Kernel.copyFromIter_ok (by simpa using hf) _ _) hlen rfl)]
      simp

/-- **The copy loop**: it overwrites the content, or stops when no block is free. -/
theorem writeBigLoop_spec (iSize : Nat) (hblk : vi.iBlocks ≤ 1025) :
    ∀ (fuel : Nat) (k : Kernel) (pos : Nat) (data : List UInt8), k.faults = [] →
      LoopInv ino vi chain k.fs → pos + data.length ≤ 4096 * (vi.iBlocks - 1) →
      data.length ≤ fuel →
      ∃ r k', writeBigLoop iSize vi.indexBlock fuel k pos data = .ok (r, k') ∧
        LoopEff ino vi chain k k' ∧
        (r = .ok (pos + data.length) ∧ (k'.AllocFailed ↔ k.AllocFailed) ∧
          (NoGap iSize pos → ∀ x, (k'.fs.setInode ino vi).bigByte ino x =
            if pos ≤ x ∧ x < pos + data.length then data.getD (x - pos) 0
            else (k.fs.setInode ino vi).bigByte ino x) ∨
        r = .error (-ENOSPC) ∧ k'.AllocFailed ∧
          k.fs.sbi.nrFreeBlocks < divRoundUp (pos + data.length) 4096 - pos / 4096) := by
  intro fuel
  induction fuel with
  | zero =>
      intro k pos data hf h _ hfuel
      have hnil : data = [] := List.length_eq_zero_iff.1 (Nat.le_zero.1 hfuel)
      subst hnil
      refine ⟨.ok pos, k, by rw [writeBigLoop], ⟨hf, rfl, h, .refl _ _ _, fun _ _ => id⟩,
        Or.inl ⟨rfl, Iff.rfl, fun _ x => ?_⟩⟩
      rw [if_neg (by simp)]
  | succ fuel ih =>
      intro k pos data hf h hend hfuel
      by_cases hnil : data = []
      · subst hnil
        refine ⟨.ok pos, k, by rw [writeBigLoop], ⟨hf, rfl, h, .refl _ _ _, fun _ _ => id⟩,
          Or.inl ⟨rfl, Iff.rfl, fun _ x => ?_⟩⟩
        rw [if_neg (by simp)]
      have hlen : 1 ≤ data.length := List.length_pos_iff.2 hnil
      have hib : pos / 4096 < vi.iBlocks - 1 := by omega
      have hi : pos / 4096 < 1024 := by omega
      rcases getDataBlock_spec hf h hi hib with
        ⟨b, k₁, hget, h0, heff₁, ha₁, hptr, hfree, hcont₁⟩ | ⟨hget, hzero⟩
      · have hused : (k₁.fs.setInode ino vi).Used b :=
          heff₁.inv.core.owned.used (r := .data ino (pos / 4096))
            ⟨heff₁.inv.big, hi, hptr.symm, h0⟩
        rw [writeBigLoop_step hnil hi hget h0 heff₁.faults hused.1]
        generalize htw : min data.length (4096 - pos % 4096) = tw
        have htwl : (data.take tw).length = tw := by rw [List.length_take]; omega
        generalize hnb : (zeroGap (k₁.fs.disk b) iSize pos (pos / 4096)).blit (pos % 4096)
          (data.take tw) = nb
        generalize hk₂ : (((k₁.log (.bread b)).setBlock b
          (zeroGap (k₁.fs.disk b) iSize pos (pos / 4096))).setBlock b nb).brelse b = k₂
        obtain ⟨hw, hwc⟩ := heff₁.inv.write heff₁.faults hi hptr h0 nb
        have hfs₂ : k₂.fs = (k₁.setBlock b nb).fs := by
          rw [← hk₂]
          simp only [Kernel.fs_brelse, Kernel.fs_setBlock, Kernel.fs_log, Fs.setBlock]
          rw [Function.update_idem]
        have ha₂ : k₂.AllocFailed ↔ k₁.AllocFailed := by rw [← hk₂]; simp
        have hf₂ : k₂.faults = [] := by rw [← hk₂]; simpa using heff₁.faults
        have heff₂ : LoopEff ino vi chain k k₂ := by
          refine heff₁.trans ⟨hf₂, ?_, ?_, ?_, ?_⟩
          all_goals rw [hfs₂]
          · exact hw.icache
          · exact hw.inv
          · exact hw.frame
          · exact hw.tight
        obtain ⟨r, k', hrun, heff', hres⟩ := ih k₂ (pos + tw) (data.drop tw) hf₂ heff₂.inv
          (by rw [List.length_drop]; omega) (by rw [List.length_drop]; omega)
        have hsum : pos + tw + (data.drop tw).length = pos + data.length := by
          rw [List.length_drop]; omega
        rw [hsum] at hres
        refine ⟨r, k', hrun, heff₂.trans heff', ?_⟩
        rcases hres with ⟨hr, ha', hcont⟩ | ⟨hr, ha', hlack⟩
        · refine Or.inl ⟨hr, by rw [ha', ha₂, ha₁], fun hgap x => ?_⟩
          -- after the first iteration the position is a block boundary or the end
          have hgap' : data.drop tw = [] ∨ NoGap iSize (pos + tw) := by
            by_cases hall : tw = data.length
            · left; rw [hall, List.drop_length]
            · right; right; omega
          have hrest : (k'.fs.setInode ino vi).bigByte ino x =
              if pos + tw ≤ x ∧ x < pos + data.length then (data.drop tw).getD (x - (pos + tw)) 0
              else (k₂.fs.setInode ino vi).bigByte ino x := by
            rcases hgap' with hnil' | hg
            · have hl : data.length = tw := by
                have := congrArg List.length hnil'
                rw [List.length_drop, List.length_nil] at this
                omega
              rw [hnil'] at hrun
              have hk' : k' = k₂ := by
                cases fuel <;> rw [writeBigLoop] at hrun <;> cases hrun <;> rfl
              rw [hk', if_neg (by omega)]
            · exact hcont hg x
          have hone : (k₂.fs.setInode ino vi).bigByte ino x =
              if pos ≤ x ∧ x < pos + tw then data.getD (x - pos) 0
              else (k.fs.setInode ino vi).bigByte ino x := by
            rw [hfs₂, hwc x, hcont₁ x, ← hnb, zeroGap_eq hgap]
            by_cases hx : x / 4096 = pos / 4096
            · rw [if_pos hx, Page.get_blit _ (by omega), htwl]
              by_cases hin : pos ≤ x ∧ x < pos + tw
              · rw [if_pos (by omega), if_pos hin]
                rw [List.getD_eq_getElem?_getD, List.getD_eq_getElem?_getD,
                  List.getElem?_take_of_lt (by omega)]
                congr 2
                omega
              · rw [if_neg (by omega), if_neg hin, ← hcont₁ x]
                unfold Fs.bigByte
                rw [hx, hptr, if_neg h0]
                rfl
            · rw [if_neg hx, if_neg (by omega)]
          rw [hrest, hone]
          by_cases h1 : pos + tw ≤ x ∧ x < pos + data.length
          · rw [if_pos h1, if_pos (by omega)]
            rw [List.getD_eq_getElem?_getD, List.getD_eq_getElem?_getD, List.getElem?_drop]
            congr 2
            omega
          · rw [if_neg h1]
            by_cases h2 : pos ≤ x ∧ x < pos + tw
            · rw [if_pos h2, if_pos (by omega)]
            · rw [if_neg h2, if_neg (by omega)]
        · refine Or.inr ⟨hr, ha', ?_⟩
          have hfree₂ : k₂.fs.sbi.nrFreeBlocks = k₁.fs.sbi.nrFreeBlocks := by rw [hfs₂]; rfl
          rw [hfree₂] at hlack
          unfold divRoundUp at hlack ⊢
          by_cases hall : tw = data.length
          · -- nothing is left to copy, so the rest of the loop does not fail
            rw [hall, List.drop_length] at hrun
            cases fuel <;> rw [writeBigLoop] at hrun <;> cases hrun <;> cases hr
          · have : (pos + tw) / 4096 = pos / 4096 + 1 := by omega
            omega
      · refine ⟨.error (-ENOSPC), k.log .noFreeBlock, ?_, ⟨by simpa using hf, rfl, h, .refl _ _ _,
          fun _ _ => id⟩, Or.inr ⟨rfl, by simp, ?_⟩⟩
        · cases data with
          | nil => exact absurd rfl hnil
          | cons x xs =>
              exact (writeBigLoop_exits iSize vi.indexBlock fuel k pos x xs).2
                (.noBlock (by omega) hget rfl)
        · rw [hzero]
          unfold divRoundUp
          omega

end Loop

end Ouichefs
