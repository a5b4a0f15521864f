import Ouichefs.Read
import Mathlib.Data.Nat.Find

/-!
# Truncation on open

`ouichefs_open` with `O_TRUNC` takes `index_block` for the number of an index block.  For a small
file it is a block and a slice, and the block of that number belongs to whoever has it.

* `truncateLoop_eff`: the loop clears the pointers before the first zero and frees what they name.
* `ouichefsOpen_truncates_iff`: exactly when the truncation of a small file spares every other file.
* `ouichefsOpen_releases_iff`: exactly when the truncation of a big file frees all of it.
* `ouichefsOpen_wf`: opening a big file keeps the invariant.
-/

set_option autoImplicit false

namespace Ouichefs

variable {k k' : Kernel} {chain : List Nat} {ino idx i m n : Nat}

/-- Pointer `m` is the first zero pointer of the block. -/
structure Ends (b : Block) (m : Nat) : Prop where
  lt : m < 1024
  zero : indexPtr b m = 0
  leading : ∀ x < m, indexPtr b x ≠ 0

/-- The loop cleared pointers `i` to `m - 1` of block `idx` and released what they named. -/
structure TruncEff (k k' : Kernel) (idx i m : Nat) : Prop where
  icache : k'.fs.icache = k.fs.icache
  other : ∀ c, c ≠ idx → k'.fs.disk c = k.fs.disk c
  cleared : ∀ j, (k'.fs.disk idx).get j =
    if 4 * i ≤ j ∧ j < 4 * m then 0 else (k.fs.disk idx).get j
  released : ∀ x, i ≤ x → x < m → indexPtr (k.fs.disk idx) x ≤ k.fs.sbi.nrBlocks →
    k'.fs.sbi.bfreeBitmap (indexPtr (k.fs.disk idx) x) = true
  kept : ∀ c, (∀ x, i ≤ x → x < m → indexPtr (k.fs.disk idx) x ≠ c) →
    k'.fs.sbi.bfreeBitmap c = k.fs.sbi.bfreeBitmap c

/-- `put_block` sets at most the bit of the block. -/
theorem Kernel.putBlock_bit (k : Kernel) (b c : Nat) :
    (k.putBlock b).fs.sbi.bfreeBitmap c =
      if c = b ∧ b ≤ k.fs.sbi.nrBlocks then true else k.fs.sbi.bfreeBitmap c := by
  unfold Kernel.putBlock SbInfo.putBlock putFreeBit
  split
  · rename_i hnone
    split at hnone
    · rename_i hlt
      rw [if_neg (by omega)]
      rfl
    · cases hnone
  · rename_i map hmap
    split at hmap
    · cases hmap
    · rename_i hle
      cases hmap
      simp only [Kernel.fs_setSbi, Fs.sbi_setSbi, Function.update_apply]
      simp only [show b ≤ k.fs.sbi.nrBlocks by omega, and_true]

theorem Kernel.putBlock_nrBlocks (k : Kernel) (b : Nat) :
    (k.putBlock b).fs.sbi.nrBlocks = k.fs.sbi.nrBlocks := by
  unfold Kernel.putBlock SbInfo.putBlock
  split <;> rfl

/-- The state after one iteration of the loop. -/
def truncateStep (k : Kernel) (idx i : Nat) : Kernel :=
  (k.putBlock (indexPtr (k.fs.disk idx) i)).setBlock idx ((k.fs.disk idx).setWord (4 * i) 0)

/-- One iteration frees the block that pointer `i` names and clears the pointer. -/
theorem truncateStep_fs (hle : indexPtr (k.fs.disk idx) i ≤ k.fs.sbi.nrBlocks) :
    (truncateStep k idx i).fs = (k.fs.setSbi { k.fs.sbi with
      bfreeBitmap := Function.update k.fs.sbi.bfreeBitmap (indexPtr (k.fs.disk idx) i) true,
      nrFreeBlocks := add32 k.fs.sbi.nrFreeBlocks 1 }).linkData idx i 0 := by
  unfold truncateStep
  rw [Kernel.putBlock_eq hle]
  rfl

theorem truncateStep_get (hi : i < 1024) (j : Nat) : ((truncateStep k idx i).fs.disk idx).get j =
    if 4 * i ≤ j ∧ j < 4 * i + 4 then 0 else (k.fs.disk idx).get j := by
  unfold truncateStep
  simp only [Kernel.fs_setBlock, Fs.disk_setBlock, if_true]
  rw [Page.get_setWord _ (by omega), Nat.zero_div]
  rfl

theorem truncateStep_ptr (hi : i < 1024) {x : Nat} (hx : i < x) :
    indexPtr ((truncateStep k idx i).fs.disk idx) x = indexPtr (k.fs.disk idx) x := by
  unfold truncateStep indexPtr
  simp only [Kernel.fs_setBlock, Fs.disk_setBlock, if_true]
  exact Page.word_setWord_of_disjoint _ (by omega) (Or.inr (by omega))

theorem truncateStep_bit (c : Nat) : (truncateStep k idx i).fs.sbi.bfreeBitmap c =
    if c = indexPtr (k.fs.disk idx) i ∧ indexPtr (k.fs.disk idx) i ≤ k.fs.sbi.nrBlocks then true
    else k.fs.sbi.bfreeBitmap c :=
  k.putBlock_bit _ c

theorem truncateStep_nrBlocks :
    (truncateStep k idx i).fs.sbi.nrBlocks = k.fs.sbi.nrBlocks :=
  k.putBlock_nrBlocks _

/-- One iteration, followed by the rest of the loop. -/
theorem TruncEff.cons (him : i < m) (hm : m < 1024)
    (h : TruncEff (truncateStep k idx i) k' idx (i + 1) m) : TruncEff k k' idx i m where
  icache := h.icache
  other c hc := by
    rw [h.other c hc]
    exact (Fs.disk_setBlock ..).trans (if_neg hc)
  cleared j := by
    rw [h.cleared, truncateStep_get (by omega)]
    by_cases hj : 4 * i ≤ j ∧ j < 4 * m
    · rw [if_pos hj]
      split
      · rfl
      · rw [if_pos (by omega)]
    · rw [if_neg hj, if_neg (by omega), if_neg (by omega)]
  released x hix hxm hle := by
    generalize hc : indexPtr (k.fs.disk idx) x = c at hle
    by_cases hlater : ∃ y, i + 1 ≤ y ∧ y < m ∧ indexPtr (k.fs.disk idx) y = c
    · obtain ⟨y, hiy, hym, hy⟩ := hlater
      have hrel := h.released y hiy hym
      rw [truncateStep_ptr (by omega) hiy, hy, truncateStep_nrBlocks] at hrel
      exact hrel hle
    · have hx : x = i := by
        by_contra hne
        exact hlater ⟨x, by omega, hxm, hc⟩
      rw [h.kept c, truncateStep_bit, ← hx, hc, if_pos ⟨rfl, hle⟩]
      intro y hiy hym
      rw [truncateStep_ptr (by omega) hiy]
      exact fun hy => hlater ⟨y, hiy, hym, hy⟩
  kept c hne := by
    rw [h.kept c, truncateStep_bit, if_neg]
    · exact fun hc => hne i (Nat.le_refl i) him hc.1.symm
    · intro y hiy hym
      rw [truncateStep_ptr (by omega) hiy]
      exact hne y (by omega) hym

/-- **The loop clears the pointers before the first zero.** -/
theorem truncateLoop_eff (hm : m < 1024) : ∀ (n i : Nat) (k : Kernel), i + n = 1024 → i ≤ m →
    indexPtr (k.fs.disk idx) m = 0 →
    (∀ x, i ≤ x → x < m → indexPtr (k.fs.disk idx) x ≠ 0) →
    ∃ k', truncateLoop idx n i k = .ok ((), k') ∧ TruncEff k k' idx i m := by
  intro n
  induction n with
  | zero =>
      intro i k hin him
      omega
  | succ n ih =>
      intro i k hin him hzero hlead
      rw [truncateLoop]
      by_cases heq : i = m
      · subst heq
        rw [if_pos hzero]
        refine ⟨k, rfl, rfl, fun _ _ => rfl, fun j => ?_, fun x h1 h2 => ?_, fun _ _ => rfl⟩
        · rw [if_neg (by omega)]
        · omega
      · have hlt : i < m := by omega
        rw [if_neg (hlead i (Nat.le_refl i) hlt)]
        obtain ⟨k', hrun, heff⟩ := ih (i + 1) (truncateStep k idx i) (by omega) (by omega)
          (by rw [truncateStep_ptr (by omega) hlt]; exact hzero)
          (fun x hix hxm => by
            rw [truncateStep_ptr (by omega) hix]
            exact hlead x (by omega) hxm)
        exact ⟨k', hrun, heff.cons hlt hm⟩

/-- Without a zero pointer the loop runs off the block. -/
theorem truncateLoop_runsOff : ∀ (n i : Nat) (k : Kernel), i + n = 1024 →
    (∀ x, i ≤ x → x < 1024 → indexPtr (k.fs.disk idx) x ≠ 0) →
    ∃ e, truncateLoop idx n i k = .error e := by
  intro n
  induction n with
  | zero => exact fun i k _ _ => ⟨_, rfl⟩
  | succ n ih =>
      intro i k hin hlead
      rw [truncateLoop, if_neg (hlead i (Nat.le_refl i) (by omega))]
      refine ih (i + 1) (truncateStep k idx i) (by omega) fun x hix hx => ?_
      rw [truncateStep_ptr (by omega) hix]
      exact hlead x (by omega) hx

/-! ## The call -/

/-- What belongs to inode `i` is as it was. -/
structure Untouched (fs fs' : Fs) (chain : List Nat) (i : Nat) : Prop where
  inode : fs'.inode i = fs.inode i
  blocks : ∀ r c, r.By i → Refers fs chain r c →
    fs'.disk c = fs.disk c ∧ fs'.sbi.bfreeBitmap c = fs.sbi.bfreeBitmap c
  slices : ∀ b j, fs.OwnsSlice i b j →
    (∀ x, 128 * j ≤ x → x < 128 * j + 128 → (fs'.disk b).get x = (fs.disk b).get x) ∧
      (sliceBitmap (fs'.disk b)).getLsbD j = (sliceBitmap (fs.disk b)).getLsbD j ∧
      fs'.sbi.bfreeBitmap b = fs.sbi.bfreeBitmap b
  content : fs'.content i = fs.content i

/-- Opening the file `ino` empties it and touches no other file or directory. -/
def Truncates (k : Kernel) (chain : List Nat) (ino : Nat) (flags : OpenFlags) : Prop :=
  ∃ r k', ouichefsOpen k ino flags = .ok (r, k') ∧ (k'.fs.inode ino).iSize = 0 ∧
    ∀ i, i ≠ ino → k.fs.Live i → Untouched k.fs k'.fs chain i

/-- The first `m` pointers of block `idx` are neither part of inode `i` nor name a block of it. -/
structure Spared (fs : Fs) (chain : List Nat) (idx m i : Nat) : Prop where
  block : ∀ r c, r.By i → Refers fs chain r c →
    (c = idx → m = 0) ∧ ∀ x < m, indexPtr (fs.disk idx) x ≠ c
  sliced : fs.Is i .small → ((fs.inode i).getBno = idx → 4 * m ≤ 128 * (fs.inode i).getSlice) ∧
    ∀ x < m, indexPtr (fs.disk idx) x ≠ (fs.inode i).getBno

section Files

variable {fs fs' : Fs}

/-- A page whose first `n` words are cleared to itself keeps every byte. -/
theorem cleared_eq {b b' : Block} (hm : m = 0)
    (h : ∀ j, b'.get j = if 4 * 0 ≤ j ∧ j < 4 * m then 0 else b.get j) : b' = b :=
  Page.ext_get fun j _ => by rw [h, if_neg (by omega)]

/-- The content follows the blocks and the slices. -/
theorem Untouched.content_eq {Z : Prop} (h : WF fs chain Z) (hl : fs.Live i)
    (hinode : fs'.inode i = fs.inode i)
    (hdisk : ∀ r c, r.By i → Refers fs chain r c → fs'.disk c = fs.disk c)
    (hslices : ∀ b j, fs.OwnsSlice i b j →
      ∀ x, 128 * j ≤ x → x < 128 * j + 128 → (fs'.disk b).get x = (fs.disk b).get x) :
    fs'.content i = fs.content i := by
  unfold Fs.content Fs.oldBytes
  rw [hinode]
  by_cases hbig : (fs.inode i).kind = .big
  · simp only [hbig, if_true]
    have hidx : fs'.indexOf i = fs.indexOf i := by
      unfold Fs.indexOf
      rw [hinode]
      exact hdisk (.index i) _ rfl ⟨Or.inr ⟨hl, hbig⟩, rfl⟩
    refine List.map_congr_left fun x hx => ?_
    have hlt : 0 + x < 4194304 := by
      have hsize := (h.inodes.big i ⟨hl, hbig⟩).1
      have hx' := List.mem_range.1 hx
      omega
    unfold Fs.bigByte
    rw [hidx]
    split
    · rfl
    · rename_i h0
      rw [hdisk (.data i ((0 + x) / 4096)) _ rfl ⟨⟨hl, hbig⟩, by omega, rfl, h0⟩]
  · simp only [hbig, if_false]
    split
    · rename_i hsmall
      have hok := h.slices.file i ⟨hl, hsmall⟩
      unfold Fs.smallBytes
      rw [hinode]
      refine Page.bytes_congr fun x hx => ?_
      have hsize := hok.size_le
      refine hslices _ ((fs.inode i).getSlice + x / 128) ⟨⟨hl, hsmall⟩, rfl, ?_, ?_⟩ _ ?_ ?_
      · omega
      · omega
      · omega
      · omega
    · rfl

/-- A sliced file is spared by the loop if its slices lie behind the cleared pointers. -/
theorem TruncEff.slices {Z : Prop} (h : WF fs chain Z) (he : TruncEff k k' idx 0 m) (hk : k.fs = fs)
    {b j : Nat} (hs : Spared fs chain idx m i) (hown : fs.OwnsSlice i b j) :
    (∀ x, 128 * j ≤ x → x < 128 * j + 128 → (k'.fs.disk b).get x = (fs.disk b).get x) ∧
      (sliceBitmap (k'.fs.disk b)).getLsbD j = (sliceBitmap (fs.disk b)).getLsbD j ∧
      k'.fs.sbi.bfreeBitmap b = fs.sbi.bfreeBitmap b := by
  subst hk
  obtain ⟨hsmall, rfl, hlow, hhigh⟩ := hown
  obtain ⟨hbehind, hnames⟩ := hs.sliced hsmall
  refine ⟨fun x hx _ => ?_, ?_, he.kept _ fun x _ hx => hnames x hx⟩
  · by_cases hb : (k.fs.inode i).getBno = idx
    · have hle := hbehind hb
      rw [hb, he.cleared, if_neg (by omega)]
    · rw [he.other _ hb]
  · by_cases hb : (k.fs.inode i).getBno = idx
    · have htaken := (h.slices.file i hsmall).taken j hlow hhigh
      rw [htaken, hb]
      by_cases hm : m = 0
      · rw [cleared_eq hm he.cleared, ← hb]
        exact htaken
      · have hword : (k'.fs.disk idx).word 0 = 0 := by
          refine (Page.word_eq_zero_iff _ _).2 fun x hx => ?_
          rw [he.cleared, if_pos (by omega)]
        unfold sliceBitmap
        rw [hword]
        simp
    · rw [he.other _ hb]

/-- **What the loop does not hit is untouched**, and nothing else is. -/
theorem TruncEff.untouched_iff {Z : Prop} (h : WF k.fs chain Z) (hm : Ends (k.fs.disk idx) m)
    (he : TruncEff k k' idx 0 m) (hl : k.fs.Live i) (hdisk : fs'.disk = k'.fs.disk)
    (hsbi : fs'.sbi = k'.fs.sbi) (hinode : fs'.inode i = k.fs.inode i) :
    Untouched k.fs fs' chain i ↔ Spared k.fs chain idx m i := by
  -- a block that a leading pointer names has become free
  have hfreed : ∀ c, k.fs.Used c → fs'.sbi.bfreeBitmap c = k.fs.sbi.bfreeBitmap c →
      ∀ x < m, indexPtr (k.fs.disk idx) x ≠ c := by
    rintro c hused hsame x hx rfl
    have hrel := he.released x (Nat.zero_le x) hx (Nat.le_of_lt hused.1)
    rw [← hsbi, hsame, hused.2] at hrel
    cases hrel
  constructor
  · intro hu
    refine ⟨fun r c hr href => ?_, fun hs => ?_⟩
    · obtain ⟨hsame, hbit⟩ := hu.blocks r c hr href
      refine ⟨?_, hfreed c (h.owned.used href) hbit⟩
      rintro rfl
      by_contra hpos
      refine hm.leading 0 (by omega) ((Page.word_eq_zero_iff _ _).2 fun x hx => ?_)
      rw [← hsame, hdisk, he.cleared, if_pos (by omega)]
    · have hok := h.slices.file i hs
      have hpos := hok.size_pos hs
      have hle := hok.size_le
      obtain ⟨hsame, -, hbit⟩ := hu.slices _ (k.fs.inode i).getSlice
        ⟨hs, rfl, Nat.le_refl _, by omega⟩
      refine ⟨?_, hfreed _ (h.toCore.chain_used hok.mem) hbit⟩
      intro hb
      by_contra hlt
      refine hm.leading (32 * (k.fs.inode i).getSlice) (by omega)
        ((Page.word_eq_zero_iff _ _).2 fun x hx => ?_)
      rw [← hb, ← hsame _ (by omega) (by omega), hdisk, hb, he.cleared, if_pos (by omega)]
  · intro hs
    have hblocks : ∀ r c, r.By i → Refers k.fs chain r c →
        fs'.disk c = k.fs.disk c ∧ fs'.sbi.bfreeBitmap c = k.fs.sbi.bfreeBitmap c := by
      intro r c hr href
      obtain ⟨hzero, hnames⟩ := hs.block r c hr href
      rw [hdisk, hsbi]
      refine ⟨?_, he.kept c fun x _ hx => hnames x hx⟩
      by_cases hc : c = idx
      · rw [hc]
        exact cleared_eq (hzero hc) he.cleared
      · exact he.other c hc
    have hslices := fun b j => @TruncEff.slices _ _ _ _ _ _ _ Z h he rfl b j hs
    rw [← hdisk, ← hsbi] at hslices
    exact ⟨hinode, hblocks, hslices, Untouched.content_eq h hl hinode
      (fun r c hr href => (hblocks r c hr href).1) fun b j hown => (hslices b j hown).1⟩

end Files

/-- Every block has a first zero pointer or none. -/
theorem ends_or_full (b : Block) : (∃ m, Ends b m) ∨ ∀ x < 1024, indexPtr b x ≠ 0 := by
  by_cases hz : ∃ x, x < 1024 ∧ indexPtr b x = 0
  · obtain ⟨hlt, hzero⟩ := Nat.find_spec hz
    refine Or.inl ⟨Nat.find hz, hlt, hzero, fun x hx h0 => ?_⟩
    exact Nat.find_min hz hx ⟨by omega, h0⟩
  · exact Or.inr fun x hx h0 => hz ⟨x, hx, h0⟩

/-- **When a truncating open of a small file spares every other file**: the block whose number is
the encoded pair can be read and has a zero pointer, and what comes before that neither belongs to
another file nor names a block of one. -/
theorem ouichefsOpen_truncates_iff {Z : Prop} {flags : OpenFlags} (h : WF k.fs chain Z)
    (hs : k.fs.Is ino .small)
    (hflags : ((flags.wronly || flags.rdwr) && flags.trunc) = true) :
    Truncates k chain ino flags ↔ (k.sbBread (k.inode ino).indexBlock).1 = true ∧
      ∃ m, Ends (k.fs.indexOf ino) m ∧
        ∀ i, i ≠ ino → k.fs.Live i → Spared k.fs chain (k.inode ino).indexBlock m i := by
  have hsize : (k.fs.inode ino).iSize ≠ 0 :=
    Nat.pos_iff_ne_zero.1 ((h.slices.file ino hs).size_pos hs).1
  have hcond : ((flags.wronly || flags.rdwr) && flags.trunc && (k.inode ino).iSize != 0) = true := by
    rw [hflags, Bool.true_and]
    exact bne_iff_ne.2 hsize
  have hfs := k.fs_sbBread (k.inode ino).indexBlock
  unfold Truncates ouichefsOpen
  simp only [hcond, if_true]
  generalize hidx : (k.inode ino).indexBlock = idx at hfs
  have hblock : k.fs.indexOf ino = k.fs.disk idx := by rw [← hidx]; rfl
  rw [hblock]
  obtain ⟨ok, k₁, hread⟩ : ∃ ok k₁, k.sbBread idx = (ok, k₁) := ⟨_, _, rfl⟩
  rw [hread] at hfs
  rw [hread]
  cases ok with
  | false =>
      refine iff_of_false ?_ fun hc => by cases hc.1
      rintro ⟨r, k', hrun, hzero, -⟩
      cases hrun
      rw [hfs] at hzero
      exact hsize hzero
  | true =>
      simp only [true_and]
      rcases ends_or_full (k.fs.disk idx) with ⟨m, hm⟩ | hfull
      · obtain ⟨k₂, hloop, heff⟩ := truncateLoop_eff hm.lt 1024 0 k₁ rfl (Nat.zero_le m)
          (by rw [hfs]; exact hm.zero) fun x _ hx => by rw [hfs]; exact hm.leading x hx
        have hinode : ∀ i, i ≠ ino →
            (k₂.fs.setInode ino { k₂.inode ino with iSize := 0 }).inode i = k₁.fs.inode i := by
          intro i hi
          rw [Fs.inode_setInode, if_neg hi]
          unfold Fs.inode
          rw [heff.icache]
        rw [hloop]
        rw [← hfs] at h hm ⊢
        have hiff : ∀ i, i ≠ ino → k₁.fs.Live i →
            (Untouched k₁.fs (k₂.fs.setInode ino { k₂.inode ino with iSize := 0 }) chain i ↔
              Spared k₁.fs chain idx m i) :=
          fun i hi hl => heff.untouched_iff h hm hl rfl rfl (hinode i hi)
        constructor
        · rintro ⟨r, k', hrun, -, hall⟩
          cases hrun
          exact ⟨m, hm, fun i hi hl => (hiff i hi hl).1 (hall i hi hl)⟩
        · rintro ⟨m', hm', hall⟩
          have hmm : m' = m := by
            rcases Nat.lt_trichotomy m' m with hlt | heq | hgt
            · exact absurd hm'.zero (hm.leading m' hlt)
            · exact heq
            · exact absurd hm.zero (hm'.leading m hgt)
          subst hmm
          refine ⟨_, _, rfl, ?_, fun i hi hl => (hiff i hi hl).2 (hall i hi hl)⟩
          simp
      · refine iff_of_false ?_ ?_
        · rintro ⟨r, k', hrun, -⟩
          obtain ⟨e, hloop⟩ := @truncateLoop_runsOff idx 1024 0 k₁ rfl fun x _ hx => by
            rw [hfs]
            exact hfull x hx
          rw [hloop] at hrun
          cases hrun
        · rintro ⟨m, hm, -⟩
          exact hfull m hm.lt hm.zero

/-- The file of one byte on a device without block 161. -/
theorem ouichefsOpen_truncates_eio : ∃ k chain, k.faults = [] ∧ WF k.fs chain ∧
    k.fs.Is 2 .small ∧ 0 < (k.fs.inode 2).iSize ∧ ¬Truncates k chain 2 ⟨true, false, true⟩ := by
  have hrun : ∃ chain, PlainInv ((emptyImage 8 8).after threeBytes) chain := threeBytes_inv
  obtain ⟨chain, hinv⟩ := hrun
  refine ⟨_, chain, hinv.faults, hinv.wf, by decide +kernel, by decide +kernel, ?_⟩
  rintro ⟨r, k', hopen, hzero, -⟩
  have hsize : (ouichefsOpen ((emptyImage 8 8).after threeBytes) 2
      ⟨true, false, true⟩).kernel.fs.inode 2 = ((emptyImage 8 8).after threeBytes).fs.inode 2 := by
    decide +kernel
  rw [hopen] at hsize
  have hthree : (((emptyImage 8 8).after threeBytes).fs.inode 2).iSize = 3 := by decide +kernel
  rw [← hsize] at hthree
  rw [Outcome.kernel, hzero] at hthree
  cases hthree

/-- On a device where block 161 is free the same call works. -/
theorem ouichefsOpen_truncates_iff_free : ∃ k chain, WF k.fs chain ∧ k.fs.Is 2 .small ∧
    Truncates k chain 2 ⟨true, false, true⟩ := by
  have hrun : ∃ chain, PlainInv ((emptyImage 200 8).after threeBytes) chain :=
    emptyImage_after (by decide +kernel)
  obtain ⟨chain, hinv⟩ := hrun
  have hs : ((emptyImage 200 8).after threeBytes).fs.Is 2 .small := by decide +kernel
  have hzero : indexPtr (((emptyImage 200 8).after threeBytes).fs.indexOf 2) 0 = 0 := by
    decide +kernel
  refine ⟨_, chain, hinv.wf, hs, (ouichefsOpen_truncates_iff hinv.wf hs rfl).2
    ⟨by decide +kernel, 0, ⟨by decide, hzero, fun x hx => absurd hx (Nat.not_lt_zero x)⟩, ?_⟩⟩
  intro i _ _
  exact ⟨fun _ _ _ _ => ⟨fun _ => rfl, fun x hx => absurd hx (Nat.not_lt_zero x)⟩,
    fun _ => ⟨fun _ => Nat.zero_le _, fun x hx => absurd hx (Nat.not_lt_zero x)⟩⟩

/-! ## Big files -/

/-- The data blocks of the big file `ino`. -/
def Fs.dataBlocks (fs : Fs) (ino : Nat) : Finset Nat :=
  ((Finset.range 1024).image (indexPtr (fs.indexOf ino))).erase 0

theorem Fs.mem_dataBlocks {fs : Fs} {b : Nat} : b ∈ fs.dataBlocks ino ↔
    b ≠ 0 ∧ ∃ i < 1024, indexPtr (fs.indexOf ino) i = b := by
  unfold Fs.dataBlocks
  simp only [Finset.mem_erase, Finset.mem_image, Finset.mem_range]

/-- Exactly the data blocks of `ino` were freed; the index block is kept, without pointers. -/
structure DataReleased (fs fs' : Fs) (ino : Nat) : Prop where
  bits : ∀ b, fs'.sbi.bfreeBitmap b = true ↔ fs.sbi.bfreeBitmap b = true ∨ b ∈ fs.dataBlocks ino
  nrFree : fs'.sbi.nrFreeBlocks = fs.sbi.nrFreeBlocks + (fs.dataBlocks ino).card
  index : (fs'.inode ino).indexBlock = (fs.inode ino).indexBlock ∧
    fs'.sbi.bfreeBitmap (fs.inode ino).indexBlock = false
  ptrs : ∀ i < 1024, indexPtr (fs'.indexOf ino) i = 0
  others : ∀ b, b ≠ (fs.inode ino).indexBlock → b ∉ fs.dataBlocks ino → fs'.disk b = fs.disk b

/-- The nonzero pointers of the block come first, and at least one pointer is zero. -/
def Packed (b : Block) : Prop := ∃ m, Ends b m ∧ ∀ i, m ≤ i → i < 1024 → indexPtr b i = 0

theorem Packed.mem_dataBlocks {fs : Fs} (hm : Ends (fs.indexOf ino) m)
    (hrest : ∀ i, m ≤ i → i < 1024 → indexPtr (fs.indexOf ino) i = 0) (b : Nat) :
    b ∈ fs.dataBlocks ino ↔ ∃ x < m, indexPtr (fs.indexOf ino) x = b := by
  rw [Fs.mem_dataBlocks]
  constructor
  · rintro ⟨hne, i, hi, rfl⟩
    refine ⟨i, ?_, rfl⟩
    by_contra hge
    exact hne (hrest i (Nat.le_of_not_lt hge) hi)
  · rintro ⟨x, hx, rfl⟩
    have := hm.lt
    exact ⟨hm.leading x hx, x, by omega, rfl⟩

/-- Distinct leading pointers name distinct blocks. -/
theorem Packed.card_dataBlocks {Z : Prop} {fs : Fs} (h : WF fs chain Z) (hb : fs.Is ino .big)
    (hm : Ends (fs.indexOf ino) m)
    (hrest : ∀ i, m ≤ i → i < 1024 → indexPtr (fs.indexOf ino) i = 0) :
    (fs.dataBlocks ino).card = m := by
  have heq : fs.dataBlocks ino = (Finset.range m).image (indexPtr (fs.indexOf ino)) := by
    ext b
    rw [Packed.mem_dataBlocks hm hrest, Finset.mem_image]
    simp only [Finset.mem_range]
  have hlt := hm.lt
  rw [heq, Finset.card_image_of_injOn, Finset.card_range]
  intro x hx y hy hxy
  rw [Finset.mem_coe, Finset.mem_range] at hx hy
  have hfirst : Refers fs chain (.data ino x) (indexPtr (fs.indexOf ino) x) :=
    ⟨hb, by omega, rfl, hm.leading x hx⟩
  have href := h.owned.inj hfirst
    (show Refers fs chain (.data ino y) _ from ⟨hb, by omega, hxy, hm.leading x hx⟩)
  cases href
  rfl

theorem truncateStep_nrFree (hle : indexPtr (k.fs.disk idx) i ≤ k.fs.sbi.nrBlocks) :
    (truncateStep k idx i).fs.sbi.nrFreeBlocks = add32 k.fs.sbi.nrFreeBlocks 1 := by
  rw [truncateStep_fs hle]
  rfl

/-- The counter of free blocks grows with every iteration. -/
theorem truncateLoop_nrFree (idx : Nat) (hm : m < 1024) : ∀ (n i : Nat) (k : Kernel),
    i + n = 1024 → i ≤ m →
    indexPtr (k.fs.disk idx) m = 0 →
    (∀ x, i ≤ x → x < m → indexPtr (k.fs.disk idx) x ≠ 0 ∧
      indexPtr (k.fs.disk idx) x ≤ k.fs.sbi.nrBlocks) →
    k.fs.sbi.nrFreeBlocks + (m - i) < 4294967296 →
    (truncateLoop idx n i k).kernel.fs.sbi.nrFreeBlocks = k.fs.sbi.nrFreeBlocks + (m - i) := by
  intro n
  induction n with
  | zero =>
      intro i k hin him
      omega
  | succ n ih =>
      intro i k hin him hzero hlead hlt
      rw [truncateLoop]
      by_cases heq : i = m
      · subst heq
        rw [if_pos hzero, Nat.sub_self]
        rfl
      · have him' : i < m := by omega
        obtain ⟨hne, hle⟩ := hlead i (Nat.le_refl i) him'
        rw [if_neg hne]
        have hnr := truncateStep_nrFree hle
        rw [add32_of_lt (by omega)] at hnr
        have hrun := ih (i + 1) (truncateStep k idx i) (by omega) (by omega)
          (by rw [truncateStep_ptr (by omega) him']; exact hzero)
          (fun x hix hxm => by
            rw [truncateStep_ptr (by omega) hix, truncateStep_nrBlocks]
            exact hlead x (by omega) hxm)
          (by rw [hnr]; omega)
        refine hrun.trans ?_
        rw [hnr]
        omega

/-- Opening the big file `ino` frees exactly its data blocks. -/
def ReleasesData (k : Kernel) (ino : Nat) (flags : OpenFlags) : Prop :=
  ∃ r k', ouichefsOpen k ino flags = .ok (r, k') ∧ DataReleased k.fs k'.fs ino

/-- The truncation of a packed index block frees exactly the data blocks. -/
theorem TruncEff.dataReleased {Z : Prop} {fs' : Fs} (h : WF k.fs chain Z) (hb : k.fs.Is ino .big)
    (hm : Ends (k.fs.indexOf ino) m)
    (hrest : ∀ i, m ≤ i → i < 1024 → indexPtr (k.fs.indexOf ino) i = 0)
    (he : TruncEff k k' (k.fs.inode ino).indexBlock 0 m)
    (hnr : k.fs.sbi.nrFreeBlocks + m < 4294967296 →
      k'.fs.sbi.nrFreeBlocks = k.fs.sbi.nrFreeBlocks + m)
    (hdisk : fs'.disk = k'.fs.disk) (hsbi : fs'.sbi = k'.fs.sbi)
    (hinode : (fs'.inode ino).indexBlock = (k.fs.inode ino).indexBlock) :
    DataReleased k.fs fs' ino := by
  have hmem := Packed.mem_dataBlocks hm hrest
  have hlt := hm.lt
  have hused : ∀ b ∈ k.fs.dataBlocks ino, k.fs.Used b := by
    intro b hbm
    obtain ⟨hne, i, hi, rfl⟩ := Fs.mem_dataBlocks.1 hbm
    exact h.owned.used (r := .data ino i) ⟨hb, hi, rfl, hne⟩
  have hbits : ∀ b, k'.fs.sbi.bfreeBitmap b = true ↔
      k.fs.sbi.bfreeBitmap b = true ∨ b ∈ k.fs.dataBlocks ino := by
    intro b
    by_cases hd : b ∈ k.fs.dataBlocks ino
    · obtain ⟨x, hx, hptr⟩ := (hmem b).1 hd
      have hle : indexPtr (k.fs.indexOf ino) x ≤ k.fs.sbi.nrBlocks := by
        rw [hptr]
        exact Nat.le_of_lt (hused b hd).1
      have hrel := he.released x (Nat.zero_le x) hx hle
      rw [show indexPtr (k.fs.disk (k.fs.inode ino).indexBlock) x = b from hptr] at hrel
      exact iff_of_true hrel (Or.inr hd)
    · rw [he.kept b fun x _ hx hptr => hd ((hmem b).2 ⟨x, hx, hptr⟩)]
      simp only [hd, or_false]
  have hcard := Packed.card_dataBlocks h hb hm hrest
  have hcount := FreeMap.countBits_union hused fun b _ => hbits b
  have hle := FreeMap.countBits_le k'.fs.sbi.bfreeBitmap k.fs.sbi.nrBlocks
  have hblocks := h.sb.blocks_lt
  rw [hcard, ← h.sb.count] at hcount
  have hidx := h.big_used hb
  refine ⟨?_, ?_, ⟨hinode, ?_⟩, ?_, ?_⟩
  · rw [hsbi]
    exact hbits
  · rw [hsbi, hcard]
    exact hnr (by omega)
  · rw [hsbi, he.kept]
    · exact hidx.2
    · intro x _ hx hptr
      have hindex : Refers k.fs chain (.index ino) (k.fs.inode ino).indexBlock := ⟨Or.inr hb, rfl⟩
      have href := h.owned.inj hindex (show Refers k.fs chain (.data ino x) _ from
        ⟨hb, by omega, hptr.symm, by
          rw [← hptr]
          exact hm.leading x hx⟩)
      cases href
  · intro i hi
    unfold Fs.indexOf
    rw [hinode, hdisk]
    refine (Page.word_eq_zero_iff _ _).2 fun x hx => ?_
    rw [he.cleared]
    split
    · rfl
    · exact (Page.word_eq_zero_iff _ _).1 (hrest i (by omega) hi) x hx
  · intro b hne _
    rw [hdisk]
    exact he.other b hne

/-- **When a truncating open of a big file frees all of it**: the nonzero pointers of the index block
come first and one pointer is zero, and the block can be read unless there is nothing to free. -/
theorem ouichefsOpen_releases_iff {Z : Prop} {flags : OpenFlags} (h : WF k.fs chain Z)
    (hb : k.fs.Is ino .big) (hsize : 0 < (k.fs.inode ino).iSize)
    (hflags : ((flags.wronly || flags.rdwr) && flags.trunc) = true) :
    ReleasesData k ino flags ↔ Packed (k.fs.indexOf ino) ∧
      ((k.sbBread (k.fs.inode ino).indexBlock).1 = true ∨ indexPtr (k.fs.indexOf ino) 0 = 0) := by
  have hcond : ((flags.wronly || flags.rdwr) && flags.trunc && (k.inode ino).iSize != 0) = true := by
    rw [hflags, Bool.true_and]
    exact bne_iff_ne.2 (Nat.pos_iff_ne_zero.1 hsize)
  have hfs := k.fs_sbBread (k.fs.inode ino).indexBlock
  have hidx : (k.inode ino).indexBlock = (k.fs.inode ino).indexBlock := rfl
  unfold ReleasesData ouichefsOpen
  simp only [hcond, if_true, hidx]
  obtain ⟨ok, k₁, hread⟩ : ∃ ok k₁, k.sbBread (k.fs.inode ino).indexBlock = (ok, k₁) := ⟨_, _, rfl⟩
  rw [hread] at hfs ⊢
  replace hfs : k₁.fs = k.fs := hfs
  cases ok with
  | false =>
      simp only [Bool.false_eq_true, false_or]
      constructor
      · rintro ⟨r, k', hrun, hrel⟩
        cases hrun
        rw [hfs] at hrel
        have hzero := fun i hi => hrel.ptrs i hi
        exact ⟨⟨0, ⟨by decide, hzero 0 (by decide), fun x hx => absurd hx (Nat.not_lt_zero x)⟩,
          fun i _ hi => hzero i hi⟩, hzero 0 (by decide)⟩
      · rintro ⟨⟨m, hm, hrest⟩, h0⟩
        have hm0 : m = 0 := by
          by_contra hne
          exact hm.leading 0 (Nat.pos_of_ne_zero hne) h0
        subst hm0
        refine ⟨_, _, rfl, ?_⟩
        rw [hfs]
        have heff : TruncEff k k (k.fs.inode ino).indexBlock 0 0 :=
          ⟨rfl, fun _ _ => rfl, fun j => (if_neg (by omega)).symm, fun x _ hx => by omega,
            fun _ _ => rfl⟩
        exact heff.dataReleased h hb hm hrest (fun _ => rfl) rfl rfl rfl
  | true =>
      simp only [true_or, and_true]
      rcases ends_or_full (k.fs.indexOf ino) with ⟨m, hm⟩ | hfull
      · obtain ⟨k₂, hloop, heff⟩ := truncateLoop_eff hm.lt 1024 0 k₁ rfl (Nat.zero_le m)
          (by rw [hfs]; exact hm.zero) fun x _ hx => by rw [hfs]; exact hm.leading x hx
        have hinode : ((k₂.fs.setInode ino { k₂.inode ino with iSize := 0 }).inode ino).indexBlock =
            (k.fs.inode ino).indexBlock := by
          simp only [Fs.inode_setInode, if_true]
          unfold Kernel.inode Fs.inode
          rw [heff.icache, hfs]
        rw [hloop]
        rw [← hfs] at h hb hm hloop heff hinode ⊢
        constructor
        · rintro ⟨r, k', hrun, hrel⟩
          cases hrun
          refine ⟨m, hm, fun i hmi hi => (Page.word_eq_zero_iff _ _).2 fun x hx => ?_⟩
          have hzero := (Page.word_eq_zero_iff _ _).1 (hrel.ptrs i hi) x hx
          unfold Fs.indexOf at hzero
          rw [show ((Kernel.brelse (k₂.setInode ino { k₂.inode ino with iSize := 0 })
            (k₁.fs.inode ino).indexBlock).fs.inode ino).indexBlock =
              (k₁.fs.inode ino).indexBlock from hinode] at hzero
          rw [← hzero]
          refine Eq.trans ?_ (heff.cleared _).symm
          rw [if_neg (by omega)]
          rfl
        · rintro ⟨m', hm', hrest⟩
          have hmm : m' = m := by
            rcases Nat.lt_trichotomy m' m with hlt | heq | hgt
            · exact absurd hm'.zero (hm.leading m' hlt)
            · exact heq
            · exact absurd hm.zero (hm'.leading m hgt)
          subst hmm
          refine ⟨_, _, rfl, heff.dataReleased h hb hm hrest (fun hlt => ?_) rfl rfl hinode⟩
          have hcount := truncateLoop_nrFree (k₁.fs.inode ino).indexBlock hm.lt 1024 0 k₁
            rfl (Nat.zero_le _) hm.zero (fun x _ hx => ⟨hm.leading x hx, ?_⟩) hlt
          · rw [hloop] at hcount
            exact hcount
          · have hx1024 := hm.lt
            exact Nat.le_of_lt (h.owned.used (r := .data ino x)
              ⟨hb, by omega, rfl, hm.leading x hx⟩).1
      · refine iff_of_false ?_ ?_
        · rintro ⟨r, k', hrun, -⟩
          obtain ⟨e, hloop⟩ := @truncateLoop_runsOff (k.fs.inode ino).indexBlock 1024 0 k₁ rfl
            fun x _ hx => by
              rw [hfs]
              exact hfull x hx
          rw [hloop] at hrun
          cases hrun
        · rintro ⟨m, hm, -⟩
          exact hfull m hm.lt hm.zero

/-- The truncation stops at the hole. -/
theorem ouichefsOpen_keepsHole : ∃ k chain, k.faults = [] ∧ WF k.fs chain ∧ k.fs.Is 2 .big ∧
    0 < (k.fs.inode 2).iSize ∧ (k.fs.inode 2).iSize ≤ 4194304 ∧
    ¬ReleasesData k 2 ⟨true, false, true⟩ := by
  have hrun : ∃ chain, PlainInv ((emptyImage 8 8).after holeFile) chain :=
    emptyImage_after (by decide +kernel)
  obtain ⟨chain, hinv⟩ := hrun
  refine ⟨_, chain, hinv.faults, hinv.wf, by decide +kernel, by decide +kernel, by decide +kernel, ?_⟩
  rintro ⟨r, k', hopen, hrel⟩
  have hptr : indexPtr ((ouichefsOpen ((emptyImage 8 8).after holeFile) 2
      ⟨true, false, true⟩).kernel.fs.indexOf 2) 1 ≠ 0 := by decide +kernel
  rw [hopen] at hptr
  exact hptr (hrel.ptrs 1 (by decide))

/-- A file without holes. -/
def packedFile : List Call :=
  [(Op.create 1 [97] 0o100644).call, (Op.write 2 4100 [1]).call, (Op.write 2 4 [1]).call]

/-- All of a file without holes is freed. -/
theorem ouichefsOpen_releases_iff_packed : ∃ k chain, WF k.fs chain ∧ k.fs.Is 2 .big ∧
    ReleasesData k 2 ⟨true, false, true⟩ := by
  have hrun : ∃ chain, PlainInv ((emptyImage 8 8).after packedFile) chain :=
    emptyImage_after (by decide +kernel)
  obtain ⟨chain, hinv⟩ := hrun
  have hb : ((emptyImage 8 8).after packedFile).fs.Is 2 .big := by decide +kernel
  refine ⟨_, chain, hinv.wf, hb, (ouichefsOpen_releases_iff hinv.wf hb (by decide +kernel) rfl).2
    ⟨⟨2, ⟨by decide, by decide +kernel, by decide +kernel⟩, ?_⟩, Or.inl (by decide +kernel)⟩⟩
  have hzero : ∀ i < 1024, 2 ≤ i →
      indexPtr (((emptyImage 8 8).after packedFile).fs.indexOf 2) i = 0 := by decide +kernel
  exact fun i hi hlt => hzero i hlt hi

/-! ## The invariant after a truncating open -/

section Invariant

/-- Without the part about free blocks. -/
theorem WF.loosen {fs : Fs} {Z : Prop} (h : WF fs chain Z) : WF fs chain False :=
  { h with sb := { h.sb with blocks_le := False.elim }, zero := False.elim }

/-- **One iteration takes a block away from the big file.** -/
theorem truncateStep_wf (h : WF k.fs chain False) (hb : k.fs.Is ino .big) (hi : i < 1024)
    (h0 : indexPtr (k.fs.indexOf ino) i ≠ 0) :
    WF (truncateStep k (k.fs.inode ino).indexBlock i).fs chain False := by
  have href : Refers k.fs chain (.data ino i) (indexPtr (k.fs.indexOf ino) i) := ⟨hb, hi, rfl, h0⟩
  have hused := h.owned.used href
  have hindex : ∀ {d}, k.fs.Is d .dir ∨ k.fs.Is d .big → d ≠ ino →
      (k.fs.inode d).indexBlock ≠ (k.fs.inode ino).indexBlock := by
    intro d hd hne
    refine h.ne_of_refs (r := .index d) (s := .index ino) ⟨hd, rfl⟩ ⟨Or.inr hb, rfl⟩ ?_
    rintro ⟨⟩
    exact hne rfl
  have hfs := @truncateStep_fs k (k.fs.inode ino).indexBlock i (Nat.le_of_lt hused.1)
  have hdisk : ∀ c, c ≠ (k.fs.inode ino).indexBlock →
      (truncateStep k (k.fs.inode ino).indexBlock i).fs.disk c = k.fs.disk c := by
    intro c hc
    exact (Fs.disk_setBlock ..).trans (if_neg hc)
  have hptr : ∀ j, indexPtr ((truncateStep k (k.fs.inode ino).indexBlock i).fs.indexOf ino) j =
      if j = i then 0 else indexPtr (k.fs.indexOf ino) j := by
    intro j
    rw [hfs, ← indexPtr_setWord _ hi (by decide)]
    unfold Fs.indexOf Fs.linkData
    rw [Fs.disk_setBlock]
    exact congrArg (indexPtr · j) (if_pos rfl)
  generalize (truncateStep k (k.fs.inode ino).indexBlock i).fs = fs' at hfs hdisk hptr
  have hinode : fs'.inode = k.fs.inode := by
    rw [hfs]
    rfl
  have hlive : ∀ d, fs'.Live d ↔ k.fs.Live d := by
    rw [hfs]
    exact fun _ => Iff.rfl
  have his : ∀ d κ, fs'.Is d κ ↔ k.fs.Is d κ := by
    rw [hfs]
    exact fun _ _ => Iff.rfl
  have hchain : ∀ c ∈ chain, fs'.disk c = k.fs.disk c := by
    intro c hc
    refine hdisk c ?_
    rintro rfl
    exact h.dir_notin_chain (Or.inr hb) hc
  -- the reference that is gone is the only one to the block
  have hsub : ∀ r a, Refers fs' chain r a → Refers k.fs chain r a ∧ r ≠ .data ino i := by
    intro r a hr
    cases r with
    | header c =>
        rw [hfs] at hr
        exact ⟨hr, by simp⟩
    | sliced c => exact ⟨hr, by simp⟩
    | index d =>
        rw [hfs] at hr
        exact ⟨hr, by simp⟩
    | data d j =>
        obtain ⟨hd, hj, ha, hne⟩ := hr
        have hd' := (his d .big).1 hd
        by_cases hdi : d = ino
        · subst hdi
          rw [hptr] at ha
          split at ha
          · exact absurd ha hne
          · rename_i hji
            exact ⟨⟨hd', hj, ha, hne⟩, fun hc => hji (Ref.data.inj hc).2⟩
        · refine ⟨⟨hd', hj, ?_, hne⟩, fun hc => hdi (Ref.data.inj hc).1⟩
          rw [ha]
          unfold Fs.indexOf
          rw [hinode, hdisk _ (hindex (Or.inr hd') hdi)]
  refine ⟨⟨⟨?_, ?_, False.elim, ?_⟩, ?_, h.nodup, ?_, ?_, False.elim, ?_, ?_⟩, ?_, ?_, ?_, ?_⟩
  · rw [hfs]
    exact h.sb.meta_lt
  · rw [hfs]
    exact h.sb.blocks_lt
  · have hcount := FreeMap.countBits_set hused.1 hused.2
    have hle := FreeMap.countBits_le (Function.update k.fs.sbi.bfreeBitmap
      (indexPtr (k.fs.indexOf ino) i) true) k.fs.sbi.nrBlocks
    have hblocks := h.sb.blocks_lt
    rw [← h.sb.count] at hcount
    rw [hfs]
    show add32 k.fs.sbi.nrFreeBlocks 1 = _
    rw [add32_of_lt (by omega), ← hcount]
    rfl
  · rw [show fs'.sbi.sFreeSlicedBlocks = k.fs.sbi.sFreeSlicedBlocks by rw [hfs]; rfl]
    refine h.isChain.congr fun c hc => ?_
    unfold Fs.next
    rw [hchain c hc]
  · rw [hfs]
    exact h.sliced
  · refine h.owned.mono (fun r a hr => (hsub r a hr).1) fun r a hr hu => ?_
    obtain ⟨hold, hne⟩ := hsub r a hr
    have hab : a ≠ indexPtr (k.fs.indexOf ino) i := h.ne_of_refs hold href hne
    rw [hfs]
    exact ⟨hu.1, (Function.update_of_ne hab _ _).trans hu.2⟩
  · refine h.slices.frame (fun c hc => ?_) fun d hd => ⟨(his d _).1 hd, ?_⟩
    · rw [hchain c hc]
      exact .refl _
    · rw [hinode]
      exact .refl _
  · refine ⟨?_, fun d hd => ?_, fun d hd => ?_⟩
    · rw [hfs]
      exact h.inodes.bit0
    · rw [hfs] at hd ⊢
      exact h.inodes.cached d hd
    · rw [hinode]
      exact h.inodes.big d ((his d _).1 hd)
  · refine h.dirs.frame hlive (fun d => his d _) fun d hd => ?_
    have hne : d ≠ ino := by
      rintro rfl
      have := hd.kind_unique hb
      cases this
    unfold Fs.indexOf
    rw [hinode, hdisk _ (hindex (Or.inl hd) hne)]
  · rw [hfs]
    exact h.table.frame ⟨rfl, rfl, rfl, rfl, rfl⟩
  · intro d hd
    rw [hinode]
    exact h.fresh d ((his d _).1 hd)
  · intro d hd
    rw [hinode]
    exact h.stray d ((his d _).1 hd)

/-- The loop keeps the invariant, also when it runs past the last pointer. -/
theorem truncateLoop_wf : ∀ (n i : Nat) (k : Kernel), i + n = 1024 → WF k.fs chain False →
    k.fs.Is ino .big →
    WF (truncateLoop (k.fs.inode ino).indexBlock n i k).kernel.fs chain False ∧
      (truncateLoop (k.fs.inode ino).indexBlock n i k).kernel.fs.Is ino .big := by
  intro n
  induction n with
  | zero => exact fun i k _ h hb => ⟨h, hb⟩
  | succ n ih =>
      intro i k hin h hb
      rw [truncateLoop]
      split
      · exact ⟨h, hb⟩
      · rename_i h0
        have hused := h.owned.used (r := .data ino i) ⟨hb, by omega, rfl, h0⟩
        have hstep := truncateStep_wf h hb (by omega) h0
        have hbig : (truncateStep k (k.fs.inode ino).indexBlock i).fs.Is ino .big := by
          rw [truncateStep_fs (Nat.le_of_lt hused.1)]
          exact hb
        exact ih (i + 1) (truncateStep k (k.fs.inode ino).indexBlock i) (by omega) hstep hbig

/-- The size of a big file is set to 0; `i_blocks` stays. -/
theorem WF.empty {fs : Fs} (h : WF fs chain False) (hb : fs.Is ino .big) :
    WF (fs.setInode ino { fs.inode ino with iSize := 0 }) chain False := by
  have hok := h.inodes.big ino hb
  have hkind : ({ fs.inode ino with iSize := 0 } : Inode).kind = .big := hb.2
  have his : ∀ d κ, (fs.setInode ino { fs.inode ino with iSize := 0 }).Is d κ ↔ fs.Is d κ := by
    intro d κ
    by_cases hd : d = ino
    · subst hd
      rw [Fs.setInode_is_self hb.1, hkind]
      exact ⟨fun hκ => hκ ▸ hb, fun hκ => hb.2.symm.trans hκ.2⟩
    · exact Fs.setInode_is_other hd κ
  have hother : ∀ d κ, fs.Is d κ → κ ≠ .big → d ≠ ino := by
    rintro d κ hd hκ rfl
    exact hκ (hd.kind_unique hb)
  have hcore : Core (fs.setInode ino { fs.inode ino with iSize := 0 }) chain False := by
    refine h.toCore.setFile hb.1 rfl (by rw [hkind]; decide)
      (fun _ => ⟨Nat.zero_le _, ?_, hok.blocks_le⟩) ?_
    · have hge := hok.blocks_ge
      show divRoundUp 0 4096 + 1 ≤ (fs.inode ino).iBlocks
      unfold divRoundUp at hge ⊢
      omega
    · refine h.owned.mono (fun r a hr => ?_) fun _ _ _ => id
      by_cases hby : r.By ino
      · rw [refers_setInode_self hb.1 (by rw [hkind]; decide) hby] at hr
        rcases hr.2 with ⟨rfl, rfl⟩ | ⟨j, hj, rfl, ha, hne⟩
        · exact ⟨Or.inr hb, rfl⟩
        · exact ⟨hb, hj, ha, hne⟩
      · exact (refers_setInode_other hby a).1 hr
  refine { hcore with dirs := ?_, table := h.table, fresh := ?_, stray := ?_ }
  · exact h.dirs.frame (fun _ => Iff.rfl) (fun d => his d _) fun d hd =>
      Fs.setInode_indexOf_other (hother d _ hd (by decide))
  · intro d hd
    rw [Fs.inode_setInode, if_neg (hother d _ ((his d _).1 hd) (by decide))]
    exact h.fresh d ((his d _).1 hd)
  · intro d hd
    rw [Fs.inode_setInode, if_neg (hother d _ ((his d _).1 hd) (by decide))]
    exact h.stray d ((his d _).1 hd)

/-- **Opening a big file keeps the invariant**, whatever the flags and the answers: only the blocks
that it frees are not zero-filled, and `i_blocks` may be more than the new size asks for. -/
theorem ouichefsOpen_wf {Z : Prop} (h : WF k.fs chain Z) (hb : k.fs.Is ino .big)
    (flags : OpenFlags) : WF (ouichefsOpen k ino flags).kernel.fs chain False := by
  unfold ouichefsOpen
  simp only
  split
  · rcases hread : k.sbBread (k.inode ino).indexBlock with ⟨ok, k₁⟩
    have hfs : k₁.fs = k.fs := by
      have hsame := k.fs_sbBread (k.inode ino).indexBlock
      rwa [hread] at hsame
    cases ok with
    | false =>
        show WF k₁.fs chain False
        rw [hfs]
        exact h.loosen
    | true =>
        have hloop := @truncateLoop_wf chain ino 1024 0 k₁ rfl (hfs ▸ h.loosen) (hfs ▸ hb)
        rw [show (k₁.fs.inode ino).indexBlock = (k.inode ino).indexBlock by rw [hfs]; rfl] at hloop
        rcases hrun : truncateLoop (k.inode ino).indexBlock 1024 0 k₁ with ⟨c, k₂⟩ | ⟨u, k₂⟩
        · rw [hrun] at hloop
          simp only [hrun]
          exact hloop.1
        · rw [hrun] at hloop
          simp only [hrun]
          exact hloop.1.empty hloop.2
  · exact h.loosen

end Invariant

end Ouichefs
