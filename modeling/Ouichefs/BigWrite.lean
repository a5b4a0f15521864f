import Ouichefs.BigLoop

/-!
# What writing a big file does

Before the copy loop the file has an index block (`Prepared`); after it the inode gets its final
fields, or, when no block is free, keeps the fields it had.  A failed first write leaves the index
block behind in an inode that is otherwise empty.
-/

set_option autoImplicit false

namespace Ouichefs

open FreeMap

/-- Byte `x` of a file that is big or has no content. -/
def Fs.oldByte (fs : Fs) (ino x : Nat) : UInt8 :=
  if (fs.inode ino).kind = .big then fs.bigByte ino x else 0

/-- The inode of a file of `size` bytes with index block `idx`. -/
def Inode.grown (ci : Inode) (idx size : Nat) : Inode :=
  { ci with indexBlock := idx, iSize := size, iBlocks := divRoundUp size 4096 + 1 }

theorem Inode.grown_kind {ci : Inode} {idx size : Nat} (h : sIsDir ci.iMode = false) :
    (ci.grown idx size).kind = .big := by
  rw [Inode.kind_big]
  exact ⟨h, by simp [Inode.grown]⟩

theorem Inode.grown_bigOk {ci : Inode} {idx size : Nat} (h : size ≤ 4194304) :
    (ci.grown idx size).BigOk :=
  ⟨h, Nat.le_refl _, by simp only [Inode.grown]; unfold divRoundUp; omega⟩

/-- Storing the inode that is there. -/
theorem Fs.setInode_self {fs : Fs} {ino : Nat} (h : (fs.icache ino).isSome) :
    fs.setInode ino (fs.inode ino) = fs := by
  obtain ⟨ci, hci⟩ := Option.isSome_iff_exists.1 h
  unfold Fs.setInode Fs.inode
  rw [hci, Option.getD_some, ← hci, Function.update_eq_self]

section Prepare

variable {fs fs₂ : Fs} {chain : List Nat} {ino : Nat} {vi : Inode}

/-- `fs₂` is `fs` ready for the copy loop, whose final inode is `vi`. -/
structure Prepared (fs fs₂ : Fs) (chain : List Nat) (ino : Nat) (vi : Inode) : Prop where
  inv : LoopInv ino vi chain fs₂
  geom : SameGeom fs.sbi fs₂.sbi
  ifree : fs₂.sbi.ifreeBitmap = fs.sbi.ifreeBitmap
  icache : ∀ i, i ≠ ino → fs₂.icache i = fs.icache i
  cached : (fs₂.icache ino).isSome
  disk : fs₂.disk = fs.disk
  used : ∀ c, fs.Used c → fs₂.Used c
  refs : ∀ r c, fs.Used c → Refers (fs₂.setInode ino vi) chain r c → Refers fs chain r c
  tight : Tight fs chain → Tight (fs₂.setInode ino vi) chain
  bytes : ∀ x, (fs₂.setInode ino vi).bigByte ino x = fs.oldByte ino x

/-- A file that already has an index block. -/
theorem Prepared.of_big (h : Core fs chain) (hk : fs.Is ino .big) {size : Nat}
    (hsize : size ≤ 4194304) (hle : (fs.inode ino).iSize ≤ size) :
    Prepared fs fs chain ino ((fs.inode ino).grown (fs.inode ino).indexBlock size) := by
  generalize hvi : (fs.inode ino).grown (fs.inode ino).indexBlock size = vi
  have hmode : sIsDir (fs.inode ino).iMode = false := (Inode.kind_big.1 hk.2).1
  have hkind : vi.kind = .big := hvi ▸ Inode.grown_kind hmode
  have hidx : vi.indexBlock = (fs.inode ino).indexBlock := by rw [← hvi]; rfl
  have href : ∀ r c, Refers (fs.setInode ino vi) chain r c ↔ Refers fs chain r c := by
    intro r c
    by_cases hby : r.By ino
    · have hself := Fs.setInode_self (h.inodes.cached ino hk.1)
      have h' := @refers_setInode_self fs chain ino (fs.inode ino) hk.1
        (by rw [hk.2]; decide) _ hby c
      rw [hself] at h'
      rw [refers_setInode_self hk.1 (by rw [hkind]; decide) hby, h', hkind, hk.2, hidx]
    · exact refers_setInode_other hby c
  have hcore : Core (fs.setInode ino vi) chain := by
    refine h.setFile hk.1 (by rw [← hvi]; rfl) (by rw [hkind]; decide) (fun _ => ?_) ?_
    · rw [← hvi]; exact Inode.grown_bigOk hsize
    · exact h.owned.mono (fun r c => (href r c).1) fun _ _ _ => id
  have hbytes : ∀ x, (fs.setInode ino vi).bigByte ino x = fs.oldByte ino x := by
    intro x
    unfold Fs.oldByte Fs.bigByte
    rw [if_pos hk.2, Fs.setInode_indexOf_self, hidx]
    rfl
  refine ⟨⟨hcore, (Fs.setInode_is_self hk.1 _).2 hkind⟩, ⟨rfl, rfl, rfl, rfl, rfl⟩, rfl,
    fun _ _ => rfl, h.inodes.cached ino hk.1, rfl, fun _ => id, fun r c _ => (href r c).1,
    fun ht => ?_, hbytes⟩
  have hns : ¬fs.Is ino .small := fun hs => by cases hk.kind_unique hs
  refine TightBut.setFile ht hk.1 hns (by rw [hkind]; decide) ?_ ?_ ?_ fun _ => hvi ▸ rfl
  · intro a _ _ r _ hr
    exact ⟨r, (href r a).2 hr⟩
  · exact fun a hl => hl.elim
  · intro _ i h1 h2
    have hold := ht.ptrs ino hk i
    rw [ht.blocks ino hk] at hold
    rw [hidx]
    refine hold ?_ h2
    have : divRoundUp (fs.inode ino).iSize 4096 ≤ divRoundUp size 4096 := by
      unfold divRoundUp
      omega
    have h1' : divRoundUp size 4096 + 1 - 1 ≤ i := by rw [← hvi] at h1; exact h1
    omega

/-- A file that was never written gets the free block `b` as index block. -/
theorem Prepared.of_fresh (h : Core fs chain) (hk : fs.Is ino .fresh) {b size : Nat}
    (hb : b < fs.sbi.nrBlocks) (hfree : fs.sbi.bfreeBitmap b = true) (hsize : size ≤ 4194304) :
    Prepared fs ((fs.allocBlock b).setInode ino { fs.inode ino with indexBlock := b }) chain ino
      ((fs.inode ino).grown b size) := by
  generalize hvi : (fs.inode ino).grown b size = vi
  have hV : ((fs.allocBlock b).setInode ino { fs.inode ino with indexBlock := b }).setInode ino vi =
      (fs.allocBlock b).setInode ino vi := by
    unfold Fs.setInode
    simp only [Function.update_idem]
  have hmode : sIsDir (fs.inode ino).iMode = false := (Inode.kind_fresh.1 hk.2).1
  have hkind : vi.kind = .big := hvi ▸ Inode.grown_kind hmode
  have hidx : vi.indexBlock = b := by rw [← hvi]; rfl
  have hl : (fs.allocBlock b).Live ino := hk.1
  have hown : SameOwners fs (fs.allocBlock b) := .of_bfree _ _
  have hal := h.allocBlock hb hfree
  have hzero : (fs.allocBlock b).disk b = Page.zero := h.zero trivial b hb hfree
  have hptr : ∀ i, indexPtr ((fs.allocBlock b).disk vi.indexBlock) i = 0 := by
    intro i
    rw [hidx, hzero]
    exact (Page.word_eq_zero_iff _ _).2 fun y _ => Page.get_zero _
  have href : ∀ r c, Refers ((fs.allocBlock b).setInode ino vi) chain r c ↔
      Refers (fs.allocBlock b) chain r c ∨ r = .index ino ∧ c = b := by
    intro r c
    by_cases hby : r.By ino
    · rw [refers_setInode_self hl (by rw [hkind]; decide) hby]
      constructor
      · rintro ⟨-, ⟨rfl, hc⟩ | ⟨i, -, rfl, hc, hc0⟩⟩
        · exact Or.inr ⟨rfl, hc.trans hidx⟩
        · exact absurd (hc.trans (hptr i)) hc0
      · rintro (hr | ⟨rfl, rfl⟩)
        · rw [hown.refers] at hr
          cases r with
          | header b => exact hby.elim
          | sliced b => exact hby.elim
          | index i =>
              cases hby
              rcases hr.1 with hi | hi <;> cases hk.kind_unique hi
          | data i j =>
              cases hby
              cases hk.kind_unique hr.1
        · exact ⟨hkind, Or.inl ⟨rfl, hidx.symm⟩⟩
    · rw [refers_setInode_other hby, or_iff_left]
      rintro ⟨rfl, -⟩
      exact hby rfl
  have hub : (fs.allocBlock b).Used b := ⟨hb, by simp [Fs.allocBlock]⟩
  have hcore : Core ((fs.allocBlock b).setInode ino vi) chain := by
    refine hal.setFile hl (by rw [← hvi]; rfl) (by rw [hkind]; decide) (fun _ => ?_) ?_
    · rw [← hvi]; exact Inode.grown_bigOk hsize
    · exact hal.owned.link (h.unref_alloc hfree) (fun r c => (href r c).1) (fun _ => id) hub
  refine ⟨?_, ⟨rfl, rfl, rfl, rfl, rfl⟩, rfl, fun i hi => ?_, by simp [Fs.setInode], rfl,
    fun c hc => ⟨hc.1, ?_⟩, fun r c hc hr => ?_, fun ht => ?_, fun x => ?_⟩
  · exact ⟨by rw [hV]; exact hcore, by rw [hV]; exact (Fs.setInode_is_self hl _).2 hkind⟩
  · exact Function.update_of_ne hi _ _
  · show Function.update fs.sbi.bfreeBitmap b false c = false
    rw [Function.update_apply]
    split
    · rfl
    · exact hc.2
  · rw [hV, href, hown.refers] at hr
    rcases hr with hr | ⟨-, rfl⟩
    · exact hr
    · rw [hc.2] at hfree; cases hfree
  · rw [hV]
    have hns : ¬(fs.allocBlock b).Is ino .small := fun hs => by
      cases hk.kind_unique hs
    refine TightBut.setFile (TightBut.allocBlock ht) hl hns (by rw [hkind]; decide) ?_ ?_ ?_
      fun _ => hvi ▸ rfl
    · intro a _ _ r _ hr
      exact ⟨r, (href r a).2 (Or.inl hr)⟩
    · rintro a (hla | rfl)
      · exact hla.elim
      · exact Or.inr ⟨_, (href (.index ino) a).2 (Or.inr ⟨rfl, rfl⟩)⟩
    · exact fun _ i _ _ => hptr i
  · have hold : fs.oldByte ino x = 0 := if_neg (by rw [hk.2]; decide)
    rw [hV, hold]
    unfold Fs.bigByte
    rw [Fs.setInode_indexOf_self, if_pos (hptr _)]

end Prepare

/-! ## The call -/

/-- What a call on the file `ino` keeps, successful or not and whatever the directories say. -/
structure BigSpared (fs fs' : Fs) (chain : List Nat) (ino : Nat) : Prop where
  core : Core fs' chain
  geom : SameGeom fs.sbi fs'.sbi
  live : ∀ i, fs'.Live i ↔ fs.Live i
  inode : ∀ i, i ≠ ino → fs'.inode i = fs.inode i
  disk : ∀ c, fs.Used c → (∀ r : Ref, r.By ino → ¬Refers fs chain r c) → fs'.disk c = fs.disk c

/-- What a call on the file `ino` keeps, successful or not. -/
structure BigKept (fs fs' : Fs) (chain : List Nat) (ino : Nat) : Prop
    extends BigSpared fs fs' chain ino where
  wf : WF fs' chain

/-- What a successful write leaves, whatever the directories say. -/
structure BigLanded (k k' : Kernel) (chain : List Nat) (ino pos : Nat) (data : List UInt8) :
    Prop where
  faults : k'.faults = []
  alloc : k'.AllocFailed ↔ k.AllocFailed
  spared : BigSpared k.fs k'.fs chain ino
  tight : Tight k.fs chain → Tight k'.fs chain
  big : k'.fs.Is ino .big
  size : (k'.inode ino).iSize = max (pos + data.length) (k.inode ino).iSize
  bytes : NoGap (k.inode ino).iSize pos → ∀ x, k'.fs.bigByte ino x =
    if pos ≤ x ∧ x < pos + data.length then data.getD (x - pos) 0 else k.fs.oldByte ino x

/-- What a successful write leaves. -/
structure BigWritten (k k' : Kernel) (chain : List Nat) (ino pos : Nat) (data : List UInt8) : Prop
    extends BigLanded k k' chain ino pos data where
  kept : BigKept k.fs k'.fs chain ino

/-- What a write that ran out of space leaves, whatever the directories say.  An inode that has
just got its index block must not count slices any more, or it is taken for a small file. -/
structure BigShort (k k' : Kernel) (chain : List Nat) (ino size : Nat) : Prop where
  faults : k'.faults = []
  same : k'.AllocFailed ∨ k'.fs = k.fs
  lack : k.fs.sbi.nrFreeBlocks < divRoundUp size 4096 + 1
  spared : (k.inode ino).kind = .big ∨ (k.inode ino).numSlices = 0 →
    BigSpared k.fs k'.fs chain ino ∧ (k'.fs = k.fs ∨ (k'.inode ino).kind = .big ∨
      (k'.inode ino).kind = .stray ∧ (k'.inode ino).iSize = 0)

/-- What a write that ran out of space leaves. -/
structure BigFailed (k k' : Kernel) (chain : List Nat) (ino size : Nat) : Prop where
  faults : k'.faults = []
  kept : BigKept k.fs k'.fs chain ino
  same : k'.AllocFailed ∨ k'.fs = k.fs
  lack : k.fs.sbi.nrFreeBlocks < divRoundUp size 4096 + 1

theorem BigSpared.refl {fs : Fs} {chain : List Nat} (h : Core fs chain) (ino : Nat) :
    BigSpared fs fs chain ino :=
  ⟨h, ⟨rfl, rfl, rfl, rfl, rfl⟩, fun _ => Iff.rfl, fun _ _ => rfl, fun _ _ _ => rfl⟩

/-- The directories survive, and so does what is said about files without content. -/
theorem BigSpared.kept {fs fs' : Fs} {chain : List Nat} {ino : Nat} (hs : BigSpared fs fs' chain ino)
    (h : WF fs chain) (hk : ¬fs.Is ino .dir) (hkind : (fs'.inode ino).kind = .big ∨
      (fs'.inode ino).kind = .stray ∧ (fs'.inode ino).iSize = 0) : BigKept fs fs' chain ino := by
  have hold : ∀ i κ, κ ≠ .big → κ ≠ .stray → fs'.Is i κ → i ≠ ino ∧ fs.Is i κ := by
    intro i κ h1 h2 hi
    have hne : i ≠ ino := by
      rintro rfl
      rcases hkind with hb | ⟨hst, -⟩
      · exact h1 (hi.2.symm.trans hb)
      · exact h2 (hi.2.symm.trans hst)
    exact ⟨hne, (hs.live i).1 hi.1, by rw [← hs.inode i hne]; exact hi.2⟩
  have hne : ∀ d, fs.Is d .dir → d ≠ ino := by
    rintro d hd rfl
    exact hk hd
  have hdir : ∀ d, fs'.Is d .dir ↔ fs.Is d .dir := by
    intro d
    constructor
    · exact fun hd => (hold d .dir (by decide) (by decide) hd).2
    · intro hd
      exact ⟨(hs.live d).2 hd.1, by rw [hs.inode d (hne d hd)]; exact hd.2⟩
  have hdirs : DirInv fs' := by
    refine h.dirs.frame hs.live hdir fun d hd => ?_
    unfold Fs.indexOf
    rw [hs.inode d (hne d hd)]
    refine hs.disk _ (h.toCore.dir_used hd) fun r hby hr => ?_
    have hrd := h.owned.inj (r := .index d) ⟨Or.inl hd, rfl⟩ hr
    rw [← hrd] at hby
    exact hne d hd hby
  refine ⟨hs, { hs.core with
    dirs := hdirs, table := h.table.frame hs.geom, fresh := fun i hi => ?_,
    stray := fun i hi => ?_ }⟩
  · obtain ⟨hni, hi'⟩ := hold i .fresh (by decide) (by decide) hi
    rw [hs.inode i hni]
    exact h.fresh i hi'
  · by_cases hii : i = ino
    · subst hii
      rcases hkind with hb | ⟨-, hsz⟩
      · rw [hi.2] at hb
        cases hb
      · exact hsz
    · have hi' : fs.Is i .stray := ⟨(hs.live i).1 hi.1, by rw [← hs.inode i hii]; exact hi.2⟩
      rw [hs.inode i hii]
      exact h.stray i hi'

section Finish

variable {fs : Fs} {k₂ k' : Kernel} {chain : List Nat} {ino : Nat} {vi ci : Inode}

/-- The inode may get any fields that keep the storage part of the invariant. -/
theorem Prepared.spared (hp : Prepared fs k₂.fs chain ino vi) (he : LoopEff ino vi chain k₂ k')
    (hcore : Core (k'.fs.setInode ino ci) chain) :
    BigSpared fs (k'.fs.setInode ino ci) chain ino := by
  have hifree : k'.fs.sbi.ifreeBitmap = fs.sbi.ifreeBitmap := he.frame.ifree.trans hp.ifree
  have hgeom : SameGeom fs.sbi k'.fs.sbi := hp.geom.trans he.frame.geom
  refine ⟨hcore, hgeom, fun i => ?_, fun i hi => ?_, fun c hc hn => ?_⟩
  · unfold Fs.Live
    rw [Fs.sbi_setInode, hgeom.nrInodes, hifree]
  · rw [Fs.inode_setInode, if_neg hi]
    unfold Fs.inode
    rw [he.icache, hp.icache i hi]
  · have h1 := he.frame.disk c (hp.used c hc) fun r hby hr => hn r hby (hp.refs r c hc hr)
    have h2 : k'.fs.disk c = k₂.fs.disk c := h1
    show k'.fs.disk c = _
    rw [h2, hp.disk]

/-- The inode may drop its index block, or keep it with the old size. -/
theorem LoopInv.restore {fs : Fs} (h : LoopInv ino vi chain fs) (hm : ci.iMode = vi.iMode)
    (hkind : ci.kind = .stray ∨
      ci.kind = .big ∧ ci.indexBlock = vi.indexBlock ∧ ci.BigOk) :
    Core (fs.setInode ino ci) chain := by
  have hidem : (fs.setInode ino vi).setInode ino ci = fs.setInode ino ci := by
    unfold Fs.setInode
    simp only [Function.update_idem]
  have hl : fs.Live ino := h.big.1
  have hvk : vi.kind = .big := (Fs.setInode_is_self hl _).1 h.big
  rw [← hidem]
  refine h.core.setFile h.big.1 (by rw [Fs.inode_setInode, if_pos rfl, hm]) ?_ ?_ ?_
  · rcases hkind with hs | ⟨hb, -⟩
    · rw [hs]; decide
    · rw [hb]; decide
  · intro hb
    rcases hkind with hs | ⟨-, -, hok⟩
    · rw [hs] at hb; cases hb
    · exact hok
  · rw [hidem]
    refine h.core.owned.mono (fun r c hr => ?_) fun _ _ _ => id
    by_cases hby : r.By ino
    · have hnd : ci.kind ≠ .dir := by
        rcases hkind with hs | ⟨hb, -⟩
        · rw [hs]; decide
        · rw [hb]; decide
      rw [refers_setInode_self hl hnd hby] at hr
      rw [refers_setInode_self hl (by rw [hvk]; decide) hby]
      rcases hkind with hs | ⟨-, hi, -⟩
      · rw [hs] at hr; cases hr.1
      · rw [hi] at hr
        exact ⟨hvk, hr.2⟩
    · rw [refers_setInode_other hby] at hr ⊢
      exact hr

/-- A loop that stops leaves the inode as it was before the loop. -/
theorem Prepared.stopped (hp : Prepared fs k₂.fs chain ino vi) (he : LoopEff ino vi chain k₂ k')
    (hm : (k₂.inode ino).iMode = vi.iMode) (hkind : (k₂.inode ino).kind = .stray ∨
      (k₂.inode ino).kind = .big ∧ (k₂.inode ino).indexBlock = vi.indexBlock ∧
      (k₂.inode ino).BigOk) :
    k'.inode ino = k₂.inode ino ∧ BigSpared fs k'.fs chain ino := by
  have hici : k'.inode ino = k₂.inode ino := by
    unfold Kernel.inode Fs.inode
    rw [he.icache]
  refine ⟨hici, ?_⟩
  have hset : k'.fs.setInode ino (k₂.inode ino) = k'.fs := by
    rw [← hici]
    exact Fs.setInode_self (by rw [he.icache]; exact hp.cached)
  have hspared := hp.spared he (he.inv.restore hm hkind)
  rwa [hset] at hspared

end Finish

section Call

variable {k : Kernel} {chain : List Nat} {ino : Nat} {iocb : Kiocb} {data : List UInt8}

/-- The part of `write_big_file` after the index block was found and the space check passed. -/
theorem writeBigFile_prepared {pos size idx : Nat} {k₁ : Kernel}
    (hpos : iocb.startPos (k.inode ino) = pos)
    (hsz : max (pos + data.length) (k.inode ino).iSize = size) (hsize : size ≤ 4194304)
    (hens : ensureIndexBlock k ino = (true, k₁)) (henough : enoughBlocks k₁ ino size = true)
    (hf₁ : k₁.faults = []) (ha₁ : k₁.AllocFailed ↔ k.AllocFailed)
    (hci : k₁.inode ino = { k.inode ino with indexBlock := idx })
    (hp : Prepared k.fs k₁.fs chain ino ((k.inode ino).grown idx size)) :
    (∃ k', writeBigFile k ino iocb data =
        .ok (((data.length : Int), { iocb with kiPos := pos + data.length }), k') ∧
      BigLanded k k' chain ino pos data) ∨
    (∃ k', writeBigFile k ino iocb data = .ok ((-ENOSPC, iocb), k') ∧ k'.faults = [] ∧
      k'.inode ino = k₁.inode ino ∧
      ((k₁.inode ino).kind = .stray ∨ (k₁.inode ino).kind = .big ∧ (k₁.inode ino).BigOk →
        BigSpared k.fs k'.fs chain ino) ∧ k'.AllocFailed ∧
      k₁.fs.sbi.nrFreeBlocks < divRoundUp (pos + data.length) 4096 - pos / 4096) := by
  generalize hvi : (k.inode ino).grown idx size = vi at hp
  have hidx : vi.indexBlock = idx := by rw [← hvi]; rfl
  have hblk : vi.iBlocks = divRoundUp size 4096 + 1 := by rw [← hvi]; rfl
  have hlive : k₁.fs.Live ino := hp.inv.big.1
  have hvk : vi.kind = .big := (Fs.setInode_is_self hlive _).1 hp.inv.big
  have hlt : idx < k₁.fs.sbi.nrBlocks := by
    have hu := (hp.inv.core.big_used hp.inv.big).1
    rw [Fs.inode_setInode, if_pos rfl, hidx] at hu
    exact hu
  have hidx₁ : (k₁.inode ino).indexBlock = idx := by rw [hci]
  obtain ⟨r, k', hrun, heff, hres⟩ := writeBigLoop_spec (k.inode ino).iSize
    (by unfold divRoundUp at hblk; omega) data.length
    (k₁.log (.bread idx)) pos data (by simpa using hf₁) hp.inv
    (by unfold divRoundUp at hblk; omega) (Nat.le_refl _)
  rw [hidx] at hrun
  have hici : k'.inode ino = k₁.inode ino := by
    unfold Kernel.inode Fs.inode
    rw [heff.icache]
    rfl
  have hp' : Prepared k.fs (k₁.log (.bread idx)).fs chain ino vi := hp
  rcases hres with ⟨hr, ha', hbytes⟩ | ⟨hr, ha', hlack⟩
  · left
    subst hr
    generalize hfi : ({ k'.inode ino with
        iSize := max (pos + data.length) (k.inode ino).iSize,
        iBlocks := divRoundUp (max (pos + data.length) (k.inode ino).iSize) 4096 + 1,
        iMtime := k'.now, iCtime := k'.now } : Inode) = fi
    have hview : SameView vi fi := by
      rw [← hfi, hici, hci, ← hvi, hsz]
      exact ⟨rfl, rfl, rfl, rfl, rfl⟩
    have hag : Agree (k'.fs.setInode ino vi) (k'.fs.setInode ino fi) := by
      have hidem : k'.fs.setInode ino fi = (k'.fs.setInode ino vi).setInode ino fi := by
        unfold Fs.setInode
        simp only [Function.update_idem]
      rw [hidem]
      refine .of_setInode ?_
      rw [Fs.inode_setInode, if_pos rfl]
      exact hview
    have hbig : (k'.fs.setInode ino fi).Is ino .big := (hag.is ino _).2 heff.inv.big
    refine ⟨(k'.setInode ino fi).brelse idx, ?_, by simpa using heff.faults, ?_,
      hp'.spared heff (hag.core heff.inv.core), fun ht => ?_, hbig, ?_, ?_⟩
    · subst hidx₁
      rw [(writeBigFile_exits k ino iocb data).2 (.written hens (by rw [hpos, hsz]; exact henough)
        (Kernel.sbBread_ok hf₁ hlt) (by rw [hpos]; exact hrun) rfl), ← hfi]
    · rw [Kernel.allocFailed_brelse, Kernel.allocFailed_setInode, ha', Kernel.allocFailed_bread, ha₁]
    · exact hag.tight (heff.tight _ _ (hp.tight ht))
    · show ((k'.fs.setInode ino fi).inode ino).iSize = _
      rw [Fs.inode_setInode, if_pos rfl, ← hfi]
    · intro hgap x
      rw [← hp.bytes x]
      refine Eq.trans ?_ (hbytes hgap x)
      unfold Fs.bigByte
      have hio : ((k'.setInode ino fi).brelse idx).fs.indexOf ino =
          (k'.fs.setInode ino vi).indexOf ino := hag.indexOf heff.inv.big.1
      rw [hio]
      rfl
  · right
    subst hr
    refine ⟨k'.brelse idx, ?_, by simpa using heff.faults, hici, fun hold => ?_,
      by simpa using ha', hlack⟩
    · subst hidx₁
      exact (writeBigFile_exits k ino iocb data).2 (.failed hens (by rw [hpos, hsz]; exact henough)
        (Kernel.sbBread_ok hf₁ hlt) (by rw [hpos]; exact hrun) rfl)
    · refine (hp'.stopped heff ?_ (hold.imp_right fun hb => ?_)).2
      · show (k₁.inode ino).iMode = _
        rw [hci, ← hvi]
        rfl
      · exact ⟨hb.1, hidx₁.trans hidx.symm, hb.2⟩

/-- **`write_big_file` writes the data, or runs out of space**, whatever the directories say. -/
theorem writeBigFile_core (iocb : Kiocb) (data : List UInt8) {pos size : Nat}
    (hf : k.faults = []) (h : Core k.fs chain) (hino : k.fs.Unplaced ino ∨ k.fs.Is ino .big)
    (hpos : iocb.startPos (k.inode ino) = pos)
    (hsz : max (pos + data.length) (k.inode ino).iSize = size) (hsize : size ≤ 4194304) :
    (∃ k', writeBigFile k ino iocb data =
        .ok (((data.length : Int), { iocb with kiPos := pos + data.length }), k') ∧
      BigLanded k k' chain ino pos data) ∨
    (∃ k', writeBigFile k ino iocb data = .ok ((-ENOSPC, iocb), k') ∧
      BigShort k k' chain ino size) := by
  have hdiv : divRoundUp (pos + data.length) 4096 ≤ divRoundUp size 4096 := by
    unfold divRoundUp
    omega
  have halloc : divRoundUp size 4096 % 4294967296 = divRoundUp size 4096 := by
    unfold divRoundUp
    omega
  rcases hino with hk | hk
  · have hkind := Inode.kind_fresh.1 hk.fresh.2
    have h0 : (k.inode ino).indexBlock = 0 := hkind.2.2
    have hb0 : (k.inode ino).iBlocks = 0 := hkind.2.1
    rcases Kernel.getFreeBlock_cases h.bit0 h.sb.blocks_lt
      h.sb.count with ⟨b, hbp, hb, hfree, heq⟩ | ⟨hnone, heq⟩
    · generalize hk₁ : Kernel.setInode { k with fs := k.fs.allocBlock b } ino
        { k.inode ino with indexBlock := b } = k₁
      have hens : ensureIndexBlock k ino = (true, k₁) := by
        obtain ⟨b, rfl⟩ := Nat.exists_eq_succ_of_ne_zero (Nat.pos_iff_ne_zero.1 hbp)
        exact (ensureIndexBlock_exits k ino).2 (.new h0 heq (by rw [← hk₁]; rfl))
      have hci : k₁.inode ino = { k.inode ino with indexBlock := b } := by
        rw [← hk₁]
        simp [Kernel.inode]
      have hcount : 0 < k.fs.sbi.nrFreeBlocks := by
        rw [h.sb.count]
        exact countBits_pos_iff.2 ⟨b, hb, hfree⟩
      have hfree₁ : k₁.fs.sbi.nrFreeBlocks = k.fs.sbi.nrFreeBlocks - 1 := by rw [← hk₁]; rfl
      -- the unsigned `i_blocks - 1` of a new file is huge, so the check passes
      have henough : enoughBlocks k₁ ino size = true := by
        have hbig : pred64 0 = 18446744073709551615 := by decide
        unfold enoughBlocks
        simp only [hci, hb0, hbig, halloc]
        rw [if_neg (by unfold divRoundUp; omega)]
      have hp : Prepared k.fs k₁.fs chain ino ((k.inode ino).grown b size) := by
        rw [← hk₁]
        exact .of_fresh h hk.fresh hb hfree hsize
      have hstray : (k.inode ino).numSlices = 0 → (k₁.inode ino).kind = .stray := by
        intro hn
        rw [hci, Inode.kind_stray]
        exact ⟨hkind.1, hb0, Nat.pos_iff_ne_zero.1 hbp, hn⟩
      have hsize0 : (k₁.inode ino).iSize = 0 := by
        rw [hci]
        exact hk.size
      rcases writeBigFile_prepared hpos hsz hsize hens henough (by rw [← hk₁]; exact hf)
        (by rw [← hk₁]; exact Iff.rfl) hci hp with
        hok | ⟨k', hrun, hf', hsame, hspared, ha', hlack⟩
      · exact Or.inl hok
      · refine Or.inr ⟨k', hrun, hf', Or.inl ha', by omega, fun hn => ?_⟩
        have hst := hstray (hn.resolve_left fun hb => by
          rw [show (k.inode ino).kind = .fresh from hk.fresh.2] at hb
          cases hb)
        refine ⟨hspared (Or.inl hst), Or.inr (Or.inr ?_)⟩
        rw [hsame]
        exact ⟨hst, hsize0⟩
    · right
      refine ⟨k.log .noFreeBlock, ?_, by simpa using hf, Or.inl (by simp), ?_,
        fun _ => ⟨.refl h ino, Or.inl rfl⟩⟩
      · exact (writeBigFile_exits k ino iocb data).2
          (.noIndex ((ensureIndexBlock_exits k ino).2 (.noBlock h0 heq rfl)) rfl)
      · rw [h.sb.count, countBits_eq_zero_iff.2 hnone]
        omega
  · have h0 : (k.inode ino).indexBlock ≠ 0 := h.index_ne_zero (Or.inr hk)
    have hens := ensureIndexBlock_keeps h0
    have hok : (k.inode ino).BigOk := h.inodes.big ino hk
    have hfree : k.fs.sbi.nrFreeBlocks < 4294967296 := by
      have := countBits_le k.fs.sbi.bfreeBitmap k.fs.sbi.nrBlocks
      have := h.sb.count
      have := h.sb.blocks_lt
      omega
    by_cases henough : enoughBlocks k ino size = true
    · have hp : Prepared k.fs k.fs chain ino ((k.inode ino).grown (k.inode ino).indexBlock size) :=
        .of_big h hk hsize (by rw [← hsz]; exact Nat.le_max_right _ _)
      rcases writeBigFile_prepared hpos hsz hsize hens henough hf Iff.rfl rfl hp with
        hdone | ⟨k', hrun, hf', hsame, hspared, ha', hlack⟩
      · exact Or.inl hdone
      · refine Or.inr ⟨k', hrun, hf', Or.inl ha', by omega, fun _ => ?_⟩
        refine ⟨hspared (Or.inr ⟨hk.2, hok⟩), Or.inr (Or.inl ?_)⟩
        rw [hsame]
        exact hk.2
    · right
      refine ⟨k, ?_, hf, Or.inr rfl, ?_, fun _ => ⟨.refl h ino, Or.inl rfl⟩⟩
      · exact (writeBigFile_exits k ino iocb data).2
          (.noSpace hens (by rw [hpos, hsz]; exact Bool.of_not_eq_true henough) rfl)
      · have hge := hok.blocks_ge
        have hpr := pred64_of_pos (Nat.ne_of_gt (Nat.lt_of_lt_of_le (Nat.succ_pos _) hge))
          hok.blocks_le
        have hlt : divRoundUp size 4096 < 4294967296 := by unfold divRoundUp; omega
        unfold enoughBlocks at henough
        simp only [halloc, hpr] at henough
        split at henough
        · rename_i hgt
          rw [sub32_of_le hlt (Nat.le_of_lt hgt), decide_eq_true_eq] at henough
          omega
        · exact absurd rfl henough

/-- **`write_big_file` writes the data, or runs out of space.** -/
theorem writeBigFile_spec (iocb : Kiocb) (data : List UInt8) {pos size : Nat}
    (hf : k.faults = []) (h : WF k.fs chain) (hino : k.fs.Is ino .fresh ∨ k.fs.Is ino .big)
    (hpos : iocb.startPos (k.inode ino) = pos)
    (hsz : max (pos + data.length) (k.inode ino).iSize = size) (hsize : size ≤ 4194304) :
    (∃ k', writeBigFile k ino iocb data =
        .ok (((data.length : Int), { iocb with kiPos := pos + data.length }), k') ∧
      BigWritten k k' chain ino pos data) ∨
    (∃ k', writeBigFile k ino iocb data = .ok ((-ENOSPC, iocb), k') ∧
      BigFailed k k' chain ino size) := by
  have hnd : ¬k.fs.Is ino .dir := by
    intro hd
    rcases hino with hk | hk <;> cases hk.kind_unique hd
  have hno : (k.inode ino).kind = .big ∨ (k.inode ino).numSlices = 0 :=
    hino.symm.imp And.right fun hk => (h.fresh ino hk).2
  rcases writeBigFile_core iocb data hf h.toCore
    (hino.imp_left fun hk => ⟨hk, (h.fresh ino hk).1⟩) hpos hsz hsize with
    ⟨k', hrun, hl⟩ | ⟨k', hrun, hs⟩
  · exact Or.inl ⟨k', hrun, hl, hl.spared.kept h hnd (Or.inl hl.big.2)⟩
  · obtain ⟨hspared, hkind⟩ := hs.spared hno
    refine Or.inr ⟨k', hrun, hs.faults, ?_, hs.same, hs.lack⟩
    rcases hkind with hfs | hkind
    · rw [hfs]
      exact ⟨.refl h.toCore ino, h⟩
    · exact hspared.kept h hnd hkind

/-- `custom_write_iter` sends a write to a big file to `write_big_file`. -/
theorem customWriteIter_big {Z : Prop} (h : Core k.fs chain Z) (hino : k.fs.Is ino .big) :
    customWriteIter k ino iocb data = writeBigFile k ino iocb data := by
  have h0 : (k.inode ino).indexBlock ≠ 0 := h.index_ne_zero (Or.inr hino)
  have hb : (k.inode ino).iBlocks ≠ 0 := (Inode.kind_big.1 hino.2).2
  unfold customWriteIter isNew isSmallFile
  simp [h0, hb]

/-- A first write that is too long for slices makes a big file. -/
theorem customWriteIter_firstBig (hino : k.fs.Is ino .fresh)
    (hsize : 3968 < max (iocb.kiPos + data.length) (k.inode ino).iSize) :
    customWriteIter k ino iocb data = writeBigFile k ino iocb data := by
  have h0 : (k.inode ino).indexBlock = 0 := (Inode.kind_fresh.1 hino.2).2.2
  unfold customWriteIter isNew willBeSmall
  simp only [h0, beq_self_eq_true, if_true, decide_eq_true_eq]
  rw [if_neg (Nat.not_le.2 hsize)]

end Call

end Ouichefs
