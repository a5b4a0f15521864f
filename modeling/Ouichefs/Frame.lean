import Ouichefs.Inv
import Ouichefs.Prune

/-!
# Frame lemmas of the invariant

Which parts of the state each component of the invariant looks at: of an inode only the fields
in `SameView`, of a sliced block everything but the next word, of a directory only its block.
Every operation then has to argue about the blocks and the inode it changes and about nothing
else.
-/

set_option autoImplicit false

namespace Ouichefs

open FreeMap

variable {Z : Prop}

/-- The two inodes agree on the fields the invariant looks at. -/
structure SameView (ci ci' : Inode) : Prop where
  iMode : ci'.iMode = ci.iMode
  iBlocks : ci'.iBlocks = ci.iBlocks
  indexBlock : ci'.indexBlock = ci.indexBlock
  numSlices : ci'.numSlices = ci.numSlices
  iSize : ci'.iSize = ci.iSize

theorem SameView.refl (ci : Inode) : SameView ci ci := ⟨rfl, rfl, rfl, rfl, rfl⟩

theorem SameView.bigOk {ci ci' : Inode} (h : SameView ci ci') (hb : ci.BigOk) : ci'.BigOk :=
  ⟨h.iSize ▸ hb.size_le, by rw [h.iSize, h.iBlocks]; exact hb.blocks_ge, h.iBlocks ▸ hb.blocks_le⟩

theorem SameView.blocksExact {ci ci' : Inode} (h : SameView ci ci') :
    ci'.BlocksExact ↔ ci.BlocksExact := by
  unfold Inode.BlocksExact
  rw [h.iSize, h.iBlocks]

theorem SameView.trans {c₁ c₂ c₃ : Inode} (h : SameView c₁ c₂) (h' : SameView c₂ c₃) :
    SameView c₁ c₃ :=
  ⟨h'.iMode.trans h.iMode, h'.iBlocks.trans h.iBlocks, h'.indexBlock.trans h.indexBlock,
    h'.numSlices.trans h.numSlices, h'.iSize.trans h.iSize⟩

theorem SameView.symm {ci ci' : Inode} (h : SameView ci ci') : SameView ci' ci :=
  ⟨h.iMode.symm, h.iBlocks.symm, h.indexBlock.symm, h.numSlices.symm, h.iSize.symm⟩

theorem SameView.of_eq {ci ci' : Inode} (h : ci' = ci) : SameView ci ci' := h ▸ .refl _

section SameView

variable {ci ci' : Inode} (h : SameView ci ci')

theorem SameView.kind (h : SameView ci ci') : ci'.kind = ci.kind := by
  unfold Inode.kind
  rw [h.iMode, h.iBlocks, h.indexBlock, h.numSlices]

theorem SameView.getBno (h : SameView ci ci') : ci'.getBno = ci.getBno := by
  unfold Inode.getBno
  rw [h.indexBlock]

theorem SameView.getSlice (h : SameView ci ci') : ci'.getSlice = ci.getSlice := by
  unfold Inode.getSlice
  rw [h.indexBlock]

end SameView

/-! ## Kinds -/

section Kind

variable {ci : Inode}

theorem Inode.kind_dir : ci.kind = .dir ↔ sIsDir ci.iMode = true := by
  unfold Inode.kind
  repeat' split
  all_goals simp_all

theorem Inode.kind_big : ci.kind = .big ↔ sIsDir ci.iMode = false ∧ ci.iBlocks ≠ 0 := by
  unfold Inode.kind
  repeat' split
  all_goals simp_all

theorem Inode.kind_fresh :
    ci.kind = .fresh ↔ sIsDir ci.iMode = false ∧ ci.iBlocks = 0 ∧ ci.indexBlock = 0 := by
  unfold Inode.kind
  repeat' split
  all_goals simp_all

theorem Inode.kind_small : ci.kind = .small ↔
    sIsDir ci.iMode = false ∧ ci.iBlocks = 0 ∧ ci.indexBlock ≠ 0 ∧ ci.numSlices ≠ 0 := by
  unfold Inode.kind
  repeat' split
  all_goals simp_all

theorem Inode.kind_stray : ci.kind = .stray ↔
    sIsDir ci.iMode = false ∧ ci.iBlocks = 0 ∧ ci.indexBlock ≠ 0 ∧ ci.numSlices = 0 := by
  unfold Inode.kind
  repeat' split
  all_goals simp_all

end Kind

theorem Fs.Is.kind_unique {fs : Fs} {ino : Nat} {κ κ' : Kind} (h : fs.Is ino κ)
    (h' : fs.Is ino κ') : κ = κ' := h.2.symm.trans h'.2

/-- Every live inode has exactly one kind. -/
theorem Fs.Live.is {fs : Fs} {ino : Nat} (h : fs.Live ino) : fs.Is ino (fs.inode ino).kind :=
  ⟨h, rfl⟩

/-! ## Frames -/

section Frames

variable {fs fs' : Fs} {chain : List Nat}

/-- A small file is intact as long as its own slices are. -/
theorem SmallOk.frame {ino : Nat} (h : SmallOk fs chain ino)
    (hi : SameView (fs.inode ino) (fs'.inode ino))
    (hbits : ∀ j, (fs.inode ino).getSlice ≤ j →
      j < (fs.inode ino).getSlice + (fs.inode ino).numSlices →
      (sliceBitmap (fs.disk (fs.inode ino).getBno)).getLsbD j = false →
      (sliceBitmap (fs'.disk (fs.inode ino).getBno)).getLsbD j = false)
    (hbytes : ∀ i, (fs.inode ino).getSlice * 128 ≤ i →
      i < ((fs.inode ino).getSlice + (fs.inode ino).numSlices) * 128 →
      (fs'.disk (fs.inode ino).getBno).get i = (fs.disk (fs.inode ino).getBno).get i) :
    SmallOk fs' chain ino := by
  have hbno := hi.getBno
  have hslice := hi.getSlice
  refine ⟨?_, ?_, ?_, ?_, ?_, ?_⟩
  · rw [hbno]; exact h.mem
  · rw [hslice]; exact h.slice_pos
  · rw [hslice, hi.numSlices]; exact h.fits
  · rw [hi.numSlices, hi.iSize]; exact h.slices
  · rw [hslice, hi.numSlices, hbno]
    exact fun j h1 h2 => hbits j h1 h2 (h.taken j h1 h2)
  · rw [hi.iSize, hi.numSlices, hbno, hslice]
    intro i h1 h2
    rw [hbytes _ (by omega) (by omega)]
    exact h.tail i h1 h2

theorem SliceInv.frame (h : SliceInv fs chain)
    (hd : ∀ b ∈ chain, SameButNext (fs.disk b) (fs'.disk b))
    (hi : ∀ ino, fs'.Is ino .small → fs.Is ino .small ∧ SameView (fs.inode ino) (fs'.inode ino)) :
    SliceInv fs' chain := by
  have hown : ∀ {ino b j}, fs'.OwnsSlice ino b j → fs.OwnsSlice ino b j := by
    rintro ino b j ⟨hs, hb, h1, h2⟩
    obtain ⟨hs', hv⟩ := hi ino hs
    rw [hv.getBno] at hb
    rw [hv.getSlice] at h1 h2
    rw [hv.numSlices] at h2
    exact ⟨hs', hb, h1, h2⟩
  refine ⟨?_, ?_, ?_, fun h1 h2 => h.disjoint (hown h1) (hown h2)⟩
  · intro b hb
    rw [(hd b hb).sliceBitmap]
    exact h.header b hb
  · intro b hb i h1 h2 hbit
    rw [(hd b hb).sliceBitmap] at hbit
    rw [hd b hb i (by omega)]
    exact h.freeZero b hb i h1 h2 hbit
  · intro ino hs
    obtain ⟨hs', hv⟩ := hi ino hs
    have hok := h.file ino hs'
    have hpos := hok.slice_pos
    refine hok.frame hv (fun j _ _ hj => ?_) fun i h1 _ => hd _ hok.mem i (by omega)
    rw [(hd _ hok.mem).sliceBitmap]
    exact hj

theorem DirInv.frame (h : DirInv fs) (hlive : ∀ ino, fs'.Live ino ↔ fs.Live ino)
    (hdir : ∀ d, fs'.Is d .dir ↔ fs.Is d .dir)
    (hblk : ∀ d, fs.Is d .dir → fs'.indexOf d = fs.indexOf d) : DirInv fs' := by
  refine ⟨(hdir 1).2 h.root, h.tree.congr hdir hlive fun d hd i => ?_, fun d hd => ?_⟩
  · simp only [hblk d hd]
  · rw [hblk d ((hdir d).1 hd)]
    exact h.clean d ((hdir d).1 hd)

end Frames

/-! ## Operations on small files -/

/-- The sizes in the superblock are the same. -/
structure SameGeom (sbi sbi' : SbInfo) : Prop where
  nrBlocks : sbi'.nrBlocks = sbi.nrBlocks
  nrInodes : sbi'.nrInodes = sbi.nrInodes
  nrIstore : sbi'.nrIstoreBlocks = sbi.nrIstoreBlocks
  nrIfree : sbi'.nrIfreeBlocks = sbi.nrIfreeBlocks
  nrBfree : sbi'.nrBfreeBlocks = sbi.nrBfreeBlocks

theorem SameGeom.refl (sbi : SbInfo) : SameGeom sbi sbi := ⟨rfl, rfl, rfl, rfl, rfl⟩

theorem SameGeom.trans {s₁ s₂ s₃ : SbInfo} (h : SameGeom s₁ s₂) (h' : SameGeom s₂ s₃) :
    SameGeom s₁ s₃ :=
  ⟨h'.nrBlocks.trans h.nrBlocks, h'.nrInodes.trans h.nrInodes, h'.nrIstore.trans h.nrIstore,
    h'.nrIfree.trans h.nrIfree, h'.nrBfree.trans h.nrBfree⟩

theorem SameGeom.metaBlocks {sbi sbi' : SbInfo} (h : SameGeom sbi sbi') :
    sbi'.metaBlocks = sbi.metaBlocks := by
  unfold SbInfo.metaBlocks
  rw [h.nrIstore, h.nrIfree, h.nrBfree]

theorem InodeTable.frame {sbi sbi' : SbInfo} (h : InodeTable sbi) (hg : SameGeom sbi sbi') :
    InodeTable sbi' := by
  refine ⟨?_, ?_⟩
  · rw [hg.nrInodes]
    exact h.lt
  · rw [hg.nrInodes, hg.nrIstore]
    exact h.istore

/-- The same inodes are allocated, and directories and big files are untouched. -/
structure SameOwners (fs fs' : Fs) : Prop where
  geom : SameGeom fs.sbi fs'.sbi
  ifree : fs'.sbi.ifreeBitmap = fs.sbi.ifreeBitmap
  cached : ∀ ino, fs.Live ino → (fs.icache ino).isSome → (fs'.icache ino).isSome
  mode : ∀ ino, fs.Live ino → (fs'.inode ino).iMode = (fs.inode ino).iMode
  view : ∀ ino, fs.Is ino .dir ∨ fs.Is ino .big ∨ fs'.Is ino .dir ∨ fs'.Is ino .big →
    SameView (fs.inode ino) (fs'.inode ino)
  index : ∀ ino, fs.Is ino .dir ∨ fs.Is ino .big → fs'.indexOf ino = fs.indexOf ino

namespace SameOwners

variable {fs fs' : Fs} (h : SameOwners fs fs')
include h

theorem live (ino : Nat) : fs'.Live ino ↔ fs.Live ino := by
  unfold Fs.Live
  rw [h.geom.nrInodes, h.ifree]

theorem is_dir (ino : Nat) : fs'.Is ino .dir ↔ fs.Is ino .dir := by
  constructor
  · intro hd
    exact ⟨(h.live ino).1 hd.1, (h.view ino (by simp [hd])).kind.symm.trans hd.2⟩
  · intro hd
    exact ⟨(h.live ino).2 hd.1, (h.view ino (by simp [hd])).kind.trans hd.2⟩

theorem is_big (ino : Nat) : fs'.Is ino .big ↔ fs.Is ino .big := by
  constructor
  · intro hd
    exact ⟨(h.live ino).1 hd.1, (h.view ino (by simp [hd])).kind.symm.trans hd.2⟩
  · intro hd
    exact ⟨(h.live ino).2 hd.1, (h.view ino (by simp [hd])).kind.trans hd.2⟩

theorem refers (chain : List Nat) (r : Ref) (a : Nat) :
    Refers fs' chain r a ↔ Refers fs chain r a := by
  cases r with
  | header b => simp only [Refers, h.geom.metaBlocks]
  | index ino =>
      simp only [Refers, h.is_dir, h.is_big]
      refine and_congr_right fun hi => ?_
      rw [(h.view ino (by tauto)).indexBlock]
  | data ino i =>
      simp only [Refers, h.is_big]
      refine and_congr_right fun hi => ?_
      rw [h.index ino (Or.inr hi)]
  | sliced b => exact Iff.rfl

theorem dirs (hd : DirInv fs) : DirInv fs' :=
  hd.frame h.live h.is_dir fun d hd => h.index d (Or.inl hd)

theorem inodes (hi : InodeInv fs) : InodeInv fs' := by
  refine ⟨by rw [h.ifree]; exact hi.bit0, ?_, ?_⟩
  · intro ino hl
    exact h.cached ino ((h.live ino).1 hl) (hi.cached ino ((h.live ino).1 hl))
  · intro ino hb
    exact (h.view ino (by simp [hb])).bigOk (hi.big ino ((h.is_big ino).1 hb))

/-- The free-block counter is all that may change in the superblock. -/
theorem sb {Z : Prop} (hs : SbInv fs Z)
    (hc : fs'.sbi.nrFreeBlocks = countBits fs'.sbi.bfreeBitmap fs'.sbi.nrBlocks) : SbInv fs' Z := by
  refine ⟨?_, ?_, ?_, hc⟩
  · rw [h.geom.metaBlocks, h.geom.nrBlocks]; exact hs.meta_lt
  · rw [h.geom.nrBlocks]; exact hs.blocks_lt
  · rw [h.geom.nrBlocks]; exact hs.blocks_le

end SameOwners

/-- Neither a directory nor a big file. -/
def Inode.Sliced (ci : Inode) : Prop := ci.kind ≠ .dir ∧ ci.kind ≠ .big

/-- At most one inode changes, and it has neither an index block before nor after. -/
theorem SameOwners.of_set {fs fs' : Fs} {ino : Nat} {ci : Inode}
    (hgeom : SameGeom fs.sbi fs'.sbi) (hifree : fs'.sbi.ifreeBitmap = fs.sbi.ifreeBitmap)
    (hic : fs'.icache = Function.update fs.icache ino (some ci))
    (hmode : ci.iMode = (fs.inode ino).iMode) (hk : (fs.inode ino).Sliced) (hk' : ci.Sliced)
    (hdisk : ∀ d, fs.Is d .dir ∨ fs.Is d .big →
      fs'.disk (fs.inode d).indexBlock = fs.disk (fs.inode d).indexBlock) :
    SameOwners fs fs' := by
  have hself : fs'.inode ino = ci := by simp [Fs.inode, hic]
  have hother : ∀ i, i ≠ ino → fs'.inode i = fs.inode i := by
    intro i hi
    simp [Fs.inode, hic, Function.update_of_ne hi]
  refine ⟨hgeom, hifree, ?_, ?_, ?_, ?_⟩
  · intro i _ hi
    rw [hic, Function.update_apply]
    split
    · rfl
    · exact hi
  · intro i _
    by_cases hi : i = ino
    · rw [hi, hself, hmode]
    · rw [hother i hi]
  · intro i hi
    by_cases hin : i = ino
    · subst hin
      rcases hi with hi | hi | hi | hi
      · exact absurd hi.2 hk.1
      · exact absurd hi.2 hk.2
      · exact absurd (hself ▸ hi.2) hk'.1
      · exact absurd (hself ▸ hi.2) hk'.2
    · exact .of_eq (hother i hin)
  · intro i hi
    have hin : i ≠ ino := by
      rintro rfl
      rcases hi with hi | hi
      · exact hk.1 hi.2
      · exact hk.2 hi.2
    unfold Fs.indexOf
    rw [hother i hin]
    exact hdisk i hi

/-- No inode changes. -/
theorem SameOwners.of_icache {fs fs' : Fs} (hgeom : SameGeom fs.sbi fs'.sbi)
    (hifree : fs'.sbi.ifreeBitmap = fs.sbi.ifreeBitmap) (hic : fs'.icache = fs.icache)
    (hdisk : ∀ d, fs.Is d .dir ∨ fs.Is d .big →
      fs'.disk (fs.inode d).indexBlock = fs.disk (fs.inode d).indexBlock) :
    SameOwners fs fs' := by
  have hinode : fs'.inode = fs.inode := by funext i; simp [Fs.inode, hic]
  refine ⟨hgeom, hifree, fun i _ => by rw [hic]; exact id, fun i _ => by rw [hinode],
    fun i _ => by rw [hinode]; exact .refl _, fun i hi => ?_⟩
  unfold Fs.indexOf
  rw [hinode]
  exact hdisk i hi

/-! ## States that agree -/

/-- The two states agree on everything the invariant looks at. -/
structure Agree (fs fs' : Fs) : Prop where
  disk : fs'.disk = fs.disk
  geom : SameGeom fs.sbi fs'.sbi
  ifree : fs'.sbi.ifreeBitmap = fs.sbi.ifreeBitmap
  bfree : fs'.sbi.bfreeBitmap = fs.sbi.bfreeBitmap
  nrFree : fs'.sbi.nrFreeBlocks = fs.sbi.nrFreeBlocks
  head : fs'.sbi.sFreeSlicedBlocks = fs.sbi.sFreeSlicedBlocks
  sliced : fs'.sbi.nrSlicedBlocks = fs.sbi.nrSlicedBlocks
  cached : ∀ ino, fs.Live ino → (fs.icache ino).isSome → (fs'.icache ino).isSome
  view : ∀ ino, fs.Live ino → SameView (fs.inode ino) (fs'.inode ino)

namespace Agree

variable {fs fs' : Fs} {chain : List Nat} (h : Agree fs fs')
include h

theorem live (ino : Nat) : fs'.Live ino ↔ fs.Live ino := by
  unfold Fs.Live
  rw [h.geom.nrInodes, h.ifree]

theorem is (ino : Nat) (κ : Kind) : fs'.Is ino κ ↔ fs.Is ino κ := by
  unfold Fs.Is
  rw [h.live]
  exact and_congr_right fun hl => by rw [(h.view ino hl).kind]

theorem used : fs'.Used = fs.Used := by
  unfold Fs.Used
  rw [h.geom.nrBlocks, h.bfree]

theorem owns (ino b j : Nat) : fs'.OwnsSlice ino b j ↔ fs.OwnsSlice ino b j := by
  unfold Fs.OwnsSlice
  rw [h.is]
  refine and_congr_right fun hs => ?_
  have hv := h.view ino hs.1
  rw [hv.getBno, hv.getSlice, hv.numSlices]

theorem indexOf {ino : Nat} (hl : fs.Live ino) : fs'.indexOf ino = fs.indexOf ino := by
  unfold Fs.indexOf
  rw [h.disk, (h.view ino hl).indexBlock]

theorem owners : SameOwners fs fs' := by
  have hlive : ∀ ino, fs.Is ino .dir ∨ fs.Is ino .big ∨ fs'.Is ino .dir ∨ fs'.Is ino .big →
      fs.Live ino := by
    intro ino hi
    rw [h.is, h.is] at hi
    rcases hi with hi | hi | hi | hi <;> exact hi.1
  refine ⟨h.geom, h.ifree, h.cached, fun ino hl => (h.view ino hl).iMode,
    fun ino hi => h.view ino (hlive ino hi), fun ino hi => h.indexOf (hlive ino (by tauto))⟩

theorem core (hc : Core fs chain Z) : Core fs' chain Z := by
  have hown := h.owners
  refine ⟨hown.sb hc.sb ?_, ?_, hc.nodup, ?_, ?_, ?_, ?_, hown.inodes hc.inodes⟩
  · rw [h.nrFree, h.bfree, h.geom.nrBlocks]; exact hc.sb.count
  · rw [h.head]
    exact hc.isChain.congr fun b _ => by unfold Fs.next; rw [h.disk]
  · rw [h.sliced]; exact hc.sliced
  · rw [h.used]
    exact hc.owned.mono (fun r a => (hown.refers chain r a).1) fun _ _ _ => id
  · rw [h.disk, h.bfree, h.geom.nrBlocks]; exact hc.zero
  · refine hc.slices.frame (fun b _ => by rw [h.disk]; exact .refl _) fun ino hi => ?_
    have hi' := (h.is ino .small).1 hi
    exact ⟨hi', h.view ino hi'.1⟩

theorem wf (hw : WF fs chain Z) : WF fs' chain Z := by
  refine { h.core hw.toCore with
    dirs := h.owners.dirs hw.dirs, table := hw.table.frame h.geom,
    fresh := fun ino hi => ?_, stray := fun ino hi => ?_ }
  · have hi' := (h.is ino .fresh).1 hi
    rw [(h.view ino hi'.1).iSize, (h.view ino hi'.1).numSlices]
    exact hw.fresh ino hi'
  · have hi' := (h.is ino .stray).1 hi
    rw [(h.view ino hi'.1).iSize]
    exact hw.stray ino hi'

theorem tight {lost : Nat → Prop} {leak : Nat → Nat → Prop} (ht : TightBut fs chain lost leak) :
    TightBut fs' chain lost leak := by
  refine ⟨?_, ?_, fun ino hi => ht.noStray ino ((h.is ino .stray).1 hi), ?_, ?_⟩
  · intro a ha
    rw [h.used] at ha
    obtain ⟨r, hr⟩ := ht.covered a ha
    exact ⟨r, (h.owners.refers chain r a).2 hr⟩
  · intro b hb j h1 h2 hbit
    rw [h.disk] at hbit
    refine (ht.bits b hb j h1 h2 hbit).imp_right ?_
    rintro ⟨ino, hi⟩
    exact ⟨ino, (h.owns ino b j).2 hi⟩
  · intro ino hi
    have hi' := (h.is ino .big).1 hi
    rw [(h.view ino hi'.1).iBlocks, h.indexOf hi'.1]
    exact ht.ptrs ino hi'
  · intro ino hi
    have hi' := (h.is ino .big).1 hi
    exact (h.view ino hi'.1).blocksExact.2 (ht.blocks ino hi')

end Agree

/-- Fields that the invariant does not look at may change. -/
theorem Agree.of_setInode {fs : Fs} {ino : Nat} {ci : Inode} (h : SameView (fs.inode ino) ci) :
    Agree fs (fs.setInode ino ci) := by
  refine ⟨rfl, ⟨rfl, rfl, rfl, rfl, rfl⟩, rfl, rfl, rfl, rfl, rfl, fun i _ hi => ?_, fun i _ => ?_⟩
  · simp only [Fs.setInode, Function.update_apply]
    split
    · rfl
    · exact hi
  · rw [Fs.inode_setInode]
    split
    · rename_i hii
      rw [hii]
      exact h
    · exact .refl _

/-- Fewer leaks are fewer exceptions. -/
theorem TightBut.weaken {fs : Fs} {chain : List Nat} {lost lost' : Nat → Prop}
    {leak leak' : Nat → Nat → Prop} (ht : TightBut fs chain lost leak)
    (hl : ∀ a, fs.Used a → lost a → lost' a)
    (hk : ∀ b j, leak b j → leak' b j) : TightBut fs chain lost' leak' :=
  ⟨fun a ha => ht.covered a ⟨ha.1, fun hla => ha.2 (hl a ha.1 hla)⟩,
    fun b hb j h1 h2 hbit => (ht.bits b hb j h1 h2 hbit).imp_left (hk b j), ht.noStray, ht.ptrs,
    ht.blocks⟩

/-! ## References -/

section Refs

variable {fs : Fs} {chain : List Nat}

theorem Core.chain_used (h : Core fs chain Z) {b : Nat} (hb : b ∈ chain) : fs.Used b :=
  h.owned.used (r := .sliced b) ⟨rfl, hb⟩

theorem Core.length_le (h : Core fs chain Z) : chain.length ≤ fs.sbi.nrBlocks := by
  have hsub : ∀ c ∈ chain, c ∈ List.range fs.sbi.nrBlocks := fun c hc =>
    List.mem_range.2 (h.chain_used hc).1
  simpa using (h.nodup.subperm hsub).length_le

theorem Core.dir_used (h : Core fs chain Z) {d : Nat} (hd : fs.Is d .dir) :
    fs.Used (fs.inode d).indexBlock :=
  h.owned.used (r := .index d) ⟨Or.inl hd, rfl⟩

theorem Core.big_used (h : Core fs chain Z) {d : Nat} (hd : fs.Is d .big) :
    fs.Used (fs.inode d).indexBlock :=
  h.owned.used (r := .index d) ⟨Or.inr hd, rfl⟩

/-- A block with two references is not there. -/
theorem Core.ne_of_refs (h : Core fs chain Z) {r s : Ref} {a b : Nat} (hr : Refers fs chain r a)
    (hs : Refers fs chain s b) (hne : r ≠ s) : a ≠ b := by
  rintro rfl
  exact hne (h.owned.inj hr hs)

theorem Core.dir_notin_chain (h : Core fs chain Z) {d : Nat} (hd : fs.Is d .dir ∨ fs.Is d .big) :
    (fs.inode d).indexBlock ∉ chain := by
  intro hm
  exact h.ne_of_refs (r := .index d) (s := .sliced (fs.inode d).indexBlock) ⟨hd, rfl⟩
    ⟨rfl, hm⟩ (by simp) rfl

theorem Core.bit0 (h : Core fs chain Z) : fs.sbi.bfreeBitmap 0 = false :=
  (h.owned.used (r := .header 0) ⟨rfl, by unfold SbInfo.metaBlocks; omega⟩).2

/-- A free block is referenced by nothing. -/
theorem Core.free_unref (h : Core fs chain Z) {b : Nat} (hb : fs.sbi.bfreeBitmap b = true) (r : Ref) :
    ¬Refers fs chain r b := by
  intro hr
  rw [(h.owned.used hr).2] at hb
  cases hb

end Refs

end Ouichefs
