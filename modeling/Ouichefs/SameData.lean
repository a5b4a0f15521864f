import Ouichefs.TreeRuns

/-!
# The same data

`SameData` relates two states that differ in nothing but the copies on the device of what is in
memory: the superblock, the inode store and the two bitmaps, and in what the bitmaps say of numbers
that do not exist.  Both states are well formed or none, and both show the same tree.

* `SameData.fsInv`: the invariant of the runs carries over.
* `SameData.tree`: so does the tree.
-/

set_option autoImplicit false

namespace Ouichefs

open FreeMap

/-- The data blocks, the counters, the bitmaps up to their sizes and the live inodes agree. -/
structure SameData (fs fs' : Fs) : Prop where
  geom : SameGeom fs.sbi fs'.sbi
  ifree : ∀ i < fs.sbi.nrInodes, fs'.sbi.ifreeBitmap i = fs.sbi.ifreeBitmap i
  bfree : ∀ b < fs.sbi.nrBlocks, fs'.sbi.bfreeBitmap b = fs.sbi.bfreeBitmap b
  nrFreeBlocks : fs'.sbi.nrFreeBlocks = fs.sbi.nrFreeBlocks
  nrFreeInodes : fs'.sbi.nrFreeInodes = fs.sbi.nrFreeInodes
  head : fs'.sbi.sFreeSlicedBlocks = fs.sbi.sFreeSlicedBlocks
  sliced : fs'.sbi.nrSlicedBlocks = fs.sbi.nrSlicedBlocks
  disk : ∀ b, fs.sbi.metaBlocks ≤ b → b < fs.sbi.nrBlocks → fs'.disk b = fs.disk b
  cached : ∀ i, fs.Live i → (fs'.icache i).isSome
  view : ∀ i, fs.Live i → SameView (fs.inode i) (fs'.inode i)
  nlink : ∀ i, fs.Live i → (fs'.inode i).iNlink = (fs.inode i).iNlink

namespace SameData

variable {fs fs' : Fs} {chain : List Nat} (h : SameData fs fs')
include h

theorem live (i : Nat) : fs'.Live i ↔ fs.Live i := by
  unfold Fs.Live
  rw [h.geom.nrInodes]
  refine and_congr_right fun _ => and_congr_right fun hlt => ?_
  rw [h.ifree i hlt]

theorem is (i : Nat) (κ : Kind) : fs'.Is i κ ↔ fs.Is i κ := by
  unfold Fs.Is
  rw [h.live]
  refine and_congr_right fun hl => ?_
  rw [(h.view i hl).kind]

theorem used (b : Nat) : fs'.Used b ↔ fs.Used b := by
  unfold Fs.Used
  rw [h.geom.nrBlocks]
  refine and_congr_right fun hlt => ?_
  rw [h.bfree b hlt]

/-- What is not metadata is on the same block. -/
theorem disk_of_ref (hc : Core fs chain) {r : Ref} {b : Nat} (hr : Refers fs chain r b)
    (hne : ∀ a, r ≠ .header a) : fs'.disk b = fs.disk b := by
  refine h.disk b ?_ (hc.owned.used hr).1
  by_contra hlt
  exact hne b (hc.owned.inj hr (show Refers fs chain (.header b) b from ⟨rfl, by omega⟩))

theorem indexOf (hc : Core fs chain) {i : Nat} (hi : fs.Is i .dir ∨ fs.Is i .big) :
    fs'.indexOf i = fs.indexOf i := by
  have hl : fs.Live i := hi.elim And.left And.left
  unfold Fs.indexOf
  rw [(h.view i hl).indexBlock]
  exact h.disk_of_ref hc (r := .index i) ⟨hi, rfl⟩ fun a ha => by cases ha

theorem chainBlock (hc : Core fs chain) {b : Nat} (hb : b ∈ chain) : fs'.disk b = fs.disk b :=
  h.disk_of_ref hc (r := .sliced b) ⟨rfl, hb⟩ fun a ha => by cases ha

theorem refers (hc : Core fs chain) (r : Ref) (b : Nat) :
    Refers fs' chain r b ↔ Refers fs chain r b := by
  cases r with
  | header a => simp only [Refers, h.geom.metaBlocks]
  | index i =>
      simp only [Refers, h.is]
      refine and_congr_right fun hi => ?_
      have hl : fs.Live i := hi.elim And.left And.left
      rw [(h.view i hl).indexBlock]
  | data i j =>
      simp only [Refers, h.is]
      refine and_congr_right fun hi => ?_
      rw [h.indexOf hc (Or.inr hi)]
  | sliced a => rfl

theorem owns (i b j : Nat) : fs'.OwnsSlice i b j ↔ fs.OwnsSlice i b j := by
  unfold Fs.OwnsSlice
  rw [h.is]
  refine and_congr_right fun hi => ?_
  have hv := h.view i hi.1
  rw [hv.getBno, hv.getSlice, hv.numSlices]

theorem smallBytes (hc : Core fs chain) {i : Nat} (hi : fs.Is i .small) :
    fs'.smallBytes i = fs.smallBytes i :=
  (h.view i hi.1).smallBytes (h.chainBlock hc (hc.slices.file i hi).mem)

theorem keepsFile (hc : Core fs chain) {i : Nat} (hl : fs.Live i) : KeepsFile fs fs' chain i := by
  refine ⟨h.view i hl, h.smallBytes hc, fun _ r c hr hby => h.disk_of_ref hc hr fun a ha => ?_⟩
  rw [ha] at hby
  exact hby

theorem core (hc : Core fs chain) (hpos : 0 < fs.sbi.nrInodes) : Core fs' chain := by
  have hblocks := h.geom.nrBlocks
  refine ⟨⟨?_, ?_, ?_, ?_⟩, ?_, hc.nodup, h.sliced.trans hc.sliced, ⟨?_, ?_⟩, fun _ b hb hbit => ?_,
    ?_, ⟨?_, fun i hl => h.cached i ((h.live i).1 hl), fun i hi => ?_⟩⟩
  · rw [h.geom.metaBlocks, hblocks]
    exact hc.sb.meta_lt
  · rw [hblocks]
    exact hc.sb.blocks_lt
  · rw [hblocks]
    exact hc.sb.blocks_le
  · rw [h.nrFreeBlocks, hc.sb.count, hblocks]
    exact (countBits_congr h.bfree).symm
  · rw [h.head]
    refine hc.isChain.congr fun b hb => ?_
    unfold Fs.next
    rw [h.chainBlock hc hb]
  · intro r b hr
    exact (h.used b).2 (hc.owned.used ((h.refers hc r b).1 hr))
  · intro r r' b hr hr'
    exact hc.owned.inj ((h.refers hc r b).1 hr) ((h.refers hc r' b).1 hr')
  · -- a free block is no metadata
    rw [hblocks] at hb
    rw [h.bfree b hb] at hbit
    rw [h.disk b ?_ hb, hc.zero trivial b hb hbit]
    by_contra hlt
    have hused := (hc.owned.used (show Refers fs chain (.header b) b from ⟨rfl, by omega⟩)).2
    rw [hbit] at hused
    cases hused
  · refine hc.slices.frame (fun b hb i _ => by rw [h.chainBlock hc hb]) fun i hi => ?_
    have hi' := (h.is i _).1 hi
    exact ⟨hi', h.view i hi'.1⟩
  · rw [h.ifree 0 hpos]
    exact hc.inodes.bit0
  · have hi' := (h.is i _).1 hi
    exact (h.view i hi'.1).bigOk (hc.inodes.big i hi')

theorem wf (hw : WF fs chain) : WF fs' chain := by
  have hc := hw.toCore
  have hpos : 0 < fs.sbi.nrInodes := Nat.lt_of_le_of_lt (Nat.zero_le _) hw.dirs.root.1.2.1
  refine { h.core hc hpos with
    dirs := hw.dirs.frame h.live (fun d => h.is d _) fun d hd => h.indexOf hc (Or.inl hd)
    table := hw.table.frame h.geom, fresh := fun i hi => ?_, stray := fun i hi => ?_ }
  · have hi' := (h.is i _).1 hi
    rw [(h.view i hi'.1).iSize, (h.view i hi'.1).numSlices]
    exact hw.fresh i hi'
  · have hi' := (h.is i _).1 hi
    rw [(h.view i hi'.1).iSize]
    exact hw.stray i hi'

theorem tight (hc : Core fs chain) (ht : Tight fs chain) : Tight fs' chain := by
  refine ⟨fun b hb => ?_, fun b hb j h1 h2 hbit => ?_, fun i hi => ?_, fun i hi j h1 h2 => ?_,
    fun i hi => ?_⟩
  · obtain ⟨r, hr⟩ := ht.covered b ⟨(h.used b).1 hb.1, hb.2⟩
    exact ⟨r, (h.refers hc r b).2 hr⟩
  · rw [h.chainBlock hc hb] at hbit
    obtain ⟨i, hi⟩ := (ht.bits b hb j h1 h2 hbit).resolve_left id
    exact Or.inr ⟨i, (h.owns i b j).2 hi⟩
  · exact ht.noStray i ((h.is i _).1 hi)
  · have hi' := (h.is i _).1 hi
    rw [(h.view i hi'.1).iBlocks] at h1
    rw [h.indexOf hc (Or.inr hi')]
    exact ht.ptrs i hi' j h1 h2
  · have hi' := (h.is i _).1 hi
    exact (h.view i hi'.1).blocksExact.2 (ht.blocks i hi')

theorem entry (hc : Core fs chain) (d j : Nat) : fs'.Entry d j ↔ fs.Entry d j := by
  unfold Fs.Entry
  rw [h.is]
  refine and_congr_right fun hd => ?_
  rw [h.indexOf hc (Or.inl hd)]

theorem linkInv (hc : Core fs chain) (hl : LinkInv fs) : LinkInv fs' := by
  intro i hi
  have hi' := (h.live i).1 hi
  have hset : fs'.childDirs i = fs.childDirs i := by
    ext j
    rw [Fs.mem_childDirs, Fs.mem_childDirs, h.entry hc, h.is]
  rw [h.nlink i hi', hset]
  exact hl i hi'

theorem names (hc : Core fs chain) : fs'.names = fs.names := by
  refine Fs.names_eq (fun d hd => ?_) fun d hd => ?_
  · have hd' := (h.is d _).1 hd
    rw [Fs.names_dir hd', h.indexOf hc (Or.inl hd')]
  · exact Fs.names_notDir (mt (h.is d _).2 hd)

end SameData

section Invariant

variable {k k' : Kernel} {chain : List Nat}

/-- **The invariant carries over.** -/
theorem SameData.fsInv (h : SameData k.fs k'.fs) (hi : FsInv k chain) (hf : k'.faults = []) :
    FsInv k' chain := by
  have hc := hi.wf.toCore
  refine ⟨⟨hf, h.wf hi.wf, fun d hd => ?_, h.linkInv hc hi.links, ?_⟩, h.tight hc hi.tight,
    fun i hb => ?_, hi.occupied.mono (fun _ => id) fun i hs => ⟨(h.live i).2 hs.1, h.view i hs.1⟩⟩
  · have hd' := (h.is d _).1 hd
    rw [h.indexOf hc (Or.inl hd')]
    exact hi.names d hd'
  · rw [h.nrFreeInodes]
    exact hi.free_lt
  · have hb' := (h.is i _).1 hb
    exact (h.keepsFile hc hb'.1).tailZero hc hb' (hi.tails i hb')

/-- **The tree carries over.** -/
theorem SameData.tree (h : SameData k.fs k'.fs) (hi : FsInv k chain) : k'.fs.tree = k.fs.tree := by
  have hc := hi.wf.toCore
  refine Tree.ext (h.names hc) (funext fun i => ?_)
  exact hi.contents_kept (h.live i) fun hl => h.keepsFile hc hl

end Invariant

end Ouichefs
