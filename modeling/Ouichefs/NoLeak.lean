import Ouichefs.RemountRuns

/-!
# No leaks

Every block and every inode number is accounted for over whole runs, unmounts included, and what a
run took it can give back.

* `FsInv.accounted`: the counters of the superblock against the inodes in use.
* `Request.Ok.keeps`: what no request changes.
* `nothing_leaks`: once everything is removed, the data are those of the formatted image.
* `mkfs_lifetime`: the guarantee a user of the whole program has, from `mkfs` on.
-/

set_option autoImplicit false

namespace Ouichefs

open FreeMap

/-! ## Accounting -/

/-- The blocks that only inode `i` uses: that of a directory, the index block and the data blocks
of a big file. -/
def Fs.blocksOf (fs : Fs) (i : Nat) : Finset Nat :=
  if fs.Is i .dir then {(fs.inode i).indexBlock}
  else if fs.Is i .big then insert (fs.inode i).indexBlock (fs.dataBlocks i)
  else ∅

/-- The counters of the superblock, against the inodes in use.  The counter of free inodes counts
inode 0, which is never handed out. -/
structure Accounted (fs : Fs) : Prop where
  blocks : fs.sbi.metaBlocks + ∑ i ∈ Finset.range fs.sbi.nrInodes, (fs.blocksOf i).card +
    fs.sbi.nrSlicedBlocks + fs.sbi.nrFreeBlocks = fs.sbi.nrBlocks
  sliced : fs.sbi.nrSlicedBlocks ≤
    ((Finset.range fs.sbi.nrInodes).filter fun i => fs.Is i .small).card
  inodes : ((Finset.range fs.sbi.nrInodes).filter fs.Live).card + fs.sbi.nrFreeInodes =
    fs.sbi.nrInodes

section Accounting

variable {fs : Fs} {chain : List Nat}

theorem Fs.mem_blocksOf {i b : Nat} :
    b ∈ fs.blocksOf i ↔ ∃ r : Ref, r.By i ∧ Refers fs chain r b := by
  unfold Fs.blocksOf
  constructor
  · intro hb
    split at hb
    · rename_i hd
      exact ⟨.index i, rfl, Or.inl hd, Finset.mem_singleton.1 hb⟩
    · split at hb
      · rename_i hbig
        rcases Finset.mem_insert.1 hb with hb | hb
        · exact ⟨.index i, rfl, Or.inr hbig, hb⟩
        · obtain ⟨hne, j, hj, rfl⟩ := Fs.mem_dataBlocks.1 hb
          exact ⟨.data i j, rfl, hbig, hj, rfl, hne⟩
      · simp at hb
  · rintro ⟨r, hby, hr⟩
    cases r with
    | header a => exact hby.elim
    | sliced a => exact hby.elim
    | index a =>
        cases hby
        rcases hr.1 with hd | hbig
        · rw [if_pos hd]
          exact Finset.mem_singleton.2 hr.2
        · rw [if_neg (fun hd => by cases hd.kind_unique hbig), if_pos hbig]
          exact Finset.mem_insert.2 (Or.inl hr.2)
    | data a j =>
        cases hby
        obtain ⟨hbig, hj, hb, hne⟩ := hr
        rw [if_neg (fun hd => by cases hd.kind_unique hbig), if_pos hbig]
        exact Finset.mem_insert.2 (Or.inr (Fs.mem_dataBlocks.2 ⟨hne, j, hj, hb.symm⟩))

/-- The blocks in use are those of the metadata, of the inodes and of the chain. -/
theorem Core.used_eq (h : Core fs chain) (ht : Tight fs chain) :
    (Finset.range fs.sbi.nrBlocks).filter (fun b => fs.sbi.bfreeBitmap b = false) =
      (Finset.range fs.sbi.metaBlocks ∪
        (Finset.range fs.sbi.nrInodes).biUnion fs.blocksOf) ∪ chain.toFinset := by
  ext b
  rw [Finset.mem_filter, Finset.mem_range, Finset.mem_union, Finset.mem_union, Finset.mem_range,
    Finset.mem_biUnion, List.mem_toFinset]
  constructor
  · intro hu
    obtain ⟨r, hr⟩ := ht.covered b ⟨hu, id⟩
    cases r with
    | header a =>
        obtain ⟨rfl, hlt⟩ := hr
        exact Or.inl (Or.inl hlt)
    | sliced a =>
        obtain ⟨rfl, hm⟩ := hr
        exact Or.inr hm
    | index i =>
        have hl : fs.Live i := hr.1.elim And.left And.left
        exact Or.inl (Or.inr ⟨i, Finset.mem_range.2 hl.2.1, Fs.mem_blocksOf.2 ⟨.index i, rfl, hr⟩⟩)
    | data i j =>
        exact Or.inl (Or.inr ⟨i, Finset.mem_range.2 hr.1.1.2.1,
          Fs.mem_blocksOf.2 ⟨.data i j, rfl, hr⟩⟩)
  · rintro ((hlt | ⟨i, -, hb⟩) | hm)
    · exact h.owned.used (r := .header b) ⟨rfl, hlt⟩
    · obtain ⟨r, -, hr⟩ := Fs.mem_blocksOf.1 hb
      exact h.owned.used hr
    · exact h.chain_used hm

/-- **The blocks add up.** -/
theorem Core.blocks_add (h : Core fs chain) (ht : Tight fs chain) :
    fs.sbi.metaBlocks + ∑ i ∈ Finset.range fs.sbi.nrInodes, (fs.blocksOf i).card +
      fs.sbi.nrSlicedBlocks + fs.sbi.nrFreeBlocks = fs.sbi.nrBlocks := by
  have hcard := card_clear fs.sbi.bfreeBitmap fs.sbi.nrBlocks
  have hinodes : ((Finset.range fs.sbi.nrInodes : Finset Nat) : Set Nat).PairwiseDisjoint
      fs.blocksOf := by
    intro i _ j _ hne
    refine Finset.disjoint_left.2 fun b hb hb' => hne ?_
    obtain ⟨r, hby, hr⟩ := Fs.mem_blocksOf.1 hb
    obtain ⟨r', hby', hr'⟩ := Fs.mem_blocksOf.1 hb'
    rw [h.owned.inj hr' hr] at hby'
    exact hby.unique hby'
  have hmeta : Disjoint (Finset.range fs.sbi.metaBlocks)
      ((Finset.range fs.sbi.nrInodes).biUnion fs.blocksOf) := by
    refine Finset.disjoint_left.2 fun b hb hb' => ?_
    obtain ⟨i, -, hb'⟩ := Finset.mem_biUnion.1 hb'
    obtain ⟨r, hby, hr⟩ := Fs.mem_blocksOf.1 hb'
    have hr' : Refers fs chain (.header b) b := ⟨rfl, Finset.mem_range.1 hb⟩
    rw [← h.owned.inj hr' hr] at hby
    exact hby
  have hchain : Disjoint (Finset.range fs.sbi.metaBlocks ∪
      (Finset.range fs.sbi.nrInodes).biUnion fs.blocksOf) chain.toFinset := by
    refine Finset.disjoint_left.2 fun b hb hb' => ?_
    have hr' : Refers fs chain (.sliced b) b := ⟨rfl, List.mem_toFinset.1 hb'⟩
    rcases Finset.mem_union.1 hb with hb | hb
    · have hr : Refers fs chain (.header b) b := ⟨rfl, Finset.mem_range.1 hb⟩
      cases h.owned.inj hr hr'
    · obtain ⟨i, -, hb⟩ := Finset.mem_biUnion.1 hb
      obtain ⟨r, hby, hr⟩ := Fs.mem_blocksOf.1 hb
      rw [h.owned.inj hr hr'] at hby
      exact hby
  rw [h.used_eq ht, Finset.card_union_of_disjoint hchain, Finset.card_union_of_disjoint hmeta,
    Finset.card_range, Finset.card_biUnion hinodes, List.toFinset_card_of_nodup h.nodup, ← h.sliced,
    ← h.sb.count] at hcard
  exact hcard

/-- There are at most as many sliced blocks as small files. -/
theorem Fs.Occupied.sliced_le (h : fs.Occupied chain) (hc : Core fs chain) :
    fs.sbi.nrSlicedBlocks ≤
      ((Finset.range fs.sbi.nrInodes).filter fun i => fs.Is i .small).card := by
  have hsub : chain.toFinset ⊆ ((Finset.range fs.sbi.nrInodes).filter fun i => fs.Is i .small).image
      fun i => (fs.inode i).getBno := by
    intro b hb
    obtain ⟨i, hi, hbno⟩ := h b (List.mem_toFinset.1 hb)
    exact Finset.mem_image.2 ⟨i, Finset.mem_filter.2 ⟨Finset.mem_range.2 hi.1.2.1, hi⟩, hbno⟩
  calc fs.sbi.nrSlicedBlocks = chain.toFinset.card := by
        rw [hc.sliced, List.toFinset_card_of_nodup hc.nodup]
    _ ≤ _ := Finset.card_le_card hsub
    _ ≤ _ := Finset.card_image_le

/-- The inodes in use have a clear bit, and so has inode 0. -/
theorem Core.inodes_add (h : Core fs chain) (hpos : 0 < fs.sbi.nrInodes)
    (hfree : fs.sbi.nrFreeInodes = countBits fs.sbi.ifreeBitmap fs.sbi.nrInodes + 1) :
    ((Finset.range fs.sbi.nrInodes).filter fs.Live).card + fs.sbi.nrFreeInodes =
      fs.sbi.nrInodes := by
  have hcard := card_clear fs.sbi.ifreeBitmap fs.sbi.nrInodes
  have hclear : (Finset.range fs.sbi.nrInodes).filter (fun i => fs.sbi.ifreeBitmap i = false) =
      insert 0 ((Finset.range fs.sbi.nrInodes).filter fs.Live) := by
    ext i
    rw [Finset.mem_insert, Finset.mem_filter, Finset.mem_filter, Finset.mem_range]
    constructor
    · rintro ⟨hlt, hbit⟩
      by_cases h0 : i = 0
      · exact Or.inl h0
      · exact Or.inr ⟨hlt, h0, hlt, hbit⟩
    · rintro (rfl | ⟨hlt, -, -, hbit⟩)
      · exact ⟨hpos, h.inodes.bit0⟩
      · exact ⟨hlt, hbit⟩
  have hnot : 0 ∉ (Finset.range fs.sbi.nrInodes).filter fs.Live := by
    intro h0
    exact (Finset.mem_filter.1 h0).2.1 rfl
  rw [hclear, Finset.card_insert_of_notMem hnot] at hcard
  omega

theorem FsInv.accounted {k : Kernel} (h : FsInv k chain)
    (hfree : k.fs.sbi.nrFreeInodes = countBits k.fs.sbi.ifreeBitmap k.fs.sbi.nrInodes + 1) :
    Accounted k.fs := by
  have hpos : 0 < k.fs.sbi.nrInodes := Nat.lt_of_le_of_lt (Nat.zero_le _) h.wf.dirs.root.1.2.1
  exact ⟨h.wf.toCore.blocks_add h.tight, h.occupied.sliced_le h.wf.toCore,
    h.wf.toCore.inodes_add hpos hfree⟩

end Accounting

/-! ## What no request changes -/

/-- The geometry, the root directory, and how far the counter of free inodes is off. -/
structure Keeps (fs fs' : Fs) : Prop where
  geom : SameGeom fs.sbi fs'.sbi
  root : SameView (fs.inode 1) (fs'.inode 1)
  free : fs.sbi.nrFreeInodes = countBits fs.sbi.ifreeBitmap fs.sbi.nrInodes + 1 →
    fs'.sbi.nrFreeInodes = countBits fs'.sbi.ifreeBitmap fs'.sbi.nrInodes + 1

theorem Keeps.refl (fs : Fs) : Keeps fs fs := ⟨.refl _, .refl _, id⟩

theorem Keeps.trans {fs₁ fs₂ fs₃ : Fs} (h : Keeps fs₁ fs₂) (h' : Keeps fs₂ fs₃) : Keeps fs₁ fs₃ :=
  ⟨h.geom.trans h'.geom, h.root.trans h'.root, fun hc => h'.free (h.free hc)⟩

section Calls

variable {k k' : Kernel} {chain chain' : List Nat} {dir ino f n mode : Nat} {name : List UInt8}
  {r : Int}

theorem Keeps.create (h : FsInv k chain) (hd : k.fs.Is dir .dir)
    (hrun : ouichefsCreate k dir name mode = .ok (r, k')) : Keeps k.fs k'.fs := by
  obtain ⟨r', k'', hrun', -, -, hres⟩ := ouichefsCreate_spec h.faults h.wf hd name mode
  rw [hrun] at hrun'
  cases hrun'
  rcases hres with ⟨-, hsame, -⟩ | ⟨-, ino, n, hc⟩
  · rw [hsame]
    exact .refl _
  have he := hc.effect (ouichefsCreate_effect h.faults h.wf.inodes.bit0 h.free_lt hd.1.2.2 hrun)
  refine ⟨hc.geom, hc.view 1 h.wf.dirs.root.1, fun hcount => ?_⟩
  have hclear := countBits_clear he.lt he.free
  have hlt := h.free_lt
  rw [he.nrFreeInodes, he.ifree, he.geom.nrInodes, sub32_of_le hlt (by omega)]
  omega

theorem Keeps.remove (h : FsInv k chain) (hd : k.fs.Is dir .dir) (h0 : ino ≠ 0)
    (hr : Removed k.fs k'.fs chain chain' dir ino f n)
    (he : Idle k k' ∨ r = 0 ∧ RemoveEff k k' dir ino) : Keeps k.fs k'.fs := by
  have hentry := Fs.Entry.live h.wf (d := dir) (j := ino) ⟨hd, h0, f, hr.slot⟩
  refine ⟨hr.geom, hr.view 1 h.wf.dirs.root.1 hentry.2.symm, fun hcount => ?_⟩
  rcases he with hi | ⟨-, he⟩
  · rw [hi.nrFreeInodes, hi.ifree, hi.geom.nrInodes]
    exact hcount
  · have hset := countBits_set hentry.1.2.1 hentry.1.2.2
    have hpos : 0 < k.fs.sbi.nrInodes := Nat.lt_of_le_of_lt (Nat.zero_le _) hentry.1.2.1
    have hlt := h.wf.table.lt
    have hle : countBits (Function.update k.fs.sbi.ifreeBitmap ino true) k.fs.sbi.nrInodes <
        k.fs.sbi.nrInodes := by
      refine countBits_lt hpos ?_
      rw [Function.update_of_ne h0.symm]
      exact h.wf.inodes.bit0
    rw [he.nrFreeInodes, he.ifree, he.geom.nrInodes, add32_of_lt (by omega)]
    omega

theorem Keeps.write {iocb io : Kiocb} {data : List UInt8} (h : FsInv k chain)
    (hrun : customWriteIter k ino iocb data = .ok ((r, io), k'))
    (hw : WroteTree k k' chain chain' ino iocb data r) : Keeps k.fs k'.fs := by
  have ht := customWriteIter_touch (k := k) ino iocb data
  rw [hrun] at ht
  have hifree : k'.fs.sbi.ifreeBitmap = k.fs.sbi.ifreeBitmap := ht.ifree
  have hfree : k'.fs.sbi.nrFreeInodes = k.fs.sbi.nrFreeInodes := ht.nrFreeInodes
  have hne : 1 ≠ ino := by
    rintro rfl
    have hroot := Inode.kind_dir.1 h.wf.dirs.root.2
    rw [hw.file.2] at hroot
    cases hroot
  refine ⟨hw.frame.geom, .of_eq (hw.frame.inode 1 hne), fun hcount => ?_⟩
  rw [hfree, hifree, hw.frame.geom.nrInodes]
  exact hcount

/-- One operation. -/
theorem Op.InTree.keeps {op : Op} (hop : op.InTree k.fs) (h : FsInv k chain)
    (hroom : ¬(op.exec k).kernel.AllocFailed) (hrun : op.exec k = .ok (r, k')) :
    Keeps k.fs k'.fs := by
  cases op with
  | create dir name mode => exact .create h hop.2.1 hrun
  | mkdir dir name mode => exact .create h hop.1 hrun
  | unlink dir name ino =>
      obtain ⟨hd, hname, hnd⟩ := hop
      obtain ⟨i, hi, h0, -⟩ := (blockMap_some h.wf h.names hd).1 hname
      obtain ⟨k'', chain'', n, hrun', -, -, hr⟩ :=
        ouichefsUnlink_spec h.faults h.wf hd hi h0 fun hc => absurd hc hnd
      have hrun₁ : ouichefsUnlink k dir ino = .ok (r, k') := hrun
      rw [hrun₁] at hrun'
      cases hrun'
      have hl := Fs.Entry.live h.wf (d := dir) (j := ino) ⟨hd, h0, i, hi⟩
      exact .remove h hd h0 hr (ouichefsUnlink_effect h.faults hl.1.2.1 hr.notDir hrun₁)
  | rmdir dir name ino =>
      obtain ⟨hd, hname, hid⟩ := hop
      obtain ⟨i, hi, h0, -⟩ := (blockMap_some h.wf h.names hd).1 hname
      obtain ⟨r', k'', hrun', -, -, hres⟩ := ouichefsRmdir_spec h.faults h.wf hd hi hid
      have hrun₁ : ouichefsRmdir k dir ino = .ok (r, k') := hrun
      rw [hrun₁] at hrun'
      cases hrun'
      rcases hres with ⟨-, hsame⟩ | ⟨-, chain'', n, hr⟩
      · rw [hsame]
        exact .refl _
      · exact .remove h hd h0 hr (ouichefsRmdir_effect h.faults hid.1.2.1 hr.notDir hrun₁)
  | rename oldDir oldName src newDir newName flags =>
      obtain ⟨ho, hw, hvo, hvn, hsrc, hslots⟩ := hop
      obtain ⟨r', k'', hrun', -, -, hres⟩ :=
        ouichefsRename_spec h.faults h.wf h.names ho hw hvo hvn hsrc hslots flags
      have hrun₁ : ouichefsRename k oldDir oldName src newDir newName flags = .ok (r, k') := hrun
      rw [hrun₁] at hrun'
      cases hrun'
      rcases hres with ⟨-, hsame, -⟩ | ⟨-, -, hren⟩
      · rw [hsame]
        exact .refl _
      · refine ⟨?_, hren.view 1, fun hcount => ?_⟩
        · rw [hren.sbi]
          exact .refl _
        · rw [hren.sbi]
          exact hcount
  | write ino pos data =>
      obtain ⟨r₁, io, k₁, chain₁, hrun₁, hw⟩ := h.write hop (by simpa [Op.exec] using hroom)
      have he : Op.exec k (.write ino pos data) = .ok (r₁, k₁) := congrArg writeResult hrun₁
      rw [hrun] at he
      cases he
      exact .write h hrun₁ hw
  | append ino pos data =>
      obtain ⟨r₁, io, k₁, chain₁, hrun₁, hw⟩ := h.write hop (by simpa [Op.exec] using hroom)
      have he : Op.exec k (.append ino pos data) = .ok (r₁, k₁) := congrArg writeResult hrun₁
      rw [hrun] at he
      cases he
      exact .write h hrun₁ hw

theorem SameData.keeps {fs fs' : Fs} (h : SameData fs fs') (hroot : fs.Live 1) : Keeps fs fs' := by
  refine ⟨h.geom, h.view 1 hroot, fun hcount => ?_⟩
  rw [h.nrFreeInodes, h.geom.nrInodes, countBits_congr h.ifree]
  exact hcount

/-- **One request.** -/
theorem Request.Ok.keeps {q : Request} (hq : q.Ok k) (h : FsInv k chain) (hd : Durable k.fs)
    (hrun : q.exec k = .ok (r, k')) : Keeps k.fs k'.fs := by
  cases q with
  | call c =>
      exact Op.InTree.keeps (k := k.setCaller c.now c.fsuid c.fsgid) hq.1.1
        (h.setCaller c.now c.fsuid c.fsgid) hq.1.2 hrun
  | mountAgain long written loaded now fsuid fsgid =>
      obtain ⟨hall, hlt⟩ := hq
      obtain ⟨k₁, hrun₁, -, hsame, -⟩ := remount_ok long now fsuid fsgid h hd
        (fun i hi => (hall i hi.2.1 hi).1) (fun i hi => (hall i hi.2.1 hi).2) hlt
      have he : Request.exec k (.mountAgain long written loaded now fsuid fsgid) = .ok (0, k₁) :=
        hrun₁
      rw [hrun] at he
      cases he
      exact hsame.keeps h.wf.dirs.root.1

end Calls

/-! ## When everything is removed -/

section Emptied

variable {k k' : Kernel} {chain chain' : List Nat}

/-- A file system without files and without directories below the root. -/
structure Fs.Bare (fs : Fs) : Prop where
  live : ∀ i, fs.Live i ↔ i = 1
  head : fs.sbi.sFreeSlicedBlocks = 0
  sliced : fs.sbi.nrSlicedBlocks = 0
  used : ∀ b, fs.Used b ↔ b < fs.sbi.metaBlocks ∨ b = (fs.inode 1).indexBlock
  rootBlock : fs.indexOf 1 = Page.zero
  nlink : (fs.inode 1).iNlink = 2

/-- **Nothing is left of what was removed.** -/
theorem FsInv.bare (h : FsInv k chain) (hl : ∀ i, k.fs.Live i → i = 1) : k.fs.Bare := by
  have hc := h.wf.toCore
  have hroot := h.wf.dirs.root
  have hkind : ∀ i κ, k.fs.Is i κ → i = 1 ∧ κ = .dir := by
    intro i κ hi
    have h1 := hl i hi.1
    subst h1
    exact ⟨rfl, hi.kind_unique hroot⟩
  have hchain : chain = [] := by
    refine List.eq_nil_iff_forall_not_mem.2 fun b hb => ?_
    obtain ⟨i, hi, -⟩ := h.occupied b hb
    cases (hkind i _ hi).2
  subst hchain
  have hnone : ∀ d j, ¬k.fs.Entry d j := by
    intro d j he
    obtain ⟨hlj, hne⟩ := he.live h.wf
    exact hne (hl j hlj)
  refine ⟨fun i => ⟨hl i, ?_⟩, hc.isChain, hc.sliced, fun b => ⟨fun hu => ?_, ?_⟩, ?_, ?_⟩
  · rintro rfl
    exact hroot.1
  · obtain ⟨r, hr⟩ := h.tight.covered b ⟨hu, id⟩
    cases r with
    | header a =>
        obtain ⟨rfl, hlt⟩ := hr
        exact Or.inl hlt
    | index i =>
        have hi : k.fs.Live i := hr.1.elim And.left And.left
        rw [hl i hi] at hr
        exact Or.inr hr.2
    | data i j => cases (hkind i _ hr.1).2
    | sliced a => cases hr.2
  · rintro (hlt | rfl)
    · exact hc.owned.used (r := .header b) ⟨rfl, hlt⟩
    · exact hc.dir_used hroot
  · refine Page.ext_get fun x hx => ?_
    have hslot : slotInode (k.fs.indexOf 1) (x / 32) = 0 := by
      by_contra hne
      exact hnone 1 _ ⟨hroot, hne, _, rfl⟩
    have hbyte := h.wf.dirs.clean 1 hroot (x / 32) hslot (x % 32) (Nat.mod_lt _ (by decide))
    rw [Nat.div_add_mod] at hbyte
    rw [hbyte, Page.get_zero]
  · have hempty : k.fs.childDirs 1 = ∅ := by
      refine Finset.eq_empty_of_forall_notMem fun j hj => ?_
      exact hnone 1 j (Fs.mem_childDirs.1 hj).1
    rw [h.links 1 hroot.1, hempty]
    rfl

/-- Two bare file systems on one device, with the same root directory, have the same data. -/
theorem Fs.Bare.sameData (h : FsInv k chain) (h' : FsInv k' chain') (hb : k.fs.Bare)
    (hb' : k'.fs.Bare) (hk : Keeps k.fs k'.fs)
    (hcount : k.fs.sbi.nrFreeInodes = countBits k.fs.sbi.ifreeBitmap k.fs.sbi.nrInodes + 1) :
    SameData k.fs k'.fs := by
  have hg := hk.geom
  have hlive : ∀ i, k'.fs.Live i ↔ k.fs.Live i := fun i => (hb'.live i).trans (hb.live i).symm
  have hused : ∀ b, k'.fs.Used b ↔ k.fs.Used b := by
    intro b
    rw [hb.used, hb'.used, hg.metaBlocks, hk.root.indexBlock]
  have hifree : ∀ i < k.fs.sbi.nrInodes, k'.fs.sbi.ifreeBitmap i = k.fs.sbi.ifreeBitmap i := by
    intro i hi
    by_cases h0 : i = 0
    · rw [h0, h.wf.inodes.bit0, h'.wf.inodes.bit0]
    · have hbit := hlive i
      unfold Fs.Live at hbit
      rw [hg.nrInodes] at hbit
      rw [Bool.eq_iff_iff, ← not_iff_not, Bool.not_eq_true, Bool.not_eq_true]
      exact ⟨fun hf => (hbit.1 ⟨h0, hi, hf⟩).2.2, fun hf => (hbit.2 ⟨h0, hi, hf⟩).2.2⟩
  have hbfree : ∀ b < k.fs.sbi.nrBlocks, k'.fs.sbi.bfreeBitmap b = k.fs.sbi.bfreeBitmap b := by
    intro b hlt
    have hbit := hused b
    unfold Fs.Used at hbit
    rw [hg.nrBlocks] at hbit
    rw [Bool.eq_iff_iff, ← not_iff_not, Bool.not_eq_true, Bool.not_eq_true]
    exact ⟨fun hf => (hbit.1 ⟨hlt, hf⟩).2, fun hf => (hbit.2 ⟨hlt, hf⟩).2⟩
  refine ⟨hg, hifree, hbfree, ?_, ?_, hb'.head.trans hb.head.symm, hb'.sliced.trans hb.sliced.symm,
    fun b hmeta hlt => ?_, fun i hi => ?_, fun i hi => ?_, fun i hi => ?_⟩
  · rw [h.wf.sb.count, h'.wf.sb.count, hg.nrBlocks]
    exact countBits_congr hbfree
  · rw [hcount, hk.free hcount, hg.nrInodes]
    exact congrArg (· + 1) (countBits_congr hifree)
  · by_cases hu : k.fs.Used b
    · rcases (hb.used b).1 hu with hlow | rfl
      · omega
      · have h1 : k.fs.disk (k.fs.inode 1).indexBlock = Page.zero := hb.rootBlock
        have h2 : k'.fs.disk (k'.fs.inode 1).indexBlock = Page.zero := hb'.rootBlock
        rw [hk.root.indexBlock] at h2
        rw [h1, h2]
    · have hfree : k.fs.sbi.bfreeBitmap b = true := by
        by_contra hbit
        exact hu ⟨hlt, by simpa using hbit⟩
      rw [h.wf.zero trivial b hlt hfree,
        h'.wf.zero trivial b (by rw [hg.nrBlocks]; exact hlt) (by rw [hbfree b hlt]; exact hfree)]
  · exact h'.wf.inodes.cached i ((hlive i).2 hi)
  · rw [(hb.live i).1 hi]
    exact hk.root
  · rw [(hb.live i).1 hi, hb.nlink, hb'.nlink]

/-- The counter of free inodes that `mkfs` writes is one too high. -/
theorem Formatted.freeInodes {fs : Fs} (h : Formatted fs) :
    fs.sbi.nrFreeInodes = countBits fs.sbi.ifreeBitmap fs.sbi.nrInodes + 1 := by
  have hpos := h.inodes_pos
  have hbits : countBits fs.sbi.ifreeBitmap fs.sbi.nrInodes =
      countBits (fun i => decide (2 ≤ i)) fs.sbi.nrInodes :=
    countBits_congr fun i hi => h.ifree i hi
  rw [hbits, countBits_prefix, h.nrFreeInodes]
  omega

/-- The invariants after a run of requests. -/
theorem FsInv.requests {qs : List Request} (h : FsInv k chain) (hd : Durable k.fs)
    (ha : Admissible Request.exec Request.Ok k qs) : ∃ k' chain',
      runAll Request.exec k qs = .ok k' ∧ FsInv k' chain' ∧ Durable k'.fs ∧ Keeps k.fs k'.fs := by
  obtain ⟨k', hrun, chain', h', hd', hk⟩ := runAll_invariant
    (I := fun k₁ => ∃ chain, FsInv k₁ chain ∧ Durable k₁.fs ∧ Keeps k.fs k₁.fs)
    (fun k₁ q ⟨chain, hi, hd₁, hk⟩ hq => by
      obtain ⟨r, k₂, chain', he, hi', hd', -⟩ := hq.step hi hd₁
      exact ⟨r, k₂, he, chain', hi', hd', hk.trans (hq.keeps hi hd₁ he)⟩)
    qs k ⟨chain, h, hd, .refl _⟩ ha
  exact ⟨k', chain', hrun, h', hd', hk⟩

/-- What is left when everything has been removed. -/
theorem FsInv.emptied (h₀ : Formatted k.fs) (h : FsInv k chain) (h' : FsInv k' chain')
    (hk : Keeps k.fs k'.fs) (hl : ∀ i, k'.fs.Live i → i = 1) : SameData k.fs k'.fs :=
  Fs.Bare.sameData h h' (h.bare fun i hi => (h₀.live i).1 hi) (h'.bare hl) hk h₀.freeInodes

/-- **Nothing leaks.**  After every run, unmounts included, the blocks and the inodes add up, and
there are no more sliced blocks than small files; once nothing but the root directory is left, the
bitmaps, the counters, the root directory and the blocks are those of the formatted image. -/
theorem nothing_leaks {qs : List Request} (hf : k.faults = []) (h : Formatted k.fs) (hz : k.fs.Blank)
    (hd : Durable k.fs) (ha : Admissible Request.exec Request.Ok k qs) :
    ∃ k', runAll Request.exec k qs = .ok k' ∧ Accounted k'.fs ∧
      ((∀ i, k'.fs.Live i → i = 1) → SameData k.fs k'.fs) := by
  obtain ⟨k', chain', hrun, h', -, hk⟩ := (h.fsInv hf hz).requests hd ha
  exact ⟨k', hrun, h'.accounted (hk.free h.freeInodes), (h.fsInv hf hz).emptied h h' hk⟩

/-- A directory with a small file in it; both are removed again, after an unmount. -/
def leakRun : List Request :=
  [.call (Op.mkdir 1 [100] 0o755).call, .call (Op.create 2 [97] 0o100644).call,
    .call (Op.write 3 0 [7, 8]).call, .mountAgain .bits64 [1, 2, 3] [3, 2, 1] ⟨0, 0⟩ 0 0,
    .call (Op.unlink 2 [97] 3).call, .call (Op.rmdir 1 [100] 2).call]

theorem leakRun_admissible : Admissible Request.exec Request.Ok (magicImage 12 8) leakRun := by
  decide +kernel

/-- Only the root directory is left. -/
theorem leakRun_emptied {k' : Kernel}
    (h : runAll Request.exec (magicImage 12 8) leakRun = .ok k') (i : Nat) (hi : k'.fs.Live i) :
    i = 1 := by
  have hrun : (runAll Request.exec (magicImage 12 8) leakRun).toOption.map (fun k₁ : Kernel =>
      decide (∀ i < k₁.fs.sbi.nrInodes, k₁.fs.Live i → i = 1)) = some true := by
    decide +kernel
  rw [h] at hrun
  have hall : ∀ i < k'.fs.sbi.nrInodes, k'.fs.Live i → i = 1 := by
    simpa [Except.toOption] using hrun
  exact hall i hi.2.1 hi

theorem nothing_leaks_leakRun : ∃ k', runAll Request.exec (magicImage 12 8) leakRun = .ok k' ∧
    Accounted k'.fs ∧ SameData (magicImage 12 8).fs k'.fs := by
  obtain ⟨k', hrun, hacc, hsame⟩ := nothing_leaks (k := magicImage 12 8) rfl
    (magicImage_formatted (by decide) (by decide) (by decide) (by decide))
    (magicImage_blank (by decide))
    (magicImage_durable (by decide) (by decide) (by decide) (by decide)) leakRun_admissible
  exact ⟨k', hrun, hacc, hsame (leakRun_emptied hrun)⟩

end Emptied

/-! ## From the partition to the tree -/

section Lifetime

variable {long : LongSize} {now : Timespec} {fsuid fsgid : Nat} {fd fd' : Fd}

/-- **From `mkfs` on.**  Where `mkfs` succeeds on zeros, its image mounts as an empty tree, every
run from there refines the tree, its blocks and inodes add up, and when everything is removed the
data are again those that `mkfs` wrote. -/
theorem mkfs_lifetime (hrun : mkfs fd = .ok (true, fd')) (hfits : (superblock fd.size).Fits)
    (hn : 5 ≤ fd.size / 4096 % 4294967296) (hz : ∀ b, fd.block b = Page.zero) :
    ∃ k, ouichefsFillSuper long now fsuid fsgid ⟨fd.size / 4096, fd'.block, []⟩ = .ok (.ok k) ∧
      ∀ qs, Admissible Request.exec Request.Ok k qs →
        Simulates Request.exec Shows Tree.StepOr k Tree.root qs ∧
        ∃ k', runAll Request.exec k qs = .ok k' ∧ Accounted k'.fs ∧
          ((∀ i, k'.fs.Live i → i = 1) → SameData k.fs k'.fs) := by
  obtain ⟨k, hfill, hf, hfmt, hz', hd⟩ :=
    @mkfs_durable long now fsuid fsgid fd fd' hrun hfits hn hz
  have h₀ := hfmt.fsInv hf hz'
  refine ⟨k, hfill, fun qs ha => ⟨?_, ?_⟩⟩
  · rw [← hfmt.tree]
    exact h₀.simulates hd ha
  · obtain ⟨k', chain', hrun', h', -, hk⟩ := h₀.requests hd ha
    exact ⟨k', hrun', h'.accounted (hk.free hfmt.freeInodes), h₀.emptied hfmt h' hk⟩

theorem mkfs_lifetime_smallest : ∃ fd' k, mkfs (zeroFile 409600) = .ok (true, fd') ∧
    ouichefsFillSuper .bits64 ⟨0, 0⟩ 0 0 ⟨100, fd'.block, []⟩ = .ok (.ok k) ∧
    ∀ qs, Admissible Request.exec Request.Ok k qs →
      Simulates Request.exec Shows Tree.StepOr k Tree.root qs := by
  have hfits : (superblock 409600).Fits := by
    unfold Superblock.Fits
    decide
  obtain ⟨fd', hrun⟩ := @mkfs_ok (zeroFile 409600) rfl (Nat.le_refl _) hfits
  obtain ⟨k, hfill, hall⟩ := @mkfs_lifetime .bits64 ⟨0, 0⟩ 0 0 (zeroFile 409600) fd' hrun hfits
    (by decide) fun _ => rfl
  exact ⟨fd', k, hrun, hfill, fun qs ha => (hall qs ha).1⟩

end Lifetime

end Ouichefs
