import Ouichefs.Unlink

/-!
# The storage functions under another inode number

The functions that write to a file and release its storage use the inode number only to find the
in-memory inode, and never look at the inode bitmap or at other inodes.  So they do the same when
the inode has another number, other inodes around it and another bitmap: `View` is such a change of
numbers, and every function commutes with it.
-/

set_option autoImplicit false

namespace Ouichefs

/-- Inode `ino` is shown as number `id`, among the inodes `others`. -/
structure View where
  ino : Nat
  id : Nat
  ifree : Nat → Bool
  nrInodes : Nat
  others : Nat → Option Inode

namespace View

variable (v : View)

def sbi (sbi : SbInfo) : SbInfo := { sbi with ifreeBitmap := v.ifree, nrInodes := v.nrInodes }

/-- The file system as the view shows it. -/
def fs (fs : Fs) : Fs :=
  { sbi := v.sbi fs.sbi, disk := fs.disk
    icache := Function.update v.others v.id (fs.icache v.ino) }

def see (k : Kernel) : Kernel := { k with fs := v.fs k.fs }

def seeRes {α : Type} (p : α × Kernel) : α × Kernel := (p.1, v.see p.2)

/-- The outcome of a call as the view shows it. -/
def run {α : Type} : Outcome α → Outcome α
  | .ok (a, k) => .ok (a, v.see k)
  | .error (c, k) => .error (c, v.see k)

/-- A service that answers answers under the view as well. -/
theorem seeRes_of {α : Type} {p q : α × Kernel} {a : α} {k : Kernel} (h : q = v.seeRes p)
    (hp : p = (a, k)) : q = (a, v.see k) := by
  rw [h, hp]
  rfl

/-- The outcome of a call is the outcome under the view, shown. -/
theorem run_of {α : Type} {o q run : Outcome α} (h : q = v.run o) (ho : o = run) :
    q = v.run run := ho ▸ h

/-- A call that returns as the view shows it returns. -/
theorem run_eq_ok {α : Type} {o : Outcome α} {a : α} {kv : Kernel} (h : v.run o = .ok (a, kv)) :
    ∃ k, o = .ok (a, k) ∧ v.see k = kv := by
  cases o with
  | error e => cases h
  | ok p =>
      cases h
      exact ⟨p.2, rfl, rfl⟩

section Basic

variable (k : Kernel) (ci : Inode) (b : Nat) (nb : Block) (e : Event)

@[simp] theorem disk_see : (v.see k).fs.disk = k.fs.disk := rfl
@[simp] theorem sbi_see : (v.see k).fs.sbi = v.sbi k.fs.sbi := rfl
@[simp] theorem faults_see : (v.see k).faults = k.faults := rfl
@[simp] theorem now_see : (v.see k).now = k.now := rfl
@[simp] theorem nrBlocks_sbi (s : SbInfo) : (v.sbi s).nrBlocks = s.nrBlocks := rfl

@[simp] theorem inode_fs (fs : Fs) : (v.fs fs).inode v.id = fs.inode v.ino := by
  simp [Fs.inode, View.fs]

@[simp] theorem inode_see : (v.see k).inode v.id = k.inode v.ino := v.inode_fs k.fs

@[simp] theorem setInode_see : (v.see k).setInode v.id ci = v.see (k.setInode v.ino ci) := by
  simp [see, fs, Kernel.setInode, Fs.setInode]

@[simp] theorem setBlock_see : (v.see k).setBlock b nb = v.see (k.setBlock b nb) := rfl
@[simp] theorem log_see : (v.see k).log e = v.see (k.log e) := rfl
@[simp] theorem brelse_see : (v.see k).brelse b = v.see (k.brelse b) := rfl
@[simp] theorem setSbi_see (s : SbInfo) : (v.see k).setSbi (v.sbi s) = v.see (k.setSbi s) := rfl

end Basic

/-! ## Kernel services and block allocation -/

section Services

variable (k : Kernel) (b : Nat)

theorem sbBread_see : (v.see k).sbBread b = v.seeRes (k.sbBread b) := by
  unfold Kernel.sbBread
  rw [sbi_see, nrBlocks_sbi, faults_see]
  split
  · rfl
  · split <;> rfl

theorem kmalloc_see : (v.see k).kmalloc = v.seeRes k.kmalloc := by
  unfold Kernel.kmalloc
  rw [faults_see]
  split <;> rfl

theorem copyFromIter_see (n : Nat) (iter : List UInt8) :
    (v.see k).copyFromIter n iter = v.seeRes (k.copyFromIter n iter) := by
  unfold Kernel.copyFromIter
  rw [faults_see]
  split <;> rfl

theorem getFreeBlock_see : (v.see k).getFreeBlock = v.seeRes k.getFreeBlock := by
  have hsbi : (v.sbi k.fs.sbi).getFreeBlock =
      (k.fs.sbi.getFreeBlock.1, v.sbi k.fs.sbi.getFreeBlock.2) := by
    unfold SbInfo.getFreeBlock
    rw [show getFirstFreeBit (v.sbi k.fs.sbi).bfreeBitmap (v.sbi k.fs.sbi).nrBlocks =
      getFirstFreeBit k.fs.sbi.bfreeBitmap k.fs.sbi.nrBlocks from rfl]
    obtain ⟨ret, map⟩ := getFirstFreeBit k.fs.sbi.bfreeBitmap k.fs.sbi.nrBlocks
    by_cases h : ret = 0
    · simp only [h, ne_eq, not_true_eq_false, if_false]
      rfl
    · simp only [h, ne_eq, not_false_eq_true, if_true]
      rfl
  unfold Kernel.getFreeBlock
  rw [sbi_see, hsbi]
  simp only
  split <;> rfl

theorem putBlock_see : (v.see k).putBlock b = v.see (k.putBlock b) := by
  unfold Kernel.putBlock SbInfo.putBlock
  rw [sbi_see]
  split
  · rename_i h
    rw [show putFreeBit k.fs.sbi.bfreeBitmap k.fs.sbi.nrBlocks b = none from h]
    rfl
  · rename_i map h
    rw [show putFreeBit k.fs.sbi.bfreeBitmap k.fs.sbi.nrBlocks b = some map from h]
    rfl

end Services

/-! ## Slices -/

section Slices

variable (k : Kernel) (b : Nat)

theorem brelsePrev_see (prev : Option Nat) :
    brelsePrev (v.see k) prev = v.see (brelsePrev k prev) := by
  cases prev <;> rfl

theorem allocateAndInitSliceBlock_see :
    allocateAndInitSliceBlock (v.see k) = v.seeRes (allocateAndInitSliceBlock k) := by
  refine (allocateAndInitSliceBlock_exits _).2 ?_
  cases (allocateAndInitSliceBlock_exits k).1 rfl with
  | noBlock hget hb eq =>
      exact .noBlock (v.seeRes_of (v.getFreeBlock_see _) hget) hb (by rw [eq, putBlock_see]; rfl)
  | unread hget hb hread eq =>
      exact .unread (v.seeRes_of (v.getFreeBlock_see _) hget) hb
        (v.seeRes_of (v.sbBread_see _ _) hread) (by rw [eq, putBlock_see]; rfl)
  | initialised hget hb hread eq =>
      exact .initialised (v.seeRes_of (v.getFreeBlock_see _) hget) hb
        (v.seeRes_of (v.sbBread_see _ _) hread) (by rw [eq]; rfl)

theorem getConsequitiveFreeSlices_see (size : Nat) :
    getConsequitiveFreeSlices (v.see k) b v.id size =
      v.seeRes (getConsequitiveFreeSlices k b v.ino size) := by
  unfold getConsequitiveFreeSlices
  by_cases h : size > 4096
  · simp only [h, if_true, seeRes]
  · simp only [h, if_false, disk_see]
    cases searchSlices (sliceBitmap (k.fs.disk b)) (32 - divRoundUp size 128) 1
      (runMask 32 (divRoundUp size 128) 1) with
    | none => rfl
    | some found => simp only [seeRes, setBlock_see, inode_see, setInode_see]

theorem pruneChain_see : ∀ (fuel : Nat) (k : Kernel) (cur : Nat) (prev : Option Nat),
    pruneChain fuel (v.see k) cur prev = v.run (pruneChain fuel k cur prev) := by
  intro fuel
  induction fuel with
  | zero =>
      intro k cur prev
      cases cur with
      | zero => simp only [pruneChain, run, v.brelsePrev_see]
      | succ cur => rfl
  | succ fuel ih =>
      intro k cur prev
      cases cur with
      | zero => simp only [pruneChain, run, v.brelsePrev_see]
      | succ cur =>
          rw [pruneChain, pruneChain, v.sbBread_see]
          obtain ⟨ok, k⟩ := k.sbBread (cur + 1)
          cases ok with
          | false => simp only [seeRes, run, v.brelsePrev_see]
          | true =>
              by_cases h : sliceBitmap (k.fs.disk (cur + 1)) = bitmapAllFree
              · simp only [seeRes, disk_see, h, if_true]
                rw [← ih, ← brelse_see, ← putBlock_see]
                cases prev <;> rfl
              · simp only [seeRes, disk_see, h, if_false]
                rw [v.brelsePrev_see, ih]

theorem deleteSlice_see (s n : Nat) :
    deleteSlice (v.see k) b s n = v.run (deleteSlice k b s n) := by
  refine (deleteSlice_exits _ _ _ _).2 ?_
  cases (deleteSlice_exits k b s n).1 rfl with
  | nothing h eq => exact .nothing h (by rw [eq]; rfl)
  | unread hb hn hread eq =>
      exact .unread hb hn (v.seeRes_of (v.sbBread_see _ _) hread) (by rw [eq]; rfl)
  | walked hb hn hread eq =>
      refine .walked hb hn (v.seeRes_of (v.sbBread_see _ _) hread) ?_
      rw [eq, ← v.pruneChain_see]
      rfl

theorem deleteSliceAndClearInode_see : deleteSliceAndClearInode (v.see k) v.id =
    v.run (deleteSliceAndClearInode k v.ino) := by
  unfold deleteSliceAndClearInode
  simp only [inode_see, v.deleteSlice_see]
  generalize deleteSlice k (k.inode v.ino).getBno (k.inode v.ino).getSlice
    (k.inode v.ino).numSlices = o
  cases o with
  | error e => rfl
  | ok p =>
      obtain ⟨ret, k⟩ := p
      by_cases h : ret < 0
      · simp only [run, h, if_true]
      · simp only [run, h, if_false, inode_see, setInode_see]

end Slices

/-! ## Small files -/

section Small

theorem searchChain_see : ∀ (fuel : Nat) (k : Kernel) (size cur : Nat),
    searchChain fuel (v.see k) v.id size cur = v.run (searchChain fuel k v.ino size cur) := by
  intro fuel
  induction fuel with
  | zero => exact fun k size cur => rfl
  | succ fuel ih =>
      intro k size cur
      have hslices := v.getConsequitiveFreeSlices_see k cur size
      refine (searchChain_exits _ _ _ _ _).2 ?_
      cases (searchChain_exits fuel k v.ino size cur).1 rfl with
      | found hs hget eq => exact .found hs (v.seeRes_of hslices hget) (by rw [eq]; rfl)
      | noBlock hget hnext halloc hret eq =>
          exact .noBlock (v.seeRes_of hslices hget) hnext
            (v.seeRes_of (v.allocateAndInitSliceBlock_see _) halloc) hret (by rw [eq]; rfl)
      | linked hget hnext halloc hret eq =>
          refine .linked (v.seeRes_of hslices hget) hnext
            (v.seeRes_of (v.allocateAndInitSliceBlock_see _) halloc) hret ?_
          rw [eq, ← ih]
          rfl
      | unread hget hnext hread eq =>
          exact .unread (v.seeRes_of hslices hget) hnext
            (v.seeRes_of (v.sbBread_see _ _) hread) (by rw [eq]; rfl)
      | next hget hnext hread eq =>
          refine .next (v.seeRes_of hslices hget) hnext (v.seeRes_of (v.sbBread_see _ _) hread) ?_
          rw [eq, ← ih]
          rfl

theorem placeSlices_see (k : Kernel) (size : Nat) :
    placeSlices (v.see k) v.id size = v.run (placeSlices k v.ino size) := by
  refine (placeSlices_exits _ _ _).2 ?_
  cases (placeSlices_exits k v.ino size).1 rfl with
  | noBlock hhead halloc hret eq =>
      exact .noBlock hhead (v.seeRes_of (v.allocateAndInitSliceBlock_see _) halloc) hret
        (by rw [eq]; rfl)
  | badHead hhead halloc hret hneg eq =>
      exact .badHead hhead (v.seeRes_of (v.allocateAndInitSliceBlock_see _) halloc) hret hneg
        (by rw [eq]; rfl)
  | newHead hhead halloc hret hpos eq =>
      refine .newHead hhead (v.seeRes_of (v.allocateAndInitSliceBlock_see _) halloc) hret hpos ?_
      rw [eq, ← v.searchChain_see]
      rfl
  | unread hhead hread eq =>
      exact .unread hhead (v.seeRes_of (v.sbBread_see _ _) hread) (by rw [eq]; rfl)
  | searched hhead hread eq =>
      refine .searched hhead (v.seeRes_of (v.sbBread_see _ _) hread) ?_
      rw [eq, ← v.searchChain_see]
      rfl

variable (k : Kernel) (iocb : Kiocb) (data : List UInt8)

theorem copyToSlices_see (pos size b s : Nat) : copyToSlices (v.see k) v.id iocb data pos size b s =
    v.run (copyToSlices k v.ino iocb data pos size b s) := by
  refine (copyToSlices_exits _ _ _ _ _ _ _ _).2 ?_
  cases (copyToSlices_exits k v.ino iocb data pos size b s).1 rfl with
  | fault hcopy hlen eq =>
      exact .fault (v.seeRes_of (v.copyFromIter_see _ _ _) hcopy) hlen (by rw [eq]; rfl)
  | copied hcopy hlen eq =>
      refine .copied (v.seeRes_of (v.copyFromIter_see _ _ _) hcopy) hlen ?_
      rw [eq, inode_see, now_see]
      simp only [run, ← setInode_see]
      rfl

theorem writeSmallFileNew_see : writeSmallFileNew (v.see k) v.id iocb data =
    v.run (writeSmallFileNew k v.ino iocb data) := by
  have hplaces := v.placeSlices_see k
    (max (iocb.startPos (k.inode v.ino) + data.length) (k.inode v.ino).iSize)
  refine (writeSmallFileNew_exits _ _ _ _).2 ?_
  cases (writeSmallFileNew_exits k v.ino iocb data).1 rfl with
  | stopped hplace eq =>
      exact .stopped (by rw [inode_see, v.run_of hplaces hplace]; rfl) (by rw [eq]; rfl)
  | noPlace hplace eq =>
      exact .noPlace (by rw [inode_see, v.run_of hplaces hplace]; rfl) (by rw [eq]; rfl)
  | placed hplace eq =>
      refine .placed (by rw [inode_see, v.run_of hplaces hplace]; rfl) ?_
      rw [eq, inode_see, v.copyToSlices_see]

theorem finishRelocation_see (old : Inode) (pos count : Nat) (o : Outcome (Int × Kiocb)) :
    finishRelocation old v.id pos count (v.run o) =
      v.run (finishRelocation old v.ino pos count o) := by
  refine (finishRelocation_exits _ _ _ _ _).2 ?_
  cases (finishRelocation_exits old v.ino pos count o).1 rfl with
  | stopped hrun eq => exact .stopped (by rw [hrun]; rfl) (by rw [eq]; rfl)
  | kept hrun hret eq =>
      refine .kept (by rw [hrun]; rfl) hret ?_
      rw [eq, inode_see, setInode_see]
      rfl
  | stuck hrun hret hdel eq =>
      exact .stuck (by rw [hrun]; rfl) hret (v.run_of (v.deleteSlice_see _ _ _ _) hdel)
        (by rw [eq]; rfl)
  | moved hrun hret hdel eq =>
      exact .moved (by rw [hrun]; rfl) hret (v.run_of (v.deleteSlice_see _ _ _ _) hdel)
        (by rw [eq]; rfl)

/-- The file is written elsewhere under the view as well. -/
theorem relocates_see {k k₁ : Kernel} (h : Relocates k v.ino iocb data k₁) :
    Relocates (v.see k) v.id iocb data (v.see k₁) := by
  refine ⟨?_, ?_, ?_, ?_⟩ <;> rw [inode_see]
  · exact h.numSlices
  · exact h.placed
  · exact v.seeRes_of (v.sbBread_see _ _) h.read
  · exact h.moves

theorem rewriteSmallFile_see : rewriteSmallFile (v.see k) v.id iocb data =
    v.run (rewriteSmallFile k v.ino iocb data) := by
  refine (rewriteSmallFile_exits _ _ _ _).2 ?_
  cases (rewriteSmallFile_exits k v.ino iocb data).1 rfl with
  | noSlices hn eq => exact .noSlices (by rwa [inode_see]) (by rw [eq]; rfl)
  | noPlace hn hb eq =>
      exact .noPlace (by rwa [inode_see]) (by rwa [inode_see]) (by rw [eq]; rfl)
  | unread hn hb hread eq =>
      exact .unread (by rwa [inode_see]) (by rwa [inode_see])
        (by rw [inode_see]; exact v.seeRes_of (v.sbBread_see _ _) hread) (by rw [eq]; rfl)
  | inPlace hn hb hread hsame eq =>
      refine .inPlace (by rwa [inode_see]) (by rwa [inode_see])
        (by rw [inode_see]; exact v.seeRes_of (v.sbBread_see _ _) hread) (by rwa [inode_see]) ?_
      rw [eq, inode_see, v.copyToSlices_see]
  | fromStart h hpos eq =>
      refine .fromStart (v.relocates_see _ _ h) (by rwa [inode_see]) ?_
      rw [eq, inode_see, setInode_see, v.writeSmallFileNew_see, v.finishRelocation_see]
  | noCopy h hpos hmalloc eq =>
      refine .noCopy (v.relocates_see _ _ h) (by rwa [inode_see])
        (by rw [inode_see, setInode_see]; exact v.seeRes_of (v.kmalloc_see _) hmalloc) ?_
      rw [eq, inode_see]
      rfl
  | fault h hpos hmalloc hcopy hlen eq =>
      refine .fault (v.relocates_see _ _ h) (by rwa [inode_see])
        (by rw [inode_see, setInode_see]; exact v.seeRes_of (v.kmalloc_see _) hmalloc)
        (v.seeRes_of (v.copyFromIter_see _ _ _) hcopy) hlen ?_
      rw [eq, inode_see]
      rfl
  | noBuffer h hpos hmalloc hcopy hlen hmalloc' eq =>
      refine .noBuffer (v.relocates_see _ _ h) (by rwa [inode_see])
        (by rw [inode_see, setInode_see]; exact v.seeRes_of (v.kmalloc_see _) hmalloc)
        (v.seeRes_of (v.copyFromIter_see _ _ _) hcopy) hlen
        (v.seeRes_of (v.kmalloc_see _) hmalloc') ?_
      rw [eq, inode_see]
      rfl
  | combined h hpos hmalloc hcopy hlen hmalloc' eq =>
      refine .combined (v.relocates_see _ _ h) (by rwa [inode_see])
        (by rw [inode_see, setInode_see]; exact v.seeRes_of (v.kmalloc_see _) hmalloc)
        (v.seeRes_of (v.copyFromIter_see _ _ _) hcopy) hlen
        (v.seeRes_of (v.kmalloc_see _) hmalloc') ?_
      rw [eq, inode_see, disk_see, v.writeSmallFileNew_see, v.finishRelocation_see]

theorem writeSmallFile_see : writeSmallFile (v.see k) v.id iocb data =
    v.run (writeSmallFile k v.ino iocb data) := by
  unfold writeSmallFile
  rw [inode_see]
  split
  · exact v.writeSmallFileNew_see _ _ _
  · exact v.rewriteSmallFile_see _ _ _

end Small

/-! ## Big files and dispatch -/

section Big

theorem getDataBlock_see (k : Kernel) (idx i : Nat) :
    getDataBlock (v.see k) idx i = v.seeRes (getDataBlock k idx i) := by
  unfold getDataBlock
  by_cases h : indexPtr (k.fs.disk idx) i = 0
  · simp only [disk_see, h, if_true, v.getFreeBlock_see]
    obtain ⟨b, k⟩ := k.getFreeBlock
    cases b <;> rfl
  · simp only [disk_see, h, if_false]
    rfl

theorem writeBigLoop_see (iSize idx : Nat) : ∀ (fuel : Nat) (k : Kernel) (pos : Nat)
    (data : List UInt8), writeBigLoop iSize idx fuel (v.see k) pos data =
      v.run (writeBigLoop iSize idx fuel k pos data) := by
  intro fuel
  induction fuel with
  | zero =>
      intro k pos data
      cases data <;> rfl
  | succ fuel ih =>
      intro k pos data
      cases data with
      | nil => rfl
      | cons x xs =>
          have hblocks := v.getDataBlock_see k idx (pos / 4096)
          refine (writeBigLoop_exits _ _ _ _ _ _ _).2 ?_
          cases (writeBigLoop_exits iSize idx fuel k pos x xs).1 rfl with
          | tooBig hpos eq => exact .tooBig hpos (by rw [eq]; rfl)
          | noBlock hpos hblock eq =>
              exact .noBlock hpos (v.seeRes_of hblocks hblock) (by rw [eq]; rfl)
          | unread hpos hblock hread eq =>
              exact .unread hpos (v.seeRes_of hblocks hblock)
                (v.seeRes_of (v.sbBread_see _ _) hread) (by rw [eq]; rfl)
          | fault hpos hblock hread hcopy hlen eq =>
              exact .fault hpos (v.seeRes_of hblocks hblock)
                (v.seeRes_of (v.sbBread_see _ _) hread)
                (by rw [disk_see, setBlock_see]; exact v.seeRes_of (v.copyFromIter_see _ _ _) hcopy)
                hlen (by rw [eq]; rfl)
          | copied hpos hblock hread hcopy hlen eq =>
              refine .copied hpos (v.seeRes_of hblocks hblock)
                (v.seeRes_of (v.sbBread_see _ _) hread)
                (by rw [disk_see, setBlock_see]; exact v.seeRes_of (v.copyFromIter_see _ _ _) hcopy)
                hlen ?_
              rw [eq, ← ih]
              rfl

variable (k : Kernel) (iocb : Kiocb) (data : List UInt8)

theorem ensureIndexBlock_see : ensureIndexBlock (v.see k) v.id =
    v.seeRes (ensureIndexBlock k v.ino) := by
  refine (ensureIndexBlock_exits _ _).2 ?_
  cases (ensureIndexBlock_exits k v.ino).1 rfl with
  | kept h0 eq => exact .kept (by rwa [inode_see]) (by rw [eq]; rfl)
  | noBlock h0 hget eq =>
      exact .noBlock (by rwa [inode_see]) (v.seeRes_of (v.getFreeBlock_see k) hget)
        (by rw [eq]; rfl)
  | new h0 hget eq =>
      refine .new (by rwa [inode_see]) (v.seeRes_of (v.getFreeBlock_see k) hget) ?_
      rw [eq]
      simp only [seeRes, inode_see, setInode_see]

theorem enoughBlocks_see (size : Nat) : enoughBlocks (v.see k) v.id size =
    enoughBlocks k v.ino size := by
  unfold enoughBlocks
  rw [inode_see]
  rfl

theorem writeBigFile_see : writeBigFile (v.see k) v.id iocb data =
    v.run (writeBigFile k v.ino iocb data) := by
  refine (writeBigFile_exits _ _ _ _).2 ?_
  cases (writeBigFile_exits k v.ino iocb data).1 rfl with
  | noIndex hindex eq =>
      exact .noIndex (v.seeRes_of (v.ensureIndexBlock_see _) hindex) (by rw [eq]; rfl)
  | noSpace hindex hspace eq =>
      exact .noSpace (v.seeRes_of (v.ensureIndexBlock_see _) hindex)
        (by rwa [inode_see, v.enoughBlocks_see]) (by rw [eq]; rfl)
  | unread hindex hspace hread eq =>
      exact .unread (v.seeRes_of (v.ensureIndexBlock_see _) hindex)
        (by rwa [inode_see, v.enoughBlocks_see])
        (by rw [inode_see]; exact v.seeRes_of (v.sbBread_see _ _) hread) (by rw [eq]; rfl)
  | stopped hindex hspace hread hloop eq =>
      exact .stopped (v.seeRes_of (v.ensureIndexBlock_see _) hindex)
        (by rwa [inode_see, v.enoughBlocks_see])
        (by rw [inode_see]; exact v.seeRes_of (v.sbBread_see _ _) hread)
        (by rw [inode_see, inode_see]; exact v.run_of (v.writeBigLoop_see _ _ _ _ _ _) hloop)
        (by rw [eq]; rfl)
  | failed hindex hspace hread hloop eq =>
      exact .failed (v.seeRes_of (v.ensureIndexBlock_see _) hindex)
        (by rwa [inode_see, v.enoughBlocks_see])
        (by rw [inode_see]; exact v.seeRes_of (v.sbBread_see _ _) hread)
        (by rw [inode_see, inode_see]; exact v.run_of (v.writeBigLoop_see _ _ _ _ _ _) hloop)
        (by rw [eq, inode_see]; rfl)
  | written hindex hspace hread hloop eq =>
      refine .written (v.seeRes_of (v.ensureIndexBlock_see _) hindex)
        (by rwa [inode_see, v.enoughBlocks_see])
        (by rw [inode_see]; exact v.seeRes_of (v.sbBread_see _ _) hread)
        (by rw [inode_see, inode_see]; exact v.run_of (v.writeBigLoop_see _ _ _ _ _ _) hloop) ?_
      simp only [eq, run, inode_see, now_see, setInode_see, brelse_see]

theorem finishConversion_see (old : Inode) (oldPos writePos count : Nat)
    (o : Outcome (Int × Kiocb)) : finishConversion old v.id oldPos writePos count iocb (v.run o) =
      v.run (finishConversion old v.ino oldPos writePos count iocb o) := by
  refine (finishConversion_exits _ _ _ _ _ _ _).2 ?_
  cases (finishConversion_exits old v.ino oldPos writePos count iocb o).1 rfl with
  | stopped hrun eq => exact .stopped (by rw [hrun]; rfl) (by rw [eq]; rfl)
  | restored hrun hret eq =>
      refine .restored (by rw [hrun]; rfl) hret ?_
      rw [eq, inode_see, setInode_see]
      rfl
  | stuck hrun hret hdel eq =>
      exact .stuck (by rw [hrun]; rfl) hret
        (by rw [inode_see]; exact v.run_of (v.deleteSlice_see _ _ _ _) hdel) (by rw [eq]; rfl)
  | converted hrun hret hdel eq =>
      exact .converted (by rw [hrun]; rfl) hret
        (by rw [inode_see]; exact v.run_of (v.deleteSlice_see _ _ _ _) hdel) (by rw [eq]; rfl)

theorem convertSmallToBig_see : convertSmallToBig (v.see k) v.id iocb data =
    v.run (convertSmallToBig k v.ino iocb data) := by
  refine (convertSmallToBig_exits _ _ _ _).2 ?_
  cases (convertSmallToBig_exits k v.ino iocb data).1 rfl with
  | unread hread eq =>
      exact .unread (by rw [inode_see]; exact v.seeRes_of (v.sbBread_see _ _) hread)
        (by rw [eq]; rfl)
  | noCopy hread hmalloc eq =>
      exact .noCopy (by rw [inode_see]; exact v.seeRes_of (v.sbBread_see _ _) hread)
        (v.seeRes_of (v.kmalloc_see _) hmalloc) (by rw [eq, inode_see]; rfl)
  | fault hread hmalloc hcopy hlen eq =>
      exact .fault (by rw [inode_see]; exact v.seeRes_of (v.sbBread_see _ _) hread)
        (v.seeRes_of (v.kmalloc_see _) hmalloc)
        (by rw [inode_see, brelse_see]; exact v.seeRes_of (v.copyFromIter_see _ _ _) hcopy) hlen
        (by rw [eq]; rfl)
  | noBuffer hread hmalloc hcopy hlen hmalloc' eq =>
      exact .noBuffer (by rw [inode_see]; exact v.seeRes_of (v.sbBread_see _ _) hread)
        (v.seeRes_of (v.kmalloc_see _) hmalloc)
        (by rw [inode_see, brelse_see]; exact v.seeRes_of (v.copyFromIter_see _ _ _) hcopy) hlen
        (v.seeRes_of (v.kmalloc_see _) hmalloc') (by rw [eq]; rfl)
  | combined hread hmalloc hcopy hlen hmalloc' eq =>
      refine .combined (by rw [inode_see]; exact v.seeRes_of (v.sbBread_see _ _) hread)
        (v.seeRes_of (v.kmalloc_see _) hmalloc)
        (by rw [inode_see, brelse_see]; exact v.seeRes_of (v.copyFromIter_see _ _ _) hcopy) hlen
        (v.seeRes_of (v.kmalloc_see _) hmalloc') ?_
      rw [eq, inode_see, setInode_see, disk_see, v.writeBigFile_see, v.finishConversion_see]

/-- **A write does not depend on the number of the inode.** -/
theorem customWriteIter_see : customWriteIter (v.see k) v.id iocb data =
    v.run (customWriteIter k v.ino iocb data) := by
  unfold customWriteIter
  simp only [inode_see]
  split
  · split
    · exact v.writeSmallFile_see _ _ _
    · exact v.writeBigFile_see _ _ _
  · split
    · exact v.writeBigFile_see _ _ _
    · split
      · exact v.writeSmallFile_see _ _ _
      · exact v.convertSmallToBig_see _ _ _

end Big

/-! ## Release -/

section Release

theorem releaseData_see (idx : Nat) : ∀ (n i : Nat) (k : Kernel),
    releaseData idx n i (v.see k) = v.run (releaseData idx n i k) := by
  intro n
  induction n with
  | zero => exact fun i k => rfl
  | succ n ih =>
      intro i k
      rw [releaseData, releaseData]
      split
      · rfl
      by_cases h : indexPtr (k.fs.disk idx) i = 0
      · simp only [disk_see, h, if_true, ih]
      simp only [disk_see, h, if_false, v.sbBread_see]
      obtain ⟨ok, k⟩ := k.sbBread (indexPtr (k.fs.disk idx) i)
      cases ok with
      | false => simp only [seeRes, disk_see, v.putBlock_see, ih]
      | true => simp only [seeRes, setBlock_see, brelse_see, disk_see, v.putBlock_see, ih]

theorem releaseStorage_see (k : Kernel) : releaseStorage (v.see k) v.id =
    v.run (releaseStorage k v.ino) := by
  unfold releaseStorage
  simp only [inode_see]
  generalize k.inode v.ino = ci
  split
  · rw [v.deleteSliceAndClearInode_see]
    cases deleteSliceAndClearInode k v.ino <;> rfl
  split
  · rfl
  rw [v.sbBread_see]
  obtain ⟨ok, k⟩ := k.sbBread ci.indexBlock
  cases ok with
  | false => rfl
  | true =>
      simp only [seeRes]
      split
      · rfl
      rw [v.releaseData_see]
      cases releaseData ci.indexBlock (pred64 ci.iBlocks) 0 k <;> rfl

/-- The view in which the inode is free. -/
def freed : View := { v with ifree := Function.update v.ifree v.id true }

/-- The inode is taken again at once. -/
theorem freed_birth {fs : Fs} (hid : v.ifree v.id = false) (hc : (fs.icache v.ino).isSome) :
    (v.freed.fs fs).birth v.id (fs.inode v.ino) = v.fs fs := by
  obtain ⟨ci, hci⟩ := Option.isSome_iff_exists.1 hc
  have hino : fs.inode v.ino = ci := by
    unfold Fs.inode
    rw [hci]
    rfl
  unfold Fs.birth freed View.fs View.sbi Fs.setInode Fs.setSbi
  simp only [Function.update_idem, hino, hci]
  rw [show Function.update v.ifree v.id false = v.ifree by rw [← hid, Function.update_eq_self]]

/-- The number that is given back is the one the view shows. -/
theorem cleanInode_see (k : Kernel) (bno : Nat) (small : Bool) (hid : v.id ≤ v.nrInodes)
    (hino : v.ino ≤ k.fs.sbi.nrInodes) :
    cleanInode (v.see k) v.id bno small = v.freed.see (cleanInode k v.ino bno small) := by
  have hput : ∀ k' : Kernel, k'.fs.sbi.nrInodes = k.fs.sbi.nrInodes →
      (v.see k').putInode v.id = v.freed.see (k'.putInode v.ino) := by
    intro k' hn
    rw [Kernel.putInode_eq (show v.id ≤ (v.see k').fs.sbi.nrInodes from hid),
      Kernel.putInode_eq (by omega)]
    rfl
  unfold cleanInode
  simp only [inode_see, setInode_see]
  split
  · rw [v.putBlock_see]
    refine hput _ ?_
    unfold Kernel.putBlock SbInfo.putBlock
    split <;> rfl
  · exact hput _ rfl

end Release

end View

/-! ## The invariant under other numbers -/

/-- Inode `i` of `fs'` is inode `φ i` of `fs`, which may have more inodes; the blocks are the
same. -/
structure Renumbered (φ : Nat → Nat) (fs fs' : Fs) : Prop where
  disk : fs'.disk = fs.disk
  sbi : ∃ ifree n, fs'.sbi = { fs.sbi with ifreeBitmap := ifree, nrInodes := n }
  bit0 : fs'.sbi.ifreeBitmap 0 = false
  live : ∀ i, fs'.Live i → fs.Live (φ i) ∧ fs'.icache i = fs.icache (φ i)
  inj : ∀ i j, fs'.Live i → fs'.Live j → φ i = φ j → i = j

/-- A reference under another number. -/
def Ref.map (φ : Nat → Nat) : Ref → Ref
  | .header b => .header b
  | .index i => .index (φ i)
  | .data i j => .data (φ i) j
  | .sliced b => .sliced b

namespace Renumbered

variable {φ : Nat → Nat} {fs fs' : Fs} {chain : List Nat} {Z : Prop} (h : Renumbered φ fs fs')
include h

theorem inode {i : Nat} (hl : fs'.Live i) : fs'.inode i = fs.inode (φ i) := by
  unfold Fs.inode
  rw [(h.live i hl).2]

theorem is {i : Nat} {κ : Kind} (hi : fs'.Is i κ) : fs.Is (φ i) κ :=
  ⟨(h.live i hi.1).1, h.inode hi.1 ▸ hi.2⟩

theorem refers {r : Ref} {a : Nat} (hr : Refers fs' chain r a) : Refers fs chain (r.map φ) a := by
  obtain ⟨ifree, n, hsbi⟩ := h.sbi
  cases r with
  | header b =>
      refine ⟨hr.1, ?_⟩
      have hb := hr.2
      rw [hsbi] at hb
      exact hb
  | index i =>
      obtain ⟨hk, rfl⟩ := hr
      refine ⟨hk.imp h.is h.is, ?_⟩
      rw [h.inode (hk.elim And.left And.left)]
  | data i j =>
      obtain ⟨hk, hj, rfl, h0⟩ := hr
      have hidx : fs'.indexOf i = fs.indexOf (φ i) := by
        unfold Fs.indexOf
        rw [h.disk, h.inode hk.1]
      rw [hidx] at h0 ⊢
      exact ⟨h.is hk, hj, rfl, h0⟩
  | sliced b => exact hr

/-- Two references in use that become the same are the same. -/
theorem map_inj {r r' : Ref} {a a' : Nat} (hr : Refers fs' chain r a)
    (hr' : Refers fs' chain r' a') (he : r.map φ = r'.map φ) : r = r' := by
  have hinj : ∀ i j, fs'.Live i → fs'.Live j → φ i = φ j → i = j := h.inj
  cases r with
  | header b =>
      cases r' with
      | header b' => exact he
      | index | data | sliced => cases he
  | sliced b =>
      cases r' with
      | sliced b' => exact he
      | index | data | header => cases he
  | index i =>
      cases r' with
      | index i' =>
          rw [hinj i i' (hr.1.elim And.left And.left) (hr'.1.elim And.left And.left)
            (Ref.index.inj he)]
      | header | data | sliced => cases he
  | data i j =>
      cases r' with
      | data i' j' =>
          obtain ⟨hi, rfl⟩ := Ref.data.inj he
          rw [hinj i i' hr.1.1 hr'.1.1 hi]
      | header | index | sliced => cases he

theorem owns {i b j : Nat} (ho : fs'.OwnsSlice i b j) : fs.OwnsSlice (φ i) b j := by
  unfold Fs.OwnsSlice at ho ⊢
  rw [h.inode ho.1.1] at ho
  exact ⟨h.is ho.1, ho.2⟩

/-- **The storage invariant does not depend on the numbers of the inodes.** -/
theorem core (hc : Core fs chain Z) : Core fs' chain Z := by
  obtain ⟨ifree, n, hsbi⟩ := h.sbi
  have hused : fs'.Used = fs.Used := by
    unfold Fs.Used
    rw [hsbi]
  refine ⟨?_, ?_, hc.nodup, ?_, ⟨fun hr => ?_, fun hr hr' => ?_⟩, ?_, ⟨?_, ?_, fun i hi => ?_, ?_⟩,
    ⟨h.bit0, fun i hl => ?_, fun i hi => ?_⟩⟩
  · exact ⟨by rw [hsbi]; exact hc.sb.meta_lt, by rw [hsbi]; exact hc.sb.blocks_lt,
      by rw [hsbi]; exact hc.sb.blocks_le, by rw [hsbi]; exact hc.sb.count⟩
  · rw [hsbi]
    exact hc.isChain.congr fun b _ => by unfold Fs.next; rw [h.disk]
  · rw [hsbi]
    exact hc.sliced
  · rw [hused]
    exact hc.owned.used (h.refers hr)
  · exact h.map_inj hr hr' (hc.owned.inj (h.refers hr) (h.refers hr'))
  · rw [h.disk, hsbi]
    exact hc.zero
  · rw [h.disk]
    exact hc.slices.header
  · rw [h.disk]
    exact hc.slices.freeZero
  · have hok := hc.slices.file (φ i) (h.is hi)
    have hin := h.inode hi.1
    exact ⟨hin ▸ hok.mem, hin ▸ hok.slice_pos, hin ▸ hok.fits, hin ▸ hok.slices,
      by rw [hin, h.disk]; exact hok.taken, by rw [hin, h.disk]; exact hok.tail⟩
  · intro i i' b j ho ho'
    exact h.inj i i' ho.1.1 ho'.1.1 (hc.slices.disjoint (h.owns ho) (h.owns ho'))
  · rw [(h.live i hl).2]
    exact hc.inodes.cached _ (h.live i hl).1
  · rw [h.inode hi.1]
    exact hc.inodes.big _ (h.is hi)

end Renumbered

end Ouichefs
