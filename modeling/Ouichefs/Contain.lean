import Ouichefs.Fence
import Ouichefs.WriteLaws

/-!
# Faults stay where they happen

A call that fails, or crashes, on the way can leave its own file and its own directory in any
state.  The rest of the tree is out of its reach: whatever `sb_bread`, `kmalloc` and the copies
answer, the other files can be read and have their content, and names are found in the other
directories as before.

* `Core.shelter`: the storage of all inodes but some.
* `Op.InTree.contained`: one call, from any well-formed state.
* `faults_contained`: a call after any run.
-/

set_option autoImplicit false

namespace Ouichefs

/-! ## The shelter of the other inodes -/

section Shelter

variable {fs : Fs} {chain : List Nat} {i b : Nat}

/-- The storage of the inodes that are not in `T`. -/
def Core.shelter (h : Core fs chain) (T : List Nat) : Shelter where
  base := fs
  block b := ∃ i r, i ∉ T ∧ r.By i ∧ Refers fs chain r b
  slice b j := ∃ i, i ∉ T ∧ fs.OwnsSlice i b j
  block_zero := by
    rintro ⟨i, r, -, hby, hr⟩
    obtain rfl := h.owned.inj hr (fs.refers_zero chain)
    exact hby
  slice_zero := by
    rintro j ⟨i, -, hs⟩
    have hm := (h.slices.file i hs.1).mem
    rw [hs.2.1] at hm
    exact h.zero_notin hm

variable (T : List Nat)

theorem Core.guard (h : Core fs chain) : Guard (h.shelter T) (· ∈ chain) fs where
  block _ _ := rfl
  slice _ _ _ _ _ := rfl
  used b hb := by
    obtain ⟨i, r, -, -, hr⟩ := hb
    exact (h.owned.used hr).2
  taken b j hb := by
    obtain ⟨i, -, hs, rfl, h1, h2⟩ := hb
    have hok := h.slices.file i hs
    have hpos := hok.slice_pos
    have hfits := hok.fits
    exact ⟨(h.chain_used hok.mem).2, by omega, by omega, hok.taken j h1 h2⟩
  apart b hb := by
    rintro ⟨i, r, -, hby, hr⟩
    exact h.by_notin_chain hby hr hb
  head := h.isChain.head_mem
  next := h.isChain.next_mem

theorem Core.fertile (h : Core fs chain) : Fertile (· ∈ chain) fs :=
  ⟨h.sb.blocks_lt, h.bit0, h.zero trivial, fun _ hb => (h.chain_used hb).2⟩

variable {T}

/-- What an inode of `T` refers to may be written. -/
theorem Core.clear (h : Core fs chain) {r : Ref} (hi : i ∈ T) (hby : r.By i)
    (hr : Refers fs chain r b) : (h.shelter T).Clear (· ∈ chain) b where
  block := by
    rintro ⟨j, r', hj, hby', hr'⟩
    obtain rfl := h.owned.inj hr hr'
    exact hj (hby.unique hby' ▸ hi)
  slice j := by
    rintro ⟨f, -, hs⟩
    have hm := (h.slices.file f hs.1).mem
    rw [hs.2.1] at hm
    exact h.by_notin_chain hby hr hm
  chain := h.by_notin_chain hby hr

theorem Core.clear_dir (h : Core fs chain) (hi : i ∈ T) (hd : fs.Is i .dir) :
    (h.shelter T).Clear (· ∈ chain) (fs.inode i).indexBlock :=
  h.clear hi (r := .index i) rfl ⟨Or.inl hd, rfl⟩

theorem Core.clear_slices (h : Core fs chain) (hi : i ∈ T) (hs : fs.Is i .small) :
    (h.shelter T).Slices (· ∈ chain) (fs.inode i).getBno (fs.inode i).getSlice
      (fs.inode i).numSlices where
  chain := (h.slices.file i hs).mem
  pos := (h.slices.file i hs).slice_pos
  fits := (h.slices.file i hs).fits
  free j h1 h2 := by
    rintro ⟨f, hf, ho⟩
    exact hf (h.slices.disjoint ho ⟨hs, rfl, h1, h2⟩ ▸ hi)

theorem Core.owns (h : Core fs chain) (hi : i ∈ T) (hb : fs.Is i .big) :
    OwnsUsed (h.shelter T) (· ∈ chain) fs (fs.inode i).indexBlock := by
  have hidx : Refers fs chain (.index i) (fs.inode i).indexBlock := ⟨Or.inr hb, rfl⟩
  have hdata : ∀ j < 1024, indexPtr (fs.disk (fs.inode i).indexBlock) j ≠ 0 →
      Refers fs chain (.data i j) (indexPtr (fs.disk (fs.inode i).indexBlock) j) :=
    fun j hj hp => ⟨hb, hj, rfl, hp⟩
  exact ⟨⟨h.clear hi (r := .index i) rfl hidx, fun j hj hp => ⟨h.clear hi (r := .data i j) rfl
    (hdata j hj hp), h.ne_of_refs (hdata j hj hp) hidx (by simp)⟩⟩, (h.owned.used hidx).2,
    fun j hj hp => (h.owned.used (hdata j hj hp)).2⟩

/-- The storage of an inode that is to be removed. -/
theorem Core.releasable (h : Core fs chain) (hstray : ¬fs.Is i .stray) (hi : i ∈ T)
    (hl : fs.Live i) : Releasable (h.shelter T) (· ∈ chain) fs i where
  small hb hd := by
    by_cases h0 : (fs.inode i).getBno = 0
    · exact Or.inl h0
    · refine Or.inr (h.clear_slices hi ⟨hl, Inode.kind_small.2 ⟨hd, hb, ?_, ?_⟩⟩)
      · rintro hc
        exact h0 (by unfold Inode.getBno; rw [hc])
      · intro hn
        refine hstray ⟨hl, Inode.kind_stray.2 ⟨hd, hb, ?_, hn⟩⟩
        rintro hc
        exact h0 (by unfold Inode.getBno; rw [hc])
  block _ hk := by
    refine h.clear hi (r := .index i) rfl ⟨?_, rfl⟩
    by_cases hd : sIsDir (fs.inode i).iMode = true
    · exact Or.inl ⟨hl, Inode.kind_dir.2 hd⟩
    · exact Or.inr ⟨hl, Inode.kind_big.2 ⟨by simpa using hd, hk.resolve_right hd⟩⟩
  data hb hd := (h.owns hi ⟨hl, Inode.kind_big.2 ⟨hd, hb⟩⟩).toOwns

end Shelter

/-! ## One call -/

section Call

variable {k : Kernel} {chain : List Nat} {ino : Nat} {iocb : Kiocb} {data : List UInt8}

/-- The inodes an operation is about. -/
def Op.targets : Op → List Nat
  | .create dir .. => [dir]
  | .mkdir dir .. => [dir]
  | .unlink dir _ ino => [dir, ino]
  | .rmdir dir _ ino => [dir, ino]
  | .rename oldDir _ _ newDir .. => [oldDir, newDir]
  | .write ino .. => [ino]
  | .append ino .. => [ino]

/-- A write, with any answers. -/
theorem customWriteIter_unharmed {T : List Nat} (h : WF k.fs chain) (hi : ino ∈ T)
    (hok : k.fs.WriteOk ino iocb data) :
    Unharmed (h.toCore.shelter T) (customWriteIter k ino iocb data).kernel.fs := by
  have hg := h.toCore.guard T
  have hf := h.toCore.fertile
  obtain ⟨-, ⟨hk, hend⟩ | ⟨hk, ⟨hsize, hend⟩ | ⟨hlong, hidx⟩⟩ | ⟨hk, hend⟩⟩ := hok
  · have h0 : (k.inode ino).indexBlock = 0 := (Inode.kind_fresh.1 hk.2).2.2
    have hs : (k.inode ino).iSize = 0 := (h.fresh ino hk).1
    have hle : iocb.startPos (k.inode ino) ≤ iocb.kiPos := by
      unfold Kiocb.startPos
      split <;> omega
    by_cases hshort : iocb.kiPos + data.length ≤ 3968
    · rw [customWriteIter_small (Or.inl hk) (by omega)]
      exact (writeSmallFile_guard hg hf (Or.inl h0) (by omega)).unharmed
        fun _ _ h' => h'.unharmed
    · rw [customWriteIter_firstBig hk (by omega)]
      exact (writeBigFile_guard hg hf (Or.inl h0)).unharmed fun _ _ h' => h'.toUnharmed
  · have hsize' : max (iocb.kiPos + data.length) (k.inode ino).iSize ≤ 3968 := hsize
    have hend' : iocb.startPos (k.inode ino) + data.length ≤ 3968 := hend
    rw [customWriteIter_small (Or.inr hk) hsize]
    exact (writeSmallFile_guard hg hf (Or.inr (h.toCore.clear_slices hi hk)) (by omega)).unharmed
      fun _ _ h' => h'.unharmed
  · rw [customWriteIter_convert hk hlong]
    exact (convertSmallToBig_guard hg (Inode.kind_small.1 hk.2).2.2.1 hidx).unharmed
      fun _ _ h' => h'.toUnharmed
  · rw [customWriteIter_big h.toCore hk]
    exact (writeBigFile_guard hg hf (Or.inr (h.toCore.owns hi hk))).unharmed
      fun _ _ h' => h'.toUnharmed

theorem Contained.mono {α : Type} {p : Shelter} {L L' : Nat → Prop} {run : Outcome α}
    (h : Contained p L run) (hs : ∀ i, L' i → L i) : Contained p L' run :=
  ⟨h.1, h.2.mono hs⟩

theorem WF.fenced (h : WF k.fs chain) (T : List Nat) :
    Fenced (h.toCore.shelter T) (· ∈ chain) k.fs.Live k.fs :=
  ⟨h.toCore.guard T, rfl, rfl, fun _ => id, fun _ => id, fun _ _ => rfl⟩

theorem WF.write_contained (h : WF k.fs chain) (hok : k.fs.WriteOk ino iocb data) :
    Contained (h.toCore.shelter [ino]) (fun i => k.fs.Live i ∧ i ∉ [ino])
      (writeResult (customWriteIter k ino iocb data)) := by
  unfold Contained
  rw [writeResult_kernel]
  refine ⟨customWriteIter_unharmed h (by simp) hok, Held.touch (k := k) ?_
    (customWriteIter_touch ino k iocb data) (by simp)⟩
  exact (h.fenced []).toHeld.mono fun _ hi => hi.1

theorem WF.create_contained (h : WF k.fs chain) {dir : Nat} (hd : k.fs.Is dir .dir)
    (name : List UInt8) (mode : Nat) :
    Contained (h.toCore.shelter [dir]) (fun i => k.fs.Live i ∧ i ∉ [dir])
      (ouichefsCreate k dir name mode) :=
  (ouichefsCreate_contained (h.fenced [dir]) h.toCore.fertile h.inodes.bit0 hd.1
    (h.toCore.clear_dir (by simp) hd)).mono fun _ hi => ⟨hi.1, by simpa using hi.2⟩

/-- A directory that is not empty is not removed. -/
theorem ouichefsRmdir_nonempty {dir : Nat} (h0 : slotInode (k.fs.indexOf ino) 0 ≠ 0) :
    (ouichefsRmdir k dir ino).kernel.fs = k.fs := by
  unfold ouichefsRmdir
  simp only
  split
  · rfl
  generalize hread : k.sbBread (k.inode ino).indexBlock = a
  obtain ⟨ok, k₁⟩ := a
  have hfs := Kernel.sbBread_same hread
  cases ok with
  | false => exact hfs
  | true =>
      have hslot : slotInode (k₁.fs.disk (k.inode ino).indexBlock) 0 ≠ 0 := by
        rw [hfs]
        exact h0
      simp only [hslot, ne_eq, not_false_iff, if_true]
      exact hfs

section Remove

variable {dir : Nat} {name : List UInt8}

/-- What a directory names has storage of its own. -/
theorem WF.named_apart (h : WF k.fs chain) (hn : NameInv k.fs) (hd : k.fs.Is dir .dir)
    (hname : blockMap (k.fs.indexOf dir) name = some ino) (hne : dir ≠ ino) :
    k.fs.Live ino ∧ ((k.fs.inode ino).iBlocks ≠ 0 →
      (k.fs.inode dir).indexBlock ≠ (k.fs.inode ino).indexBlock) := by
  obtain ⟨i, hi, h0, -⟩ := (blockMap_some h hn hd).1 hname
  have hl := (Fs.Entry.live h ⟨hd, h0, i, hi⟩).1
  refine ⟨hl, fun hb => h.toCore.ne_of_refs (r := .index dir) (s := .index ino)
    ⟨Or.inl hd, rfl⟩ ⟨?_, rfl⟩ fun hc => hne (by cases hc; rfl)⟩
  by_cases hm : sIsDir (k.fs.inode ino).iMode = true
  · exact Or.inl ⟨hl, Inode.kind_dir.2 hm⟩
  · exact Or.inr ⟨hl, Inode.kind_big.2 ⟨by simpa using hm, hb⟩⟩

theorem WF.unlink_contained (h : WF k.fs chain) (ht : Tight k.fs chain) (hn : NameInv k.fs)
    (hd : k.fs.Is dir .dir) (hname : blockMap (k.fs.indexOf dir) name = some ino)
    (hne : dir ≠ ino) :
    Contained (h.toCore.shelter [dir, ino]) (fun i => k.fs.Live i ∧ i ∉ [dir, ino])
      (ouichefsUnlink k dir ino) := by
  obtain ⟨hl, hsep⟩ := h.named_apart hn hd hname hne
  exact (ouichefsUnlink_contained (h.fenced [dir, ino]) hd.1 hne
    (h.toCore.clear_dir (by simp) hd) (h.toCore.releasable (ht.noStray ino) (by simp) hl)
    hsep).mono fun _ hi => ⟨hi.1, by simpa using hi.2⟩

theorem WF.rmdir_contained (h : WF k.fs chain) (ht : Tight k.fs chain) (hn : NameInv k.fs)
    (hd : k.fs.Is dir .dir) (hname : blockMap (k.fs.indexOf dir) name = some ino) :
    Contained (h.toCore.shelter [dir, ino]) (fun i => k.fs.Live i ∧ i ∉ [dir, ino])
      (ouichefsRmdir k dir ino) := by
  by_cases hne : dir = ino
  · -- a directory that names itself is not empty
    subst hne
    obtain ⟨i, hi, h0, -⟩ := (blockMap_some h hn hd).1 hname
    obtain ⟨n, -, hcomp⟩ := h.dirs.tree.compact dir hd
    have hin : slotInode (k.fs.indexOf dir) i ≠ 0 := by
      rw [hi]
      exact h0
    have hlt := hcomp.lt_iff.2 hin
    unfold Contained
    rw [ouichefsRmdir_nonempty (hcomp.used 0 (by omega))]
    exact ⟨(h.fenced _).toUnharmed, (h.fenced []).toHeld.mono fun _ hi => hi.1⟩
  · obtain ⟨hl, hsep⟩ := h.named_apart hn hd hname hne
    exact (ouichefsRmdir_contained (h.fenced [dir, ino]) hd.1 hne
      (h.toCore.clear_dir (by simp) hd) (h.toCore.releasable (ht.noStray ino) (by simp) hl)
      hsep).mono fun _ hi => ⟨hi.1, by simpa using hi.2⟩

end Remove

theorem WF.rename_contained (h : WF k.fs chain) {oldDir newDir : Nat} (ho : k.fs.Is oldDir .dir)
    (hw : k.fs.Is newDir .dir) (oldName newName : List UInt8) (src flags : Nat) :
    Contained (h.toCore.shelter [oldDir, newDir]) (fun i => k.fs.Live i ∧ i ∉ [oldDir, newDir])
      (ouichefsRename k oldDir oldName src newDir newName flags) :=
  (ouichefsRename_contained (h.fenced [oldDir, newDir]) ho.1 hw.1
    (h.toCore.clear_dir (by simp) ho) (h.toCore.clear_dir (by simp) hw)).mono
      fun _ hi => ⟨hi.1, by simpa using hi.2⟩

/-- **What one call leaves** of the other inodes and their storage. -/
theorem Op.InTree.contained {op : Op} (hop : op.InTree k.fs) (h : WF k.fs chain)
    (ht : Tight k.fs chain) (hn : NameInv k.fs) :
    Contained (h.toCore.shelter op.targets) (fun i => k.fs.Live i ∧ i ∉ op.targets)
      (op.exec k) := by
  cases op with
  | create dir name mode => exact h.create_contained hop.2.1 name mode
  | mkdir dir name mode => exact h.create_contained hop.1 name _
  | unlink dir name ino =>
      obtain ⟨hd, hname, hnd⟩ := hop
      refine h.unlink_contained ht hn hd hname ?_
      rintro rfl
      exact hnd hd
  | rmdir dir name ino =>
      obtain ⟨hd, hname, -⟩ := hop
      exact h.rmdir_contained ht hn hd hname
  | rename oldDir oldName src newDir newName flags =>
      obtain ⟨ho, hw, -⟩ := hop
      exact h.rename_contained ho hw oldName newName src flags
  | write ino pos data => exact h.write_contained hop
  | append ino pos data => exact h.write_contained hop

end Call

/-! ## What is left of the tree -/

section Rest

variable {fs fs' : Fs} {chain : List Nat} {T : List Nat} {i : Nat}

/-- The file keeps its storage. -/
theorem Unharmed.keepsFile {hc : Core fs chain} (hu : Unharmed (hc.shelter T) fs')
    (hi : fs'.inode i = fs.inode i) (hT : i ∉ T) : KeepsFile fs fs' chain i := by
  refine ⟨.of_eq hi, fun hs => ?_, fun _ r c hr hby => hu.block c ⟨i, r, hT, hby, hr⟩⟩
  have hle := le_divRoundUp (fs.inode i).iSize
  have hnum := (hc.slices.file i hs).slices
  unfold Fs.smallBytes
  rw [hi]
  refine Page.bytes_congr fun o ho => ?_
  have hsl := hu.slice (fs.inode i).getBno ((fs.inode i).getSlice + o / 128)
    ⟨i, hT, hs, rfl, by omega, by omega⟩ (o % 128) (by omega)
  have hpos : 128 * ((fs.inode i).getSlice + o / 128) + o % 128 =
      (fs.inode i).getSlice * 128 + o := by
    omega
  rwa [hpos] at hsl

/-- The directory keeps its block. -/
theorem Unharmed.keepsDir {hc : Core fs chain} (hu : Unharmed (hc.shelter T) fs')
    (hh : Held (fun i => fs.Live i ∧ i ∉ T) fs fs') (hT : i ∉ T) (hd : fs.Is i .dir) :
    fs'.Is i .dir ∧ fs'.inode i = fs.inode i ∧ fs'.indexOf i = fs.indexOf i := by
  have hi := hh.inode i ⟨hd.1, hT⟩
  refine ⟨⟨hh.live i ⟨hd.1, hT⟩, by rw [hi]; exact hd.2⟩, hi, ?_⟩
  unfold Fs.indexOf
  rw [hi]
  exact hu.block _ ⟨i, .index i, hT, rfl, Or.inl hd, rfl⟩

theorem Fs.Readable.congr (h : fs.Readable i) (hl : fs'.Live i) (hi : fs'.inode i = fs.inode i)
    (hn : fs'.sbi.nrBlocks = fs.sbi.nrBlocks)
    (hx : fs.Is i .big → fs'.indexOf i = fs.indexOf i) : fs'.Readable i := by
  have hlive : fs.Live i := h.kind.elim And.left fun hk => hk.elim And.left And.left
  have his : ∀ κ, fs'.Is i κ ↔ fs.Is i κ := by
    intro κ
    unfold Fs.Is
    rw [hi]
    exact and_congr_left fun _ => ⟨fun _ => hlive, fun _ => hl⟩
  refine ⟨?_, ?_, ?_, ?_, ?_⟩
  · rw [his, his, his]
    exact h.kind
  · rw [his, hi]
    exact h.fresh
  · rw [his, hi, hn]
    exact h.small
  · rw [his, hi, hn]
    exact h.index
  · rw [his, hi, hn]
    intro hb
    rw [hx hb]
    exact h.data hb

theorem Fs.Searchable.congr (h : fs.Searchable i) (hi : fs'.inode i = fs.inode i)
    (hx : fs'.indexOf i = fs.indexOf i) (hn : fs'.sbi.nrBlocks = fs.sbi.nrBlocks)
    (hni : fs'.sbi.nrInodes = fs.sbi.nrInodes)
    (hc : ∀ j, (fs.icache j).isSome → (fs'.icache j).isSome) : fs'.Searchable i := by
  refine ⟨?_, ?_, ?_⟩
  · rw [hi, hn]
    exact h.index
  · rw [hx]
    exact h.compact
  · rw [hx, hni]
    exact fun j hj => ⟨(h.cached j hj).1, hc _ (h.cached j hj).2⟩

end Rest

/-- The inodes that are not in `T` look the same: files have their content, directories their
names. -/
structure RestShown (k k' : Kernel) (T : List Nat) : Prop where
  file : ∀ i l, i ∉ T → k.fs.tree.files i = some l → k'.fs.File i ∧ ShowsFile k' i l
  dir : ∀ d m, d ∉ T → k.fs.tree.dirs d = some m → k'.fs.tree.dirs d = some m
  lookup : ∀ d m name, d ∉ T → k.fs.tree.dirs d = some m → ValidName name → ∃ k₁,
    ouichefsLookup k' d name = .ok (.ok (m name), k₁) ∧ k₁.fs = k'.fs

section Runs

variable {k : Kernel} {chain : List Nat} {qs : List Request}

/-- **One call with any answers**; afterwards the calls it makes succeed again. -/
theorem FsInv.restShown (h : FsInv k chain) {c : Call} (hc : c.op.InTree k.fs)
    (answers : List Answer) :
    RestShown k ((c.exec (k.answered answers)).kernel.answered []) c.op.targets := by
  obtain ⟨hu, hh⟩ := Op.InTree.contained
    (k := (k.answered answers).setCaller c.now c.fsuid c.fsgid) hc h.wf h.tight h.names
  change Unharmed (h.wf.toCore.shelter c.op.targets)
    (c.exec (k.answered answers)).kernel.fs at hu
  change Held (fun i => k.fs.Live i ∧ i ∉ c.op.targets) k.fs
    (c.exec (k.answered answers)).kernel.fs at hh
  generalize (c.exec (k.answered answers)).kernel = k' at hu hh
  have hkeep : ∀ i, k.fs.Live i → i ∉ c.op.targets → KeepsFile k.fs k'.fs chain i :=
    fun i hl hi => hu.keepsFile (hh.inode i ⟨hl, hi⟩) hi
  have hdirs : ∀ d m, k.fs.tree.dirs d = some m →
      k.fs.Is d .dir ∧ m = blockMap (k.fs.indexOf d) := by
    intro d m hm
    by_cases hdir : k.fs.Is d .dir
    · have hm' : some (blockMap (k.fs.indexOf d)) = some m := (Fs.names_dir hdir).symm.trans hm
      exact ⟨hdir, (Option.some.inj hm').symm⟩
    · have hm' : none = some m := (Fs.names_notDir hdir).symm.trans hm
      cases hm'
  refine ⟨fun i l hi hl => ?_, fun d m hd hm => ?_, fun d m name hd hm hv => ?_⟩
  · have hl' : k.fs.contents i = some l := hl
    unfold Fs.contents at hl'
    split at hl'
    · rename_i hf
      cases hl'
      have hino := hh.inode i ⟨hf.1, hi⟩
      have hlive := hh.live i ⟨hf.1, hi⟩
      have hr : (k'.answered []).fs.Readable i := (h.readable hf).congr hlive hino hh.nrBlocks
        fun hb => (hkeep i hf.1 hi).indexOf hb
      refine ⟨⟨hlive, ?_⟩, ?_⟩
      · show sIsDir (k'.fs.inode i).iMode = false
        rw [hino]
        exact hf.2
      · rw [← (hkeep i hf.1 hi).content h.wf.toCore hf.1]
        exact hr.showsFile rfl
    · cases hl'
  · obtain ⟨hdir, rfl⟩ := hdirs d m hm
    obtain ⟨hdir', -, hblock⟩ := hu.keepsDir hh hd hdir
    show k'.fs.names d = _
    rw [Fs.names_dir hdir', hblock]
  · obtain ⟨hdir, rfl⟩ := hdirs d m hm
    obtain ⟨-, hino, hblock⟩ := hu.keepsDir hh hd hdir
    have hs : (k'.answered []).fs.Searchable d :=
      (h.wf.searchable hdir).congr hino hblock hh.nrBlocks hh.nrInodes hh.cached
    obtain ⟨k₁, hfs, hrun⟩ := ouichefsLookup_searchable rfl hs hv.accepted
    refine ⟨k₁, ?_, hfs⟩
    rw [hrun]
    show Except.ok (Except.ok (blockMap (k'.fs.indexOf d) name), k₁) = _
    rw [hblock]

/-- **Faults stay where they happen.**  After every run, unmounts included, one more call may get
any answers from the buffer cache, the allocator of memory and the user's buffer.  Whether it
returns or not, every inode that it is not about looks the same. -/
theorem faults_contained (hf : k.faults = []) (h : Formatted k.fs) (hz : k.fs.Blank) (hd : Durable k.fs)
    (ha : Admissible Request.exec Request.Ok k qs) :
    ∃ k', runAll Request.exec k qs = .ok k' ∧
      ∀ (c : Call) (answers : List Answer), c.op.InTree k'.fs →
        RestShown k' ((c.exec (k'.answered answers)).kernel.answered []) c.op.targets := by
  obtain ⟨k', chain, hrun, hinv, -, -⟩ := (h.fsInv hf hz).requests hd ha
  exact ⟨k', hrun, fun c answers hc => hinv.restShown hc answers⟩

/-- Two small files that share a block. -/
def faultRun : List Request :=
  [.call (Op.create 1 [97] 0o100644).call, .call (Op.create 1 [98] 0o100644).call,
    .call (Op.write 2 0 [7, 8]).call, .call (Op.write 3 0 [9]).call]

theorem faultRun_admissible :
    Admissible Request.exec Request.Ok (magicImage 12 8) faultRun := by
  decide +kernel

theorem faultRun_after {k' : Kernel}
    (h : runAll Request.exec (magicImage 12 8) faultRun = .ok k') :
    (Op.unlink 1 [98] 3).InTree k'.fs ∧ k'.fs.contents 2 = some [7, 8] := by
  have hrun : (runAll Request.exec (magicImage 12 8) faultRun).toOption.map (fun k₁ : Kernel =>
      decide ((Op.unlink 1 [98] 3).InTree k₁.fs) && decide (k₁.fs.contents 2 = some [7, 8])) =
        some true := by
    decide +kernel
  rw [h] at hrun
  simpa [Except.toOption] using hrun

/-- The second file is unlinked, and its block cannot be read: the first file is still there. -/
theorem faults_contained_faultRun :
    ∃ k', runAll Request.exec (magicImage 12 8) faultRun = .ok k' ∧
      ShowsFile (((Op.unlink 1 [98] 3).call.exec
        (k'.answered [.success, .failure 0])).kernel.answered []) 2 [7, 8] := by
  obtain ⟨k', hrun, hrest⟩ := faults_contained (k := magicImage 12 8) rfl
    (magicImage_formatted (by decide) (by decide) (by decide) (by decide))
    (magicImage_blank (by decide))
    (magicImage_durable (by decide) (by decide) (by decide) (by decide)) faultRun_admissible
  obtain ⟨hop, hfile⟩ := faultRun_after hrun
  exact ⟨k', hrun, ((hrest _ [.success, .failure 0] hop).file 2 _ (by decide) hfile).2⟩

end Runs

end Ouichefs
