import Ouichefs.Read

/-!
# Runs over small files

Runs of creations, removals and small writes from a formatted image.  `SliceLayout` is how the
chain of sliced blocks, the bitmaps and the inodes fit together after every run; `FilesMachine` is
what such a run is for: a map from files to byte strings.

* `SmallCall.step`: one call keeps the invariant and acts on `Fs.files` as the abstract machine.
* `sliceLayout_run`: the layout after every run.
* `small_refines`: the file system simulates the abstract machine.
-/

set_option autoImplicit false

namespace Ouichefs

/-! ## The abstract machine -/

/-- `data` written over `old` at `pos`; a gap before `pos` is filled with zeros. -/
def overwrite (old : List UInt8) (pos : Nat) (data : List UInt8) : List UInt8 :=
  (List.range (max (pos + data.length) old.length)).map fun i =>
    if pos ≤ i ∧ i < pos + data.length then data.getD (i - pos) 0 else old.getD i 0

theorem combinedBuf_eq_overwrite (old : List UInt8) (pos : Nat) (data : List UInt8) :
    combinedBuf old pos data = overwrite old pos data := by
  refine List.ext_getElem (by simp [overwrite]) fun i h1 h2 => ?_
  have hc := combinedBuf_getD old data pos i
  rw [List.getD_eq_getElem _ _ h1] at hc
  simpa [overwrite] using hc

/-- The content of every file. -/
abbrev Files := Nat → Option (List UInt8)

/-- What a call with result `r` does to the files. -/
def FilesStep (a : Files) (c : Call) (r : Int) (a' : Files) : Prop :=
  match c.op with
  | .create .. => r < 0 ∧ a' = a ∨
      r = 0 ∧ ∃ ino, a ino = none ∧ a' = Function.update a ino (some [])
  | .unlink _ _ ino => r = 0 ∧ (a ino).isSome ∧ a' = Function.update a ino none
  | .write ino pos data => r = data.length ∧
      ∃ old, a ino = some old ∧ a' = Function.update a ino (some (overwrite old pos data))
  | _ => False

/-- Inode `ino` is an allocated regular file. -/
def Fs.File (fs : Fs) (ino : Nat) : Prop := fs.Live ino ∧ sIsDir (fs.inode ino).iMode = false

instance (fs : Fs) (ino : Nat) : Decidable (fs.File ino) := inferInstanceAs (Decidable (_ ∧ _))

/-- File `ino` of the mounted file system has content `l`: its size, the bytes in its slices and
what a read from the beginning delivers. -/
structure Holds (k : Kernel) (ino : Nat) (l : List UInt8) : Prop where
  size : (k.fs.inode ino).iSize = l.length
  bytes : (k.fs.disk (k.fs.inode ino).getBno).bytes ((k.fs.inode ino).getSlice * 128)
    (k.fs.inode ino).iSize = l
  read : ∀ count, ∃ k', customReadIter k ino 0 count =
    .ok (⟨(min count l.length : Nat), min count l.length, l.take count⟩, k') ∧ k'.fs = k.fs

/-- The abstract state `a` is the content of the allocated files. -/
def Represents (k : Kernel) (a : Files) : Prop :=
  ∀ ino, match a ino with
    | none => ¬k.fs.File ino
    | some l => k.fs.File ino ∧ Holds k ino l

/-! ## The invariant -/

/-- What holds between the calls of a run over small files. -/
structure SmallInv (k : Kernel) (chain : List Nat) : Prop extends PlainInv k chain where
  noBig : ∀ i, ¬k.fs.Is i .big

/-- The contents as the inodes and slices say. -/
def Fs.files (fs : Fs) : Files := fun ino => if fs.File ino then some (fs.smallBytes ino) else none

section Invariant

variable {k : Kernel} {chain : List Nat} {ino : Nat}

theorem Fs.Is.file {fs : Fs} {κ : Kind} (h : fs.Is ino κ) (hκ : κ ≠ .dir) : fs.File ino := by
  refine ⟨h.1, ?_⟩
  by_contra hd
  exact hκ (h.2.symm.trans (Inode.kind_dir.2 (by simpa using hd)))

theorem Fs.smallBytes_nil {fs : Fs} (h : (fs.inode ino).iSize = 0) : fs.smallBytes ino = [] :=
  List.length_eq_zero_iff.1 ((fs.smallBytes_length ino).trans h)

/-- Every file is new or small. -/
theorem SmallInv.file_kind (h : SmallInv k chain) (hi : k.fs.File ino) :
    k.fs.Is ino .fresh ∨ k.fs.Is ino .small := by
  have hk := hi.1.is
  cases hkind : (k.fs.inode ino).kind with
  | dir => exact absurd (Inode.kind_dir.1 hkind) (by rw [hi.2]; decide)
  | big => exact absurd (hkind ▸ hk) (h.noBig ino)
  | fresh => exact Or.inl (hkind ▸ hk)
  | small => exact Or.inr (hkind ▸ hk)
  | stray => exact absurd (hkind ▸ hk) (h.tight.noStray ino)

/-- A file with an index block has slices. -/
theorem SmallInv.small_of_index (h : SmallInv k chain) (hi : k.fs.File ino)
    (hidx : (k.fs.inode ino).indexBlock ≠ 0) : k.fs.Is ino .small :=
  (h.file_kind hi).resolve_left fun hf => hidx (Inode.kind_fresh.1 hf.2).2.2

theorem SmallInv.holds (h : SmallInv k chain) (hi : k.fs.File ino) :
    Holds k ino (k.fs.smallBytes ino) := by
  refine ⟨(k.fs.smallBytes_length ino).symm, rfl, fun count => ?_⟩
  rcases h.file_kind hi with hf | hs
  · have h0 := (h.wf.fresh ino hf).1
    have h0' : (k.inode ino).iSize = 0 := h0
    refine ⟨k, ?_, rfl⟩
    rw [Fs.smallBytes_nil h0]
    unfold customReadIter
    simp [h0']
  · obtain ⟨k', hrun, hfs, -⟩ := customReadIter_small h.faults h.wf.toCore hs 0 count
    refine ⟨k', ?_, hfs⟩
    rw [hrun, Fs.smallRead_zero]

/-- The abstract state is determined by the file system. -/
theorem SmallInv.represents_iff (h : SmallInv k chain) (a : Files) :
    Represents k a ↔ a = k.fs.files := by
  constructor
  · intro hr
    funext ino
    have hi := hr ino
    unfold Fs.files
    cases ha : a ino with
    | none =>
        rw [ha] at hi
        rw [if_neg hi]
    | some l =>
        rw [ha] at hi
        rw [if_pos hi.1, ← hi.2.bytes]
        rfl
  · rintro rfl ino
    unfold Fs.files
    by_cases hi : k.fs.File ino
    · rw [if_pos hi]
      exact ⟨hi, h.holds hi⟩
    · rw [if_neg hi]
      exact hi

theorem Fs.files_eq {fs fs' : Fs} {i : Nat} (hfile : fs'.File i ↔ fs.File i)
    (hb : fs.File i → fs'.smallBytes i = fs.smallBytes i) : fs'.files i = fs.files i := by
  unfold Fs.files
  by_cases hi : fs.File i
  · rw [if_pos hi, if_pos (hfile.2 hi), hb hi]
  · rw [if_neg hi, if_neg (mt hfile.1 hi)]

/-- A file whose view and slices did not change. -/
theorem SmallInv.bytes_eq {fs' : Fs} (h : SmallInv k chain) (hi : k.fs.File ino)
    (hv : SameView (k.fs.inode ino) (fs'.inode ino))
    (hb : k.fs.Is ino .small → fs'.smallBytes ino = k.fs.smallBytes ino) :
    fs'.smallBytes ino = k.fs.smallBytes ino := by
  rcases h.file_kind hi with hf | hs
  · have h0 := (h.wf.fresh ino hf).1
    rw [Fs.smallBytes_nil h0, Fs.smallBytes_nil (hv.iSize.trans h0)]
  · exact hb hs

end Invariant

/-! ## One call -/

section Step

variable {k : Kernel} {chain : List Nat} {c : Call}

theorem Created.smallInv {k' : Kernel} {dir ino n mode : Nat} {name : List UInt8}
    (h : SmallInv k chain) (hc : Created k.fs k'.fs chain dir ino n name mode)
    (hf : k'.faults = []) : SmallInv k' chain := by
  refine ⟨⟨hf, hc.wf, hc.tight h.tight⟩, fun i hi => ?_⟩
  rcases (hc.live i).1 hi.1 with hl | rfl
  · refine h.noBig i ⟨hl, ?_⟩
    rw [← (hc.view i hl).kind]
    exact hi.2
  · have := hi.kind_unique hc.kind
    split at this <;> cases this

theorem Created.files {k' : Kernel} {dir ino n mode : Nat} {name : List UInt8}
    (h : SmallInv k chain) (hc : Created k.fs k'.fs chain dir ino n name mode)
    (hm : sIsDir mode = false) :
    k.fs.files ino = none ∧ k'.fs.files = Function.update k.fs.files ino (some []) := by
  have hfresh : k'.fs.Is ino .fresh := by simpa [hm] using hc.kind
  refine ⟨if_neg fun hi => hc.dead hi.1, ?_⟩
  funext i
  rw [Function.update_apply]
  split
  · rename_i hi
    subst hi
    unfold Fs.files
    rw [if_pos (hfresh.file (by decide)), Fs.smallBytes_nil (hc.wf.fresh i hfresh).1]
  · rename_i hi
    have hlive : k'.fs.Live i ↔ k.fs.Live i := (hc.live i).trans (or_iff_left hi)
    have hfile : k'.fs.File i ↔ k.fs.File i := by
      refine ⟨fun hx => ?_, fun hx => ?_⟩
      · exact ⟨hlive.1 hx.1, by rw [← (hc.view i (hlive.1 hx.1)).iMode]; exact hx.2⟩
      · exact ⟨hlive.2 hx.1, by rw [(hc.view i hx.1).iMode]; exact hx.2⟩
    exact Fs.files_eq hfile fun hx => h.bytes_eq hx (hc.view i hx.1) (hc.bytes i)

theorem Removed.smallInv {k' : Kernel} {chain' : List Nat} {dir ino f n : Nat}
    (h : SmallInv k chain) (hr : Removed k.fs k'.fs chain chain' dir ino f n)
    (hf : k'.faults = []) : SmallInv k' chain' := by
  refine ⟨⟨hf, hr.wf, hr.tight h.tight⟩, fun i hi => ?_⟩
  obtain ⟨hl, hne⟩ := (hr.live i).1 hi.1
  refine h.noBig i ⟨hl, ?_⟩
  rw [← (hr.view i hl hne).kind]
  exact hi.2

theorem Removed.files {k' : Kernel} {chain' : List Nat} {dir ino f n : Nat}
    (h : SmallInv k chain) (hr : Removed k.fs k'.fs chain chain' dir ino f n) :
    k'.fs.files = Function.update k.fs.files ino none := by
  funext i
  rw [Function.update_apply]
  split
  · rename_i hi
    subst hi
    exact if_neg fun hx => ((hr.live i).1 hx.1).2 rfl
  · rename_i hi
    have hlive : k'.fs.Live i ↔ k.fs.Live i := (hr.live i).trans (and_iff_left hi)
    have hfile : k'.fs.File i ↔ k.fs.File i := by
      refine ⟨fun hx => ?_, fun hx => ?_⟩
      · exact ⟨hlive.1 hx.1, by rw [← (hr.view i (hlive.1 hx.1) hi).iMode]; exact hx.2⟩
      · exact ⟨hlive.2 hx.1, by rw [(hr.view i hx.1 hi).iMode]; exact hx.2⟩
    exact Fs.files_eq hfile fun hx =>
      h.bytes_eq hx (hr.view i hx.1 hi) fun hs => hr.bytes i hs hi

theorem Written.is_other {k' : Kernel} {chain' : List Nat} {ino : Nat} {content : List UInt8}
    (hw : Written k k' chain chain' ino content) {i : Nat} (hi : i ≠ ino) (κ : Kind) :
    k'.fs.Is i κ ↔ k.fs.Is i κ := by
  unfold Fs.Is
  rw [hw.owners.live, (hw.kept i hi).inode]

theorem Written.smallInv {k' : Kernel} {chain' : List Nat} {ino : Nat} {content : List UInt8}
    (h : SmallInv k chain) (hw : Written k k' chain chain' ino content) : SmallInv k' chain' := by
  refine ⟨⟨hw.faults, hw.wf, hw.tight h.tight⟩, fun i hi => ?_⟩
  by_cases hne : i = ino
  · subst hne
    cases hi.kind_unique hw.small
  · exact h.noBig i ((hw.is_other hne _).1 hi)

theorem Written.files {k' : Kernel} {chain' : List Nat} {ino : Nat} {content : List UInt8}
    (h : SmallInv k chain) (hw : Written k k' chain chain' ino content) :
    k'.fs.files = Function.update k.fs.files ino (some content) := by
  funext i
  rw [Function.update_apply]
  split
  · rename_i hi
    subst hi
    unfold Fs.files
    rw [if_pos (hw.small.file (by decide)), hw.bytes]
  · rename_i hi
    have hkept := hw.kept i hi
    have hfile : k'.fs.File i ↔ k.fs.File i := by
      unfold Fs.File
      rw [hw.owners.live, hkept.inode]
    exact Fs.files_eq hfile fun hx => h.bytes_eq hx (.of_eq hkept.inode) hkept.bytes

/-- A call over small files during which `get_free_block` finds a block. -/
def SmallCall (k : Kernel) (c : Call) : Prop :=
  c.op.Small k.fs ∧ ¬(c.exec k).kernel.AllocFailed

instance (k : Kernel) (c : Call) : Decidable (SmallCall k c) := inferInstanceAs (Decidable (_ ∧ _))

/-- **One call keeps the invariant and does to the files what it is for.** -/
theorem SmallCall.step (h : SmallInv k chain) (hc : SmallCall k c) :
    ∃ r k' chain', c.exec k = .ok (r, k') ∧ SmallInv k' chain' ∧
      FilesStep k.fs.files c r k'.fs.files := by
  have hinv : SmallInv (k.setCaller c.now c.fsuid c.fsgid) chain :=
    ⟨⟨h.faults, h.wf, h.tight⟩, h.noBig⟩
  obtain ⟨hop, hroom⟩ := hc
  obtain ⟨op, now, uid, gid⟩ := c
  unfold Call.exec at hroom ⊢
  unfold FilesStep
  simp only at *
  generalize hk : k.setCaller now uid gid = kc at *
  have hfs : k.fs = kc.fs := by rw [← hk]; rfl
  rw [hfs] at hop ⊢
  cases op with
  | create dir name mode =>
      obtain ⟨r, k', hrun, hf', -, ⟨hneg, hsame, -⟩ | ⟨hr, ino, n, hcr⟩⟩ :=
        ouichefsCreate_spec hinv.faults hinv.wf hop.1 name mode
      · refine ⟨r, k', chain, hrun, ⟨⟨hf', hsame ▸ hinv.wf, hsame ▸ hinv.tight⟩,
          hsame ▸ hinv.noBig⟩, Or.inl ⟨hneg, ?_⟩⟩
        rw [hsame]
      · obtain ⟨h1, h2⟩ := hcr.files hinv hop.2
        exact ⟨r, k', chain, hrun, hcr.smallInv hinv hf', Or.inr ⟨hr, ino, h1, h2⟩⟩
  | unlink dir name ino =>
      obtain ⟨⟨hd, h0, f, hs⟩, hnd⟩ := hop
      obtain ⟨k', chain', n, hrun, hf', -, hr⟩ :=
        ouichefsUnlink_spec hinv.faults hinv.wf hd hs h0 fun hx => absurd hx hnd
      have hfile : kc.fs.File ino := by
        have hl : kc.fs.Live ino := hs ▸ (hinv.wf.dirs.tree.entry hd (hs ▸ h0)).1
        exact hl.is.file fun hk => hnd (hk ▸ hl.is)
      refine ⟨0, k', chain', hrun, hr.smallInv hinv hf', rfl, ?_, hr.files hinv⟩
      unfold Fs.files
      rw [if_pos hfile]
      rfl
  | write ino pos data =>
      obtain ⟨hlen, hino, hsize⟩ := hop
      rcases Op.write_small hinv.faults hinv.wf hino hlen hsize with
        ⟨k', chain', hrun, hw⟩ | ⟨-, hfail, -⟩
      · refine ⟨_, k', chain', hrun, hw.smallInv hinv, rfl, kc.fs.oldBytes ino, ?_, ?_⟩
        · unfold Fs.files Fs.oldBytes
          rcases hino with hi | hi
          · rw [if_pos (hi.file (by decide)), if_neg (by rw [hi.2]; decide),
              Fs.smallBytes_nil (hinv.wf.fresh ino hi).1]
          · rw [if_pos (hi.file (by decide)), if_pos hi.2]
        · rw [← combinedBuf_eq_overwrite]
          exact hw.files hinv
      · exact absurd hfail hroom
  | mkdir | rmdir | rename | append => exact hop.elim

theorem Formatted.smallInv (hf : k.faults = []) (h : Formatted k.fs) (hz : k.fs.Blank) :
    SmallInv k [] := by
  refine ⟨h.plainInv hf hz, fun i hi => ?_⟩
  cases ((h.is_iff i _).1 hi).2

end Step

/-! ## Whole runs -/

/-- Slice `j` of block `b` is in the range of file `ino`. -/
def Fs.InRange (fs : Fs) (ino b j : Nat) : Prop :=
  fs.File ino ∧ (fs.inode ino).indexBlock ≠ 0 ∧ (fs.inode ino).getBno = b ∧
    (fs.inode ino).getSlice ≤ j ∧ j < (fs.inode ino).getSlice + (fs.inode ino).numSlices

/-- How the chain of sliced blocks, the bitmaps and the inodes fit together: the chain ends in 0
and visits distinct used blocks, every file with an index block decodes to slices in the chain, and
the slices marked taken are exactly those of the files, each of one file. -/
structure SliceLayout (fs : Fs) (chain : List Nat) : Prop where
  isChain : IsLinked fs.next fs.sbi.sFreeSlicedBlocks chain
  nodup : chain.Nodup
  used : ∀ b ∈ chain, b < fs.sbi.nrBlocks ∧ fs.sbi.bfreeBitmap b = false
  length : fs.sbi.nrSlicedBlocks = chain.length
  file : ∀ ino, fs.File ino → (fs.inode ino).indexBlock ≠ 0 →
    (fs.inode ino).getBno ∈ chain ∧ 1 ≤ (fs.inode ino).getSlice ∧
    (fs.inode ino).getSlice + (fs.inode ino).numSlices ≤ 32 ∧
    (fs.inode ino).numSlices = divRoundUp (fs.inode ino).iSize 128
  header : ∀ b ∈ chain, (sliceBitmap (fs.disk b)).getLsbD 0 = false
  bits : ∀ b ∈ chain, ∀ j, 1 ≤ j → j < 32 →
    ((sliceBitmap (fs.disk b)).getLsbD j = false ↔ ∃! ino, fs.InRange ino b j)

section Runs

variable {k : Kernel} {chain : List Nat}

theorem SmallInv.inRange_iff (h : SmallInv k chain) (ino b j : Nat) :
    k.fs.InRange ino b j ↔ k.fs.OwnsSlice ino b j := by
  constructor
  · rintro ⟨hi, hidx, hr⟩
    exact ⟨h.small_of_index hi hidx, hr⟩
  · rintro ⟨hs, hr⟩
    exact ⟨hs.file (by decide), (Inode.kind_small.1 hs.2).2.2.1, hr⟩

theorem SmallInv.layout (h : SmallInv k chain) : SliceLayout k.fs chain where
  isChain := h.wf.isChain
  nodup := h.wf.nodup
  used b hb := h.wf.toCore.chain_used hb
  length := h.wf.sliced
  file ino hi hidx := by
    have hok := h.wf.slices.file ino (h.small_of_index hi hidx)
    exact ⟨hok.mem, hok.slice_pos, hok.fits, hok.slices⟩
  header := h.wf.slices.header
  bits b hb j h1 h2 := by
    simp only [h.inRange_iff]
    constructor
    · intro hbit
      obtain ⟨ino, ho⟩ := (h.tight.bits b hb j h1 h2 hbit).resolve_left id
      exact ⟨ino, ho, fun i hi => h.wf.slices.disjoint hi ho⟩
    · rintro ⟨ino, ho, -⟩
      have ht := (h.wf.slices.file ino ho.1).taken j ho.2.2.1 ho.2.2.2
      rwa [ho.2.1] at ht

/-- **After every run of creations, removals and small writes the slices are laid out
properly.** -/
theorem sliceLayout_run {cs : List Call} (hf : k.faults = []) (h : Formatted k.fs)
    (hz : k.fs.Blank) (ha : Admissible Call.exec SmallCall k cs) :
    ∃ k', runAll Call.exec k cs = .ok k' ∧ ∃ chain, SliceLayout k'.fs chain := by
  obtain ⟨k', hrun, chain, hinv⟩ := runAll_invariant (I := fun k => ∃ chain, SmallInv k chain)
    (fun k c ⟨chain, hi⟩ hc => by
      obtain ⟨r, k', chain', he, hi', -⟩ := hc.step hi
      exact ⟨r, k', he, chain', hi'⟩) cs k ⟨[], h.smallInv hf hz⟩ ha
  exact ⟨k', hrun, chain, hinv.layout⟩

/-- Files in one block: the first moves behind the others, the third is removed, and a fourth takes
the slice that the first had. -/
def smallRun : List Call :=
  [(Op.create 1 [97] 0o100644).call, (Op.create 1 [98] 0o100644).call,
    (Op.create 1 [99] 0o100644).call, (Op.create 1 [100] 0o100644).call,
    (Op.write 2 0 [1, 2, 3]).call, (Op.write 3 199 [4]).call, (Op.write 4 0 [5]).call,
    (Op.write 2 200 [6]).call, (Op.unlink 1 [99] 4).call, (Op.write 5 0 [7]).call]

theorem smallRun_admissible : Admissible Call.exec SmallCall (emptyImage 8 8) smallRun := by
  decide +kernel

theorem sliceLayout_run_smallRun :
    ∃ k', runAll Call.exec (emptyImage 8 8) smallRun = .ok k' ∧ (∃ chain, SliceLayout k'.fs chain) ∧
      ∀ ino ∈ [2, 3, 5], k'.fs.Is ino .small ∧ (k'.fs.inode ino).getBno = 5 := by
  obtain ⟨k', hrun, hlayout⟩ := sliceLayout_run (k := emptyImage 8 8) rfl
    (emptyImage_formatted (by decide) (by decide) (by decide) (by decide))
    (emptyImage_blank (by decide)) smallRun_admissible
  have hafter := @Kernel.runAll_after (emptyImage 8 8) smallRun (by decide +kernel)
  refine ⟨k', hrun, hlayout, ?_⟩
  rw [hrun] at hafter
  rw [Except.ok.inj hafter]
  decide +kernel

/-- **Small files refine byte strings.** -/
theorem small_refines {cs : List Call} (hf : k.faults = []) (h : Formatted k.fs)
    (hz : k.fs.Blank) (ha : Admissible Call.exec SmallCall k cs) :
    Simulates Call.exec Represents FilesStep k (fun _ => none) cs := by
  have h0 : k.fs.files = fun _ => none := by
    funext i
    refine if_neg fun hi => ?_
    have h1 := (h.live i).1 hi.1
    have hd := Inode.kind_dir.1 h.rootDir.2
    rw [← h1, hi.2] at hd
    cases hd
  refine simulates_of_step (I := fun k => ∃ chain, SmallInv k chain) ?_ cs k _
    ⟨[], h.smallInv hf hz⟩ (((h.smallInv hf hz).represents_iff _).2 h0.symm) ha
  rintro k a c ⟨chain, hi⟩ hr hc
  obtain rfl := (hi.represents_iff a).1 hr
  obtain ⟨r, k', chain', he, hi', hs⟩ := hc.step hi
  exact ⟨r, k', _, he, hs, ⟨chain', hi'⟩, (hi'.represents_iff _).2 rfl⟩

theorem small_refines_smallRun :
    Simulates Call.exec Represents FilesStep (emptyImage 8 8) (fun _ => none) smallRun :=
  small_refines rfl (emptyImage_formatted (by decide) (by decide) (by decide) (by decide))
    (emptyImage_blank (by decide)) smallRun_admissible

end Runs

end Ouichefs
