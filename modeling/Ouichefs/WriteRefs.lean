import Ouichefs.PlaceRefs

/-!
# Buffer references of a write

A small file that moves keeps the reference to its old block; the copy into a buffer releases it
twice when it comes up short.

* `bufferRefs_kept_iff`: which reads and writes return their references whatever happens; without
  failures all but the moves do.
-/

set_option autoImplicit false

namespace Ouichefs

/-! ## Rewriting a small file -/

/-- A rewrite of a small file to `size` bytes with `len` bytes of data reads the block of the file,
and either copies into it or moves the file. -/
def Fs.RewriteBreaks (fs : Fs) (ino size len : Nat) : Prop :=
  let ci := fs.inode ino
  ci.numSlices ≠ 0 ∧ ci.getBno ≠ 0 ∧ ci.getSlice ≠ 0 ∧ ci.getBno < fs.sbi.nrBlocks ∧
    (ci.numSlices = divRoundUp size 128 → 0 < len)

section Rewrite

variable {fs : Fs} {k : Kernel} {ino : Nat} {iocb : Kiocb} {data : List UInt8}

theorem rewriteSmallFile_refs (hno : ¬k.fs.RewriteBreaks ino
      (max (iocb.startPos (k.inode ino) + data.length) (k.inode ino).iSize) data.length) :
    RefsTo 0 k 0 (rewriteSmallFile k ino iocb data) := by
  have hinode : k.fs.inode ino = k.inode ino := rfl
  unfold Fs.RewriteBreaks at hno
  simp only [hinode] at hno
  -- what is written to the block of the file
  have hplace : ∀ {k₁ : Kernel}, (k.inode ino).numSlices ≠ 0 →
      ¬((k.inode ino).getBno = 0 ∨ (k.inode ino).getSlice = 0) →
      k.sbBread (k.inode ino).getBno = (true, k₁) → (k.inode ino).numSlices = divRoundUp
        (max (iocb.startPos (k.inode ino) + data.length) (k.inode ino).iSize) 128 ∧
        data.length = 0 := by
    intro k₁ hn hz hread
    rw [not_or] at hz
    by_contra hcon
    exact hno ⟨hn, hz.1, hz.2, (Kernel.sbBread_some hread).1, fun heq => by
      by_contra hlen
      exact hcon ⟨heq, by omega⟩⟩
  cases (rewriteSmallFile_exits k ino iocb data).1 rfl with
  | noSlices hn eq =>
      rw [eq]
      exact Refs.of_eq rfl 0
  | noPlace hn hz eq =>
      rw [eq]
      exact Refs.of_eq rfl 0
  | unread hn hz hread eq =>
      rw [eq]
      exact Refs.unread hread 0
  | inPlace hn hz hread hsame eq =>
      obtain rfl := List.eq_nil_of_length_eq_zero (hplace hn hz hread).2
      rw [eq]
      exact (Refs.bread hread 0).to (copyToSlices_refs_nil _ _ _ _ _ _ _)
  | fromStart h | noCopy h | fault h | noBuffer h | combined h =>
      exact absurd (hplace h.numSlices h.placed h.read).1 h.moves

/-- The head of the chain cannot be read. -/
theorem writeSmallFileNew_unread (ino : Nat) (iocb : Kiocb)
    (h0 : k.fs.sbi.sFreeSlicedBlocks ≠ 0) (hfail : Failing k.faults) :
    ∃ k', (∀ data, writeSmallFileNew k ino iocb data = .ok ((- EIO, iocb), k')) ∧
      k'.refOps = k.refOps := by
  have hops := Kernel.refOps_sbBread k k.fs.sbi.sFreeSlicedBlocks
  obtain ⟨k', hread, -⟩ := @Kernel.sbBread_failing k k.fs.sbi.sFreeSlicedBlocks hfail
  rw [hread] at hops
  exact ⟨k', fun data => (writeSmallFileNew_exits k ino iocb data).2
    (.noPlace ((placeSlices_exits _ _ _).2 (.unread h0 hread rfl)) rfl), by simpa using hops⟩

/-- A move that fails at the head of the chain. -/
theorem finishRelocation_unread (ino : Nat) (iocb : Kiocb)
    (h0 : k.fs.sbi.sFreeSlicedBlocks ≠ 0) (hfail : Failing k.faults)
    (old : Inode) (pos count : Nat) :
    ∃ io k', (∀ buf, finishRelocation old ino pos count (writeSmallFileNew k ino iocb buf) =
      .ok ((- EIO, io), k')) ∧ k'.refOps = k.refOps := by
  obtain ⟨k', hrun, hops⟩ := writeSmallFileNew_unread ino iocb h0 hfail
  exact ⟨_, _, fun buf => (finishRelocation_exits _ _ _ _ _).2 (.kept (hrun buf) (by decide) rfl),
    hops⟩

/-- A rewrite that leaves the file in its place, without failures. -/
theorem rewriteSmallFile_refs_ok (hf : k.faults = []) (hstay : (k.inode ino).numSlices =
      divRoundUp (max (iocb.startPos (k.inode ino) + data.length) (k.inode ino).iSize) 128) :
    RefsTo 0 k 0 (rewriteSmallFile k ino iocb data) := by
  cases (rewriteSmallFile_exits k ino iocb data).1 rfl with
  | noSlices hn eq =>
      rw [eq]
      exact Refs.of_eq rfl 0
  | noPlace hn hz eq =>
      rw [eq]
      exact Refs.of_eq rfl 0
  | unread hn hz hread eq =>
      rw [eq]
      exact Refs.unread hread 0
  | inPlace hn hz hread hsame eq =>
      rw [eq]
      apply (Refs.bread hread 0).to
      exact copyToSlices_refs_ok ((Kernel.sbBread_some hread).2.2 hf) _ _ _ _ _
  | fromStart h | noCopy h | fault h | noBuffer h | combined h => exact absurd hstay h.moves

/-- A reference that is not given back. -/
theorem not_settles_taken (b : Nat) : ¬Settles 0 [(b, true)] 0 := by
  intro hs
  have hcount := hs.count_eq b
  simp at hcount

theorem rewriteSmallFile_refs_cut (hhead : fs.sbi.sFreeSlicedBlocks ≠ 0)
    (hyes : fs.RewriteBreaks ino
      (max (iocb.startPos (fs.inode ino) + data.length) (fs.inode ino).iSize) data.length) :
    ∃ answers, ∀ k : Kernel, k.fs = fs → k.faults = answers →
      ¬RefsKept k (rewriteSmallFile k ino iocb data) := by
  obtain ⟨hn, hb0, hs0, hlt, hlen⟩ := hyes
  have hz : ¬((fs.inode ino).getBno = 0 ∨ (fs.inode ino).getSlice = 0) := not_or.2 ⟨hb0, hs0⟩
  by_cases hin : (fs.inode ino).numSlices = divRoundUp
      (max (iocb.startPos (fs.inode ino) + data.length) (fs.inode ino).iSize) 128
  · -- the file stays, and the copy is short
    refine ⟨[.success, .failure 0], fun k hfs hf hkept => ?_⟩
    subst hfs
    have hinode : k.fs.inode ino = k.inode ino := rfl
    simp only [hinode] at hn hz hlt hin
    obtain ⟨k', hcopy, hops⟩ := copyToSlices_refs_cut
      (k := (k.log (.bread (k.inode ino).getBno)).answered [.failure 0]) ino iocb
      (iocb.startPos (k.inode ino))
      (max (iocb.startPos (k.inode ino) + data.length) (k.inode ino).iSize) (k.inode ino).getBno
      (k.inode ino).getSlice (hlen hin) rfl
    rw [(rewriteSmallFile_exits k ino iocb data).2
      (.inPlace hn hz (Kernel.sbBread_success hlt hf) hin rfl), hcopy] at hkept
    refine not_settles_pair (k.inode ino).getBno ((refsKept_ok ?_).1 hkept)
    rw [hops, Kernel.refOps_answered, Kernel.refOps_bread, List.append_assoc]
    rfl
  · by_cases hpos : iocb.startPos (fs.inode ino) = 0
    · refine ⟨[.success, .failure 0], fun k hfs hf hkept => ?_⟩
      subst hfs
      have hinode : k.fs.inode ino = k.inode ino := rfl
      simp only [hinode] at hn hz hlt hin hpos
      rw [(rewriteSmallFile_exits k ino iocb data).2
        (.fromStart ⟨hn, hz, Kernel.sbBread_success hlt hf, hin⟩ hpos rfl)] at hkept
      generalize hk₁ :
        ((k.log (.bread (k.inode ino).getBno)).answered [.failure 0]).setInode ino _ = k₁ at hkept
      obtain ⟨io, k', hrun, hops⟩ := finishRelocation_unread (k := k₁) ino iocb
        (by rw [← hk₁]; exact hhead) (by rw [← hk₁]; exact failing_failure 0 []) (k.inode ino)
        (iocb.startPos (k.inode ino)) data.length
      rw [hrun] at hkept
      refine not_settles_taken (k.inode ino).getBno ((refsKept_ok ?_).1 hkept)
      rw [hops, ← hk₁]
      simp
    · refine ⟨[.success, .success, .success, .success, .failure 0], fun k hfs hf hkept => ?_⟩
      subst hfs
      have hinode : k.fs.inode ino = k.inode ino := rfl
      simp only [hinode] at hn hz hlt hin hpos
      have hreloc : Relocates k ino iocb data _ :=
        ⟨hn, hz, Kernel.sbBread_success hlt hf, hin⟩
      generalize hk₁ : ((k.log (.bread (k.inode ino).getBno)).answered
        [.success, .success, .success, .failure 0]).setInode ino (k.inode ino).detached = k₁
      have hf₁ : k₁.faults = [.success, .success, .success, .failure 0] := by
        rw [← hk₁]
        rfl
      have hcopy := Kernel.copyFromIter_success (k := k₁.answered [.success, .success, .failure 0])
        data rfl
      have hmalloc := Kernel.kmalloc_success (k := (k₁.answered [.success, .success,
        .failure 0]).answered [.success, .failure 0]) rfl
      rw [(rewriteSmallFile_exits k ino iocb data).2 (.combined hreloc hpos
        (by rw [hk₁]; exact Kernel.kmalloc_success hf₁) hcopy rfl hmalloc rfl)] at hkept
      generalize hk₂ : ((k₁.answered [.success, .success, .failure 0]).answered
        [.success, .failure 0]).answered [.failure 0] = k₂ at hkept
      obtain ⟨io, k', hrun, hops⟩ := finishRelocation_unread (k := k₂) ino ⟨0, false⟩
        (by rw [← hk₂, ← hk₁]; exact hhead)
        (by rw [← hk₂]; exact failing_failure 0 []) (k.inode ino) (iocb.startPos (k.inode ino))
        data.length
      rw [hrun] at hkept
      refine not_settles_taken (k.inode ino).getBno ((refsKept_ok ?_).1 hkept)
      rw [hops, ← hk₂, ← hk₁]
      simp

end Rewrite

/-! ## A small file that becomes big -/

theorem Fs.copiesToBlock_congr {fs fs' : Fs} {ino : Nat} (pos size n : Nat)
    (hidx : (fs'.inode ino).indexBlock = (fs.inode ino).indexBlock)
    (hblocks : (fs'.inode ino).iBlocks = (fs.inode ino).iBlocks) (hsbi : fs'.sbi = fs.sbi)
    (hdisk : fs'.disk = fs.disk) :
    fs'.CopiesToBlock ino pos size n ↔ fs.CopiesToBlock ino pos size n := by
  have hfst : (fs'.withIndex ino).1 = (fs.withIndex ino).1 := by
    unfold Fs.withIndex
    rw [hidx, hsbi]
    split <;> rfl
  have hsnd : (fs'.withIndex ino).2.sbi = (fs.withIndex ino).2.sbi := by
    unfold Fs.withIndex
    rw [hidx, hsbi]
    split
    · rfl
    · exact hsbi
  have hdisk' : (fs'.withIndex ino).2.disk = (fs.withIndex ino).2.disk := by
    rw [Fs.disk_withIndex, Fs.disk_withIndex, hdisk]
  unfold Fs.CopiesToBlock Fs.HasSpace
  simp only [hfst, hsbi, hblocks, hsnd, Fs.reachesBlock_congr hdisk' hsnd]

theorem Fs.copiesToBlock_setSize (fs : Fs) (ino pos size n iSize : Nat) :
    (fs.setInode ino { fs.inode ino with iSize := iSize }).CopiesToBlock ino pos size n ↔
      fs.CopiesToBlock ino pos size n :=
  copiesToBlock_congr pos size n (by simp) (by simp) rfl rfl

section Convert

variable {fs : Fs} {k : Kernel} {ino : Nat} {iocb : Kiocb} {data : List UInt8}

/-- The end of the conversion gives back what it takes. -/
theorem finishConversion_refs {old : Inode} {oldPos writePos count : Nat}
    {run : Outcome (Int × Kiocb)} (hrun : RefsTo 0 k 0 run) :
    RefsTo 0 k 0 (finishConversion old ino oldPos writePos count iocb run) := by
  cases (finishConversion_exits old ino oldPos writePos count iocb run).1 rfl with
  | stopped ho eq =>
      rw [ho] at hrun
      rw [eq]
      exact hrun
  | restored ho hret eq =>
      rw [ho] at hrun
      rw [eq]
      exact Refs.trans hrun (.of_eq rfl 0)
  | @stuck _ _ k' _ ho hret hdel eq =>
      have hrefs := deleteSlice_refs k' (k'.inode ino).getBno (k'.inode ino).getSlice
        (k'.inode ino).numSlices
      rw [hdel] at hrefs
      rw [ho] at hrun
      rw [eq]
      exact Refs.to hrun hrefs
  | @converted _ _ _ k' _ ho hret hdel eq =>
      have hrefs := deleteSlice_refs k' (k'.inode ino).getBno (k'.inode ino).getSlice
        (k'.inode ino).numSlices
      rw [hdel] at hrefs
      rw [ho] at hrun
      rw [eq]
      exact Refs.to hrun hrefs

/-- The buffer that a conversion writes. -/
theorem conversion_length (b : Block) (ci : Inode) (data : List UInt8) (pos : Nat) :
    (combinedBuf (b.bytes (ci.getSlice * 128) ci.iSize) pos data).length =
      max (pos + data.length) ci.iSize := by
  rw [combinedBuf_length, Page.bytes_length]

/-- A conversion keeps its references if the call of `write_big_file` does. -/
theorem convertSmallToBig_refs_of (hbig : ∀ (k₁ : Kernel) (buf : List UInt8), k₁.fs = k.fs →
      (k.faults = [] → k₁.faults = []) → (k.inode ino).getBno < k.fs.sbi.nrBlocks →
      buf.length = max (iocb.startPos (k.inode ino) + data.length) (k.inode ino).iSize →
      RefsTo 0 (k₁.setInode ino { k.inode ino with iSize := 0 }) 0
        (writeBigFile (k₁.setInode ino { k.inode ino with iSize := 0 }) ino ⟨0, false⟩ buf)) :
    RefsTo 0 k 0 (convertSmallToBig k ino iocb data) := by
  -- the block of the file is read and released again
  have hborrow : ∀ {ok : Bool} {k₁ k₂ : Kernel}, k.sbBread (k.inode ino).getBno = (true, k₁) →
      k₁.kmalloc = (ok, k₂) → Refs 0 k 0 (k₂.brelse (k.inode ino).getBno) := by
    intro ok k₁ k₂ hread hm
    have hmalloc := k₁.kmalloc_asks
    rw [hm] at hmalloc
    exact (Refs.bread hread 0).trans ((Refs.of_eq hmalloc.refOps _).trans (.brelse _ _ 0))
  cases (convertSmallToBig_exits k ino iocb data).1 rfl with
  | unread hread eq =>
      rw [eq]
      exact Refs.unread hread 0
  | noCopy hread hm eq =>
      rw [eq]
      exact hborrow hread hm
  | @fault _ k₂ _ _ hread hm hcopy hlen eq =>
      have hc := (k₂.brelse (k.inode ino).getBno).copyFromIter_asks data.length data
      rw [hcopy] at hc
      rw [eq]
      exact Refs.trans (hborrow hread hm) (.of_eq hc.refOps 0)
  | @noBuffer _ k₂ k₃ _ _ hread hm hcopy hlen hm' eq =>
      have hc := (k₂.brelse (k.inode ino).getBno).copyFromIter_asks data.length data
      have hmalloc' := k₃.kmalloc_asks
      rw [hcopy] at hc
      rw [hm'] at hmalloc'
      rw [eq]
      exact ((hborrow hread hm).trans (.of_eq hc.refOps 0)).trans (.of_eq hmalloc'.refOps 0)
  | @combined k₁ k₂ k₃ k₄ copied hread hm hcopy hlen hm' eq =>
      obtain ⟨hlt, hfs, hf⟩ := Kernel.sbBread_some hread
      have hmalloc := k₁.kmalloc_asks
      have hc := (k₂.brelse (k.inode ino).getBno).copyFromIter_asks data.length data
      have hmalloc' := k₃.kmalloc_asks
      rw [hm] at hmalloc
      rw [hcopy] at hc
      rw [hm'] at hmalloc'
      rw [eq]
      apply Refs.to
        (((hborrow hread hm).trans (.of_eq hc.refOps 0)).trans (.of_eq hmalloc'.refOps 0))
      apply finishConversion_refs
      apply Refs.to (.of_eq (Kernel.refOps_setInode k₄ ino _) 0)
      apply hbig k₄ _ _ _ hlt
      · rw [conversion_length, hlen]
      · rw [hmalloc'.fs, hc.fs, Kernel.fs_brelse, hmalloc.fs, hfs]
      · exact fun h0 => hmalloc'.faults (hc.faults (hmalloc.faults (hf h0)))

/-- A conversion that copies nothing into a block. -/
theorem convertSmallToBig_refs (hno : (k.inode ino).getBno < k.fs.sbi.nrBlocks →
      ¬k.fs.CopiesToBlock ino 0
        (max (iocb.startPos (k.inode ino) + data.length) (k.inode ino).iSize)
        (max (iocb.startPos (k.inode ino) + data.length) (k.inode ino).iSize)) :
    RefsTo 0 k 0 (convertSmallToBig k ino iocb data) := by
  apply convertSmallToBig_refs_of
  intro k₁ buf hfs _ hlt hlen
  apply writeBigFile_refs
  have hself : ∀ ci, (k₁.setInode ino ci).inode ino = ci := by
    intro ci
    simp [Kernel.inode]
  have hstart : ∀ ci, Kiocb.startPos ⟨0, false⟩ ci = 0 := fun _ => rfl
  rw [hstart, hself, hlen, Nat.zero_add, Nat.max_zero, Kernel.fs_setInode, hfs]
  intro hyes
  exact hno hlt ((k.fs.copiesToBlock_setSize ino 0 _ _ 0).1 hyes)

/-- A conversion without failures. -/
theorem convertSmallToBig_refs_ok (hf : k.faults = []) :
    RefsTo 0 k 0 (convertSmallToBig k ino iocb data) := by
  apply convertSmallToBig_refs_of
  intro k₁ buf _ hf₁ _ _
  exact writeBigFile_refs_ok (hf₁ hf)

/-- A conversion whose copy into its first block comes up short. -/
theorem convertSmallToBig_refs_cut (data : List UInt8)
    (hlt : (fs.inode ino).getBno < fs.sbi.nrBlocks)
    (hyes : fs.CopiesToBlock ino 0
      (max (iocb.startPos (fs.inode ino) + data.length) (fs.inode ino).iSize)
      (max (iocb.startPos (fs.inode ino) + data.length) (fs.inode ino).iSize)) :
    ∃ answers, ∀ k : Kernel, k.fs = fs → k.faults = answers →
      ¬RefsKept k (convertSmallToBig k ino iocb data) := by
  refine ⟨[.success, .success, .success, .success, .success, .success, .failure 0],
    fun k hfs hf hkept => ?_⟩
  subst hfs
  have hinode : k.fs.inode ino = k.inode ino := rfl
  simp only [hinode] at hlt hyes
  have hread := Kernel.sbBread_success hlt hf
  generalize hk₁ : (k.log (.bread (k.inode ino).getBno)).answered
    [.success, .success, .success, .success, .success, .failure 0] = k₁ at hread
  have hf₁ : k₁.faults = [.success, .success, .success, .success, .success, .failure 0] := by
    rw [← hk₁]
    rfl
  have hm := Kernel.kmalloc_success hf₁
  have hcopy := Kernel.copyFromIter_success (k := (k₁.answered [.success, .success, .success,
    .success, .failure 0]).brelse (k.inode ino).getBno) data rfl
  generalize hk₂ : ((k₁.answered [.success, .success, .success, .success, .failure 0]).brelse
    (k.inode ino).getBno).answered [.success, .success, .success, .failure 0] = k₂ at hcopy
  have hf₂ : k₂.faults = [.success, .success, .success, .failure 0] := by
    rw [← hk₂]
    rfl
  have hm' := Kernel.kmalloc_success hf₂
  rw [(convertSmallToBig_exits k ino iocb data).2 (.combined hread hm hcopy rfl hm' rfl)] at hkept
  generalize hbuf : combinedBuf _ _ data = buf at hkept
  have hlen : buf.length =
      max (iocb.startPos (k.inode ino) + data.length) (k.inode ino).iSize := by
    rw [← hbuf, combinedBuf_length, Page.bytes_length]
  rw [← hlen] at hyes
  generalize hk₃ : (k₂.answered [.success, .success, .failure 0]).setInode ino _ = k₃ at hkept
  have hsize : (k₃.inode ino).iSize = 0 := by
    rw [← hk₃]
    simp [Kernel.inode]
  have hfs₃ : k₃.fs = k.fs.setInode ino { k.fs.inode ino with iSize := 0 } := by
    rw [← hk₃, ← hk₂, ← hk₁]
    rfl
  have hops₃ : k₃.refOps =
      k.refOps ++ [((k.inode ino).getBno, true), ((k.inode ino).getBno, false)] := by
    rw [← hk₃, ← hk₂, ← hk₁]
    simp
  have hstart : ∀ ci, Kiocb.startPos ⟨0, false⟩ ci = 0 := fun _ => rfl
  rw [← k.fs.copiesToBlock_setSize ino 0 buf.length buf.length 0, ← hfs₃] at hyes
  obtain ⟨e, idx, b, k', hrun, he, hops'⟩ := writeBigFile_refs_cut (k := k₃) ⟨0, false⟩
    (by rwa [hstart, hsize, Nat.zero_add, Nat.max_zero]) (by rw [← hk₃]; rfl)
  rw [(finishConversion_exits _ _ _ _ _ _ _).2 (.restored hrun he rfl)] at hkept
  have hkept' : RefsKept k (.ok ((e, { iocb with kiPos := iocb.kiPos }), k'.setInode ino
      { k'.inode ino with
        indexBlock := (k.inode ino).indexBlock, iSize := (k.inode ino).iSize })) := hkept
  have hset := (refsKept_ok (l := [((k.inode ino).getBno, true), ((k.inode ino).getBno, false)] ++
    ([(idx, true), (b, true), (b, false), (b, false)] ++ [(idx, false)]))
    (by rw [Kernel.refOps_setInode, hops', hops₃, List.append_assoc])).1 hkept'
  exact not_settles_within idx b (((Settles.nil 0).bracket (k.inode ino).getBno).rest hset)

end Convert

/-! ## `custom_write_iter` -/

/-- A write of `len` bytes that some answers make release a buffer once too often or not at all. -/
def Fs.WriteBreaks (fs : Fs) (ino : Nat) (iocb : Kiocb) (len : Nat) : Prop :=
  let ci := fs.inode ino
  let pos := iocb.startPos ci
  let size := max (pos + len) ci.iSize
  if isNew ci.indexBlock then
    if willBeSmall (max (iocb.kiPos + len) ci.iSize) then fs.PlaceBreaks (divRoundUp size 128) len
    else fs.CopiesToBlock ino pos size len
  else if !isSmallFile ci then fs.CopiesToBlock ino pos size len
  else if willBeSmall (max (iocb.kiPos + len) ci.iSize) then fs.RewriteBreaks ino size len
  else ci.getBno < fs.sbi.nrBlocks ∧ fs.CopiesToBlock ino 0 size size

/-- The inode agrees with the superblock: without storage the file is empty, and with slices there
is a chain. -/
structure Fs.Coherent (fs : Fs) (ino : Nat) : Prop where
  empty : (fs.inode ino).indexBlock = 0 → (fs.inode ino).iSize = 0
  chained : (fs.inode ino).indexBlock ≠ 0 → isSmallFile (fs.inode ino) = true →
    (fs.inode ino).numSlices ≠ 0 → fs.sbi.sFreeSlicedBlocks ≠ 0

/-- Every file of a well-formed file system. -/
theorem WF.coherent {fs : Fs} {chain : List Nat} {Z : Prop} {ino : Nat} (h : WF fs chain Z)
    (hl : fs.Live ino) (hd : (fs.inode ino).kind ≠ .dir) : fs.Coherent ino := by
  rw [ne_eq, Inode.kind_dir] at hd
  refine ⟨fun h0 => ?_, fun h0 hs hn => ?_⟩
  · by_cases hb : (fs.inode ino).iBlocks = 0
    · exact (h.fresh ino ⟨hl, Inode.kind_fresh.2 ⟨by simpa using hd, hb, h0⟩⟩).1
    · have hbig : fs.Is ino .big := ⟨hl, Inode.kind_big.2 ⟨by simpa using hd, hb⟩⟩
      exact absurd h0 (h.index_ne_zero (Or.inr hbig))
  · have hsmall : fs.Is ino .small :=
      ⟨hl, Inode.kind_small.2 ⟨by simpa using hd, by simpa [isSmallFile] using hs, h0, hn⟩⟩
    have hmem := (h.slices.file ino hsmall).mem
    cases chain with
    | nil => cases hmem
    | cons head post =>
        obtain ⟨hhead, hne, -⟩ := h.isChain
        rw [hhead]
        exact hne

section Write

variable {fs : Fs} {k : Kernel} {ino : Nat} {iocb : Kiocb} {data : List UInt8}

/-- The size `write_small_file` computes is small when the one `custom_write_iter` computes is. -/
theorem startSize_le (fs : Fs) (h0 : (fs.inode ino).iSize = 0)
    (hs : willBeSmall (max (iocb.kiPos + data.length) (fs.inode ino).iSize) = true) :
    max (iocb.startPos (fs.inode ino) + data.length) (fs.inode ino).iSize ≤ 3968 := by
  simp only [willBeSmall, decide_eq_true_eq] at hs
  unfold Kiocb.startPos
  split <;> omega

/-- The function that a write calls. -/
theorem customWriteIter_eq (k : Kernel) (ino : Nat) (iocb : Kiocb) (data : List UInt8) :
    customWriteIter k ino iocb data =
      if isNew (k.fs.inode ino).indexBlock then
        if willBeSmall (max (iocb.kiPos + data.length) (k.fs.inode ino).iSize) then
          writeSmallFileNew k ino iocb data
        else writeBigFile k ino iocb data
      else if !isSmallFile (k.fs.inode ino) then writeBigFile k ino iocb data
      else if willBeSmall (max (iocb.kiPos + data.length) (k.fs.inode ino).iSize) then
        rewriteSmallFile k ino iocb data
      else convertSmallToBig k ino iocb data := by
  have hinode : k.fs.inode ino = k.inode ino := rfl
  unfold customWriteIter
  rw [hinode]
  by_cases hnew : isNew (k.inode ino).indexBlock = true
  · have h0 : (k.inode ino).indexBlock = 0 := by simpa [isNew] using hnew
    simp only [if_pos hnew, writeSmallFile_new _ _ h0]
  · have h0 : (k.inode ino).indexBlock ≠ 0 := by simpa [isNew] using hnew
    simp only [if_neg hnew, writeSmallFile_rewrite _ _ h0]

theorem customWriteIter_refs (h : k.fs.Coherent ino)
    (hno : ¬k.fs.WriteBreaks ino iocb data.length) :
    RefsTo 0 k 0 (customWriteIter k ino iocb data) := by
  unfold Fs.WriteBreaks at hno
  rw [customWriteIter_eq]
  simp only at hno
  split at hno
  · rename_i hnew
    have h0 : (k.fs.inode ino).indexBlock = 0 := by simpa [isNew] using hnew
    rw [if_pos hnew]
    split at hno
    · rename_i hs
      rw [if_pos hs]
      exact writeSmallFileNew_refs (startSize_le k.fs (h.empty h0) hs) hno
    · rename_i hs
      rw [if_neg hs]
      exact writeBigFile_refs hno
  · rename_i hnew
    rw [if_neg hnew]
    split at hno
    · rename_i hb
      rw [if_pos hb]
      exact writeBigFile_refs hno
    · rename_i hb
      rw [if_neg hb]
      split at hno
      · rename_i hs
        rw [if_pos hs]
        exact rewriteSmallFile_refs hno
      · rename_i hs
        rw [if_neg hs]
        exact convertSmallToBig_refs (fun hlt hyes => hno ⟨hlt, hyes⟩)

theorem customWriteIter_refs_cut (data : List UInt8) (h : fs.Coherent ino)
    (hyes : fs.WriteBreaks ino iocb data.length) :
    ∃ answers, ∀ k : Kernel, k.fs = fs → k.faults = answers →
      ¬RefsKept k (customWriteIter k ino iocb data) := by
  unfold Fs.WriteBreaks at hyes
  simp only at hyes
  simp only [customWriteIter_eq]
  split at hyes
  · rename_i hnew
    have h0 : (fs.inode ino).indexBlock = 0 := by simpa [isNew] using hnew
    split at hyes
    · rename_i hs
      obtain ⟨answers, hcut⟩ := writeSmallFileNew_refs_cut (startSize_le fs (h.empty h0) hs) hyes
      refine ⟨answers, fun k hfs hf => ?_⟩
      rw [hfs, if_pos hnew, if_pos hs]
      exact hcut k hfs hf
    · rename_i hs
      refine ⟨[.success, .success, .failure 0], fun k hfs hf => ?_⟩
      rw [hfs, if_pos hnew, if_neg hs]
      subst hfs
      exact writeBigFile_not_kept hyes hf
  · rename_i hnew
    have h0 : (fs.inode ino).indexBlock ≠ 0 := by simpa [isNew] using hnew
    split at hyes
    · rename_i hb
      refine ⟨[.success, .success, .failure 0], fun k hfs hf => ?_⟩
      rw [hfs, if_neg hnew, if_pos hb]
      subst hfs
      exact writeBigFile_not_kept hyes hf
    · rename_i hb
      have hsmall : isSmallFile (fs.inode ino) = true := by simpa using hb
      split at hyes
      · rename_i hs
        obtain ⟨answers, hcut⟩ := rewriteSmallFile_refs_cut (h.chained h0 hsmall hyes.1) hyes
        refine ⟨answers, fun k hfs hf => ?_⟩
        rw [hfs, if_neg hnew, if_neg hb, if_pos hs]
        exact hcut k hfs hf
      · rename_i hs
        obtain ⟨answers, hcut⟩ := convertSmallToBig_refs_cut data hyes.1 hyes.2
        refine ⟨answers, fun k hfs hf => ?_⟩
        rw [hfs, if_neg hnew, if_neg hb, if_neg hs]
        exact hcut k hfs hf

/-- **A write returns its references** whatever the environment answers iff it has nothing to copy
and moves nothing, or stops before it copies into a buffer. -/
theorem customWriteIter_keepsRefs_iff (h : k.fs.Coherent ino) :
    KeepsRefs (fun k => customWriteIter k ino iocb data) k ↔
      ¬k.fs.WriteBreaks ino iocb data.length := by
  constructor
  · intro hkeep hyes
    obtain ⟨answers, hcut⟩ := customWriteIter_refs_cut data h hyes
    exact hcut (k.answered answers) rfl rfl (hkeep answers)
  · intro hno answers
    exact customWriteIter_refs h hno

/-- A write changes the number of slices of a small file, which moves it. -/
def Fs.Moves (fs : Fs) (ino : Nat) (iocb : Kiocb) (len : Nat) : Prop :=
  let ci := fs.inode ino
  ci.indexBlock ≠ 0 ∧ isSmallFile ci = true ∧ willBeSmall (max (iocb.kiPos + len) ci.iSize) = true ∧
    ci.numSlices ≠ 0 ∧ ci.numSlices ≠ divRoundUp (max (iocb.startPos ci + len) ci.iSize) 128

theorem customWriteIter_refs_ok {chain : List Nat} (hf : k.faults = []) (h : Chained k.fs chain)
    (hc : k.fs.Coherent ino) (hstay : ¬k.fs.Moves ino iocb data.length) :
    RefsTo 0 k 0 (customWriteIter k ino iocb data) := by
  rw [customWriteIter_eq]
  split
  · rename_i hnew
    have h0 : (k.fs.inode ino).indexBlock = 0 := by simpa [isNew] using hnew
    split
    · rename_i hs
      exact writeSmallFileNew_refs_ok hf h (startSize_le k.fs (hc.empty h0) hs)
    · exact writeBigFile_refs_ok hf
  · rename_i hnew
    have h0 : (k.fs.inode ino).indexBlock ≠ 0 := by simpa [isNew] using hnew
    split
    · exact writeBigFile_refs_ok hf
    · rename_i hb
      split
      · rename_i hs
        by_cases hn : (k.fs.inode ino).numSlices = 0
        · apply rewriteSmallFile_refs
          exact fun hbad => hbad.1 hn
        · apply rewriteSmallFile_refs_ok hf
          by_contra hne
          exact hstay ⟨h0, by simpa using hb, hs, hn, hne⟩
      · exact convertSmallToBig_refs_ok hf

/-- Without failures every read returns its references, and so does every write that does not move a
small file. -/
theorem bufferRefs_kept_ok {chain : List Nat} {Z : Prop} (hf : k.faults = []) (h : WF k.fs chain Z)
    (hl : k.fs.Live ino) (hd : (k.fs.inode ino).kind ≠ .dir) :
    (∀ pos count, RefsKept k (customReadIter k ino pos count)) ∧
    ∀ iocb data, ¬k.fs.Moves ino iocb data.length →
      RefsKept k (customWriteIter k ino iocb data) := by
  have hc := h.coherent hl hd
  refine ⟨fun pos count => ?_, fun iocb data hstay => ?_⟩
  · apply customReadIter_refs_ok hf
    intro hs hsize
    have h0 : (k.fs.inode ino).indexBlock ≠ 0 := fun h0 => by
      have := hc.empty h0
      have : (k.inode ino).iSize = (k.fs.inode ino).iSize := rfl
      omega
    have hdir : sIsDir (k.fs.inode ino).iMode = false := by simpa [Inode.kind_dir] using hd
    have hblocks : (k.fs.inode ino).iBlocks = 0 := by
      simpa [isSmallFile, Kernel.inode] using hs
    by_cases hn : (k.fs.inode ino).numSlices = 0
    · have hempty := h.stray ino ⟨hl, Inode.kind_stray.2 ⟨hdir, hblocks, h0, hn⟩⟩
      have : (k.inode ino).iSize = (k.fs.inode ino).iSize := rfl
      omega
    · have hpos := (h.slices.file ino ⟨hl, Inode.kind_small.2 ⟨hdir, hblocks, h0, hn⟩⟩).slice_pos
      exact Nat.ne_of_gt hpos
  · exact customWriteIter_refs_ok hf h.chained hc hstay

/-- **Buffer references** of the calls on a file: which of them give back what they take, and no
more, whatever the environment answers; and without failures, in a well-formed state, all but the
writes that move a small file. -/
theorem bufferRefs_kept_iff (h : k.fs.Coherent ino) :
    (∀ pos count, KeepsRefs (fun k => customReadIter k ino pos count) k ↔
      ¬k.fs.CopiesOut ino pos count) ∧
    (∀ iocb data, KeepsRefs (fun k => customWriteIter k ino iocb data) k ↔
      ¬k.fs.WriteBreaks ino iocb data.length) ∧
    ∀ chain Z, WF k.fs chain Z → k.fs.Live ino → (k.fs.inode ino).kind ≠ .dir →
      (∀ pos count, RefsKept (k.answered []) (customReadIter (k.answered []) ino pos count)) ∧
      ∀ iocb data, ¬k.fs.Moves ino iocb data.length →
        RefsKept (k.answered []) (customWriteIter (k.answered []) ino iocb data) :=
  ⟨customReadIter_keepsRefs_iff k ino, fun _ _ => customWriteIter_keepsRefs_iff h,
    fun _ _ hwf hl hd => bufferRefs_kept_ok (k := k.answered []) rfl hwf hl hd⟩

end Write

/-- Reading behind the end of a small file, and reading its first byte. -/
theorem bufferRefs_kept_iff_threeBytes : ∃ k,
    KeepsRefs (fun k => customReadIter k 2 3 1) k ∧ ¬KeepsRefs (fun k => customReadIter k 2 0 1) k ∧
      ¬KeepsRefs (fun k => customWriteIter k 2 ⟨0, false⟩ [1]) k := by
  obtain ⟨chain, hwf, -⟩ := threeBytesAnd_inv []
  have hkeep := @bufferRefs_kept_iff (threeBytesAnd []) 2
    (hwf.coherent (by decide +kernel) (by decide +kernel))
  refine ⟨threeBytesAnd [], (hkeep.1 3 1).2 fun h => ?_, fun h => ?_, fun h => ?_⟩
  · have hend : min 1 (((threeBytesAnd []).fs.inode 2).iSize - 3) = 0 := by decide +kernel
    exact absurd h.1 (by rw [hend]; exact Nat.lt_irrefl 0)
  · refine (hkeep.1 0 1).1 h ⟨by decide +kernel, ?_⟩
    rw [if_pos (by decide +kernel)]
    decide +kernel
  · refine (hkeep.2.1 ⟨0, false⟩ [1]).1 h ?_
    unfold Fs.WriteBreaks
    simp only
    rw [if_neg (by decide +kernel), if_neg (by decide +kernel), if_pos (by decide +kernel)]
    exact ⟨by decide +kernel, by decide +kernel, by decide +kernel, by decide +kernel,
      fun _ => Nat.zero_lt_one⟩

/-- A read that cannot copy to the user releases its buffer twice, and a small file that moves keeps
a reference to its old block, with no failure at all. -/
theorem customReadIter_releasesTwice :
    (∃ chain, WF (threeBytesAnd []).fs chain) ∧ (threeBytesAnd []).fs.Is 2 .small ∧
      ¬RefsKept (threeBytesAnd [.success, .failure 0])
        (customReadIter (threeBytesAnd [.success, .failure 0]) 2 0 1) ∧
      ¬RefsKept (threeBytesAnd [])
        (customWriteIter (threeBytesAnd []) 2 ⟨0, false⟩ (List.replicate 200 9)) := by
  obtain ⟨chain, hwf, -⟩ := threeBytesAnd_inv []
  have hread : (customReadIter (threeBytesAnd [.success, .failure 0]) 2 0 1).value? =
      some ⟨-EFAULT, 0, []⟩ := by decide +kernel
  have hreadOps : (customReadIter (threeBytesAnd [.success, .failure 0]) 2 0 1).kernel.refOps =
      (threeBytesAnd [.success, .failure 0]).refOps ++ [(5, true), (5, false), (5, false)] := by
    decide +kernel
  have hwrite : (customWriteIter (threeBytesAnd []) 2 ⟨0, false⟩ (List.replicate 200 9)).value? =
      some (200, ⟨200, false⟩) := by decide +kernel
  have hwriteOps : (customWriteIter (threeBytesAnd []) 2 ⟨0, false⟩
      (List.replicate 200 9)).kernel.refOps = (threeBytesAnd []).refOps ++ [(5, true), (5, true),
        (5, false), (5, true), (5, false), (5, true), (5, false)] := by decide +kernel
  refine ⟨⟨chain, hwf⟩, by decide +kernel, ?_, ?_⟩
  · rw [refsKept_value hread hreadOps]
    exact not_settles_pair 5
  · rw [refsKept_value hwrite hwriteOps]
    intro hs
    have hcount := hs.count_eq 5
    simp at hcount

end Ouichefs
