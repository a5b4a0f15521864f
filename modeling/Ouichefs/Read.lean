import Ouichefs.Run

/-!
# Reading

What `custom_read_iter` delivers.  On a big file it delivers the bytes from the position on, holes
reading as zeros.  On a small file it always copies from the first byte and leaves the position at
the number of bytes copied, so only a read that starts at the beginning is right.

* `customReadIter_small`: the result on every small file, position and count.
* `readBigLoop_spec`: the loop over the blocks of a big file.
-/

set_option autoImplicit false

namespace Ouichefs

variable {k : Kernel} {chain : List Nat} {ino : Nat} {Z : Prop}

/-! ## Small files -/

/-- What `custom_read_iter` hands out for a small file. -/
def Fs.smallRead (fs : Fs) (ino pos count : Nat) : ReadResult :=
  let n := min count ((fs.inode ino).iSize - pos)
  if n = 0 then ⟨0, pos, []⟩ else ⟨n, n, (fs.smallBytes ino).take n⟩

theorem Fs.smallBytes_take (fs : Fs) (ino : Nat) {n : Nat} (h : n ≤ (fs.inode ino).iSize) :
    (fs.disk (fs.inode ino).getBno).bytes ((fs.inode ino).getSlice * 128) n =
      (fs.smallBytes ino).take n := by
  unfold Fs.smallBytes Page.bytes
  rw [← List.map_take, List.take_range, Nat.min_eq_left h]

/-- A read of slices that exist. -/
theorem customReadIter_slices (hf : k.faults = []) (hblocks : (k.inode ino).iBlocks = 0)
    (hlt : (k.inode ino).getBno < k.fs.sbi.nrBlocks) (hpos : 1 ≤ (k.inode ino).getSlice)
    (pos count : Nat) :
    ∃ k', customReadIter k ino pos count = .ok (k.fs.smallRead ino pos count, k') ∧
      k'.fs = k.fs ∧ k'.faults = [] := by
  have hslice : ¬((k.inode ino).getSlice = 0 ∨ (k.inode ino).getSlice ≥ 32) := by
    have h2 : (k.inode ino).getSlice < 32 := Nat.mod_lt _ (by decide)
    omega
  unfold customReadIter Fs.smallRead
  by_cases hpos : pos ≥ (k.inode ino).iSize
  · have hn : min count ((k.fs.inode ino).iSize - pos) = 0 := by
      rw [Nat.sub_eq_zero_of_le (by exact hpos), Nat.min_zero]
    simp only [hpos, hn, if_true]
    exact ⟨k, rfl, rfl, hf⟩
  have hcount : (if pos + count > (k.inode ino).iSize then (k.inode ino).iSize - pos else count) =
      min count ((k.fs.inode ino).iSize - pos) := by
    show _ = min count ((k.inode ino).iSize - pos)
    split <;> omega
  have hle : min count ((k.fs.inode ino).iSize - pos) ≤ (k.fs.inode ino).iSize := by omega
  simp only [hpos, if_false, hcount]
  generalize min count ((k.fs.inode ino).iSize - pos) = n at hle
  by_cases hn : n = 0
  · simp only [hn, if_true]
    exact ⟨k, rfl, rfl, hf⟩
  simp only [hn, if_false, isSmallFile, hblocks, beq_self_eq_true, if_true,
    Kernel.sbBread_ok hf hlt, hslice, Kernel.copyFromIter_ok (k := k.log _) hf, List.length_take,
    Page.bytes_length, Nat.min_self, ne_eq, not_true_eq_false, Kernel.fs_log]
  have htake : List.take n ((k.fs.disk (k.inode ino).getBno).bytes
      ((k.inode ino).getSlice * 128) n) = (k.fs.smallBytes ino).take n := by
    rw [List.take_of_length_le (by simp)]
    exact k.fs.smallBytes_take ino hle
  rw [htake]
  exact ⟨_, rfl, rfl, hf⟩

/-- **A read of a small file starts at its first byte, whatever the position is.** -/
theorem customReadIter_small (hf : k.faults = []) (h : Core k.fs chain Z)
    (hs : k.fs.Is ino .small) (pos count : Nat) :
    ∃ k', customReadIter k ino pos count = .ok (k.fs.smallRead ino pos count, k') ∧
      k'.fs = k.fs ∧ k'.faults = [] := by
  have hok := h.slices.file ino hs
  exact customReadIter_slices hf (Inode.kind_small.1 hs.2).2.1 (h.chain_used hok.mem).1
    hok.slice_pos pos count

/-- What a reader of byte `pos` on expects. -/
def ReadsAt (content : List UInt8) (pos count : Nat) (out : ReadResult) : Prop :=
  let n := min count (content.length - pos)
  out = ⟨n, pos + n, (content.drop pos).take n⟩

instance (content : List UInt8) (pos count : Nat) (out : ReadResult) :
    Decidable (ReadsAt content pos count out) := inferInstanceAs (Decidable (_ = _))

/-- The read law holds of a small file where nothing is read or the read starts at byte 0. -/
theorem Fs.smallRead_readsAt (fs : Fs) (ino pos count : Nat) :
    ReadsAt (fs.smallBytes ino) pos count (fs.smallRead ino pos count) ↔
      pos = 0 ∨ (fs.inode ino).iSize ≤ pos ∨ count = 0 := by
  unfold ReadsAt Fs.smallRead
  rw [Fs.smallBytes_length]
  constructor
  · intro h
    by_contra hc
    simp only [not_or, Nat.not_le] at hc
    have hn : min count ((fs.inode ino).iSize - pos) ≠ 0 := by omega
    simp only [hn, if_false, ReadResult.mk.injEq] at h
    omega
  · rintro (rfl | h)
    · simp only [Nat.sub_zero, Nat.zero_add, List.drop_zero]
      split
      · rename_i hn
        simp [hn]
      · rfl
    · have hn : min count ((fs.inode ino).iSize - pos) = 0 := by omega
      simp [hn]

theorem Fs.smallRead_zero (fs : Fs) (ino count : Nat) : fs.smallRead ino 0 count =
    ⟨(min count (fs.smallBytes ino).length : Nat), min count (fs.smallBytes ino).length,
      (fs.smallBytes ino).take count⟩ := by
  have h := (fs.smallRead_readsAt ino 0 count).2 (Or.inl rfl)
  unfold ReadsAt at h
  simp only [Nat.sub_zero, Nat.zero_add, List.drop_zero] at h
  rw [h]
  congr 1
  rw [List.take_eq_take_iff]
  omega

/-! ## Reading to the end of the file -/

/-- Read with a buffer of `size` bytes until a call returns nothing; `none` when that does not
happen within the given number of calls. -/
def readAll (ino size : Nat) : Nat → Kernel → Nat → List UInt8 → Option (List UInt8)
  | 0, _, _, _ => none
  | n + 1, k, pos, acc =>
    match customReadIter k ino pos size with
    | .error _ => none
    | .ok (out, k) =>
      if out.ret ≤ 0 then some acc else readAll ino size n k out.kiPos (acc ++ out.delivered)

section ReadAll

variable {size : Nat}

/-- A buffer that is too small reads the head of the file again and again. -/
theorem readAll_stuck (h1 : 1 ≤ size) : ∀ (n : Nat) (k : Kernel) (pos : Nat) (acc : List UInt8),
    k.faults = [] → Core k.fs chain Z → k.fs.Is ino .small → size < (k.fs.inode ino).iSize →
    pos ≤ size → readAll ino size n k pos acc = none := by
  intro n
  induction n with
  | zero => exact fun _ _ _ _ _ _ _ _ => rfl
  | succ n ih =>
      intro k pos acc hf h hs hlt hpos
      obtain ⟨k', hrun, hfs, hf'⟩ := customReadIter_small hf h hs pos size
      have hn : min size ((k.fs.inode ino).iSize - pos) ≠ 0 := by omega
      unfold readAll
      rw [hrun]
      simp only [Fs.smallRead, hn, if_false]
      rw [if_neg (by omega)]
      exact ih k' _ _ hf' (hfs ▸ h) (hfs ▸ hs) (by rw [hfs]; exact hlt) (Nat.min_le_left _ _)

/-- A buffer that holds the whole file reads it with one call. -/
theorem readAll_whole (hf : k.faults = []) (h : Core k.fs chain Z) (hs : k.fs.Is ino .small)
    (hle : (k.fs.inode ino).iSize ≤ size) :
    readAll ino size 2 k 0 [] = some (k.fs.smallBytes ino) := by
  have hpos := (h.slices.file ino hs).size_pos hs
  obtain ⟨k', hrun, hfs, hf'⟩ := customReadIter_small hf h hs 0 size
  have hn : min size ((k.fs.inode ino).iSize - 0) = (k.fs.inode ino).iSize := by omega
  have hn0 : (k.fs.inode ino).iSize ≠ 0 := by omega
  unfold readAll
  rw [hrun]
  simp only [Fs.smallRead, hn, hn0, if_false]
  rw [if_neg (by omega)]
  obtain ⟨k'', hrun', -⟩ := customReadIter_small hf' (hfs ▸ h) (hfs ▸ hs) (k.fs.inode ino).iSize size
  have hend : min size ((k.fs.inode ino).iSize - (k.fs.inode ino).iSize) = 0 := by omega
  unfold readAll
  rw [hrun', hfs]
  simp only [Fs.smallRead, hend, if_true]
  rw [if_pos (by decide), List.take_of_length_le (by simp), List.nil_append]

end ReadAll

/-- **Reading a small file is right exactly from byte 0, and reading it to the end exactly with a
buffer that holds all of it.** -/
theorem customReadIter_small_law {Z : Prop} (hf : k.faults = []) (h : WF k.fs chain Z)
    (hs : k.fs.Is ino .small) (pos count : Nat) {size : Nat} (h1 : 1 ≤ size) :
    ((∃ out k', customReadIter k ino pos count = .ok (out, k') ∧
        ReadsAt (k.fs.smallBytes ino) pos count out) ↔
      pos = 0 ∨ (k.fs.inode ino).iSize ≤ pos ∨ count = 0) ∧
    ((∃ n, readAll ino size n k 0 [] = some (k.fs.smallBytes ino)) ↔
      (k.fs.inode ino).iSize ≤ size) := by
  obtain ⟨k', hrun, -⟩ := customReadIter_small hf h.toCore hs pos count
  constructor
  · rw [← Fs.smallRead_readsAt]
    constructor
    · rintro ⟨out, k₁, hrun', hout⟩
      rw [hrun] at hrun'
      cases hrun'
      exact hout
    · exact fun hout => ⟨_, k', hrun, hout⟩
  · constructor
    · rintro ⟨n, hn⟩
      by_contra hlt
      rw [readAll_stuck h1 n k 0 [] hf h.toCore hs (by omega) (Nat.zero_le _)] at hn
      cases hn
    · exact fun hle => ⟨2, readAll_whole hf h.toCore hs hle⟩

/-- A file of three bytes. -/
def threeBytes : List Call := [(Op.create 1 [97] 0o100644).call, (Op.write 2 0 [7, 8, 9]).call]

theorem threeBytes_inv : ∃ chain, PlainInv ((emptyImage 8 8).after threeBytes) chain :=
  emptyImage_after (by decide +kernel)

/-- The second byte of the file reads as the first. -/
theorem customReadIter_small_misread : ∃ k chain, k.faults = [] ∧ WF k.fs chain ∧
    k.fs.Is 2 .small ∧ ¬∃ out k', customReadIter k 2 1 1 = .ok (out, k') ∧
      ReadsAt (k.fs.smallBytes 2) 1 1 out := by
  obtain ⟨chain, hinv⟩ := threeBytes_inv
  refine ⟨_, chain, hinv.faults, hinv.wf, by decide +kernel, ?_⟩
  rintro ⟨out, k', hrun, hout⟩
  have hval : (customReadIter ((emptyImage 8 8).after threeBytes) 2 1 1).value? =
      some ⟨1, 1, [7]⟩ := by decide +kernel
  rw [hrun] at hval
  cases hval
  revert hout
  decide +kernel

theorem customReadIter_small_law_threeBytes :
    ∃ out k', customReadIter ((emptyImage 8 8).after threeBytes) 2 0 2 = .ok (out, k') ∧
      ReadsAt [7, 8, 9] 0 2 out := by
  obtain ⟨chain, hinv⟩ := threeBytes_inv
  have hbytes : ((emptyImage 8 8).after threeBytes).fs.smallBytes 2 = [7, 8, 9] := by
    decide +kernel
  have hs : ((emptyImage 8 8).after threeBytes).fs.Is 2 .small := by decide +kernel
  have hlaw := customReadIter_small_law hinv.faults hinv.wf hs 0 2 (Nat.le_refl 1)
  rw [hbytes] at hlaw
  exact hlaw.1.2 (Or.inl rfl)

/-! ## Big files -/

/-- Bytes `pos` to `pos + n - 1` of a big file. -/
def Fs.bigBytes (fs : Fs) (ino pos n : Nat) : List UInt8 :=
  (List.range n).map fun i => fs.bigByte ino (pos + i)

@[simp] theorem Fs.bigBytes_length (fs : Fs) (ino pos n : Nat) :
    (fs.bigBytes ino pos n).length = n := by
  simp [Fs.bigBytes]

/-- The content of a file. -/
def Fs.content (fs : Fs) (ino : Nat) : List UInt8 :=
  if (fs.inode ino).kind = .big then fs.bigBytes ino 0 (fs.inode ino).iSize else fs.oldBytes ino

theorem Fs.bigBytes_add (fs : Fs) (ino pos m n : Nat) :
    fs.bigBytes ino pos (m + n) = fs.bigBytes ino pos m ++ fs.bigBytes ino (pos + m) n := by
  unfold Fs.bigBytes
  rw [List.range_add, List.map_append, List.map_map]
  congr 1
  refine List.map_congr_left fun i _ => ?_
  show fs.bigByte ino (pos + (m + i)) = _
  rw [Nat.add_assoc]

/-- Bytes within one block. -/
theorem Fs.bigBytes_block (fs : Fs) (ino pos n : Nat) (h : pos % 4096 + n ≤ 4096) :
    fs.bigBytes ino pos n =
      if indexPtr (fs.indexOf ino) (pos / 4096) = 0 then List.replicate n 0
      else (fs.disk (indexPtr (fs.indexOf ino) (pos / 4096))).bytes (pos % 4096) n := by
  have hbyte : ∀ i < n, fs.bigByte ino (pos + i) =
      if indexPtr (fs.indexOf ino) (pos / 4096) = 0 then 0
      else (fs.disk (indexPtr (fs.indexOf ino) (pos / 4096))).get (pos % 4096 + i) := by
    intro i hi
    have hdiv : (pos + i) / 4096 = pos / 4096 := by omega
    have hmod : (pos + i) % 4096 = pos % 4096 + i := by omega
    unfold Fs.bigByte
    rw [hdiv, hmod]
  unfold Fs.bigBytes
  rw [List.map_congr_left fun i hi => hbyte i (List.mem_range.1 hi)]
  split
  · simp
  · rfl

/-- **The loop of `custom_read_iter` delivers the bytes from the position on.** -/
theorem readBigLoop_spec {fs : Fs} {idx : Nat} (hidx : (fs.inode ino).indexBlock = idx) :
    ∀ (fuel : Nat) (k : Kernel) (pos count : Nat) (acc : List UInt8), k.fs = fs → k.faults = [] →
    (∀ i, pos / 4096 ≤ i → 4096 * i < pos + count →
      indexPtr (fs.indexOf ino) i < fs.sbi.nrBlocks) →
    pos + count ≤ 4194304 → count ≤ fuel →
    ∃ k', readBigLoop idx fuel k pos count acc =
        .ok (.ok (pos + count, acc ++ fs.bigBytes ino pos count), k') ∧
      k'.fs = fs ∧ k'.faults = [] := by
  intro fuel
  induction fuel with
  | zero =>
      intro k pos count acc hfs hf _ _ hle
      obtain rfl : count = 0 := by omega
      exact ⟨k, by simp [readBigLoop, Fs.bigBytes], hfs, hf⟩
  | succ fuel ih =>
      intro k pos count acc hfs hf hptr hmax hle
      cases count with
      | zero => exact ⟨k, by simp [readBigLoop, Fs.bigBytes], hfs, hf⟩
      | succ count =>
          have hblock : fs.disk idx = fs.indexOf ino := by rw [← hidx]; rfl
          generalize hto : min (count + 1) (4096 - pos % 4096) = n
          have hn1 : 1 ≤ n := by omega
          have hrest : ∀ (k' : Kernel) (acc' : List UInt8), k'.fs = fs → k'.faults = [] →
              ∃ k'', readBigLoop idx fuel k' (pos + n) (count + 1 - n) acc' =
                  .ok (.ok (pos + (count + 1), acc' ++ fs.bigBytes ino (pos + n) (count + 1 - n)),
                    k'') ∧ k''.fs = fs ∧ k''.faults = [] := by
            intro k' acc' hfs' hf'
            obtain ⟨k'', hrun, h1, h2⟩ := ih k' (pos + n) (count + 1 - n) acc' hfs' hf'
              (fun i hi hlt => hptr i (by omega) (by omega)) (by omega) (by omega)
            refine ⟨k'', ?_, h1, h2⟩
            rw [hrun]
            congr 4
            omega
          have hsplit : fs.bigBytes ino pos (count + 1) =
              fs.bigBytes ino pos n ++ fs.bigBytes ino (pos + n) (count + 1 - n) := by
            rw [← Fs.bigBytes_add]
            congr 1
            omega
          have hhead := fs.bigBytes_block ino pos n (by omega)
          unfold readBigLoop
          simp only [hto]
          rw [if_neg (by omega), hfs, hblock]
          by_cases hole : indexPtr (fs.indexOf ino) (pos / 4096) = 0
          · -- a hole delivers zeros
            simp only [hole, if_true, Kernel.copyFromIter_ok hf, List.length_take,
              List.length_replicate, Nat.min_self, ne_eq, not_true_eq_false, if_false]
            rw [if_pos hole] at hhead
            rw [hsplit, hhead, ← List.append_assoc, List.take_of_length_le (by simp)]
            exact hrest k _ hfs hf
          · have hlt : indexPtr (fs.indexOf ino) (pos / 4096) < k.fs.sbi.nrBlocks := by
              rw [hfs]
              exact hptr _ (Nat.le_refl _) (by omega)
            simp only [hole, if_false, Kernel.sbBread_ok hf hlt, Kernel.fs_log, hfs,
              Kernel.copyFromIter_ok (k := k.log _) hf, List.length_take, Page.bytes_length,
              Nat.min_self, ne_eq, not_true_eq_false]
            rw [if_neg hole] at hhead
            rw [hsplit, hhead, ← List.append_assoc, List.take_of_length_le (by simp)]
            exact hrest _ _ (by simpa using hfs) (by simpa using hf)

/-- `custom_read_iter` on a big file whose blocks can be read. -/
theorem customReadIter_big {pos count n : Nat} (hf : k.faults = [])
    (hbig : (k.inode ino).iBlocks ≠ 0) (hidx : (k.inode ino).indexBlock ≠ 0)
    (hsize : (k.inode ino).iSize ≤ 4194304)
    (hread : (k.inode ino).indexBlock < k.fs.sbi.nrBlocks)
    (hn : n = min count ((k.inode ino).iSize - pos))
    (hptr : n ≠ 0 → ∀ i, pos / 4096 ≤ i → 4096 * i < pos + n →
      indexPtr (k.fs.indexOf ino) i < k.fs.sbi.nrBlocks) :
    ∃ k', customReadIter k ino pos count = .ok (⟨n, pos + n, k.fs.bigBytes ino pos n⟩, k') ∧
      k'.fs = k.fs ∧ k'.faults = [] := by
  unfold customReadIter
  by_cases hpos : pos ≥ (k.inode ino).iSize
  · obtain rfl : n = 0 := by omega
    simp only [hpos, if_true]
    exact ⟨k, rfl, rfl, hf⟩
  have hcount : (if pos + count > (k.inode ino).iSize then (k.inode ino).iSize - pos else count) =
      n := by
    split <;> omega
  simp only [hpos, if_false, hcount]
  by_cases h0 : n = 0
  · subst h0
    simp only [if_true]
    exact ⟨k, rfl, rfl, hf⟩
  have hsmall : isSmallFile (k.inode ino) = false := by simpa [isSmallFile] using hbig
  obtain ⟨k', hloop, hfs, hf'⟩ := readBigLoop_spec rfl n
    (k.log (.bread (k.inode ino).indexBlock)) pos n [] rfl hf (hptr h0) (by omega) (Nat.le_refl _)
  have hloop' : readBigLoop (k.inode ino).indexBlock n (k.log (.bread (k.inode ino).indexBlock))
      pos n [] = .ok (.ok (pos + n, k.fs.bigBytes ino pos n), k') := hloop
  simp only [h0, if_false, hsmall, Bool.false_eq_true, hidx, Kernel.sbBread_ok hf hread, hloop']
  exact ⟨_, rfl, hfs, hf'⟩

/-- **Reading a big file.**  Whatever the index block holds, a read whose blocks can be read
delivers the bytes from the position on, up to the end of the file. -/
theorem customReadIter_big_law {pos count : Nat} (hf : k.faults = [])
    (hbig : (k.fs.inode ino).iBlocks ≠ 0) (hidx : (k.fs.inode ino).indexBlock ≠ 0)
    (hsize : (k.fs.inode ino).iSize ≤ 4194304)
    (hread : (k.fs.inode ino).indexBlock < k.fs.sbi.nrBlocks)
    (hptr : ∀ i, pos / 4096 ≤ i → 4096 * i < min (pos + count) (k.fs.inode ino).iSize →
      indexPtr (k.fs.indexOf ino) i < k.fs.sbi.nrBlocks) :
    let n := min count ((k.fs.inode ino).iSize - pos)
    ∃ k', customReadIter k ino pos count =
      .ok (⟨n, pos + n, k.fs.bigBytes ino pos n⟩, k') ∧ k'.fs = k.fs ∧ k'.faults = [] := by
  refine customReadIter_big hf hbig hidx hsize hread rfl fun h0 i h1 h2 => hptr i h1 ?_
  have : (k.inode ino).iSize = (k.fs.inode ino).iSize := rfl
  omega

/-- A big file whose first block is a hole. -/
def holeFile : List Call := [(Op.create 1 [97] 0o100644).call, (Op.write 2 4097 [7, 8]).call]

theorem customReadIter_big_law_holeFile :
    ∃ k', customReadIter ((emptyImage 8 8).after holeFile) 2 4095 4 =
      .ok (⟨4, 4099, [0, 0, 7, 8]⟩, k') := by
  obtain ⟨k', hrun, -⟩ := @customReadIter_big_law ((emptyImage 8 8).after holeFile) 2
    4095 4 (by decide +kernel) (by decide +kernel) (by decide +kernel)
    (by decide +kernel) (by decide +kernel) (fun i h1 h2 => by
      have hsize : (((emptyImage 8 8).after holeFile).fs.inode 2).iSize = 4099 := by decide +kernel
      have hall : ∀ i < 2, indexPtr (((emptyImage 8 8).after holeFile).fs.indexOf 2) i <
          ((emptyImage 8 8).after holeFile).fs.sbi.nrBlocks := by decide +kernel
      exact hall i (by omega))
  have hn : min 4 ((((emptyImage 8 8).after holeFile).fs.inode 2).iSize - 4095) = 4 := by
    decide +kernel
  have hbytes : ((emptyImage 8 8).after holeFile).fs.bigBytes 2 4095 4 = [0, 0, 7, 8] := by
    decide +kernel
  simp only [hn, hbytes] at hrun
  exact ⟨k', hrun⟩

end Ouichefs
