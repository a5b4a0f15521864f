import Ouichefs.Read
import Ouichefs.Touch

/-!
# Counts and positions

What a handle gets back from `custom_write_iter`: the count and the new position.

* `customWriteIter_convert`: a write that turns a small file into a big one never returns the number
  of bytes it was given, because the result of `delete_slice` replaces it.
* `sequential_writes`: the first write of a small file leaves the position where it was, so a
  sequence of writes through one handle overwrites itself.
* `append_law`: exactly when an append returns the count, moves the position to the end and leaves
  the old content followed by the data.
-/

set_option autoImplicit false

namespace Ouichefs

open FreeMap

variable {k k' : Kernel} {chain : List Nat} {ino : Nat} {iocb iocb' : Kiocb} {data : List UInt8}

/-! ## Results that are never positive -/

theorem pruneChain_nonpos : ∀ (fuel : Nat) (k k' : Kernel) (cur : Nat) (prev : Option Nat)
    (ret : Int), pruneChain fuel k cur prev = .ok (ret, k') → ret ≤ 0 := by
  intro fuel
  induction fuel with
  | zero =>
      intro k k' cur prev ret h
      cases cur <;> rw [pruneChain] at h <;> cases h
      exact Int.le_refl 0
  | succ fuel ih =>
      intro k k' cur prev ret h
      cases cur with
      | zero =>
          rw [pruneChain] at h
          cases h
          exact Int.le_refl 0
      | succ cur =>
          rw [pruneChain] at h
          split at h
          · cases h
            decide
          · simp only at h
            split at h
            · exact ih _ _ _ _ _ h
            · exact ih _ _ _ _ _ h

/-- `delete_slice` returns 0 or an error. -/
theorem deleteSlice_nonpos {bno slice n : Nat} {ret : Int}
    (h : deleteSlice k bno slice n = .ok (ret, k')) : ret ≤ 0 := by
  cases (deleteSlice_exits k bno slice n).1 h with
  | nothing hnone eq =>
      cases eq
      exact Int.le_refl 0
  | unread hb hn hread eq =>
      cases eq
      decide
  | walked hb hn hread eq => exact pruneChain_nonpos _ _ _ _ _ _ eq.symm

/-- **`convert_small_to_big` returns 0 or an error.** -/
theorem convertSmallToBig_nonpos {ret : Int}
    (h : convertSmallToBig k ino iocb data = .ok ((ret, iocb'), k')) : ret ≤ 0 := by
  cases (convertSmallToBig_exits k ino iocb data).1 h with
  | unread hread eq =>
      cases eq
      decide
  | noCopy hread hmalloc eq =>
      cases eq
      decide
  | fault hread hmalloc hcopy hlen eq =>
      cases eq
      decide
  | noBuffer hread hmalloc hcopy hlen hmalloc' eq =>
      cases eq
      decide
  | combined hread hmalloc hcopy hlen hmalloc' eq =>
      cases (finishConversion_exits ..).1 eq.symm with
      | stopped hrun eq => cases eq
      | restored hrun hret eq =>
          cases eq
          exact hret
      | stuck hrun hret hdel eq => cases eq
      | converted hrun hret hdel eq =>
          cases eq
          exact deleteSlice_nonpos hdel

/-- A file of more than 3968 bytes finds no slices in any block. -/
theorem searchChain_large {size : Nat} (hsize : 3968 < size) : ∀ (fuel : Nat) (k k' : Kernel)
    (cur : Nat) (r : Except Int (Nat × Nat)), searchChain fuel k ino size cur = .ok (r, k') →
    ∃ e ≤ 0, r = .error e := by
  intro fuel
  induction fuel with
  | zero =>
      intro k k' cur r h
      rw [searchChain] at h
      cases h
  | succ fuel ih =>
      intro k k' cur r h
      cases (searchChain_exits fuel k ino size cur).1 h with
      | found hs hget eq =>
          rw [getConsequitiveFreeSlices_large _ _ _ hsize] at hget
          cases hget
          exact absurd rfl hs
      | noBlock hget hnext halloc hret eq =>
          cases eq
          exact ⟨_, hret, rfl⟩
      | linked hget hnext halloc hret eq => exact ih _ _ _ _ eq.symm
      | unread hget hnext hread eq =>
          cases eq
          exact ⟨- EIO, by decide, rfl⟩
      | next hget hnext hread eq => exact ih _ _ _ _ eq.symm

theorem placeSlices_large {size : Nat} (hsize : 3968 < size) {r : Except Int (Nat × Nat)}
    (h : placeSlices k ino size = .ok (r, k')) : ∃ e ≤ 0, r = .error e := by
  cases (placeSlices_exits k ino size).1 h with
  | noBlock hhead halloc hret eq =>
      cases eq
      exact ⟨0, Int.le_refl 0, rfl⟩
  | badHead hhead halloc hret hneg eq => cases eq
  | newHead hhead halloc hret hpos eq => exact searchChain_large hsize _ _ _ _ _ eq.symm
  | unread hhead hread eq =>
      cases eq
      exact ⟨- EIO, by decide, rfl⟩
  | searched hhead hread eq => exact searchChain_large hsize _ _ _ _ _ eq.symm

/-- A first write of more than 3968 bytes in slices returns 0 or an error. -/
theorem writeSmallFileNew_large {ret : Int}
    (hsize : 3968 < max (iocb.startPos (k.inode ino) + data.length) (k.inode ino).iSize)
    (h : writeSmallFileNew k ino iocb data = .ok ((ret, iocb'), k')) : ret ≤ 0 := by
  cases (writeSmallFileNew_exits k ino iocb data).1 h with
  | stopped hplace eq => cases eq
  | noPlace hplace eq =>
      cases eq
      obtain ⟨e, hle, he⟩ := placeSlices_large hsize hplace
      cases he
      exact hle
  | placed hplace eq =>
      obtain ⟨e, -, he⟩ := placeSlices_large hsize hplace
      cases he

theorem finishRelocation_nonpos {old : Inode} {pos count : Nat} {run : Outcome (Int × Kiocb)}
    {ret : Int} (hrun : ∀ r io k₁, run = .ok ((r, io), k₁) → r ≤ 0)
    (h : finishRelocation old ino pos count run = .ok ((ret, iocb'), k')) : ret ≤ 0 := by
  cases (finishRelocation_exits ..).1 h with
  | stopped hstop eq => cases eq
  | kept hkept hret eq =>
      cases eq
      exact hret
  | stuck hmoved hret hdel eq => cases eq
  | moved hmoved hret hdel eq => exact absurd (hrun _ _ _ hmoved) (Int.not_le.2 hret)

/-- Growing a small file past 3968 bytes in slices returns 0 or an error. -/
theorem rewriteSmallFile_large {ret : Int} (hn : (k.inode ino).numSlices ≤ 31)
    (hpos : iocb.startPos (k.inode ino) ≠ 0)
    (hsize : 3968 < iocb.startPos (k.inode ino) + data.length)
    (h : rewriteSmallFile k ino iocb data = .ok ((ret, iocb'), k')) : ret ≤ 0 := by
  cases (rewriteSmallFile_exits k ino iocb data).1 h with
  | inPlace hn' hb hread hsame eq =>
      unfold divRoundUp at hsame
      omega
  | fromStart hreloc hzero eq => exact absurd hzero hpos
  | combined hreloc hnz hmalloc hcopy hlen hmalloc' eq =>
      refine finishRelocation_nonpos (fun r io k₁ hr => ?_) eq.symm
      refine writeSmallFileNew_large ?_ hr
      simp only [Kiocb.startPos, Bool.false_eq_true, if_false, combinedBuf_length]
      unfold Kiocb.startPos at hsize
      omega
  | _ =>
      rename_i eq
      cases eq
      decide

/-! ## Conversion -/

/-- What a conversion of the small file `ino` by a write of `data` at `pos` should leave. -/
structure Converted (fs fs' : Fs) (chain chain' : List Nat) (ino pos : Nat) (data : List UInt8) :
    Prop where
  wf : WF fs' chain'
  big : fs'.Is ino .big
  content : fs'.bigBytes ino 0 (fs'.inode ino).iSize = combinedBuf (fs.smallBytes ino) pos data
  blocks : ∀ r c, r.By ino → Refers fs' chain' r c →
    fs.sbi.bfreeBitmap c = true ∧ fs'.sbi.bfreeBitmap c = false
  slices : ∀ b j, fs.OwnsSlice ino b j →
    fs'.sbi.bfreeBitmap b = true ∨ (sliceBitmap (fs'.disk b)).getLsbD j = true
  inode : ∀ i, i ≠ ino → fs'.inode i = fs.inode i
  disk : ∀ i r c, i ≠ ino → r.By i → Refers fs chain r c →
    Refers fs' chain' r c ∧ fs'.disk c = fs.disk c
  small : ∀ i, i ≠ ino → fs.Is i .small → fs'.smallBytes i = fs.smallBytes i

/-- A write to the small file `ino` that takes it past 3968 bytes does what it is for. -/
def Converts (k : Kernel) (chain : List Nat) (ino : Nat) (iocb : Kiocb) (data : List UInt8) :
    Prop :=
  ∃ k' chain', customWriteIter k ino iocb data =
      .ok (((data.length : Int), { iocb with kiPos := iocb.kiPos + data.length }), k') ∧
    Converted k.fs k'.fs chain chain' ino iocb.kiPos data

/-- `custom_write_iter` sends a write that takes a small file past 3968 bytes to
`convert_small_to_big`. -/
theorem customWriteIter_convert (hs : k.fs.Is ino .small)
    (hsize : 3968 < max (iocb.kiPos + data.length) (k.inode ino).iSize) :
    customWriteIter k ino iocb data = convertSmallToBig k ino iocb data := by
  obtain ⟨-, hblocks, hidx, -⟩ := Inode.kind_small.1 hs.2
  have hblocks' : (k.inode ino).iBlocks = 0 := hblocks
  have hidx' : (k.inode ino).indexBlock ≠ 0 := hidx
  unfold customWriteIter isNew isSmallFile willBeSmall
  simp only [beq_eq_false_iff_ne.2 hidx', hblocks', beq_self_eq_true, Bool.not_true,
    Bool.false_eq_true, if_false, decide_eq_true_eq]
  rw [if_neg (Nat.not_le.2 hsize)]

/-- **No conversion succeeds**: the byte count is replaced by the result of `delete_slice`. -/
theorem customWriteIter_converts_never (hs : k.fs.Is ino .small) (hlen : 1 ≤ data.length)
    (hsize : 3968 < max (iocb.kiPos + data.length) (k.fs.inode ino).iSize) :
    ¬Converts k chain ino iocb data := by
  rintro ⟨k', chain', hrun, -⟩
  rw [customWriteIter_convert hs hsize] at hrun
  have hle := convertSmallToBig_nonpos hrun
  omega

/-- The hypotheses under which a conversion should succeed. -/
structure CanConvert (k : Kernel) (chain : List Nat) (ino : Nat) (iocb : Kiocb)
    (data : List UInt8) : Prop where
  faults : k.faults = []
  wf : WF k.fs chain
  small : k.fs.Is ino .small
  append : iocb.append = false
  count : 1 ≤ data.length
  grows : 3968 < max (iocb.kiPos + data.length) (k.fs.inode ino).iSize
  fits : max (iocb.kiPos + data.length) (k.fs.inode ino).iSize ≤ 4194304
  room : divRoundUp (max (iocb.kiPos + data.length) (k.fs.inode ino).iSize) 4096 + 1 ≤
    k.fs.sbi.nrFreeBlocks

/-- A file of one byte. -/
def oneByte : List Call := [(Op.create 1 [97] 0o100644).call, (Op.write 2 0 [1]).call]

theorem oneByte_canConvert :
    ∃ chain, CanConvert ((emptyImage 16 8).after oneByte) chain 2 ⟨3968, false⟩ [5] := by
  have hrun : ∃ chain, PlainInv ((emptyImage 16 8).after oneByte) chain :=
    emptyImage_after (by decide +kernel)
  obtain ⟨chain, hinv⟩ := hrun
  exact ⟨chain, hinv.faults, hinv.wf, by decide +kernel, rfl, by decide, by decide +kernel,
    by decide +kernel, by decide +kernel⟩

/-- Byte 3968 of a file of one byte: the encoded pair is read as an index block. -/
theorem customWriteIter_converts_eio : ∃ k chain, CanConvert k chain 2 ⟨3968, false⟩ [5] ∧
    ¬Converts k chain 2 ⟨3968, false⟩ [5] := by
  obtain ⟨chain, hcan⟩ := oneByte_canConvert
  refine ⟨_, chain, hcan, ?_⟩
  rintro ⟨k', chain', hrun, -⟩
  have hval : (customWriteIter ((emptyImage 16 8).after oneByte) 2 ⟨3968, false⟩ [5]).value? =
      some (- EIO, ⟨3968, false⟩) := by decide +kernel
  rw [hrun] at hval
  cases hval

theorem customWriteIter_converts_never_oneByte : ∃ k chain,
    CanConvert k chain 2 ⟨3968, false⟩ [5] ∧ ¬Converts k chain 2 ⟨3968, false⟩ [5] := by
  obtain ⟨chain, hcan⟩ := oneByte_canConvert
  exact ⟨_, chain, hcan, customWriteIter_converts_never hcan.small hcan.count hcan.grows⟩

/-! ## Sequential writes -/

/-- The buffers, written one after the other, each return their length and advance the position,
and leave them appended to `acc` as the content of the file. -/
def Concatenates (ino : Nat) : Kernel → Kiocb → List UInt8 → List (List UInt8) → Prop
  | k, _, acc, [] => k.fs.content ino = acc
  | k, iocb, acc, b :: bs => ∃ k', customWriteIter k ino iocb b =
        .ok (((b.length : Int), { iocb with kiPos := iocb.kiPos + b.length }), k') ∧
      Concatenates ino k' { iocb with kiPos := iocb.kiPos + b.length } (acc ++ b) bs

/-- **Sequential writes never concatenate**: the first one leaves the position where it was. -/
theorem customWriteIter_concatenates_iff {Z : Prop} (h : WF k.fs chain Z)
    (hfresh : k.fs.Is ino .fresh) (bufs : List (List UInt8)) (hne : ∀ b ∈ bufs, b ≠ [])
    (hlen : bufs.flatten.length ≤ 3968) :
    Concatenates ino k ⟨0, false⟩ [] bufs ↔ bufs = [] := by
  cases bufs with
  | nil =>
      have hcontent : k.fs.content ino = [] := by
        simp [Fs.content, Fs.oldBytes, hfresh.2]
      exact ⟨fun _ => rfl, fun _ => hcontent⟩
  | cons b bs =>
      refine ⟨?_, fun hc => by cases hc⟩
      rintro ⟨k', hrun, -⟩
      have hb : 1 ≤ b.length := List.length_pos_iff.2 (hne b (List.mem_cons_self ..))
      have hle : 0 + b.length ≤ 3968 := by
        rw [List.flatten_cons, List.length_append] at hlen
        omega
      have hzero : (k.inode ino).iSize = 0 := (h.fresh ino hfresh).1
      have hidx : (k.inode ino).indexBlock = 0 := (Inode.kind_fresh.1 hfresh.2).2.2
      rw [customWriteIter_small (Or.inl hfresh) (by rw [hzero]; simpa using hle),
        writeSmallFile_new _ _ hidx] at hrun
      rcases writeSmallFileNew_kiPos ino k hrun with hneg | hstay
      · omega
      · have hstart : 0 + b.length = 0 := hstay
        omega

/-- One byte written to a new file leaves the position at 0. -/
theorem customWriteIter_concatenates_oneByte : ∃ k chain, k.faults = [] ∧ WF k.fs chain ∧
    k.fs.Is 2 .fresh ∧ ¬Concatenates 2 k ⟨0, false⟩ [] [[1]] := by
  have hrun : ∃ chain, PlainInv ((emptyImage 8 8).after [(Op.create 1 [97] 0o100644).call]) chain :=
    emptyImage_after (by decide +kernel)
  obtain ⟨chain, hinv⟩ := hrun
  refine ⟨_, chain, hinv.faults, hinv.wf, by decide +kernel, ?_⟩
  rintro ⟨k', hrun, -⟩
  have hval : (customWriteIter ((emptyImage 8 8).after [(Op.create 1 [97] 0o100644).call]) 2
      ⟨0, false⟩ [1]).value? = some (1, ⟨0, false⟩) := by decide +kernel
  rw [hrun] at hval
  cases hval

theorem customWriteIter_concatenates_iff_oneByte : ∃ k chain, WF k.fs chain ∧
    k.fs.Is 2 .fresh ∧ (Concatenates 2 k ⟨0, false⟩ [] [[1]] ↔ [[(1 : UInt8)]] = []) := by
  have hrun : ∃ chain, PlainInv ((emptyImage 8 8).after [(Op.create 1 [97] 0o100644).call]) chain :=
    emptyImage_after (by decide +kernel)
  obtain ⟨chain, hinv⟩ := hrun
  have hfresh : ((emptyImage 8 8).after [(Op.create 1 [97] 0o100644).call]).fs.Is 2 .fresh := by
    decide +kernel
  exact ⟨_, chain, hinv.wf, hfresh,
    customWriteIter_concatenates_iff hinv.wf hfresh [[1]] (by decide) (by decide)⟩

/-! ## Appending -/

/-- An append of `data` to the file `ino` does what it is for. -/
def Appends (k : Kernel) (chain : List Nat) (ino : Nat) (iocb : Kiocb) (data : List UInt8)
    (Z : Prop) : Prop :=
  ∃ iocb' k' chain', customWriteIter k ino iocb data = .ok (((data.length : Int), iocb'), k') ∧
    iocb'.kiPos = (k.inode ino).iSize + data.length ∧ WF k'.fs chain' Z ∧
    k'.fs.content ino = k.fs.content ino ++ data ∧
    (k'.fs.Is ino .small → (k.inode ino).iSize + data.length ≤ 3968) ∧
    chain'.length ≤ chain.length + 1

/-- The hypotheses under which an append should succeed; free blocks may hold anything. -/
structure CanAppend (k : Kernel) (chain : List Nat) (ino : Nat) (iocb : Kiocb)
    (data : List UInt8) (Z : Prop) : Prop where
  faults : k.faults = []
  wf : WF k.fs chain Z
  append : iocb.append = true
  kiPos : iocb.kiPos ≤ (k.inode ino).iSize
  count : 1 ≤ data.length
  fits : (k.inode ino).iSize + data.length ≤ 4194304
  room : divRoundUp ((k.inode ino).iSize + data.length) 4096 + 1 ≤ k.fs.sbi.nrFreeBlocks

variable {Z : Prop}

theorem CanAppend.startPos (h : CanAppend k chain ino iocb data Z) :
    iocb.startPos (k.inode ino) = (k.inode ino).iSize := by
  unfold Kiocb.startPos
  rw [h.append, if_pos rfl]

/-- The room that is asked for leaves a block for a chain of sliced blocks. -/
theorem CanAppend.not_full (h : CanAppend k chain ino iocb data Z) (n : Nat) :
    ¬k.fs.NoRoom chain n := by
  rintro ⟨-, hfull⟩
  have hzero := h.wf.sb.count.trans (countBits_eq_zero_iff.2 hfull)
  have hroom := h.room
  omega

/-- `combined_buf` at the end of the old content. -/
theorem combinedBuf_end (old data : List UInt8) : combinedBuf old old.length data = old ++ data := by
  simp [combinedBuf]

/-- The content of a big file after an append. -/
theorem BigWritten.content_append (hw : BigWritten k k' chain ino (k.inode ino).iSize data)
    (h : WF k.fs chain) (hk : k.fs.Is ino .fresh ∨ k.fs.Is ino .big) :
    k'.fs.content ino = k.fs.content ino ++ data := by
  have hsize : (k'.fs.inode ino).iSize = (k.inode ino).iSize + data.length :=
    hw.size.trans (Nat.max_eq_left (Nat.le_add_right _ _))
  have hbytes := hw.bytes (Or.inl (Nat.le_refl _))
  have hnew : k'.fs.bigBytes ino (0 + (k.inode ino).iSize) data.length = data := by
    refine List.ext_getElem (by simp) fun i h1 h2 => ?_
    have hin : (k.inode ino).iSize ≤ (k.inode ino).iSize + i ∧
        (k.inode ino).iSize + i < (k.inode ino).iSize + data.length := by omega
    simp only [Fs.bigBytes, List.getElem_map, List.getElem_range, Nat.zero_add]
    rw [hbytes, if_pos hin, Nat.add_sub_cancel_left, List.getD_eq_getElem _ _ h2]
  have hold : k'.fs.bigBytes ino 0 (k.inode ino).iSize = k.fs.content ino := by
    unfold Fs.content
    rcases hk with hk | hk
    · have hzero : (k.inode ino).iSize = 0 := (h.fresh ino hk).1
      rw [hzero]
      simp [Fs.bigBytes, Fs.oldBytes, hk.2]
    · rw [if_pos hk.2]
      refine List.map_congr_left fun i hi => ?_
      have hlt := List.mem_range.1 hi
      rw [hbytes, if_neg (by omega), Fs.oldByte, if_pos hk.2]
  rw [Fs.content, if_pos hw.big.2, hsize, Fs.bigBytes_add, hnew, hold]

/-- Appending through `write_big_file`. -/
theorem CanAppend.big (h : CanAppend k chain ino iocb data Z) (hz : k.fs.Blank)
    (hk : k.fs.Is ino .fresh ∨ k.fs.Is ino .big)
    (hrun : customWriteIter k ino iocb data = writeBigFile k ino iocb data) :
    Appends k chain ino iocb data Z := by
  have hwf := h.wf.blank hz
  have hsz : max ((k.inode ino).iSize + data.length) (k.inode ino).iSize =
      (k.inode ino).iSize + data.length := Nat.max_eq_left (Nat.le_add_right _ _)
  rcases writeBigFile_spec iocb data h.faults hwf hk h.startPos hsz h.fits with
    ⟨k', heq, hw⟩ | ⟨k', -, hfail⟩
  · refine ⟨_, k', chain, hrun.trans heq, rfl, hw.kept.wf.weaken, ?_, fun hs => ?_, Nat.le_succ _⟩
    · exact hw.content_append hwf hk
    · cases hs.kind_unique hw.big
  · have hroom := h.room
    have hlack := hfail.lack
    omega

/-- A short first append leaves the position at 0. -/
theorem CanAppend.fresh_short (h : CanAppend k chain ino iocb data Z) (hk : k.fs.Is ino .fresh)
    (hle : data.length ≤ 3968) : ¬Appends k chain ino iocb data Z := by
  rintro ⟨iocb', k', chain', hrun, hpos, -⟩
  have hzero : (k.inode ino).iSize = 0 := (h.wf.fresh ino hk).1
  have hkiPos := h.kiPos
  have hcount := h.count
  have hidx : (k.inode ino).indexBlock = 0 := (Inode.kind_fresh.1 hk.2).2.2
  rw [customWriteIter_small (Or.inl hk) (by omega), writeSmallFile_new _ _ hidx] at hrun
  rcases writeSmallFileNew_kiPos ino k hrun with hneg | hstay
  · omega
  · rw [h.startPos] at hstay
    omega

/-- An append that needs more slices moves the file and succeeds. -/
theorem CanAppend.small_moves (h : CanAppend k chain ino iocb data Z) (hz : k.fs.Blank)
    (hk : k.fs.Is ino .small) (hle : (k.inode ino).iSize + data.length ≤ 3968)
    (hne : divRoundUp ((k.inode ino).iSize + data.length) 128 ≠ divRoundUp (k.inode ino).iSize 128) :
    Appends k chain ino iocb data Z := by
  have hwf := h.wf.blank hz
  have hkiPos := h.kiPos
  have hmax : max ((k.inode ino).iSize + data.length) (k.inode ino).iSize =
      (k.inode ino).iSize + data.length := Nat.max_eq_left (Nat.le_add_right _ _)
  have hslices : (k.inode ino).numSlices = divRoundUp (k.inode ino).iSize 128 :=
    (h.wf.slices.file ino hk).slices
  have hrun : customWriteIter k ino iocb data = writeSmallFile k ino iocb data :=
    customWriteIter_small (Or.inr hk) (by omega)
  rcases writeSmallFile_relocate h.faults hwf.toCore hk h.startPos hle
    (by rw [hmax, hslices]; exact hne.symm) with ⟨k', chain', io, heq, hw⟩ | ⟨hno, -⟩
  · refine ⟨_, k', chain', hrun.trans heq, rfl, (hw.written hwf).wf.weaken, ?_, fun _ => hle,
      hw.length⟩
    have hold : k.fs.content ino = k.fs.smallBytes ino := by
      simp [Fs.content, Fs.oldBytes, hk.2]
    have hnew : k'.fs.content ino = k'.fs.smallBytes ino := by
      simp [Fs.content, Fs.oldBytes, hw.small.2]
    rw [hold, hnew, hw.bytes]
    have hend := combinedBuf_end (k.fs.smallBytes ino) data
    rw [Fs.smallBytes_length] at hend
    exact hend
  · exact absurd hno (h.not_full _)

/-- An append that fits the slices of the file leaves the position at its start. -/
theorem CanAppend.small_stays (h : CanAppend k chain ino iocb data Z) (hk : k.fs.Is ino .small)
    (hle : (k.inode ino).iSize + data.length ≤ 3968)
    (heq : divRoundUp ((k.inode ino).iSize + data.length) 128 = divRoundUp (k.inode ino).iSize 128) :
    ¬Appends k chain ino iocb data Z := by
  rintro ⟨iocb', k', chain', hrun, hpos, -⟩
  have hkiPos := h.kiPos
  have hcount := h.count
  have hmax : max ((k.inode ino).iSize + data.length) (k.inode ino).iSize =
      (k.inode ino).iSize + data.length := Nat.max_eq_left (Nat.le_add_right _ _)
  have hslices : (k.inode ino).numSlices = divRoundUp (k.inode ino).iSize 128 :=
    (h.wf.slices.file ino hk).slices
  have hidx : (k.inode ino).indexBlock ≠ 0 := (Inode.kind_small.1 hk.2).2.2.1
  rw [customWriteIter_small (Or.inr hk) (by omega), writeSmallFile_rewrite _ _ hidx] at hrun
  rcases rewriteSmallFile_kiPos ino k (by rw [h.startPos, hmax, hslices, heq]) hrun with
    hneg | hstay
  · omega
  · rw [h.startPos] at hstay
    omega

/-- An append past 3968 bytes to a small file fails, whichever way `custom_write_iter` sends it. -/
theorem CanAppend.small_large (h : CanAppend k chain ino iocb data Z) (hk : k.fs.Is ino .small)
    (hlt : 3968 < (k.inode ino).iSize + data.length) : ¬Appends k chain ino iocb data Z := by
  rintro ⟨iocb', k', chain', hrun, -⟩
  have hok := h.wf.slices.file ino hk
  have hcount := h.count
  have hidx : (k.inode ino).indexBlock ≠ 0 := (Inode.kind_small.1 hk.2).2.2.1
  have hpos : (k.inode ino).iSize ≠ 0 := Nat.pos_iff_ne_zero.1 (hok.size_pos hk).1
  by_cases hclass : max (iocb.kiPos + data.length) (k.inode ino).iSize ≤ 3968
  · rw [customWriteIter_small (Or.inr hk) hclass, writeSmallFile_rewrite _ _ hidx] at hrun
    have hfits := hok.fits
    have hslice := hok.slice_pos
    have hle := rewriteSmallFile_large (show (k.fs.inode ino).numSlices ≤ 31 by omega)
      (by rw [h.startPos]; exact hpos) (by rw [h.startPos]; exact hlt) hrun
    omega
  · rw [customWriteIter_convert hk (Nat.lt_of_not_le hclass)] at hrun
    have hle := convertSmallToBig_nonpos hrun
    omega

/-- The appends of `n` bytes that set the position: to a big file, a first write that makes one, and
an append to a small file that stays small and needs more slices. -/
def Fs.AppendsWell (fs : Fs) (ino n : Nat) : Prop :=
  fs.Is ino .big ∨ (fs.Is ino .fresh ∧ 3968 < n) ∨
    (fs.Is ino .small ∧ (fs.inode ino).iSize + n ≤ 3968 ∧
      divRoundUp ((fs.inode ino).iSize + n) 128 ≠ divRoundUp (fs.inode ino).iSize 128)

theorem CanAppend.well (h : CanAppend k chain ino iocb data Z)
    (hk : k.fs.Is ino .fresh ∨ k.fs.Is ino .small ∨ k.fs.Is ino .big)
    (happ : Appends k chain ino iocb data Z) : k.fs.AppendsWell ino data.length := by
  rcases hk with hk | hk | hk
  · by_cases hlen : 3968 < data.length
    · exact Or.inr (Or.inl ⟨hk, hlen⟩)
    · exact absurd happ (h.fresh_short hk (Nat.le_of_not_lt hlen))
  · by_cases hle : (k.inode ino).iSize + data.length ≤ 3968
    · refine Or.inr (Or.inr ⟨hk, hle, fun heq => ?_⟩)
      exact h.small_stays hk hle heq happ
    · exact absurd happ (h.small_large hk (Nat.lt_of_not_le hle))
  · exact Or.inl hk

theorem CanAppend.of_well (h : CanAppend k chain ino iocb data Z) (hz : k.fs.Blank)
    (hwell : k.fs.AppendsWell ino data.length) : Appends k chain ino iocb data Z := by
  rcases hwell with hk | ⟨hk, hlen⟩ | ⟨hk, hle, hne⟩
  · exact h.big hz (Or.inr hk) (customWriteIter_big h.wf.toCore hk)
  · have hlarge : 3968 < max (iocb.kiPos + data.length) (k.inode ino).iSize := by omega
    exact h.big hz (Or.inl hk) (customWriteIter_firstBig hk hlarge)
  · exact h.small_moves hz hk hle hne

theorem oneByte_canAppend : ∃ chain, CanAppend ((emptyImage 16 8).after oneByte) chain 2
    ⟨0, true⟩ (List.replicate 128 5) True := by
  have hrun : ∃ chain, PlainInv ((emptyImage 16 8).after oneByte) chain :=
    emptyImage_after (by decide +kernel)
  obtain ⟨chain, hinv⟩ := hrun
  exact ⟨chain, hinv.faults, hinv.wf, rfl, Nat.zero_le _, by decide +kernel, by decide +kernel,
    by decide +kernel⟩

end Ouichefs
