import Ouichefs.DirFrame
import Ouichefs.BigLaw
import Ouichefs.SmallRuns

/-!
# Files that an operation leaves alone

`KeepsFile` says that nobody writes to the slices or blocks of a file.  It is enough for the content
(`KeepsFile.content`) and for the zeros behind the end of a big file (`KeepsFile.tailZero`).  Every
operation keeps all files but the one it is about:

* `Created.keepsFile`, `Removed.keepsFile_unlink`, `Removed.keepsFile_rmdir`, `Renamed.keepsFile`,
  `FileWrite.keepsFile`.

`writeBigFile_writes` is the content of the one file that a big write is about.
-/

set_option autoImplicit false

namespace Ouichefs

/-- File `i` keeps its size and its place, and nobody writes to its slices or blocks. -/
structure KeepsFile (fs fs' : Fs) (chain : List Nat) (i : Nat) : Prop where
  view : SameView (fs.inode i) (fs'.inode i)
  small : fs.Is i .small → fs'.smallBytes i = fs.smallBytes i
  disk : fs.Is i .big → ∀ r c, Refers fs chain r c → r.By i → fs'.disk c = fs.disk c

theorem Ref.By.unique {r : Ref} {i j : Nat} (hi : r.By i) (hj : r.By j) : i = j := by
  cases r with
  | index x => exact hi.symm.trans hj
  | data x y => exact hi.symm.trans hj
  | header _ => exact hi.elim
  | sliced _ => exact hi.elim

section Frame

variable {fs fs' : Fs} {chain chain' : List Nat} {i : Nat}

theorem KeepsFile.refl (fs : Fs) (chain : List Nat) (i : Nat) : KeepsFile fs fs chain i :=
  ⟨.refl _, fun _ => rfl, fun _ _ _ _ _ => rfl⟩

theorem KeepsFile.content (h : KeepsFile fs fs' chain i) (hc : Core fs chain) (hl : fs.Live i) :
    fs'.content i = fs.content i :=
  hc.content_congr h.view hl h.small h.disk

theorem KeepsFile.indexOf (h : KeepsFile fs fs' chain i) (hb : fs.Is i .big) :
    fs'.indexOf i = fs.indexOf i := by
  unfold Fs.indexOf
  rw [h.view.indexBlock]
  exact h.disk hb (.index i) _ ⟨Or.inr hb, rfl⟩ rfl

/-- The end of a big file stays zero. -/
theorem KeepsFile.tailZero (h : KeepsFile fs fs' chain i) (hc : Core fs chain) (hb : fs.Is i .big)
    (ht : TailZero fs i) : TailZero fs' i := by
  have hsz := (hc.inodes.big i hb).1
  refine ⟨fun j h1 h2 => ?_, fun x h1 h2 => ?_⟩
  · rw [h.view.iSize] at h1
    rw [h.indexOf hb]
    exact ht.ptrs j h1 h2
  · rw [h.view.iSize] at h1 h2
    rw [← ht.bytes x h1 h2]
    unfold Fs.bigByte
    rw [h.indexOf hb]
    split
    · rfl
    · rename_i h0
      have hx : x / 4096 < 1024 := by
        unfold divRoundUp at h2
        omega
      rw [h.disk hb (.data i (x / 4096)) _ ⟨hb, hx, rfl, h0⟩ rfl]

/-- The blocks of a big file are not the blocks of directories. -/
theorem Core.big_ref_ne_dir {d c : Nat} {r : Ref} (h : Core fs chain) (hd : fs.Is d .dir)
    (hb : fs.Is i .big) (hr : Refers fs chain r c) (hby : r.By i) :
    c ≠ (fs.inode d).indexBlock := by
  refine h.ref_dir_block hd hr ?_
  rintro rfl
  have hdi : d = i := hby
  rw [hdi] at hd
  cases hd.kind_unique hb

theorem FileWrite.keepsFile {f : Nat} (h : FileWrite fs fs' chain chain' f) (hc : Core fs chain)
    (hi : i ≠ f) : KeepsFile fs fs' chain i := by
  refine ⟨.of_eq (h.inode i hi), h.small i hi, fun _ r c hr hby => ?_⟩
  refine h.disk c (hc.owned.used hr) (hc.by_notin_chain hby hr) fun r' hby' hr' => ?_
  have hrr := hc.owned.inj hr hr'
  subst hrr
  exact hi (hby.unique hby')

end Frame

/-! ## Directory operations -/

section Dirs

variable {k k' : Kernel} {chain chain' : List Nat} {dir ino i n f mode : Nat} {name : List UInt8}
  {r : Int}

theorem Created.keepsFile (hc : Created k.fs k'.fs chain dir ino n name mode) (hf : k.faults = [])
    (h : WF k.fs chain) (hd : k.fs.Is dir .dir)
    (hrun : ouichefsCreate k dir name mode = .ok (r, k')) (hl : k.fs.Live i) :
    KeepsFile k.fs k'.fs chain i := by
  refine ⟨hc.view i hl, hc.bytes i, fun hb s c hr hby => ?_⟩
  exact ouichefsCreate_disk hf h hd hrun hr (h.toCore.big_ref_ne_dir hd hb hr hby)

theorem Removed.keepsFile_unlink (hr : Removed k.fs k'.fs chain chain' dir ino f n)
    (hf : k.faults = []) (h : WF k.fs chain) (hd : k.fs.Is dir .dir) (h0 : ino ≠ 0)
    (hrun : ouichefsUnlink k dir ino = .ok (r, k')) (hl : k.fs.Live i) (hi : i ≠ ino) :
    KeepsFile k.fs k'.fs chain i := by
  refine ⟨hr.view i hl hi, fun hs => hr.bytes i hs hi, fun hb s c href hby => ?_⟩
  refine ouichefsUnlink_disk hf h hd hr.slot h0 hr.notDir hrun href (fun hby' => ?_)
    (h.toCore.by_notin_chain hby href) (h.toCore.big_ref_ne_dir hd hb href hby)
  exact hi (hby.unique hby')

theorem Removed.keepsFile_rmdir (hr : Removed k.fs k'.fs chain chain' dir ino f n)
    (hf : k.faults = []) (h : WF k.fs chain) (hd : k.fs.Is dir .dir) (h0 : ino ≠ 0)
    (hid : k.fs.Is ino .dir) (hrun : ouichefsRmdir k dir ino = .ok (r, k')) (hl : k.fs.Live i)
    (hi : i ≠ ino) : KeepsFile k.fs k'.fs chain i := by
  refine ⟨hr.view i hl hi, fun hs => hr.bytes i hs hi, fun hb s c href hby => ?_⟩
  refine ouichefsRmdir_disk hf h hd hr.slot h0 hid hr.notDir hrun href (fun hby' => ?_)
    (h.toCore.by_notin_chain hby href) (h.toCore.big_ref_ne_dir hd hb href hby)
  exact hi (hby.unique hby')

theorem Renamed.keepsFile {oldDir src newDir flags : Nat} {oldName newName : List UInt8}
    (hr : Renamed k k' chain oldDir oldName src newDir newName) (h : WF k.fs chain)
    (ho : k.fs.Is oldDir .dir) (hn : k.fs.Is newDir .dir)
    (hrun : ouichefsRename k oldDir oldName src newDir newName flags = .ok (r, k')) :
    KeepsFile k.fs k'.fs chain i := by
  have hv : SameView (k.fs.inode i) (k'.fs.inode i) := hr.view i
  refine ⟨hv, fun hs => ?_, fun hb s c href hby => ?_⟩
  · have hm := (h.slices.file i hs).mem
    refine hv.smallBytes (ouichefsRename_disk hrun ?_ ?_)
    · exact fun he => (h.toCore.dir_block_alone ho).2.1 (he ▸ hm)
    · exact fun he => (h.toCore.dir_block_alone hn).2.1 (he ▸ hm)
  · exact ouichefsRename_disk hrun (h.toCore.big_ref_ne_dir ho hb href hby)
      (h.toCore.big_ref_ne_dir hn hb href hby)

end Dirs

/-! ## The content after a write -/

/-- The bytes say whether a list is `old` overwritten with `data`. -/
theorem overwrite_eq {old new data : List UInt8} {pos : Nat}
    (hlen : new.length = max (pos + data.length) old.length)
    (h : ∀ x < new.length, new.getD x 0 =
      if pos ≤ x ∧ x < pos + data.length then data.getD (x - pos) 0 else old.getD x 0) :
    new = overwrite old pos data := by
  unfold overwrite
  refine List.ext_getElem (by simp [hlen]) fun x h1 h2 => ?_
  have hx := h x h1
  rw [List.getD_eq_getElem _ _ h1] at hx
  rw [hx]
  simp

section BigWrite

variable {k k' : Kernel} {chain : List Nat} {ino : Nat} {iocb iocb' : Kiocb} {data : List UInt8}
  {n : Int}

/-- **The content after a big write**, at the position of the handle or at the end of the file. -/
theorem writeBigFile_writes (h : BlocksOk k.fs chain)
    (hk : k.fs.Is ino .fresh ∧ (k.fs.inode ino).iSize = 0 ∨ k.fs.Is ino .big)
    (hrun : writeBigFile k ino iocb data = .ok ((n, iocb'), k')) (hn : 0 ≤ n) :
    k'.fs.content ino = overwrite (k.fs.content ino) (iocb.startPos (k.inode ino)) data ∧
      (∀ i, k'.fs.Is i .big → TailZero k'.fs i) ∧
      (k'.fs.inode ino).numSlices = (k.fs.inode ino).numSlices := by
  obtain ⟨k₁, hens, hrest⟩ := writeBigFile_ok hrun hn
  have hb := ensureIndexBlock_based h hk hens
  obtain ⟨-, -, fs₂, hcop, hfs⟩ := hrest hb.file
  generalize iocb.startPos (k.inode ino) = pos at hcop hfs ⊢
  have hino : fs₂.inode ino = { k.fs.inode ino with indexBlock := (k₁.inode ino).indexBlock } := by
    rw [hcop.inode]
    exact hb.self
  have hmode : sIsDir (k.fs.inode ino).iMode = false := by
    rcases hk with ⟨hk, -⟩ | hk
    · exact (Inode.kind_fresh.1 hk.2).1
    · exact (Inode.kind_big.1 hk.2).1
  have hlaw : BigLaw k.fs k'.fs chain ino pos data := by
    rw [hfs]
    refine hb.law h hcop ?_ (by rw [hino]) (Nat.max_comm _ _) rfl
    rw [Inode.kind_big, hino]
    exact ⟨hmode, Nat.succ_ne_zero _⟩
  have hslices : (k'.fs.inode ino).numSlices = (k.fs.inode ino).numSlices := by
    rw [hfs, Fs.inode_setInode, if_pos rfl, hino]
  refine ⟨?_, hlaw.state.tails, hslices⟩
  -- what was there before
  have hold : ∀ x, (k.fs.content ino).getD x 0 =
      if x < (k.fs.inode ino).iSize then k.fs.oldByte ino x else 0 := by
    intro x
    unfold Fs.content Fs.oldByte
    rcases hk with ⟨hk, -⟩ | hk
    · simp [hk.2, Fs.oldBytes]
    · simp only [hk.2, if_true]
      unfold Fs.bigBytes
      split
      · rename_i hx
        rw [List.getD_eq_getElem _ _ (by simpa using hx)]
        simp
      · rename_i hx
        rw [List.getD_eq_default _ _ (by simpa using hx)]
  have hlen : (k.fs.content ino).length = (k.fs.inode ino).iSize := by
    unfold Fs.content
    rcases hk with ⟨hk, h0⟩ | hk
    · simp [hk.2, Fs.oldBytes, h0]
    · simp [hk.2]
  have hnew : k'.fs.content ino = k'.fs.bigBytes ino 0 (k'.fs.inode ino).iSize := by
    unfold Fs.content
    rw [if_pos hlaw.big.2]
  have hnewlen : (k'.fs.content ino).length = max (pos + data.length) (k.fs.content ino).length := by
    rw [hnew, Fs.bigBytes_length, hlaw.size, hlen, Nat.max_comm]
  refine overwrite_eq hnewlen fun x hx => ?_
  rw [hold, List.getD_eq_getElem _ _ hx]
  have hbyte : (k'.fs.content ino)[x] = k'.fs.bigByte ino x := by
    simp only [hnew, Fs.bigBytes, List.getElem_map, List.getElem_range, Nat.zero_add]
  rw [hbyte, hlaw.content]

end BigWrite

end Ouichefs
