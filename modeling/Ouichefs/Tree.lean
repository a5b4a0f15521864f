import Ouichefs.DirRuns
import Ouichefs.Occupied

/-!
# The file tree

What the file system is for: directories that map names to inode numbers, and files that are byte
strings.  `Tree.Step` says what every operation does to such a tree, `Shows` what a user sees of a
tree through `ouichefs_lookup` and `custom_read_iter`, and `FsInv` is the invariant of the runs.

* `Fs.Readable.showsFile`: reading delivers the content of a file.
* `FsInv.shows_iff`: a mounted file system shows exactly one tree.
* `Formatted.tree`: a formatted image shows an empty root directory.
-/

set_option autoImplicit false

namespace Ouichefs

/-! ## The abstract machine -/

/-- A tree of directories and files. -/
@[ext] structure Tree where
  dirs : Names
  files : Files

namespace Tree

/-- Nothing but an empty root directory. -/
def root : Tree := ⟨fun d => if d = 1 then some fun _ => none else none, fun _ => none⟩

/-- Replace the content of file `ino`. -/
def put (t : Tree) (ino : Nat) (l : List UInt8) : Tree :=
  ⟨t.dirs, Function.update t.files ino (some l)⟩

/-- A call that fails changes nothing. -/
def Fails (t : Tree) (r : Int) (t' : Tree) : Prop := r < 0 ∧ t' = t

/-- What a call with result `r` does to a tree. -/
def Step (t : Tree) (c : Call) (r : Int) (t' : Tree) : Prop :=
  match c.op with
  | .create dir name _ => t.Fails r t' ∨ r = 0 ∧ ∃ ino, t.dirs ino = none ∧ t.files ino = none ∧
      t' = ⟨t.dirs.insert dir name ino, Function.update t.files ino (some [])⟩
  | .mkdir dir name _ => t.Fails r t' ∨ r = 0 ∧ ∃ ino, t.dirs ino = none ∧ t.files ino = none ∧
      t' = ⟨(t.dirs.insert dir name ino).addDir ino, t.files⟩
  | .unlink dir name ino => r = 0 ∧ (t.files ino).isSome ∧
      t' = ⟨t.dirs.delete dir name, Function.update t.files ino none⟩
  | .rmdir dir name ino =>
      r = -ENOTEMPTY ∧ t' = t ∧ t.dirs ino ≠ some (fun _ => none) ∨
      r = 0 ∧ t.dirs ino = some (fun _ => none) ∧
        t' = ⟨(t.dirs.delete dir name).dropDir ino, t.files⟩
  | .rename oldDir oldName src newDir newName _ => t.Fails r t' ∨
      r = 0 ∧ (∃ m, t.dirs newDir = some m ∧ m newName = none) ∧
        t' = ⟨(t.dirs.delete oldDir oldName).insert newDir newName src, t.files⟩
  | .write ino pos data => t.Fails r t' ∨ r = data.length ∧
      ∃ old, t.files ino = some old ∧ t' = t.put ino (overwrite old pos data)
  | .append ino _ data => t.Fails r t' ∨ r = data.length ∧
      ∃ old, t.files ino = some old ∧ t' = t.put ino (old ++ data)

end Tree

/-! ## What a mounted file system shows -/

/-- File `ino` has content `l`: its size, and what a read delivers.  A read of a small file must
start at its first byte. -/
structure ShowsFile (k : Kernel) (ino : Nat) (l : List UInt8) : Prop where
  size : (k.fs.inode ino).iSize = l.length
  read : ∀ pos count, pos = 0 ∨ (k.fs.inode ino).iBlocks ≠ 0 → ∃ out k',
    customReadIter k ino pos count = .ok (out, k') ∧ k'.fs = k.fs ∧ ReadsAt l pos count out

/-- The mounted file system shows tree `t`. -/
structure Shows (k : Kernel) (t : Tree) : Prop where
  names : k.fs.names = t.dirs
  lookup : ∀ d m name, t.dirs d = some m → ValidName name → ∃ k',
    ouichefsLookup k d name = .ok (.ok (m name), k') ∧ k'.fs = k.fs
  file : ∀ ino l, t.files ino = some l → k.fs.File ino ∧ ShowsFile k ino l
  noFile : ∀ ino, t.files ino = none → ¬k.fs.File ino

/-- The content of every file. -/
def Fs.contents (fs : Fs) : Files := fun ino => if fs.File ino then some (fs.content ino) else none

/-- The tree of a mounted file system. -/
def Fs.tree (fs : Fs) : Tree := ⟨fs.names, fs.contents⟩

/-- What holds between the calls of a run. -/
structure FsInv (k : Kernel) (chain : List Nat) : Prop extends TreeInv k chain where
  tight : Tight k.fs chain
  tails : ∀ ino, k.fs.Is ino .big → TailZero k.fs ino
  occupied : k.fs.Occupied chain

section Invariant

variable {k k' : Kernel} {chain : List Nat} {ino : Nat}

theorem FsInv.of_fs (h : FsInv k chain) (hf : k'.faults = []) (hs : k'.fs = k.fs) :
    FsInv k' chain :=
  ⟨h.toTreeInv.of_fs hf hs, hs ▸ h.tight, hs ▸ h.tails, hs ▸ h.occupied⟩

theorem FsInv.blocksOk (h : FsInv k chain) : BlocksOk k.fs chain :=
  ⟨h.wf.sb.blocks_lt, h.wf.owned, fun i hi => (h.wf.slices.file i hi).mem, h.wf.zero trivial,
    h.tails⟩

/-- Every file is new, small or big. -/
theorem FsInv.file_kind (h : FsInv k chain) (hi : k.fs.File ino) :
    k.fs.Is ino .fresh ∨ k.fs.Is ino .small ∨ k.fs.Is ino .big := by
  have hk := hi.1.is
  cases hkind : (k.fs.inode ino).kind with
  | dir => exact absurd (Inode.kind_dir.1 hkind) (by rw [hi.2]; decide)
  | big => exact Or.inr (Or.inr (hkind ▸ hk))
  | fresh => exact Or.inl (hkind ▸ hk)
  | small => exact Or.inr (Or.inl (hkind ▸ hk))
  | stray => exact absurd (hkind ▸ hk) (h.tight.noStray ino)

theorem Fs.content_fresh {fs : Fs} (h : fs.Is ino .fresh) : fs.content ino = [] := by
  unfold Fs.content Fs.oldBytes
  simp [h.2]

theorem Fs.content_small {fs : Fs} (h : fs.Is ino .small) :
    fs.content ino = fs.smallBytes ino := by
  unfold Fs.content Fs.oldBytes
  simp [h.2]

theorem Fs.content_big {fs : Fs} (h : fs.Is ino .big) :
    fs.content ino = fs.bigBytes ino 0 (fs.inode ino).iSize := by
  unfold Fs.content
  rw [if_pos h.2]

theorem Fs.contents_file {fs : Fs} (h : fs.File ino) : fs.contents ino = some (fs.content ino) :=
  if_pos h

/-- What a read of file `ino` relies on. -/
structure Fs.Readable (fs : Fs) (ino : Nat) : Prop where
  kind : fs.Is ino .fresh ∨ fs.Is ino .small ∨ fs.Is ino .big
  fresh : fs.Is ino .fresh → (fs.inode ino).iSize = 0
  small : fs.Is ino .small →
    (fs.inode ino).getBno < fs.sbi.nrBlocks ∧ 1 ≤ (fs.inode ino).getSlice
  index : fs.Is ino .big → (fs.inode ino).indexBlock ≠ 0 ∧
    (fs.inode ino).indexBlock < fs.sbi.nrBlocks ∧ (fs.inode ino).iSize ≤ 4194304
  data : fs.Is ino .big → ∀ i, 4096 * i < (fs.inode ino).iSize →
    indexPtr (fs.indexOf ino) i < fs.sbi.nrBlocks

theorem Fs.Readable.content_length {fs : Fs} (h : fs.Readable ino) :
    (fs.content ino).length = (fs.inode ino).iSize := by
  rcases h.kind with hf | hs | hb
  · rw [Fs.content_fresh hf, h.fresh hf]
    rfl
  · rw [Fs.content_small hs, Fs.smallBytes_length]
  · rw [Fs.content_big hb, Fs.bigBytes_length]

theorem FsInv.readable (h : FsInv k chain) (hi : k.fs.File ino) : k.fs.Readable ino where
  kind := h.file_kind hi
  fresh hf := (h.wf.fresh ino hf).1
  small hs := ⟨(h.wf.toCore.chain_used (h.wf.slices.file ino hs).mem).1,
    (h.wf.slices.file ino hs).slice_pos⟩
  index hb := ⟨h.wf.toCore.index_ne_zero (Or.inr hb), (h.wf.toCore.big_used hb).1,
    (h.wf.inodes.big ino hb).1⟩
  data hb i hlt := by
    have hsz := (h.wf.inodes.big ino hb).1
    by_cases h0 : indexPtr (k.fs.indexOf ino) i = 0
    · rw [h0]
      exact Nat.lt_of_le_of_lt (Nat.zero_le _) (h.wf.toCore.big_used hb).1
    · exact (h.wf.owned.used (r := .data ino i) ⟨hb, by omega, rfl, h0⟩).1

theorem FsInv.content_length (h : FsInv k chain) (hi : k.fs.File ino) :
    (k.fs.content ino).length = (k.fs.inode ino).iSize := (h.readable hi).content_length

/-- Part of the content of a big file. -/
theorem Fs.bigBytes_drop (fs : Fs) (ino : Nat) {size pos n : Nat} (h : pos + n ≤ size) :
    ((fs.bigBytes ino 0 size).drop pos).take n = fs.bigBytes ino pos n := by
  refine List.ext_getElem
    (by simp only [List.length_take, List.length_drop, Fs.bigBytes_length]; omega)
    fun i h1 h2 => ?_
  simp [Fs.bigBytes]

/-- **Reading delivers the content.** -/
theorem Fs.Readable.showsFile (h : k.fs.Readable ino) (hf : k.faults = []) :
    ShowsFile k ino (k.fs.content ino) := by
  refine ⟨h.content_length.symm, fun pos count hpos => ?_⟩
  rcases h.kind with hk | hs | hb
  · have h0 : (k.inode ino).iSize = 0 := h.fresh hk
    refine ⟨⟨0, pos, []⟩, k, ?_, rfl, ?_⟩
    · unfold customReadIter
      simp [h0]
    · rw [Fs.content_fresh hk]
      unfold ReadsAt
      simp
  · have hblocks := (Inode.kind_small.1 hs.2).2.1
    obtain ⟨hlt, hslice⟩ := h.small hs
    obtain ⟨k', hrun, hfs, -⟩ := customReadIter_slices hf hblocks hlt hslice pos count
    refine ⟨_, k', hrun, hfs, ?_⟩
    rw [Fs.content_small hs]
    have hpos0 : pos = 0 := hpos.resolve_right fun hc => hc hblocks
    exact (k.fs.smallRead_readsAt ino pos count).2 (Or.inl hpos0)
  · obtain ⟨h0, hlt, hsz⟩ := h.index hb
    obtain ⟨k', hrun, hfs, -⟩ := @customReadIter_big _ _ pos count _ hf (Inode.kind_big.1 hb.2).2 h0
      hsz hlt rfl fun _ i _ hi => h.data hb i (by
        have hin : (k.inode ino).iSize = (k.fs.inode ino).iSize := rfl
        omega)
    refine ⟨_, k', hrun, hfs, ?_⟩
    unfold ReadsAt
    rw [h.content_length, Fs.content_big hb]
    show _ = ReadResult.mk _ _ _
    by_cases hle : pos ≤ (k.fs.inode ino).iSize
    · rw [Fs.bigBytes_drop _ _ (by omega)]
      rfl
    · have hn : min count ((k.fs.inode ino).iSize - pos) = 0 := by omega
      have hn' : min count ((k.inode ino).iSize - pos) = 0 := hn
      simp [hn, hn', Fs.bigBytes]

theorem FsInv.showsFile (h : FsInv k chain) (hi : k.fs.File ino) :
    ShowsFile k ino (k.fs.content ino) := (h.readable hi).showsFile h.faults

theorem FsInv.shows (h : FsInv k chain) : Shows k k.fs.tree where
  names := rfl
  lookup d m name hm hv := by
    by_cases hd : k.fs.Is d .dir
    · have hm' : some (blockMap (k.fs.indexOf d)) = some m := (Fs.names_dir hd).symm.trans hm
      obtain ⟨k', hfs, hrun⟩ := ouichefsLookup_spec h.faults h.wf hd hv.accepted
      cases hm'
      exact ⟨k', hrun, hfs⟩
    · have hm' : none = some m := (Fs.names_notDir hd).symm.trans hm
      cases hm'
  file ino l hl := by
    have hl' : k.fs.contents ino = some l := hl
    unfold Fs.contents at hl'
    split at hl'
    · rename_i hi
      cases hl'
      exact ⟨hi, h.showsFile hi⟩
    · cases hl'
  noFile ino hl hi := by
    have hl' : k.fs.contents ino = none := hl
    rw [Fs.contents_file hi] at hl'
    cases hl'

/-- One read from the beginning determines the content. -/
theorem ShowsFile.unique {l l' : List UInt8} (h : ShowsFile k ino l) (h' : ShowsFile k ino l') :
    l = l' := by
  have hlen : l'.length = l.length := h'.size.symm.trans h.size
  obtain ⟨out, k₁, hrun, -, hout⟩ := h.read 0 l.length (Or.inl rfl)
  obtain ⟨out', k₂, hrun', -, hout'⟩ := h'.read 0 l.length (Or.inl rfl)
  rw [hrun] at hrun'
  cases hrun'
  have heq := congrArg ReadResult.delivered (hout.symm.trans hout')
  have htake : l = l'.take l.length := by simpa [hlen] using heq
  rwa [← hlen, List.take_length] at htake

/-- **A mounted file system shows one tree.** -/
theorem FsInv.shows_iff (h : FsInv k chain) (t : Tree) : Shows k t ↔ t = k.fs.tree := by
  constructor
  · intro hs
    apply Tree.ext
    · exact hs.names.symm
    · funext ino
      show _ = k.fs.contents ino
      cases ht : t.files ino with
      | none =>
          have hno := hs.noFile ino ht
          unfold Fs.contents
          rw [if_neg hno]
      | some l =>
          obtain ⟨hi, hshow⟩ := hs.file ino l ht
          rw [Fs.contents_file hi, hshow.unique (h.showsFile hi)]
  · rintro rfl
    exact h.shows

theorem Formatted.fsInv (hf : k.faults = []) (h : Formatted k.fs) (hz : k.fs.Blank) :
    FsInv k [] := by
  refine ⟨h.treeInv hf fun _ => hz, h.tight, fun i hi => ?_, fun b hb => absurd hb List.not_mem_nil⟩
  cases ((h.is_iff i _).1 hi).2

theorem Formatted.tree {fs : Fs} (h : Formatted fs) : fs.tree = Tree.root := by
  apply Tree.ext
  · refine Fs.names_eq (fun d hd => ?_) fun d hd => ?_
    · obtain ⟨rfl, -⟩ := (h.is_iff d _).1 hd
      rw [h.rootBlock, blockMap_zero]
      rfl
    · have hne : d ≠ 1 := fun hc => hd ((h.is_iff d _).2 ⟨hc, rfl⟩)
      exact if_neg hne
  · funext i
    refine if_neg fun hi => ?_
    have h1 := (h.live i).1 hi.1
    have hd := Inode.kind_dir.1 h.rootDir.2
    rw [← h1, hi.2] at hd
    cases hd

end Invariant

end Ouichefs
