import Ouichefs.NoLeak

/-!
# The debug device (`ioctl.c`)

`ouichefs_ioctl` copies the sliced block of a small file to the caller.

* `fds` are the open files of the file system, by descriptor; `held` counts the references to them,
  by inode.  The device does not check that a file belongs to the file system; only descriptors of
  its files are considered here.
* `copy_from_user` and `copy_to_user` are answered like `kmalloc`.

Main results:

* `ioctl_dumps`: what is delivered, after any run.
* `device_refs_run`: every call that finds its file keeps a reference to it.
-/

set_option autoImplicit false

namespace Ouichefs

/-! ## The model -/

def ENOENT : Int := 2

/-- `struct ouichefs_debug_ioctl`: a descriptor, and whether the buffer of the caller is null. -/
structure DebugIoctl where
  targetFile : Nat
  dataNull : Bool

/-- The file system, its open files, and the references to them. -/
structure DevState where
  kernel : Kernel
  fds : List (Nat × Nat)
  held : Nat → Nat

namespace DevState

/-- The open file of a descriptor, by inode. -/
def file (s : DevState) (fd : Nat) : Option Nat := (s.fds.find? fun p => p.1 == fd).map Prod.snd

/-- `fget`. -/
def fget (s : DevState) (fd : Nat) : Option (Nat × DevState) :=
  match s.file fd with
  | none => none
  | some ino => some (ino, { s with held := Function.update s.held ino (s.held ino + 1) })

end DevState

/-- `ouichefs_ioctl` once the file is found: the result and what the caller receives. -/
def dumpBlock (k : Kernel) (ino : Nat) : (Int × List UInt8) × Kernel :=
  let ci := k.inode ino
  if ci.iBlocks ≠ 0 then ((-EINVAL, []), k)
  else
    let bno := ci.getBno
    match k.sbBread bno with
    | (false, k) => ((- EIO, []), k)
    | (true, k) =>
      match k.kmalloc with
      | (false, k) => ((-EFAULT, []), k)
      | (true, k) => ((0, (k.fs.disk bno).bytes 0 (128 * 32)), k.brelse bno)

/-- `ouichefs_ioctl`. -/
def ouichefsIoctl (s : DevState) (debug : Bool) (arg : DebugIoctl) :
    (Int × List UInt8) × DevState :=
  if debug then
    match s.kernel.kmalloc with
    | (false, k) => ((-EFAULT, []), { s with kernel := k })
    | (true, k) =>
      if arg.dataNull then ((-EINVAL, []), { s with kernel := k })
      else
        match { s with kernel := k }.fget arg.targetFile with
        | none => ((-ENOENT, []), { s with kernel := k })
        | some (ino, s) =>
          match dumpBlock s.kernel ino with
          | (r, k) => (r, { s with kernel := k })
  else ((0, []), s)

/-- `open`, `close`, and calls of the device.  A file is opened without `O_TRUNC`, so that
`ouichefs_open` does nothing to it. -/
inductive DevEv where
  | open (fd ino : Nat)
  | close (fd : Nat)
  | ioctl (debug : Bool) (arg : DebugIoctl)

def DevState.exec (s : DevState) : DevEv → DevState
  | .open fd ino =>
    { s with
      fds := (fd, ino) :: s.fds, held := Function.update s.held ino (s.held ino + 1) }
  | .close fd =>
    match s.file fd with
    | none => s
    | some ino =>
      { s with
        fds := s.fds.eraseP fun p => p.1 == fd
        held := Function.update s.held ino (s.held ino - 1) }
  | .ioctl debug arg => (ouichefsIoctl s debug arg).2

/-! ## References -/

/-- The descriptors that are open on inode `ino`. -/
def DevState.openCount (s : DevState) (ino : Nat) : Nat := s.fds.countP fun p => p.2 == ino

/-- The inode whose file a call of the device finds. -/
def DevState.finds (s : DevState) : DevEv → Option Nat
  | .ioctl debug arg =>
    if debug && s.kernel.kmalloc.1 && !arg.dataNull then s.file arg.targetFile else none
  | _ => none

/-- How often the calls of a run find a file of inode `ino`. -/
def foundCount : DevState → List DevEv → Nat → Nat
  | _, [], _ => 0
  | s, ev :: evs, ino => (if s.finds ev = some ino then 1 else 0) + foundCount (s.exec ev) evs ino

section References

variable {s : DevState} {ino fd : Nat}

theorem dumpBlock_fs (k : Kernel) (ino : Nat) : (dumpBlock k ino).2.fs = k.fs := by
  have hread := k.fs_sbBread (k.inode ino).getBno
  unfold dumpBlock
  simp only
  split
  · rfl
  · generalize k.sbBread (k.inode ino).getBno = p at hread
    obtain ⟨ok, k₁⟩ := p
    cases ok with
    | false => exact hread
    | true =>
        have hmalloc := k₁.fs_kmalloc
        simp only
        generalize k₁.kmalloc = p at hmalloc
        obtain ⟨ok, k₂⟩ := p
        cases ok <;> exact hmalloc.trans hread

/-- What a call does to the references and to the file system. -/
theorem ouichefsIoctl_effect (s : DevState) (debug : Bool) (arg : DebugIoctl) :
    (ouichefsIoctl s debug arg).2.fds = s.fds ∧
      (ouichefsIoctl s debug arg).2.kernel.fs = s.kernel.fs ∧
      ∀ ino, (ouichefsIoctl s debug arg).2.held ino =
        s.held ino + if s.finds (.ioctl debug arg) = some ino then 1 else 0 := by
  have hmalloc := s.kernel.fs_kmalloc
  unfold ouichefsIoctl DevState.finds
  cases debug with
  | false => exact ⟨rfl, rfl, fun ino => by simp⟩
  | true =>
      simp only [if_true, Bool.true_and]
      generalize s.kernel.kmalloc = p at hmalloc
      obtain ⟨ok, k⟩ := p
      have hmalloc : k.fs = s.kernel.fs := hmalloc
      cases ok with
      | false => exact ⟨rfl, hmalloc, fun ino => by simp⟩
      | true =>
          cases hnull : arg.dataNull with
          | true => exact ⟨rfl, hmalloc, fun ino => by simp⟩
          | false =>
              have hfile : ({ s with kernel := k } : DevState).file arg.targetFile =
                  s.file arg.targetFile := rfl
              simp only [Bool.not_false, Bool.and_self, if_true, Bool.false_eq_true, if_false,
                DevState.fget, hfile]
              cases hf : s.file arg.targetFile with
              | none => exact ⟨rfl, hmalloc, fun ino => by simp⟩
              | some i =>
                  refine ⟨rfl, (dumpBlock_fs k i).trans hmalloc, fun ino => ?_⟩
                  show Function.update s.held i (s.held i + 1) ino = _
                  by_cases hi : ino = i
                  · subst hi
                    simp
                  · simp [hi, Ne.symm hi]

theorem countP_eraseP {l : List (Nat × Nat)}
    (h : (l.find? fun p => p.1 == fd).map Prod.snd = some ino) (i : Nat) :
    (l.eraseP fun p => p.1 == fd).countP (fun p => p.2 == i) + (if i = ino then 1 else 0) =
      l.countP fun p => p.2 == i := by
  induction l with
  | nil => cases h
  | cons p l ih =>
      by_cases hp : p.1 = fd
      · rw [List.find?_cons_of_pos (by simpa using hp)] at h
        obtain rfl : p.2 = ino := by simpa using h
        rw [List.eraseP_cons_of_pos (by simpa using hp), List.countP_cons]
        by_cases hi : i = p.2
        · simp [hi]
        · simp [hi, Ne.symm hi]
      · rw [List.find?_cons_of_neg (by simpa using hp)] at h
        rw [List.eraseP_cons_of_neg (by simpa using hp), List.countP_cons, List.countP_cons, ← ih h]
        omega

/-- Every reference belongs to an open descriptor, or to one of the calls counted by `n`. -/
def DevState.Tracks (s : DevState) (n : Nat → Nat) : Prop :=
  ∀ ino, s.held ino = s.openCount ino + n ino

/-- **One event.** -/
theorem DevState.Tracks.step {n : Nat → Nat} (h : s.Tracks n) (ev : DevEv) :
    (s.exec ev).Tracks (fun ino => n ino + if s.finds ev = some ino then 1 else 0) ∧
      (s.exec ev).kernel.fs = s.kernel.fs := by
  cases ev with
  | «open» fd ino =>
      refine ⟨fun i => ?_, rfl⟩
      have hi := h i
      show Function.update s.held ino (s.held ino + 1) i =
        ((fd, ino) :: s.fds).countP (fun p => p.2 == i) + _
      rw [List.countP_cons]
      unfold DevState.openCount at hi
      by_cases hino : i = ino
      · subst hino
        simp [DevState.finds]
        omega
      · simp [DevState.finds, hino, Ne.symm hino]
        omega
  | close fd =>
      unfold DevState.exec
      simp only
      split
      · exact ⟨fun i => by simpa [DevState.finds] using h i, rfl⟩
      · rename_i ino hf
        refine ⟨fun i => ?_, rfl⟩
        have hi := h i
        have hcount := countP_eraseP hf i
        show Function.update s.held ino (s.held ino - 1) i =
          (s.fds.eraseP fun p => p.1 == fd).countP (fun p => p.2 == i) + _
        unfold DevState.openCount at hi
        by_cases hino : i = ino
        · subst hino
          simp only [if_true] at hcount
          simp [DevState.finds]
          omega
        · simp only [if_neg hino] at hcount
          simp [DevState.finds, hino]
          omega
  | ioctl debug arg =>
      obtain ⟨hfds, hfs, hheld⟩ := ouichefsIoctl_effect s debug arg
      refine ⟨fun i => ?_, hfs⟩
      show (ouichefsIoctl s debug arg).2.held i =
        (ouichefsIoctl s debug arg).2.fds.countP (fun p => p.2 == i) + _
      rw [hheld i, h i, hfds]
      exact Nat.add_assoc ..

theorem DevState.Tracks.run : ∀ (evs : List DevEv) {s : DevState} {n : Nat → Nat}, s.Tracks n →
    (evs.foldl DevState.exec s).Tracks (fun ino => n ino + foundCount s evs ino) ∧
      (evs.foldl DevState.exec s).kernel.fs = s.kernel.fs := by
  intro evs
  induction evs with
  | nil => exact fun h => ⟨h, rfl⟩
  | cons ev evs ih =>
      intro s n h
      obtain ⟨hstep, hfs⟩ := h.step ev
      obtain ⟨hrun, hfs'⟩ := ih hstep
      refine ⟨fun ino => ?_, hfs'.trans hfs⟩
      have := hrun ino
      simp only [List.foldl_cons, foundCount] at this ⊢
      omega

/-- **The device keeps a reference for every call that finds its file**, whether the call fails or
not.  So the last reference to the files goes only if every descriptor is closed and no call has
ever found a file: otherwise the file system cannot be unmounted. -/
theorem device_refs_run {evs : List DevEv} (h : s.Tracks fun _ => 0) :
    (evs.foldl DevState.exec s).Tracks (foundCount s evs) ∧
      (evs.foldl DevState.exec s).kernel.fs = s.kernel.fs ∧
      ((∀ ino, (evs.foldl DevState.exec s).held ino = 0) ↔
        (evs.foldl DevState.exec s).fds = [] ∧ ∀ ino, foundCount s evs ino = 0) := by
  obtain ⟨hrun', hfs⟩ := h.run evs
  have hrun : (evs.foldl DevState.exec s).Tracks (foundCount s evs) := fun ino => by
    simpa using hrun' ino
  refine ⟨hrun, hfs, fun h0 => ⟨?_, fun ino => ?_⟩, fun ⟨hnil, hnone⟩ ino => ?_⟩
  · refine List.eq_nil_iff_forall_not_mem.2 fun p hp => ?_
    have hino := hrun p.2
    have hpos : 0 < (evs.foldl DevState.exec s).openCount p.2 :=
      List.countP_pos_iff.2 ⟨p, hp, by simp⟩
    have := h0 p.2
    omega
  · have := hrun ino
    have := h0 ino
    omega
  · rw [hrun ino, hnone ino]
    unfold DevState.openCount
    rw [hnil]
    rfl

/-- Two calls of the device for an open file, of which one fails. -/
def deviceEvs : List DevEv :=
  [.open 3 2, .ioctl true ⟨3, false⟩, .ioctl true ⟨3, true⟩, .ioctl true ⟨3, false⟩, .close 3]

theorem device_refs_run_deviceEvs :
    (deviceEvs.foldl DevState.exec ⟨emptyImage 8 8, [], fun _ => 0⟩).Tracks
      (foundCount ⟨emptyImage 8 8, [], fun _ => 0⟩ deviceEvs) ∧
    foundCount ⟨emptyImage 8 8, [], fun _ => 0⟩ deviceEvs 2 = 2 :=
  ⟨(device_refs_run (s := ⟨emptyImage 8 8, [], fun _ => 0⟩) fun _ => rfl).1, by decide +kernel⟩

end References

/-! ## What is delivered -/

/-- Part of the bytes of a page. -/
theorem Page.bytes_window {n : Nat} (p : Page n) {off len o m : Nat} (h : o + m ≤ len) :
    ((p.bytes off len).drop o).take m = p.bytes (off + o) m := by
  apply List.ext_getElem
  · simp
    omega
  · intro i h1 h2
    simp only [List.getElem_take, List.getElem_drop, Page.bytes_getElem, Nat.add_assoc]

/-- **What the device delivers for a file**: nothing for a big one, the superblock for a new one,
and for a small one the content of every small file that shares its block. -/
inductive Dumped (k : Kernel) (t : Tree) (ino : Nat) : Int × List UInt8 → Prop where
  | big : k.fs.Is ino .big → Dumped k t ino (-EINVAL, [])
  | new : k.fs.Is ino .fresh → Dumped k t ino (0, (k.fs.disk 0).bytes 0 (128 * 32))
  | small {out : List UInt8} : k.fs.Is ino .small →
      (∀ j l, k.fs.Is j .small → (k.fs.inode j).getBno = (k.fs.inode ino).getBno →
        t.files j = some l → (out.drop (128 * (k.fs.inode j).getSlice)).take l.length = l) →
      Dumped k t ino (0, out)

section Dump

variable {k : Kernel} {chain : List Nat} {ino j : Nat} {qs : List Request}

/-- A small file stands in the dump of its block, at its first slice. -/
theorem FsInv.dump_small (h : FsInv k chain) (hj : k.fs.Is j .small) :
    (((k.fs.disk (k.fs.inode j).getBno).bytes 0 (128 * 32)).drop
      (128 * (k.fs.inode j).getSlice)).take (k.fs.content j).length = k.fs.content j := by
  have hok := h.wf.slices.file j hj
  have hfits := hok.fits
  have hslices := hok.slices
  have hsize : (k.fs.inode j).iSize ≤ 128 * (k.fs.inode j).numSlices := by
    unfold divRoundUp at hslices
    omega
  rw [Fs.content_small hj, Fs.smallBytes_length, Page.bytes_window _ (by omega)]
  unfold Fs.smallBytes
  rw [Nat.zero_add, Nat.mul_comm]

theorem FsInv.dumped (h : FsInv k chain) (hi : k.fs.File ino) :
    Dumped k k.fs.tree ino (dumpBlock k ino).1 ∧ (dumpBlock k ino).2.faults = [] := by
  rcases h.file_kind hi with hnew | hs | hb
  · obtain ⟨-, hblocks, hidx⟩ := Inode.kind_fresh.1 hnew.2
    have hbno : (k.fs.inode ino).getBno = 0 := by
      unfold Inode.getBno
      rw [hidx]
    have hlt : 0 < k.fs.sbi.nrBlocks := Nat.lt_of_le_of_lt (Nat.zero_le _) h.wf.sb.meta_lt
    have hdump := Dumped.new (t := k.fs.tree) hnew
    unfold dumpBlock
    have hb0 : (k.inode ino).iBlocks = 0 := hblocks
    have hbno' : (k.inode ino).getBno = 0 := hbno
    simp only [hb0, ne_eq, not_true_eq_false, if_false, hbno', Kernel.sbBread_ok h.faults hlt,
      Kernel.kmalloc_ok (k := k.log (.bread 0)) h.faults]
    exact ⟨hdump, h.faults⟩
  · have hblocks : (k.inode ino).iBlocks = 0 := (Inode.kind_small.1 hs.2).2.1
    have hlt : (k.inode ino).getBno < k.fs.sbi.nrBlocks :=
      (h.wf.toCore.chain_used (h.wf.slices.file ino hs).mem).1
    unfold dumpBlock
    simp only [hblocks, ne_eq, not_true_eq_false, if_false, Kernel.sbBread_ok h.faults hlt,
      Kernel.kmalloc_ok (k := k.log (.bread (k.inode ino).getBno)) h.faults]
    refine ⟨.small hs fun j l hj hbno hl => ?_, h.faults⟩
    have hfile : k.fs.File j := ⟨hj.1, (Inode.kind_small.1 hj.2).1⟩
    have hl : k.fs.contents j = some l := hl
    rw [Fs.contents_file hfile] at hl
    obtain rfl := Option.some.inj hl
    have hd := h.dump_small hj
    rw [hbno] at hd
    exact hd
  · have hblocks : (k.inode ino).iBlocks ≠ 0 := (Inode.kind_big.1 hb.2).2
    unfold dumpBlock
    simp only [hblocks, ne_eq, not_false_eq_true, if_true]
    exact ⟨.big hb, h.faults⟩

/-- **What the device exposes.**  After any run, unmounts included, a call for a file that is open
changes no file, and delivers for a small file the contents of all small files of its block, also
those that the caller may not open, and for a new file the superblock. -/
theorem ioctl_dumps (hf : k.faults = []) (h : Formatted k.fs) (hz : k.fs.Blank) (hd : Durable k.fs)
    (ha : Admissible Request.exec Request.Ok k qs) :
    ∃ k' t, runAll Request.exec k qs = .ok k' ∧ Shows k' t ∧
      ∀ (s : DevState) fd ino l, s.kernel = k' → s.file fd = some ino → t.files ino = some l →
        Dumped k' t ino (ouichefsIoctl s true ⟨fd, false⟩).1 ∧
          Shows (ouichefsIoctl s true ⟨fd, false⟩).2.kernel t := by
  obtain ⟨k', chain, hrun, hinv, -, -⟩ := (h.fsInv hf hz).requests hd ha
  refine ⟨k', k'.fs.tree, hrun, hinv.shows, ?_⟩
  rintro s fd ino l rfl hfile hl
  have hi : s.kernel.fs.File ino := by
    by_contra hno
    have : s.kernel.fs.contents ino = some l := hl
    rw [Fs.contents, if_neg hno] at this
    cases this
  obtain ⟨hdump, hf'⟩ := hinv.dumped hi
  have hrun' : (ouichefsIoctl s true ⟨fd, false⟩).1 = (dumpBlock s.kernel ino).1 ∧
      (ouichefsIoctl s true ⟨fd, false⟩).2.kernel = (dumpBlock s.kernel ino).2 := by
    unfold ouichefsIoctl DevState.fget
    simp [Kernel.kmalloc_ok hinv.faults, hfile]
  rw [hrun'.1, hrun'.2]
  have hfs := dumpBlock_fs s.kernel ino
  have hshows := (hinv.of_fs hf' hfs).shows
  rw [hfs] at hshows
  exact ⟨hdump, hshows⟩

/-- Two small files in one block. -/
def dumpRun : List Request :=
  [.call (Op.create 1 [97] 0o100644).call, .call (Op.create 1 [98] 0o100644).call,
    .call (Op.write 2 0 [7, 8]).call, .call (Op.write 3 0 [9]).call]

theorem dumpRun_admissible :
    Admissible Request.exec Request.Ok (magicImage 12 8) dumpRun := by
  decide +kernel

theorem ioctl_dumps_dumpRun : ∃ k' t,
    runAll Request.exec (magicImage 12 8) dumpRun = .ok k' ∧ Shows k' t ∧
      ∀ (s : DevState) fd ino l, s.kernel = k' → s.file fd = some ino → t.files ino = some l →
        Dumped k' t ino (ouichefsIoctl s true ⟨fd, false⟩).1 ∧
          Shows (ouichefsIoctl s true ⟨fd, false⟩).2.kernel t :=
  ioctl_dumps rfl (magicImage_formatted (by decide) (by decide) (by decide) (by decide))
    (magicImage_blank (by decide))
    (magicImage_durable (by decide) (by decide) (by decide) (by decide)) dumpRun_admissible

end Dump

end Ouichefs
