import Ouichefs.View
import Ouichefs.FileWrite
import Ouichefs.Effect

/-!
# Files and their handles

What the users of a mounted file system see: files that are created, opened, written through
handles, unlinked and closed.  A file is not its inode number: `ouichefs_unlink` gives the number
back at once, so that a later file can get it while handles of the old one are open.  Files are
numbered in the order of their creation (the inodes that exist at the mount keep their number).

* `unlink` is allowed while handles are open; the in-memory inode of an unlinked file stays cached
  as long as a handle holds it, and `ouichefs_iget` finds it there (`iput` evicts it afterwards).
* A new file with the number of a cached inode takes the in-memory inode over.  `left f` is the
  inode as it was when file `f` lost it, to a later file or by eviction.
* `files` shows the file system with the inodes numbered by files: inode `f` is `inodeOf f`.

`Isolated` and `Spares` say that files do not share storage and that a call changes the content of
no file but the one it is made on.
-/

set_option autoImplicit false

namespace Ouichefs

/-- A kernel with the files of its users. -/
structure Session where
  k : Kernel
  next : Nat
  known : Nat → Bool
  ino : Nat → Nat
  linked : Nat → Bool
  opened : Nat → Nat
  left : Nat → Option Inode

/-- The file system as it is mounted: no handle is open. -/
def Kernel.session (k : Kernel) : Session where
  k := k
  next := k.fs.sbi.nrInodes
  known := fun i => decide (k.fs.Live i)
  ino := id
  linked := fun i => decide (k.fs.Live i)
  opened := fun _ => 0
  left := fun _ => none

/-- What users do; directories and files are named by their file numbers. -/
inductive Act where
  | create (dir : Nat) (name : List UInt8) (mode : Nat)
  | openFile (f : Nat) (flags : OpenFlags)
  | write (f : Nat) (iocb : Kiocb) (data : List UInt8)
  | unlink (dir f : Nat)
  | close (f : Nat)
  deriving DecidableEq, Repr

/-- An act, when it happens and by whom. -/
structure UserCall where
  act : Act
  now : Timespec
  fsuid : Nat
  fsgid : Nat
  deriving DecidableEq, Repr

/-- File `f` is written or unlinked. -/
def Act.On (f : Nat) : Act → Prop
  | .write g _ _ => g = f
  | .unlink _ g => g = f
  | _ => False

/-- Byte `o` of block `b` belongs to inode `i`. -/
def Fs.OwnsByte (fs : Fs) (i b o : Nat) : Prop :=
  fs.OwnsSlice i b (o / 128) ∨ ∃ r : Ref, r.By i ∧ Refers fs [] r b

namespace Session

variable (s : Session)

/-- The in-memory inode of file `f`, as the file last had it. -/
def inodeOf (f : Nat) : Inode := (s.left f).getD (s.k.inode (s.ino f))

/-- The file system with the inodes numbered by files. -/
def files : Fs where
  sbi := { s.k.fs.sbi with
    ifreeBitmap := fun f => decide (f ≠ 0) && !s.known f
    nrInodes := s.next }
  disk := s.k.fs.disk
  icache := fun f => if s.known f then some (s.inodeOf f) else none

/-! ## The calls -/

/-- The file that has in-memory inode `i` loses it. -/
def lose (i : Nat) : Session :=
  { s with
    left := fun f =>
      if s.known f && s.ino f == i && (s.left f).isNone then some (s.k.inode i) else s.left f }

/-- No entry and no handle refers to inode number `i`. -/
def unused (i : Nat) : Bool :=
  (List.range s.next).all fun f =>
    !(s.known f && s.ino f == i && (s.linked f || decide (s.opened f ≠ 0)))

/-- `iput`: an inode that is neither linked nor held is evicted. -/
def iput (i : Nat) : Session :=
  if s.unused i then { s.lose i with k := s.k.uncache i } else s

/-- The next file gets inode number `i`. -/
def enter (i : Nat) : Session :=
  { s with
    next := s.next + 1
    known := Function.update s.known s.next true
    ino := Function.update s.ino s.next i
    linked := Function.update s.linked s.next true
    opened := Function.update s.opened s.next 0
    left := Function.update s.left s.next none }

/-- The outcome of a kernel call becomes the next session. -/
def after (run : Outcome Int) (next : Int → Kernel → Session) :
    Except (Crash × Kernel) (Int × Session) :=
  match run with
  | .error e => .error e
  | .ok (r, k) => .ok (r, next r k)

def act : Act → Except (Crash × Kernel) (Int × Session)
  | .create dir name mode =>
    after (ouichefsCreate s.k (s.ino dir) name mode) fun r k =>
      if r = 0 then { (s.lose s.k.getFreeInode.1).enter s.k.getFreeInode.1 with k := k }
      else { s with k := k }
  | .openFile f flags =>
    after (ouichefsOpen s.k (s.ino f) flags) fun r k =>
      if r = 0 then { s with k := k, opened := Function.update s.opened f (s.opened f + 1) }
      else { s with k := k }
  | .write f iocb data =>
    after (writeResult (customWriteIter s.k (s.ino f) iocb data)) fun _ k => { s with k := k }
  | .unlink dir f =>
    after (ouichefsUnlink s.k (s.ino dir) (s.ino f)) fun r k =>
      if r = 0 then
        { s with k := k, linked := Function.update s.linked f false }.iput (s.ino f)
      else { s with k := k }
  | .close f =>
    .ok (0, { s with opened := Function.update s.opened f (s.opened f - 1) }.iput (s.ino f))

/-- The session of a caller. -/
def setCaller (c : UserCall) : Session := { s with k := s.k.setCaller c.now c.fsuid c.fsgid }

def exec (c : UserCall) : Except (Crash × Kernel) (Int × Session) := (s.setCaller c).act c.act

/-! ## What is asked of the files -/

/-- No byte belongs to two files, created early or late, linked or not. -/
def Isolated : Prop :=
  ∀ f g b o, s.files.OwnsByte f b o → s.files.OwnsByte g b o → f = g

/-- The act leaves the content of all other files alone. -/
def Spares (a : Act) (s' : Session) : Prop :=
  ∀ f, s.known f = true → ¬a.On f → s'.files.content f = s.files.content f

/-! ## Conditions on the calls -/

/-- What the VFS asks for, and no truncation: entries exist and belong to regular files, a file is
opened while it is linked and written and closed through an open handle. -/
def Vfs : Act → Prop
  | .create dir _ mode => s.linked dir = true ∧ s.k.fs.Is (s.ino dir) .dir ∧ sIsDir mode = false
  | .openFile f flags => s.linked f = true ∧ flags.trunc = false
  | .write f _ _ => s.opened f ≠ 0 ∧ (s.k.inode (s.ino f)).kind ≠ .dir
  | .unlink dir f => s.linked dir = true ∧ s.linked f = true ∧
    s.k.fs.Entry (s.ino dir) (s.ino f) ∧ ¬s.k.fs.Is (s.ino f) .dir
  | .close f => s.opened f ≠ 0

instance : (a : Act) → Decidable (s.Vfs a)
  | .create .. => inferInstanceAs (Decidable (_ ∧ _ ∧ _))
  | .openFile .. => inferInstanceAs (Decidable (_ ∧ _))
  | .write .. => inferInstanceAs (Decidable (_ ∧ _))
  | .unlink .. => inferInstanceAs (Decidable (_ ∧ _ ∧ _ ∧ _))
  | .close .. => inferInstanceAs (Decidable (_ ≠ _))

/-- No later file got the inode number of file `f`. -/
def Newest (f : Nat) : Prop := ∀ g < s.next, s.known g = true → s.ino g = s.ino f → g ≤ f

instance (f : Nat) : Decidable (s.Newest f) :=
  inferInstanceAs (Decidable (∀ g < s.next, s.known g = true → s.ino g = s.ino f → g ≤ f))

/-- A write goes through a handle of the newest file with that inode number, and fits. -/
def Safe : Act → Prop
  | .write f iocb data => s.Newest f ∧ s.k.fs.WriteFits (s.k.inode (s.ino f)) iocb data
  | _ => True

/-- A call the VFS makes, that writes through no handle whose inode number was given away. -/
def Allowed (c : UserCall) : Prop := s.Vfs c.act ∧ s.Safe c.act

end Session

end Ouichefs
