import Ouichefs.Super
import Ouichefs.Lib.Loan
import Ouichefs.Lib.Run
import Mathlib.Tactic.Abel

/-!
# Mounting (`fs.c`, `super.c`, `sysfs.c`)

What a mount allocates and frees, whatever fails: `ouichefs_fill_super` with its labels,
`ouichefs_put_super` and `ouichefs_kill_sb`.

* `mount_bdev` gives a super block on which `ouichefs_fill_super` failed to `ouichefs_kill_sb`;
  `kill_block_super` drops the root and calls `ouichefs_put_super` if `s_root` is set.
* `kobject_init_and_add` leaves a reference that `kobject_put` has to drop even when it fails.

Main results:

* `fillSuper_moves`: a mount holds what a mounted partition needs, or nothing.
* `fillSuper_registerFails`: the way through `free_root` leaves `s_root` and `s_fs_info` set.
* `fillSuper_result`: the mount fails or succeeds as `ouichefsFillSuper` does.
-/

set_option autoImplicit false

namespace Ouichefs

/-! ## The model -/

/-- What one partition can hold. -/
inductive SbRes where
  | buffer (bno : Nat)
  | sbInfo
  | ifreeBitmap
  | bfreeBitmap
  | rootInode
  | rootDentry
  | kobject
  deriving DecidableEq, Repr

/-- What can be held for the module and for partition `id`. -/
inductive Res where
  | sysfsRoot
  | inodeCache
  | fileSystem
  | chrdev
  | sb (id : Nat) (r : SbRes)
  deriving DecidableEq, Repr

/-- A partition that is being mounted: whether `s_fs_info` and `s_root` are set, and what was
allocated (`true`) and freed (`false`). -/
structure Mount where
  id : Nat
  dev : Device
  sFsInfo : Bool
  sRoot : Bool
  ops : List (Res × Bool)

namespace Mount

def take (m : Mount) (r : SbRes) : Mount := { m with ops := m.ops ++ [(.sb m.id r, true)] }

def give (m : Mount) (r : SbRes) : Mount := { m with ops := m.ops ++ [(.sb m.id r, false)] }

/-- `kzalloc`, or another call that allocates. -/
def alloc (m : Mount) (r : SbRes) : Bool × Mount :=
  match m.dev.answer with
  | (false, dev) => (false, { m with dev := dev })
  | (true, dev) => (true, { m with dev := dev }.take r)

def sbBread (m : Mount) (idx : Nat) : Bool × Mount :=
  match m.dev.sbBread idx with
  | (false, dev) => (false, { m with dev := dev })
  | (true, dev) => (true, { m with dev := dev }.take (.buffer idx))

def brelse (m : Mount) (idx : Nat) : Mount := m.give (.buffer idx)

/-- The label `free_sbi`. -/
def freeSbi (m : Mount) : Mount := m.give .sbInfo

/-- The label `free_ifree`. -/
def freeIfree (m : Mount) : Mount := (m.give .ifreeBitmap).freeSbi

/-- The label `free_bfree`. -/
def freeBfree (m : Mount) : Mount := (m.give .bfreeBitmap).freeIfree

/-- The label `free_root`: `dput` frees the dentry and its inode, `s_root` stays. -/
def freeRoot (m : Mount) : Mount := ((m.give .rootDentry).give .rootInode).freeBfree

/-- The loops of `ouichefs_fill_super` that read a bitmap. -/
def loadLoop (long : LongSize) (bytes first : Nat) :
    Nat → Nat → (Nat → Bool) → Mount → Except Crash (Except Int (Nat → Bool) × Mount)
  | 0, _, bitmap, m => .ok (.ok bitmap, m)
  | n + 1, i, bitmap, m =>
    let idx := (first + i + 1) % 4294967296
    match m.sbBread idx with
    | (false, m) => .ok (.error (- EIO), m)
    | (true, m) =>
      match copyBitmapFromLe64 long bitmap bytes (blockOffset i) (m.dev.block idx) with
      | none => .error .outOfBounds
      | some bitmap => loadLoop long bytes first n (i + 1) bitmap (m.brelse idx)

/-- `ouichefs_fill_super` from the root inode on: `ouichefs_iget` and `d_make_root`, which drops
the inode when it fails. -/
def makeRoot (sbi : SbInfo) (m : Mount) : Except Crash (Int × Mount) :=
  if 1 ≥ sbi.nrInodes then .ok (-EINVAL, m.freeBfree)
  else
    match (m.take .rootInode).sbBread 1 with
    | (false, m) => .ok (- EIO, (m.give .rootInode).freeBfree)
    | (true, m) =>
      match (m.brelse 1).alloc .rootDentry with
      | (false, m) => .ok (-ENOMEM, (m.give .rootInode).freeBfree)
      | (true, m) => .ok (0, { m with sRoot := true })

/-- `ouichefs_fill_super` from the bitmap of the blocks on. -/
def loadBfree (long : LongSize) (sbi : SbInfo) (m : Mount) : Except Crash (Int × Mount) :=
  match m.alloc .bfreeBitmap with
  | (false, m) => .ok (-ENOMEM, m.freeIfree)
  | (true, m) =>
    match loadLoop long (sbi.nrBfreeBlocks * 4096 % 4294967296)
        (sbi.nrIstoreBlocks + sbi.nrIfreeBlocks) sbi.nrBfreeBlocks 0 (fun _ => false) m with
    | .error e => .error e
    | .ok (.error ret, m) => .ok (ret, m.freeBfree)
    | .ok (.ok _, m) => makeRoot sbi m

/-- `ouichefs_fill_super` from the bitmap of the inodes on. -/
def loadIfree (long : LongSize) (sbi : SbInfo) (m : Mount) : Except Crash (Int × Mount) :=
  match m.alloc .ifreeBitmap with
  | (false, m) => .ok (-ENOMEM, m.freeSbi)
  | (true, m) =>
    match loadLoop long (sbi.nrIfreeBlocks * 4096 % 4294967296) sbi.nrIstoreBlocks
        sbi.nrIfreeBlocks 0 (fun _ => false) m with
    | .error e => .error e
    | .ok (.error ret, m) => .ok (ret, m.freeIfree)
    | .ok (.ok _, m) => loadBfree long sbi m

/-- `ouichefs_fill_super` up to `d_make_root`. -/
def fillSuperRoot (long : LongSize) (m : Mount) : Except Crash (Int × Mount) :=
  match m.sbBread 0 with
  | (false, m) => .ok (- EIO, m)
  | (true, m) =>
    if (m.dev.block 0).word 0 ≠ magic then .ok (-EPERM, m.brelse 0)
    else
      match m.alloc .sbInfo with
      | (false, m) => .ok (-ENOMEM, m.brelse 0)
      | (true, m) => loadIfree long (decodeSb (m.dev.block 0)) ({ m with sFsInfo := true }.brelse 0)

/-- The last step of `ouichefs_fill_super`, `ouichefs_register_sysfs`. -/
def registerSysfs (m : Mount) : Int × Mount :=
  match m.alloc .kobject with
  | (false, m) => (-ENOMEM, (m.take .kobject).freeRoot)
  | (true, m) => (0, m)

/-- `ouichefs_fill_super`. -/
def fillSuper (long : LongSize) (m : Mount) : Except Crash (Int × Mount) :=
  match fillSuperRoot long m with
  | .error e => .error e
  | .ok (ret, m) => if ret ≠ 0 then .ok (ret, m) else .ok m.registerSysfs

/-- `ouichefs_put_super`. -/
def putSuper (m : Mount) : Mount :=
  if m.sFsInfo then (((m.give .kobject).give .ifreeBitmap).give .bfreeBitmap).give .sbInfo else m

/-- `ouichefs_kill_sb`. -/
def killSb (m : Mount) : Mount :=
  if m.sRoot then ((m.give .rootDentry).give .rootInode).putSuper else m

/-- `ouichefs_mount`. -/
def mountBdev (long : LongSize) (m : Mount) : Except Crash (Int × Mount) :=
  match fillSuper long m with
  | .error e => .error e
  | .ok (ret, m) => if ret ≠ 0 then .ok (ret, m.killSb) else .ok (ret, m)

/-- What fails in `ouichefs_fill_super` is the last step. -/
def RegisterFails (long : LongSize) (m : Mount) : Bool :=
  match fillSuperRoot long m with
  | .ok (0, m) => !m.dev.answer.1
  | _ => false

end Mount

/-! ## What a mount holds -/

/-- `m'` comes from `m` by operations that lead from `h` to `h'`. -/
structure Moves (h : Multiset Res) (m : Mount) (h' : Multiset Res) (m' : Mount) : Prop where
  id : m'.id = m.id
  dev : m'.dev.size = m.dev.size ∧ m'.dev.block = m.dev.block
  leads : Leads h m.ops h' m'.ops

section Moves

variable {h h₁ h₂ : Multiset Res} {m m₁ m₂ : Mount} {r : SbRes}

theorem Moves.of_ops (h : Multiset Res) (m m₁ : Mount) (hid : m₁.id = m.id)
    (hdev : m₁.dev.size = m.dev.size ∧ m₁.dev.block = m.dev.block) (hops : m₁.ops = m.ops) :
    Moves h m h m₁ :=
  ⟨hid, hdev, hops ▸ .refl h m.ops⟩

theorem Moves.trans (h₀ : Moves h m h₁ m₁) (h₀' : Moves h₁ m₁ h₂ m₂) : Moves h m h₂ m₂ :=
  ⟨h₀'.id.trans h₀.id, ⟨h₀'.dev.1.trans h₀.dev.1, h₀'.dev.2.trans h₀.dev.2⟩,
    h₀.leads.trans h₀'.leads⟩

theorem Moves.take (h : Multiset Res) (m : Mount) (r : SbRes) :
    Moves h m (.sb m.id r ::ₘ h) (m.take r) := ⟨rfl, ⟨rfl, rfl⟩, .take h m.ops _⟩

theorem Moves.give (h : Multiset Res) (m : Mount) (r : SbRes) :
    Moves (.sb m.id r ::ₘ h) m h (m.give r) := ⟨rfl, ⟨rfl, rfl⟩, .give h m.ops _⟩

theorem Mount.answer_eq (m : Mount) (r : SbRes) :
    m.dev.answer = ((m.alloc r).1, (m.alloc r).2.dev) := by
  unfold Mount.alloc
  split <;> rename_i dev ha <;> exact ha

theorem Mount.sbBread_eq (m : Mount) (idx : Nat) :
    m.dev.sbBread idx = ((m.sbBread idx).1, (m.sbBread idx).2.dev) := by
  unfold Mount.sbBread
  split <;> rename_i dev ha <;> exact ha

theorem Device.answer_same (d : Device) :
    d.answer.2.size = d.size ∧ d.answer.2.block = d.block := by
  unfold Device.answer
  split <;> exact ⟨rfl, rfl⟩

theorem Device.sbBread_same (d : Device) (idx : Nat) :
    (d.sbBread idx).2.size = d.size ∧ (d.sbBread idx).2.block = d.block := by
  unfold Device.sbBread
  split
  · exact ⟨rfl, rfl⟩
  · exact d.answer_same

theorem Moves.alloc (ha : m.alloc r = (true, m₁)) (h : Multiset Res) :
    m₁.sRoot = m.sRoot ∧ m₁.sFsInfo = m.sFsInfo ∧ Moves h m (.sb m.id r ::ₘ h) m₁ := by
  unfold Mount.alloc at ha
  split at ha
  · cases ha
  · rename_i dev hans
    cases ha
    refine ⟨rfl, rfl, rfl, ?_, .take h m.ops _⟩
    have := m.dev.answer_same
    rwa [hans] at this

theorem Moves.unalloc (ha : m.alloc r = (false, m₁)) (h : Multiset Res) :
    m₁.sRoot = m.sRoot ∧ m₁.sFsInfo = m.sFsInfo ∧ Moves h m h m₁ := by
  unfold Mount.alloc at ha
  split at ha
  · rename_i dev hans
    cases ha
    refine ⟨rfl, rfl, .of_ops h m _ rfl ?_ rfl⟩
    have := m.dev.answer_same
    rwa [hans] at this
  · cases ha

theorem Moves.sbBread {idx : Nat} (hb : m.sbBread idx = (true, m₁)) (h : Multiset Res) :
    m₁.sRoot = m.sRoot ∧ m₁.sFsInfo = m.sFsInfo ∧
      Moves h m (.sb m.id (.buffer idx) ::ₘ h) m₁ := by
  unfold Mount.sbBread at hb
  split at hb
  · cases hb
  · rename_i dev hans
    cases hb
    refine ⟨rfl, rfl, rfl, ?_, .take h m.ops _⟩
    have := m.dev.sbBread_same idx
    rwa [hans] at this

theorem Moves.unread {idx : Nat} (hb : m.sbBread idx = (false, m₁)) (h : Multiset Res) :
    m₁.sRoot = m.sRoot ∧ m₁.sFsInfo = m.sFsInfo ∧ Moves h m h m₁ := by
  unfold Mount.sbBread at hb
  split at hb
  · rename_i dev hans
    cases hb
    refine ⟨rfl, rfl, .of_ops h m _ rfl ?_ rfl⟩
    have := m.dev.sbBread_same idx
    rwa [hans] at this
  · cases hb

theorem Moves.brelse (h : Multiset Res) (m : Mount) (idx : Nat) :
    Moves (.sb m.id (.buffer idx) ::ₘ h) m h (m.brelse idx) := .give h m _

/-- The loops that read a bitmap keep what is held. -/
theorem loadLoop_moves {long : LongSize} {bytes first : Nat} (h : Multiset Res) :
    ∀ (n i : Nat) (bitmap : Nat → Bool) (m : Mount) {ret : Except Int (Nat → Bool)},
      Mount.loadLoop long bytes first n i bitmap m = .ok (ret, m₁) →
        m₁.sRoot = m.sRoot ∧ m₁.sFsInfo = m.sFsInfo ∧ (∀ e, ret = .error e → e < 0) ∧
        Moves h m h m₁ := by
  intro n
  induction n with
  | zero =>
      intro i bitmap m ret hrun
      cases hrun
      exact ⟨rfl, rfl, by simp, .of_ops h _ _ rfl ⟨rfl, rfl⟩ rfl⟩
  | succ n ih =>
      intro i bitmap m ret hrun
      unfold Mount.loadLoop at hrun
      simp only at hrun
      split at hrun
      · rename_i m₂ hb
        cases hrun
        obtain ⟨hr, hi, hm⟩ := Moves.unread hb h
        exact ⟨hr, hi, by rintro e ⟨⟩; decide, hm⟩
      · rename_i m₂ hb
        obtain ⟨hr, hi, hm⟩ := Moves.sbBread hb h
        split at hrun
        · cases hrun
        · obtain ⟨hr', hi', he, hm'⟩ := ih _ _ _ hrun
          have hrel := Moves.brelse h m₂ ((first + i + 1) % 4294967296)
          rw [hm.id] at hrel
          exact ⟨hr'.trans hr, hi'.trans hi, he, (hm.trans hrel).trans hm'⟩

/-! ## The labels -/

theorem Moves.freeSbi (h : Multiset Res) (m : Mount) :
    Moves (.sb m.id .sbInfo ::ₘ h) m h m.freeSbi := .give h m .sbInfo

theorem Moves.freeIfree (h : Multiset Res) (m : Mount) :
    Moves (.sb m.id .ifreeBitmap ::ₘ .sb m.id .sbInfo ::ₘ h) m h m.freeIfree :=
  (Moves.give _ m .ifreeBitmap).trans (Moves.freeSbi h (m.give .ifreeBitmap))

theorem Moves.freeBfree (h : Multiset Res) (m : Mount) :
    Moves (.sb m.id .bfreeBitmap ::ₘ .sb m.id .ifreeBitmap ::ₘ .sb m.id .sbInfo ::ₘ h) m h
      m.freeBfree :=
  (Moves.give _ m .bfreeBitmap).trans (Moves.freeIfree h (m.give .bfreeBitmap))

theorem Moves.freeRoot (h : Multiset Res) (m : Mount) :
    Moves (.sb m.id .rootDentry ::ₘ .sb m.id .rootInode ::ₘ .sb m.id .bfreeBitmap ::ₘ
      .sb m.id .ifreeBitmap ::ₘ .sb m.id .sbInfo ::ₘ h) m h m.freeRoot :=
  ((Moves.give _ m .rootDentry).trans (Moves.give _ (m.give .rootDentry) .rootInode)).trans
    (Moves.freeBfree h ((m.give .rootDentry).give .rootInode))

/-- What is held when both bitmaps are loaded. -/
def loadedHeld (id : Nat) : Multiset Res :=
  {.sb id .bfreeBitmap, .sb id .ifreeBitmap, .sb id .sbInfo}

/-- What is held when `s_root` is set. -/
def rootHeld (id : Nat) : Multiset Res :=
  .sb id .rootDentry ::ₘ .sb id .rootInode ::ₘ loadedHeld id

/-- What is held for a mounted partition. -/
def mountHeld (id : Nat) : Multiset Res := .sb id .kobject ::ₘ rootHeld id

/-- How a part of `ouichefs_fill_super` that starts with the references `h` ends. -/
def MountEnds (h : Multiset Res) (m : Mount) : Except Crash (Int × Mount) → Prop
  | .error _ => True
  | .ok (ret, m') => m'.sFsInfo = m.sFsInfo ∧
    (ret = 0 ∧ m'.sRoot = true ∧ Moves h m (rootHeld m.id) m' ∨
      ret < 0 ∧ m'.sRoot = m.sRoot ∧ Moves h m 0 m')

/-- What comes before does not matter. -/
theorem MountEnds.after {run : Except Crash (Int × Mount)} (hr : MountEnds h₁ m₁ run) (hm : Moves h m h₁ m₁)
    (hi : m₁.sFsInfo = m.sFsInfo) (hs : m₁.sRoot = m.sRoot) : MountEnds h m run := by
  match run, hr with
  | .error _, _ => trivial
  | .ok (ret, m'), ⟨hfs, hend⟩ =>
      refine ⟨hfs.trans hi, ?_⟩
      rcases hend with ⟨h0, hroot, hmv⟩ | ⟨hneg, hroot, hmv⟩
      · exact Or.inl ⟨h0, hroot, hm.id ▸ hm.trans hmv⟩
      · exact Or.inr ⟨hneg, hroot.trans hs, hm.trans hmv⟩

theorem makeRoot_ends (sbi : SbInfo) (m : Mount) :
    MountEnds (loadedHeld m.id) m (Mount.makeRoot sbi m) := by
  unfold Mount.makeRoot
  split
  · exact ⟨rfl, Or.inr ⟨by decide, rfl, .freeBfree 0 m⟩⟩
  · have htake := Moves.take (loadedHeld m.id) m .rootInode
    have hback : ∀ m₁, m₁.id = m.id → Moves (.sb m.id .rootInode ::ₘ loadedHeld m.id) m₁ 0
        (m₁.give .rootInode).freeBfree := by
      intro m₁ hid
      rw [← hid]
      exact (Moves.give _ m₁ .rootInode).trans (.freeBfree 0 (m₁.give .rootInode))
    split
    · rename_i m₁ hb
      obtain ⟨hr, hi, hm⟩ := Moves.unread hb (.sb m.id .rootInode ::ₘ loadedHeld m.id)
      exact ⟨hi, Or.inr ⟨by decide, hr, (htake.trans hm).trans (hback m₁ hm.id)⟩⟩
    · rename_i m₁ hb
      obtain ⟨hr, hi, hm⟩ := Moves.sbBread hb (.sb m.id .rootInode ::ₘ loadedHeld m.id)
      have hid : m₁.id = m.id := hm.id
      have hrel := Moves.brelse (.sb m.id .rootInode ::ₘ loadedHeld m.id) m₁ 1
      rw [hid] at hrel
      have hread := (htake.trans hm).trans hrel
      split
      · rename_i m₂ ha
        obtain ⟨hr', hi', hm'⟩ := Moves.unalloc ha (.sb m.id .rootInode ::ₘ loadedHeld m.id)
        exact ⟨hi'.trans hi, Or.inr ⟨by decide, hr'.trans hr,
          (hread.trans hm').trans (hback m₂ (hm'.id.trans hid))⟩⟩
      · rename_i m₂ ha
        obtain ⟨hr', hi', hm'⟩ := Moves.alloc ha (.sb m.id .rootInode ::ₘ loadedHeld m.id)
        rw [show (m₁.brelse 1).id = m.id from hid] at hm'
        exact ⟨hi'.trans hi, Or.inl ⟨rfl, rfl,
          (hread.trans hm').trans (.of_ops _ m₂ _ rfl ⟨rfl, rfl⟩ rfl)⟩⟩

theorem loadBfree_ends (long : LongSize) (sbi : SbInfo) (m : Mount) :
    MountEnds {.sb m.id .ifreeBitmap, .sb m.id .sbInfo} m (Mount.loadBfree long sbi m) := by
  unfold Mount.loadBfree
  split
  · rename_i m₁ ha
    obtain ⟨hr, hi, hm⟩ := Moves.unalloc ha {.sb m.id .ifreeBitmap, .sb m.id .sbInfo}
    refine ⟨hi, Or.inr ⟨by decide, hr, hm.trans ?_⟩⟩
    have := Moves.freeIfree 0 m₁
    rwa [hm.id] at this
  · rename_i m₁ ha
    obtain ⟨hr, hi, hm⟩ := Moves.alloc ha {.sb m.id .ifreeBitmap, .sb m.id .sbInfo}
    have hid : m₁.id = m.id := hm.id
    split
    · trivial
    · rename_i ret m₂ hrun
      obtain ⟨hr', hi', hneg, hm'⟩ := loadLoop_moves _ _ _ _ _ hrun
      refine ⟨hi'.trans hi, Or.inr ⟨hneg _ rfl, hr'.trans hr, (hm.trans hm').trans ?_⟩⟩
      have := Moves.freeBfree 0 m₂
      rwa [hm'.id, hid] at this
    · rename_i bitmap m₂ hrun
      obtain ⟨hr', hi', -, hm'⟩ := loadLoop_moves _ _ _ _ _ hrun
      have hend := makeRoot_ends sbi m₂
      rw [hm'.id, hid] at hend
      exact hend.after (hm.trans hm') (hi'.trans hi) (hr'.trans hr)

theorem loadIfree_ends (long : LongSize) (sbi : SbInfo) (m : Mount) :
    MountEnds {.sb m.id .sbInfo} m (Mount.loadIfree long sbi m) := by
  unfold Mount.loadIfree
  split
  · rename_i m₁ ha
    obtain ⟨hr, hi, hm⟩ := Moves.unalloc ha {.sb m.id .sbInfo}
    refine ⟨hi, Or.inr ⟨by decide, hr, hm.trans ?_⟩⟩
    have := Moves.freeSbi 0 m₁
    rwa [hm.id] at this
  · rename_i m₁ ha
    obtain ⟨hr, hi, hm⟩ := Moves.alloc ha {.sb m.id .sbInfo}
    have hid : m₁.id = m.id := hm.id
    split
    · trivial
    · rename_i ret m₂ hrun
      obtain ⟨hr', hi', hneg, hm'⟩ := loadLoop_moves _ _ _ _ _ hrun
      refine ⟨hi'.trans hi, Or.inr ⟨hneg _ rfl, hr'.trans hr, (hm.trans hm').trans ?_⟩⟩
      have := Moves.freeIfree 0 m₂
      rwa [hm'.id, hid] at this
    · rename_i bitmap m₂ hrun
      obtain ⟨hr', hi', -, hm'⟩ := loadLoop_moves _ _ _ _ _ hrun
      have hend := loadBfree_ends long sbi m₂
      rw [hm'.id, hid] at hend
      exact hend.after (hm.trans hm') (hi'.trans hi) (hr'.trans hr)

/-- **Up to `d_make_root`** a failing mount holds nothing. -/
theorem fillSuperRoot_moves {long : LongSize} {ret : Int}
    (hrun : Mount.fillSuperRoot long m = .ok (ret, m₁)) :
    ret = 0 ∧ m₁.sRoot = true ∧ m₁.sFsInfo = true ∧ Moves 0 m (rootHeld m.id) m₁ ∨
      ret < 0 ∧ m₁.sRoot = m.sRoot ∧ Moves 0 m 0 m₁ := by
  unfold Mount.fillSuperRoot at hrun
  split at hrun
  · rename_i m₂ hb
    cases hrun
    obtain ⟨hr, -, hm⟩ := Moves.unread hb 0
    exact Or.inr ⟨by decide, hr, hm⟩
  · rename_i m₂ hb
    obtain ⟨hr, -, hm⟩ := Moves.sbBread hb 0
    have hid : m₂.id = m.id := hm.id
    -- the buffer of the superblock is given back on every way
    have hrel : ∀ (h : Multiset Res) (m₃ : Mount), m₃.id = m.id →
        Moves (.sb m.id (.buffer 0) ::ₘ h) m₃ h (m₃.brelse 0) := by
      intro h m₃ hid
      rw [← hid]
      exact .brelse h m₃ 0
    split at hrun
    · cases hrun
      exact Or.inr ⟨by decide, hr, hm.trans (hrel 0 m₂ hid)⟩
    · split at hrun
      · rename_i m₃ ha
        cases hrun
        obtain ⟨hr', -, hm'⟩ := Moves.unalloc ha (.sb m.id (.buffer 0) ::ₘ 0)
        exact Or.inr ⟨by decide, hr'.trans hr,
          (hm.trans hm').trans (hrel 0 m₃ (hm'.id.trans hid))⟩
      · rename_i m₃ ha
        obtain ⟨hr', -, hm'⟩ := Moves.alloc ha (.sb m.id (.buffer 0) ::ₘ 0)
        have hid' : m₃.id = m.id := hm'.id.trans hid
        rw [hid, Multiset.cons_swap] at hm'
        have hset : Moves (.sb m.id (.buffer 0) ::ₘ {.sb m.id .sbInfo}) m₃
            {.sb m.id .sbInfo} (({ m₃ with sFsInfo := true } : Mount).brelse 0) :=
          (Moves.of_ops _ m₃ { m₃ with sFsInfo := true } rfl ⟨rfl, rfl⟩ rfl).trans
            (hrel _ { m₃ with sFsInfo := true } hid')
        have hend := loadIfree_ends long (decodeSb (m₃.dev.block 0))
          (({ m₃ with sFsInfo := true } : Mount).brelse 0)
        rw [hrun] at hend
        obtain ⟨hfs, hcase⟩ := hend
        have hid'' : (({ m₃ with sFsInfo := true } : Mount).brelse 0).id = m.id := hid'
        rw [hid''] at hcase
        have hpre := (hm.trans hm').trans hset
        rcases hcase with ⟨h0, hroot, hmv⟩ | ⟨hneg, hroot, hmv⟩
        · exact Or.inl ⟨h0, hroot, hfs, hpre.trans hmv⟩
        · exact Or.inr ⟨hneg, hroot.trans (hr'.trans hr), hpre.trans hmv⟩

/-- What `fillSuperRoot` says about the mount as a whole. -/
theorem registerFails_iff {long : LongSize} : m.RegisterFails long = true ↔
    ∃ m', Mount.fillSuperRoot long m = .ok (0, m') ∧ m'.dev.answer.1 = false := by
  unfold Mount.RegisterFails
  split
  · rename_i m' hrun
    simp [hrun]
  · rename_i hno
    simp only [Bool.false_eq_true, false_iff]
    rintro ⟨m', hrun, -⟩
    exact hno m' hrun

/-- **A mount** holds what a mounted partition needs, or nothing. -/
theorem fillSuper_moves {long : LongSize} {ret : Int} (hok : m.RegisterFails long = false)
    (hrun : Mount.fillSuper long m = .ok (ret, m₁)) :
    ret = 0 ∧ m₁.sRoot = true ∧ m₁.sFsInfo = true ∧ Moves 0 m (mountHeld m.id) m₁ ∨
      ret < 0 ∧ m₁.sRoot = m.sRoot ∧ Moves 0 m 0 m₁ := by
  unfold Mount.fillSuper at hrun
  split at hrun
  · cases hrun
  · rename_i ret' m₂ hroot
    rcases fillSuperRoot_moves hroot with ⟨rfl, hr, hi, hm⟩ | ⟨hneg, hr, hm⟩
    · rw [if_neg (by simp)] at hrun
      have hrun := Except.ok.inj hrun
      unfold Mount.registerSysfs at hrun
      split at hrun
      · rename_i m₃ ha
        have hans := m₂.answer_eq .kobject
        rw [ha] at hans
        have : m.RegisterFails long = true := registerFails_iff.2 ⟨m₂, hroot, by rw [hans]⟩
        rw [hok] at this
        cases this
      · rename_i m₃ ha
        cases hrun
        obtain ⟨hr', hi', hm'⟩ := Moves.alloc ha (rootHeld m.id)
        rw [hm.id] at hm'
        exact Or.inl ⟨rfl, hr'.trans hr, hi'.trans hi, hm.trans hm'⟩
    · rw [if_pos (by omega)] at hrun
      cases hrun
      exact Or.inr ⟨hneg, hr, hm⟩

/-- When the last step fails, everything is freed and the super block still points to it. -/
theorem fillSuper_registerFails {long : LongSize} (hfail : m.RegisterFails long = true) :
    ∃ m₁, Mount.fillSuper long m = .ok (-ENOMEM, m₁) ∧ m₁.sRoot = true ∧ m₁.sFsInfo = true ∧
      Moves 0 m {.sb m.id .kobject} m₁ := by
  obtain ⟨m₂, hroot, hans⟩ := registerFails_iff.1 hfail
  obtain ⟨-, hr, hi, hm⟩ | ⟨hneg, -, -⟩ := fillSuperRoot_moves hroot
  · rcases h₃ : m₂.alloc .kobject with ⟨ok, m₃⟩
    have hok := m₂.answer_eq .kobject
    rw [h₃] at hok
    rw [hok] at hans
    obtain rfl : ok = false := hans
    obtain ⟨hr', hi', hm'⟩ := Moves.unalloc h₃ (rootHeld m.id)
    have hid : m₃.id = m.id := hm'.id.trans hm.id
    have hfree := Moves.freeRoot {.sb m.id .kobject} (m₃.take .kobject)
    rw [show (m₃.take .kobject).id = m.id from hid] at hfree
    have htake := Moves.take (rootHeld m.id) m₃ .kobject
    have hsort : Res.sb m.id .kobject ::ₘ rootHeld m.id = .sb m.id .rootDentry ::ₘ
        .sb m.id .rootInode ::ₘ .sb m.id .bfreeBitmap ::ₘ .sb m.id .ifreeBitmap ::ₘ
        .sb m.id .sbInfo ::ₘ {.sb m.id .kobject} := by
      unfold rootHeld loadedHeld
      simp only [Multiset.insert_eq_cons, ← Multiset.singleton_add]
      abel
    rw [hid, hsort] at htake
    refine ⟨(m₃.take .kobject).freeRoot, ?_, hr'.trans hr, hi'.trans hi,
      (hm.trans hm').trans (htake.trans hfree)⟩
    unfold Mount.fillSuper Mount.registerSysfs
    rw [hroot]
    simp only [h₃, ne_eq, not_true_eq_false, if_false]
  · exact absurd hneg (by decide)

/-- `ouichefs_kill_sb` of a mounted partition frees what it holds. -/
theorem killSb_moves (hr : m.sRoot = true) (hi : m.sFsInfo = true) :
    Moves (mountHeld m.id) m 0 m.killSb := by
  unfold Mount.killSb Mount.putSuper
  rw [if_pos hr, if_pos (show ((m.give .rootDentry).give .rootInode).sFsInfo = true from hi)]
  have hsort : mountHeld m.id = .sb m.id .rootDentry ::ₘ .sb m.id .rootInode ::ₘ
      .sb m.id .kobject ::ₘ .sb m.id .ifreeBitmap ::ₘ .sb m.id .bfreeBitmap ::ₘ
      .sb m.id .sbInfo ::ₘ 0 := by
    unfold mountHeld rootHeld loadedHeld
    simp only [Multiset.insert_eq_cons, ← Multiset.singleton_add]
    abel
  rw [hsort]
  refine (Moves.give _ m .rootDentry).trans
    ((Moves.give _ (m.give .rootDentry) .rootInode).trans ?_)
  generalize hm' : (m.give .rootDentry).give .rootInode = m'
  have hid : m'.id = m.id := by rw [← hm']; rfl
  rw [← hid]
  exact (Moves.give _ m' .kobject).trans ((Moves.give _ (m'.give .kobject) .ifreeBitmap).trans
    ((Moves.give _ ((m'.give .kobject).give .ifreeBitmap) .bfreeBitmap).trans
      (Moves.give 0 (((m'.give .kobject).give .ifreeBitmap).give .bfreeBitmap) .sbInfo)))

end Moves

/-! ## The same results -/

section Results

variable {m m₁ : Mount} {r : SbRes}

/-- The loops read the same bitmap. -/
theorem loadLoop_eq (long : LongSize) (bytes first : Nat) :
    ∀ (n i : Nat) (bitmap : Nat → Bool) (m : Mount), loadLoop long bytes first n i bitmap m.dev =
      (Mount.loadLoop long bytes first n i bitmap m).map fun p => (p.1, p.2.dev) := by
  intro n
  induction n with
  | zero => exact fun _ _ _ => rfl
  | succ n ih =>
      intro i bitmap m
      unfold Mount.loadLoop loadLoop
      simp only [m.sbBread_eq]
      generalize m.sbBread ((first + i + 1) % 4294967296) = p
      obtain ⟨ok, m₁⟩ := p
      cases ok with
      | false => rfl
      | true =>
          simp only
          generalize copyBitmapFromLe64 long bitmap bytes (blockOffset i)
            (m₁.dev.block ((first + i + 1) % 4294967296)) = c
          cases c with
          | none => rfl
          | some bitmap => exact ih _ _ (m₁.brelse _)

/-- The result of the whole mount, from a part of it. -/
def Mount.code (p : Int × Mount) : Int := if p.1 ≠ 0 then p.1 else p.2.registerSysfs.1

/-- The answers to `ouichefs_iget`, `d_make_root` and `kobject_init_and_add`. -/
def rootCode (sbi : SbInfo) (d : Device) : Int :=
  if 1 ≥ sbi.nrInodes then -EINVAL
  else if sbi.nrBlocks ≤ 1 then - EIO
  else
    match d.answer with
    | (false, _) => - EIO
    | (true, d) =>
      match d.answer with
      | (false, _) => -ENOMEM
      | (true, d) => if d.answer.1 then 0 else -ENOMEM

theorem makeRoot_code (sbi : SbInfo) (m : Mount) (hsize : 1 < m.dev.size ↔ 1 < sbi.nrBlocks) :
    (Mount.makeRoot sbi m).map Mount.code = .ok (rootCode sbi m.dev) := by
  unfold Mount.makeRoot rootCode
  split
  · rfl
  · have hread := (m.take .rootInode).sbBread_eq 1
    have hdev : (m.take .rootInode).dev = m.dev := rfl
    rw [hdev] at hread
    generalize (m.take .rootInode).sbBread 1 = p at hread
    obtain ⟨ok, m₁⟩ := p
    unfold Device.sbBread at hread
    by_cases hlt : 1 < m.dev.size
    · rw [if_neg (by omega)] at hread
      have hlt' := hsize.1 hlt
      rw [if_neg (by omega), hread]
      cases ok with
      | false => rfl
      | true =>
          have halloc := (m₁.brelse 1).answer_eq .rootDentry
          rw [show (m₁.brelse 1).dev = m₁.dev from rfl] at halloc
          simp only [halloc]
          generalize (m₁.brelse 1).alloc .rootDentry = p
          obtain ⟨ok, m₂⟩ := p
          cases ok with
          | false => rfl
          | true =>
              have hreg := ({ m₂ with sRoot := true } : Mount).answer_eq .kobject
              rw [show ({ m₂ with sRoot := true } : Mount).dev = m₂.dev from rfl] at hreg
              simp only [hreg, Except.map, Mount.code, ne_eq, not_true_eq_false, if_false,
                Mount.registerSysfs]
              generalize ({ m₂ with sRoot := true } : Mount).alloc .kobject = p
              obtain ⟨ok, m₃⟩ := p
              cases ok <;> rfl
    · rw [if_pos (by omega)] at hread
      have hlt' : ¬1 < sbi.nrBlocks := fun h => hlt (hsize.2 h)
      rw [if_pos (show sbi.nrBlocks ≤ 1 by omega)]
      obtain rfl : false = ok := congrArg Prod.fst hread
      rfl

/-- What `fillSuperLoad` answers from the bitmap of the blocks on. -/
theorem loadBfree_code (long : LongSize) (sbi : SbInfo) (m : Mount)
    (hsize : 1 < m.dev.size ↔ 1 < sbi.nrBlocks) :
    (Mount.loadBfree long sbi m).map Mount.code =
      match loadBitmap long (sbi.nrIstoreBlocks + sbi.nrIfreeBlocks) sbi.nrBfreeBlocks m.dev with
      | .error e => .error e
      | .ok (.error ret, _) => .ok ret
      | .ok (.ok _, d) => .ok (rootCode sbi d) := by
  unfold Mount.loadBfree loadBitmap Device.kzalloc
  rw [m.answer_eq .bfreeBitmap]
  rcases ha : m.alloc .bfreeBitmap with ⟨ok, m₁⟩
  cases ok with
  | false => rfl
  | true =>
      obtain ⟨-, -, hm⟩ := Moves.alloc ha 0
      simp only [loadLoop_eq]
      rcases hrun : Mount.loadLoop long (sbi.nrBfreeBlocks * 4096 % 4294967296)
        (sbi.nrIstoreBlocks + sbi.nrIfreeBlocks) sbi.nrBfreeBlocks 0 (fun _ => false) m₁
        with e | ⟨r, m₂⟩
      · rfl
      · obtain ⟨-, -, hneg, hm'⟩ := loadLoop_moves 0 _ _ _ _ hrun
        cases r with
        | error ret =>
            have := hneg ret rfl
            simp only [Except.map, Mount.code]
            rw [if_pos (by omega)]
        | ok bitmap =>
            exact makeRoot_code sbi m₂ (by rw [hm'.dev.1, hm.dev.1]; exact hsize)

theorem loadIfree_code (long : LongSize) (sbi : SbInfo) (m : Mount)
    (hsize : 1 < m.dev.size ↔ 1 < sbi.nrBlocks) :
    (Mount.loadIfree long sbi m).map Mount.code =
      match loadBitmap long sbi.nrIstoreBlocks sbi.nrIfreeBlocks m.dev with
      | .error e => .error e
      | .ok (.error ret, _) => .ok ret
      | .ok (.ok _, d) =>
        match loadBitmap long (sbi.nrIstoreBlocks + sbi.nrIfreeBlocks) sbi.nrBfreeBlocks d with
        | .error e => .error e
        | .ok (.error ret, _) => .ok ret
        | .ok (.ok _, d) => .ok (rootCode sbi d) := by
  unfold Mount.loadIfree
  rw [loadBitmap.eq_def long sbi.nrIstoreBlocks]
  unfold Device.kzalloc
  rw [m.answer_eq .ifreeBitmap]
  rcases ha : m.alloc .ifreeBitmap with ⟨ok, m₁⟩
  cases ok with
  | false => rfl
  | true =>
      obtain ⟨-, -, hm⟩ := Moves.alloc ha 0
      simp only [loadLoop_eq]
      rcases hrun : Mount.loadLoop long (sbi.nrIfreeBlocks * 4096 % 4294967296)
        sbi.nrIstoreBlocks sbi.nrIfreeBlocks 0 (fun _ => false) m₁ with e | ⟨r, m₂⟩
      · rfl
      · obtain ⟨-, -, hneg, hm'⟩ := loadLoop_moves 0 _ _ _ _ hrun
        cases r with
        | error ret =>
            have := hneg ret rfl
            simp only [Except.map, Mount.code]
            rw [if_pos (by omega)]
        | ok bitmap =>
            exact loadBfree_code long sbi m₂ (by rw [hm'.dev.1, hm.dev.1]; exact hsize)

/-- The error code, 0 for a mounted file system. -/
def fillResult : Except Crash (Except Int Kernel) → Except Crash Int
  | .error e => .error e
  | .ok (.error ret) => .ok ret
  | .ok (.ok _) => .ok 0

/-- What `ouichefsFillSuper` does after the bitmaps. -/
theorem ouichefsFillSuper_load (long : LongSize) (now : Timespec) (fsuid fsgid : Nat) (d : Device) :
    fillResult (ouichefsFillSuper long now fsuid fsgid d) =
      match fillSuperLoad long d with
      | .error e => .error e
      | .ok (.error ret, _) => .ok ret
      | .ok (.ok sbi, d) => .ok (rootCode sbi.toSbInfo d) := by
  unfold ouichefsFillSuper
  rcases fillSuperLoad long d with e | ⟨ret | sbi, d⟩
  · rfl
  · rfl
  · obtain ⟨size, block, faults⟩ := d
    simp only [ouichefsIget, rootCode]
    split
    · rfl
    · by_cases hlt : sbi.nrBlocks ≤ 1
      · simp only [Kernel.sbBread, show 1 / 51 + 1 = 1 from rfl, if_pos hlt]
        rfl
      · simp only [Kernel.sbBread, show 1 / 51 + 1 = 1 from rfl, if_neg hlt]
        rcases faults with _ | ⟨_ | n, faults⟩
        · rfl
        · rcases faults with _ | ⟨_ | n, faults⟩
          · rfl
          · rcases faults with _ | ⟨_ | n, faults⟩ <;> rfl
          · rfl
        · rfl

/-- **The mount ends as `ouichefsFillSuper` says** on a device that has the block of the root
inode when the superblock says so. -/
theorem fillSuper_result (long : LongSize) (now : Timespec) (fsuid fsgid : Nat) (m : Mount)
    (hsize : 1 < m.dev.size ↔ 1 < (decodeSb (m.dev.block 0)).nrBlocks) :
    (Mount.fillSuper long m).map Prod.fst =
      fillResult (ouichefsFillSuper long now fsuid fsgid m.dev) := by
  have hcode : (Mount.fillSuper long m).map Prod.fst =
      (Mount.fillSuperRoot long m).map Mount.code := by
    unfold Mount.fillSuper
    rcases Mount.fillSuperRoot long m with e | ⟨ret, m'⟩
    · rfl
    · by_cases h0 : ret ≠ 0
      · simp only [Except.map, Mount.code, if_pos h0]
      · simp only [Except.map, Mount.code, if_neg h0]
  rw [hcode, ouichefsFillSuper_load]
  unfold Mount.fillSuperRoot fillSuperLoad
  rw [m.sbBread_eq 0]
  rcases hb : m.sbBread 0 with ⟨ok, m₁⟩
  cases ok with
  | false => rfl
  | true =>
      simp only
      by_cases hmagic : (m₁.dev.block 0).word 0 ≠ magic
      · rw [if_pos hmagic, if_pos hmagic]
        rfl
      · rw [if_neg hmagic, if_neg hmagic]
        unfold Device.kzalloc
        rw [m₁.answer_eq .sbInfo]
        rcases ha : m₁.alloc .sbInfo with ⟨ok, m₂⟩
        cases ok with
        | false => rfl
        | true =>
            obtain ⟨-, -, hm⟩ := Moves.sbBread hb 0
            obtain ⟨-, -, hm'⟩ := Moves.alloc ha 0
            have hdev : m₂.dev.size = m.dev.size ∧ m₂.dev.block = m.dev.block :=
              ⟨hm'.dev.1.trans hm.dev.1, hm'.dev.2.trans hm.dev.2⟩
            simp only
            rw [loadIfree_code long (decodeSb (m₂.dev.block 0)) _
              (by rw [hdev.2]; exact (hdev.1 ▸ Iff.rfl : _ ↔ 1 < m.dev.size).trans hsize)]
            rw [show (({ m₂ with sFsInfo := true } : Mount).brelse 0).dev = m₂.dev from rfl]
            generalize loadBitmap long _ _ m₂.dev = load
            rcases load with e | ⟨ret | ifree, d⟩
            · rfl
            · rfl
            · simp only
              generalize loadBitmap long _ _ d = load
              rcases load with e | ⟨ret | bfree, d⟩ <;> rfl

end Results

end Ouichefs
