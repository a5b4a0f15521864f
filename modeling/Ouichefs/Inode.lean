import Ouichefs.File

/-!
# Inodes and directories (`inode.c`)

A directory block has 128 slots of 32 bytes: an inode number and a file name of 28 bytes.  The
functions below scan, append to and compact the slots exactly as the source does; an access
outside the block is an `outOfBounds` crash.  `d_inode(dentry)` is passed as an inode number.
-/

set_option autoImplicit false

namespace Ouichefs

/-! ## C strings -/

/-- The bytes before the first NUL. -/
def cstr (l : List UInt8) : List UInt8 := l.takeWhile (· != 0)

/-- `strncmp(a, b, n) == 0`. -/
def strncmpEq (a b : List UInt8) (n : Nat) : Bool := cstr (a.take n) == cstr (b.take n)

/-- What `strscpy(dst, src, size)` writes: at most `size - 1` bytes and a NUL. -/
def strscpyBytes (src : List UInt8) (size : Nat) : List UInt8 := (cstr src).take (size - 1) ++ [0]

/-! ## Directory slots -/

/-- `files[i].inode`. -/
def slotInode (b : Block) (i : Nat) : Nat := b.word (32 * i)

/-- `files[i].filename`, all 28 bytes. -/
def slotName (b : Block) (i : Nat) : List UInt8 := b.bytes (32 * i + 4) 28

/-- Set `files[i].filename` with `strscpy`. -/
def setSlotName (b : Block) (i : Nat) (name : List UInt8) : Block :=
  b.blit (32 * i + 4) (strscpyBytes name 28)

/-- Fill slot `i`. -/
def setSlot (b : Block) (i ino : Nat) (name : List UInt8) : Block :=
  setSlotName (b.setWord (32 * i) ino) i name

/-- The scan for `ino` of `unlink` and `rename` from slot `i` on, at most `n` slots: the last
match, and the slot where the scan stopped. -/
def scanSlots (b : Block) (ino : Nat) : Nat → Nat → Option Nat → Option Nat × Nat
  | 0, i, fId => (fId, i)
  | n + 1, i, fId =>
    if slotInode b i = ino then scanSlots b ino n (i + 1) (some i)
    else if slotInode b i = 0 then (fId, i)
    else scanSlots b ino n (i + 1) fId

/-- Remove slot `fId` of `nrSubs` used slots: `memmove` the later ones down, clear the last. -/
def removeSlot (b : Block) (fId nrSubs : Nat) : Block :=
  let b := if fId ≠ 127 then b.move (32 * fId) (32 * (fId + 1)) ((nrSubs - fId - 1) * 32) else b
  b.fill (32 * (nrSubs - 1)) 32

/-! ## Inode store -/

/-- Little-endian 64-bit field. -/
def dword (b : Block) (off : Nat) : Nat := b.word off + 4294967296 * b.word (off + 4)

/-- Little-endian 16-bit field. -/
def half (b : Block) (off : Nat) : Nat := b.word off % 65536

/-- The record of 80 bytes at position `shift` of an inode-store block. -/
def decodeInode (b : Block) (shift : Nat) : Inode :=
  let off := 80 * shift
  { iMode := half b off  -- `umode_t` has 16 bits
    iUid := b.word (off + 4)
    iGid := b.word (off + 8)
    iSize := b.word (off + 12)
    iCtime := ⟨b.word (off + 16), dword b (off + 24)⟩
    iAtime := ⟨b.word (off + 32), dword b (off + 40)⟩
    iMtime := ⟨b.word (off + 48), dword b (off + 56)⟩
    iBlocks := b.word (off + 64)
    iNlink := b.word (off + 68)
    indexBlock := b.word (off + 72)
    numSlices := half b (off + 76) }

/-- `ouichefs_iget`: afterwards inode `ino` is in the cache, or an error is returned. -/
def ouichefsIget (k : Kernel) (ino : Nat) : Int × Kernel :=
  if ino ≥ k.fs.sbi.nrInodes then (-EINVAL, k)
  else
    match k.fs.icache ino with
    | some _ => (0, k)
    | none =>
      let inodeBlock := ino / 51 + 1
      match k.sbBread inodeBlock with
      | (false, k) => (- EIO, k)
      | (true, k) =>
        (0, (k.setInode ino (decodeInode (k.fs.disk inodeBlock) (ino % 51))).brelse inodeBlock)

/-- The kernel without in-memory inode `ino`, as the last `iput` of a removed inode leaves it: nothing
is written back. -/
def Kernel.uncache (k : Kernel) (ino : Nat) : Kernel :=
  { k with fs := { k.fs with icache := Function.update k.fs.icache ino none } }

/-- `inode_init_owner`. -/
def inodeInitOwner (k : Kernel) (ci dir : Inode) (mode : Nat) : Inode :=
  if dir.iMode &&& 0o2000 ≠ 0 then
    { ci with
      iUid := k.fsuid, iGid := dir.iGid,
      iMode := if sIsDir mode then mode ||| 0o2000 else mode }
  else { ci with iUid := k.fsuid, iGid := k.fsgid, iMode := mode }

/-! ## Creation -/

/-- The fields `ouichefs_new_inode` sets, after the index block was chosen. -/
def initInode (k : Kernel) (ci dir : Inode) (mode indexBlock : Nat) : Inode :=
  let ci := { ci with indexBlock := indexBlock, numSlices := 0 }
  let ci := inodeInitOwner k ci dir mode
  let ci :=
    if sIsDir mode then { ci with iSize := 4096, iBlocks := 1 }
    else { ci with iSize := 0, iBlocks := 0 }
  { ci with iNlink := 1, iCtime := k.now, iAtime := k.now, iMtime := k.now }

/-- `ouichefs_new_inode`: the inode number, or an error. -/
def ouichefsNewInode (k : Kernel) (dir mode : Nat) : Except Int Nat × Kernel :=
  if !sIsDir mode && !sIsReg mode then (.error (-EINVAL), k)
  else if k.fs.sbi.nrFreeInodes = 0 ∨ k.fs.sbi.nrFreeBlocks = 0 then (.error (-ENOSPC), k)
  else
    match k.getFreeInode with
    | (ino, k) =>
      if ino = 0 then (.error (-ENOSPC), k)
      else
        match ouichefsIget k ino with
        | (err, k) =>
          if err ≠ 0 then (.error err, k.putInode ino)
          else if sIsDir mode then
            match k.getFreeBlock with
            | (bno, k) =>
              if bno = 0 then (.error (-ENOSPC), k.putInode ino)
              else (.ok ino, k.setInode ino (initInode k (k.inode ino) (k.inode dir) mode bno))
          else (.ok ino, k.setInode ino (initInode k (k.inode ino) (k.inode dir) mode 0))

/-- The first slot without inode, 128 if there is none. -/
def firstFreeSlot (b : Block) : Nat :=
  ((List.range 128).find? fun i => slotInode b i == 0).getD 128

/-- Times and link count of the parent after an entry was added or removed. -/
def touchDir (k : Kernel) (dir : Nat) (nlink : Nat → Nat) : Kernel :=
  let ci := k.inode dir
  k.setInode dir { ci with iMtime := k.now, iCtime := k.now, iNlink := nlink ci.iNlink }

/-- The end of `ouichefs_create`: enter inode `ino` in the parent directory. -/
def registerInode (k : Kernel) (dir ino : Nat) (name : List UInt8) (mode : Nat) : Outcome Int :=
  let dirBlock := (k.inode dir).indexBlock
  let i := firstFreeSlot (k.fs.disk dirBlock)
  if i ≥ 128 then .error (.outOfBounds, k)
  else
    let k := (k.setBlock dirBlock (setSlot (k.fs.disk dirBlock) i ino name)).brelse dirBlock
    .ok (0, touchDir k dir fun n => if sIsDir mode then add32 n 1 else n)

/-- `ouichefs_create`. -/
def ouichefsCreate (k : Kernel) (dir : Nat) (name : List UInt8) (mode : Nat) : Outcome Int :=
  if (cstr name).length > 28 then .ok (-ENAMETOOLONG, k)
  else
    let dirBlock := (k.inode dir).indexBlock
    match k.sbBread dirBlock with
    | (false, k) => .ok (- EIO, k)
    | (true, k) =>
      if slotInode (k.fs.disk dirBlock) 127 ≠ 0 then .ok (-EMLINK, k.brelse dirBlock)
      else
        match ouichefsNewInode k dir mode with
        | (.error ret, k) => .ok (ret, k.brelse dirBlock)
        | (.ok ino, k) =>
          if sIsDir mode then
            let bno := (k.inode ino).indexBlock
            match k.sbBread bno with
            | (false, k) => .ok (- EIO, ((k.putBlock bno).putInode ino).brelse dirBlock)
            | (true, k) =>
              registerInode ((k.setBlock bno Page.zero).brelse bno) dir ino name mode
          else registerInode k dir ino name mode

/-- `ouichefs_mkdir`. -/
def ouichefsMkdir (k : Kernel) (dir : Nat) (name : List UInt8) (mode : Nat) : Outcome Int :=
  ouichefsCreate k dir name (mode ||| 0o040000)

/-- `ouichefs_lookup`: the inode number the dentry is bound to, if any.  An error pointer from
`ouichefs_iget` is handed to `d_add` unchecked. -/
def ouichefsLookup (k : Kernel) (dir : Nat) (name : List UInt8) :
    Outcome (Except Int (Option Nat)) :=
  if name.length > 28 then .ok (.error (-ENAMETOOLONG), k)
  else
    let dirBlock := (k.inode dir).indexBlock
    match k.sbBread dirBlock with
    | (false, k) => .ok (.error (- EIO), k)
    | (true, k) =>
      let b := k.fs.disk dirBlock
      match (List.range 128).find? fun i =>
          slotInode b i == 0 || strncmpEq (slotName b i) name 28 with
      | none => .ok (.ok none, k.brelse dirBlock)
      | some i =>
        if slotInode b i = 0 then .ok (.ok none, k.brelse dirBlock)
        else
          match ouichefsIget k (slotInode b i) with
          | (err, k) =>
            if err ≠ 0 then .error (.badPointer, k.brelse dirBlock)
            else .ok (.ok (some (slotInode b i)), k.brelse dirBlock)

/-! ## Deletion -/

/-- The loop of `ouichefs_unlink` over the pointers of a big file: `n` more from pointer `i` on. -/
def releaseData (idx : Nat) : Nat → Nat → Kernel → Outcome Unit
  | 0, _, k => .ok ((), k)
  | n + 1, i, k =>
    if i ≥ 1024 then .error (.outOfBounds, k)
    else
      let ptr := indexPtr (k.fs.disk idx) i
      if ptr = 0 then releaseData idx n (i + 1) k
      else
        match k.sbBread ptr with
        | (false, k) => releaseData idx n (i + 1) (k.putBlock (indexPtr (k.fs.disk idx) i))
        | (true, k) =>
          let k := (k.setBlock ptr Page.zero).brelse ptr
          releaseData idx n (i + 1) (k.putBlock (indexPtr (k.fs.disk idx) i))

/-- The storage of the inode being unlinked, up to the label `clean_inode`. -/
def releaseStorage (k : Kernel) (ino : Nat) : Outcome Unit :=
  let ci := k.inode ino
  let isDir := sIsDir ci.iMode
  if ci.iBlocks = 0 ∧ isDir = false then
    match deleteSliceAndClearInode k ino with
    | .error e => .error e
    | .ok (_, k) => .ok ((), k)
  else if ci.indexBlock = 0 then .error (.panic, k)
  else
    match k.sbBread ci.indexBlock with
    | (false, k) => .ok ((), k)
    | (true, k) =>
      if isDir then .ok ((), (k.setBlock ci.indexBlock Page.zero).brelse ci.indexBlock)
      else
        match releaseData ci.indexBlock (pred64 ci.iBlocks) 0 k with
        | .error e => .error e
        | .ok ((), k) => .ok ((), (k.setBlock ci.indexBlock Page.zero).brelse ci.indexBlock)

/-- The label `clean_inode`: `bno` is the index block and `small` whether the file was small. -/
def cleanInode (k : Kernel) (ino bno : Nat) (small : Bool) : Kernel :=
  let ci := k.inode ino
  let k := k.setInode ino
    { ci with
      iBlocks := 0, indexBlock := 0, iSize := 0, iUid := 0, iGid := 0, iMode := 0,
      iCtime := ⟨0, 0⟩, iMtime := ⟨0, 0⟩, iAtime := ⟨0, 0⟩, iNlink := sub32 ci.iNlink 1 }
  let k := if bno ≠ 0 ∧ small = false then k.putBlock bno else k
  k.putInode ino

/-- `ouichefs_unlink`. -/
def ouichefsUnlink (k : Kernel) (dir ino : Nat) : Outcome Int :=
  let ci := k.inode ino
  let dirBlock := (k.inode dir).indexBlock
  match k.sbBread dirBlock with
  | (false, k) => .ok (- EIO, k)
  | (true, k) =>
    match scanSlots (k.fs.disk dirBlock) ino 128 0 none with
    | (none, _) => .error (.outOfBounds, k)
    | (some fId, nrSubs) =>
      let k := k.setBlock dirBlock (removeSlot (k.fs.disk dirBlock) fId nrSubs)
      let k := touchDir (k.brelse dirBlock) dir fun n => if sIsDir ci.iMode then sub32 n 1 else n
      match releaseStorage k ino with
      | .error e => .error e
      | .ok ((), k) =>
        .ok (0, cleanInode k ino ci.indexBlock (decide (ci.iBlocks = 0) && !sIsDir ci.iMode))

/-- `ouichefs_rmdir`. -/
def ouichefsRmdir (k : Kernel) (dir ino : Nat) : Outcome Int :=
  let ci := k.inode ino
  if ci.iNlink > 2 then .ok (-ENOTEMPTY, k)
  else
    match k.sbBread ci.indexBlock with
    | (false, k) => .ok (- EIO, k)
    | (true, k) =>
      let k' := k.brelse ci.indexBlock
      if slotInode (k.fs.disk ci.indexBlock) 0 ≠ 0 then .ok (-ENOTEMPTY, k')
      else ouichefsUnlink k' dir ino

/-! ## Renaming -/

/-- The first loop of `ouichefs_rename` over the new directory from slot `i` on, `n` slots:
`none` when the new name exists, else the slot of the old name and the first free slot. -/
def renameScan (b : Block) (same : Bool) (oldName newName : List UInt8) :
    Nat → Nat → Option Nat → Option Nat → Option (Option Nat × Option Nat)
  | 0, _, fPos, newPos => some (fPos, newPos)
  | n + 1, i, fPos, newPos =>
    let fPos := if same && strncmpEq (slotName b i) oldName 28 then some i else fPos
    if strncmpEq (slotName b i) newName 28 then none
    else
      let newPos := if newPos.isNone && slotInode b i == 0 then some i else newPos
      renameScan b same oldName newName n (i + 1) fPos newPos

/-- The second half of a move: drop the entry of `src` from the old directory. -/
def removeFromOld (k : Kernel) (oldDir src : Nat) : Outcome Int :=
  let oldBlock := (k.inode oldDir).indexBlock
  match k.sbBread oldBlock with
  | (false, k) => .ok (- EIO, k)
  | (true, k) =>
    match scanSlots (k.fs.disk oldBlock) src 128 0 none with
    | (fId, nrSubs) =>
      -- the loop condition is a constant: a full directory is scanned past its end
      if nrSubs ≥ 128 then .error (.outOfBounds, k)
      else
        match fId with
        | none => .error (.outOfBounds, k)
        | some fId =>
          let k := k.setBlock oldBlock (removeSlot (k.fs.disk oldBlock) fId nrSubs)
          .ok (0, touchDir (k.brelse oldBlock) oldDir fun n =>
            if sIsDir (k.inode src).iMode then sub32 n 1 else n)

/-- `ouichefs_rename`; `flags` has `RENAME_EXCHANGE` (2) or `RENAME_WHITEOUT` (4). -/
def ouichefsRename (k : Kernel) (oldDir : Nat) (oldName : List UInt8) (src newDir : Nat)
    (newName : List UInt8) (flags : Nat) : Outcome Int :=
  if flags &&& 6 ≠ 0 then .ok (-EINVAL, k)
  else if (cstr newName).length > 28 then .ok (-ENAMETOOLONG, k)
  else
    let newBlock := (k.inode newDir).indexBlock
    match k.sbBread newBlock with
    | (false, k) => .ok (- EIO, k)
    | (true, k) =>
      let b := k.fs.disk newBlock
      match renameScan b (newDir == oldDir) oldName newName 128 0 none none with
      | none => .ok (-EEXIST, k.brelse newBlock)
      | some (fPos, newPos) =>
        if oldDir = newDir then
          match fPos with
          | none => .error (.outOfBounds, k)
          | some i => .ok (0, (k.setBlock newBlock (setSlotName b i newName)).brelse newBlock)
        else
          match newPos with
          | none => .ok (-EMLINK, k.brelse newBlock)
          | some i =>
            let k := (k.setBlock newBlock (setSlot b i src newName)).brelse newBlock
            let ci := k.inode newDir
            let k := k.setInode newDir
              { ci with
                iAtime := k.now, iCtime := k.now, iMtime := k.now,
                iNlink := if sIsDir (k.inode src).iMode then add32 ci.iNlink 1 else ci.iNlink }
            removeFromOld k oldDir src

end Ouichefs
