import Ouichefs.NoLeak

/-!
# Blocks for the page cache (`ouichefs_file_get_block`)

The page cache asks for the block behind a page of a file, for `ouichefs_readahead` without `create`
and for `ouichefs_writepage` with it.  `custom_read_iter` and `custom_write_iter` do not use the page
cache, so both ways to a file have to agree.

* `FsInv.getBlock`: one call, on a big file.
* `getBlock_agrees`: in any run with such calls the files stay as they are, and every page is mapped
  to a block that holds the part of the file a read delivers.
-/

set_option autoImplicit false

namespace Ouichefs

/-! ## The model -/

/-- The `int` variable that holds a block number, as a `sector_t`. -/
def sectorOfInt (bno : Nat) : Nat :=
  if bno < 2147483648 then bno else bno + 18446744069414584320

/-- `ouichefs_file_get_block`: the result, and the block `bh_result` is mapped to. -/
def ouichefsFileGetBlock (k : Kernel) (ino iblock : Nat) (create : Bool) :
    (Int × Option Nat) × Kernel :=
  if 1024 ≤ iblock then ((-EFBIG, none), k)
  else
    let idx := (k.inode ino).indexBlock
    match k.sbBread idx with
    | (false, k) => ((- EIO, none), k)
    | (true, k) =>
      if indexPtr (k.fs.disk idx) iblock = 0 then
        if create then
          match k.getFreeBlock with
          | (0, k) => ((-ENOSPC, none), k.brelse idx)
          | (b + 1, k) =>
            ((0, some (sectorOfInt (b + 1))),
              (k.setBlock idx ((k.fs.disk idx).setWord (4 * iblock) (b + 1))).brelse idx)
        else ((0, none), k.brelse idx)
      else ((0, some (sectorOfInt (indexPtr (k.fs.disk idx) iblock))), k.brelse idx)

/-- A request, or a call of the page cache. -/
inductive PageRequest where
  | request (q : Request)
  | getBlock (ino iblock : Nat) (create : Bool)

def PageRequest.exec (k : Kernel) : PageRequest → Outcome Int
  | .request q => q.exec k
  | .getBlock ino iblock create =>
    match ouichefsFileGetBlock k ino iblock create with
    | (r, k) => .ok (r.1, k)

/-- The page cache asks for blocks of big files; `block_write_full_page` writes no page behind the
end of the file, so blocks are created in front of it only. -/
def PageRequest.Ok (k : Kernel) : PageRequest → Prop
  | .request q => q.Ok k
  | .getBlock ino iblock create =>
    k.fs.Is ino .big ∧ (create = true → 4096 * iblock < (k.fs.inode ino).iSize)

instance (k : Kernel) : (q : PageRequest) → Decidable (q.Ok k)
  | .request _ => inferInstanceAs (Decidable (Request.Ok _ _))
  | .getBlock .. => inferInstanceAs (Decidable (_ ∧ _))

/-- What a call of the page cache does to a tree: nothing. -/
def Tree.StepOrMap (t : Tree) : PageRequest → Int → Tree → Prop
  | .request q, r, t' => t.StepOr q r t'
  | .getBlock .., _, t' => t' = t

/-- **What a call gives for page `iblock` of a file with content `l`**: a block that holds the page,
filled up with zeros; no block for a page of zeros, unless one is to be created; or an error. -/
inductive Maps (fs fs' : Fs) (l : List UInt8) (iblock : Nat) (create : Bool) :
    Int × Option Nat → Prop where
  | block {b : Nat} : 0 < b → (∀ x < 4096, (fs'.disk b).get x = l.getD (4096 * iblock + x) 0) →
      Maps fs fs' l iblock create (0, some b)
  | hole : create = false → (∀ x < 4096, l.getD (4096 * iblock + x) 0 = 0) →
      Maps fs fs' l iblock create (0, none)
  | full : create = true → fs.sbi.nrFreeBlocks = 0 →
      Maps fs fs' l iblock create (-ENOSPC, none)
  | long : 1024 ≤ iblock → Maps fs fs' l iblock create (-EFBIG, none)

/-! ## One call -/

section Call

variable {k k' : Kernel} {chain : List Nat} {ino i : Nat}

/-- Byte `x` of a big file, also behind its end. -/
theorem FsInv.bigByte_content (h : FsInv k chain) (hb : k.fs.Is ino .big) (x : Nat) :
    k.fs.bigByte ino x = (k.fs.content ino).getD x 0 := by
  rw [Fs.content_big hb]
  by_cases hx : x < (k.fs.inode ino).iSize
  · rw [List.getD_eq_getElem _ _ (by simpa using hx)]
    simp [Fs.bigBytes]
  · rw [List.getD_eq_default _ _ (by simpa using hx)]
    have ht := h.tails ino hb
    by_cases hlast : x < 4096 * divRoundUp (k.fs.inode ino).iSize 4096
    · exact ht.bytes x (by omega) hlast
    · unfold Fs.bigByte
      rw [if_pos]
      by_cases hlt : x / 4096 < 1024
      · exact ht.ptrs _ (by omega) hlt
      · exact (Page.word_eq_zero_iff _ _).2 fun y _ => Page.get_of_ge _ (by omega)

/-- A mapped block holds its part of the file. -/
theorem FsInv.mapped (h : FsInv k chain) (hb : k.fs.Is ino .big) {b x : Nat}
    (hptr : indexPtr (k.fs.indexOf ino) i = b) (h0 : b ≠ 0) (hx : x < 4096) :
    (k.fs.disk b).get x = (k.fs.content ino).getD (4096 * i + x) 0 := by
  rw [← h.bigByte_content hb]
  unfold Fs.bigByte
  rw [show (4096 * i + x) / 4096 = i by omega, show (4096 * i + x) % 4096 = x by omega, hptr,
    if_neg h0]

theorem FsInv.unmapped (h : FsInv k chain) (hb : k.fs.Is ino .big) {x : Nat}
    (hptr : indexPtr (k.fs.indexOf ino) i = 0) (hx : x < 4096) :
    (k.fs.content ino).getD (4096 * i + x) 0 = 0 := by
  rw [← h.bigByte_content hb]
  unfold Fs.bigByte
  rw [show (4096 * i + x) / 4096 = i by omega, if_pos hptr]

theorem FsInv.sector (h : FsInv k chain) {b : Nat} (hb : b < k.fs.sbi.nrBlocks) :
    sectorOfInt b = b := by
  have hle := h.wf.sb.blocks_le trivial
  exact if_pos (by omega)

/-- What a call leaves alone. -/
structure Mapping (k k' : Kernel) (chain : List Nat) : Prop where
  inv : FsInv k' chain
  tree : k'.fs.tree = k.fs.tree
  keeps : Keeps k.fs k'.fs
  durable : Durable k.fs → Durable k'.fs

theorem FsInv.mapping_refl (h : FsInv k chain) (hf : k'.faults = []) (hfs : k'.fs = k.fs) :
    Mapping k k' chain :=
  ⟨h.of_fs hf hfs, by rw [hfs], by rw [hfs]; exact .refl _, fun hd => by rw [hfs]; exact hd⟩

/-- **Filling a hole in front of the end** of a big file changes nothing. -/
theorem FsInv.mapping (h : FsInv k chain) (hb : k.fs.Is ino .big)
    (he : LoopEff ino (k.fs.inode ino) chain k k') (ht : Touch ino k k')
    (hbyte : ∀ x, k'.fs.bigByte ino x = k.fs.bigByte ino x) : Mapping k k' chain := by
  have hwf := h.wf
  have hsz := (hwf.inodes.big ino hb).size_le
  have hblocks : (k.fs.inode ino).iBlocks = divRoundUp (k.fs.inode ino).iSize 4096 + 1 :=
    h.tight.blocks ino hb
  have hgrown : (k.fs.inode ino).grown (k.fs.inode ino).indexBlock (k.fs.inode ino).iSize =
      k.fs.inode ino := by
    unfold Inode.grown
    rw [← hblocks]
  have hp := Prepared.of_big hwf.toCore hb hsz (Nat.le_refl _)
  rw [hgrown] at hp
  have hcached : (k'.fs.icache ino).isSome := by
    rw [he.icache]
    exact hp.cached
  have hinode : ∀ j, k'.fs.inode j = k.fs.inode j := by
    intro j
    unfold Fs.inode
    rw [he.icache]
  have hself : k'.fs.setInode ino (k.fs.inode ino) = k'.fs := by
    rw [← hinode ino]
    exact Fs.setInode_self hcached
  have hself₀ : k.fs.setInode ino (k.fs.inode ino) = k.fs := Fs.setInode_self hp.cached
  have hcore := he.inv.core
  rw [hself] at hcore
  have hspared := hp.spared he (hself.symm ▸ hcore)
  rw [hself] at hspared
  have hb' : k'.fs.Is ino .big := ⟨(hspared.live ino).2 hb.1, by rw [hinode]; exact hb.2⟩
  have hnd : ¬k.fs.Is ino .dir := fun hd => by cases hb.kind_unique hd
  have hkept := hspared.kept hwf hnd (Or.inl hb'.2)
  have hw := hspared.fileWrite hwf.toCore (Or.inr (Or.inl hb'.2))
  have htight : Tight k'.fs chain := by
    have ht' := he.tight _ _ (hself₀.symm ▸ h.tight)
    rwa [hself] at ht'
  have htail : TailZero k'.fs ino := by
    refine ⟨fun j h1 h2 => htight.ptrs ino hb' j ?_ h2, fun x h1 h2 => ?_⟩
    · rw [hinode] at h1 ⊢
      omega
    · rw [hbyte]
      rw [hinode] at h1 h2
      exact (h.tails ino hb).bytes x h1 h2
  have hfile : k.fs.File ino := hb.file (by decide)
  have hns : ¬k.fs.Is ino .small := fun hs => by cases hb.kind_unique hs
  obtain ⟨hinv, hnames, hfiles⟩ := h.of_write hw hkept.wf ht htight (fun _ => htail)
    (hw.occupied h.occupied (fun _ => id) hns) hfile
  have hcont : k'.fs.content ino = k.fs.content ino := by
    rw [Fs.content_big hb', Fs.content_big hb, hinode]
    unfold Fs.bigBytes
    exact List.map_congr_left fun x _ => hbyte _
  refine ⟨hinv, ?_, ⟨hw.geom, .of_eq (hinode 1), fun hcount => ?_⟩, fun hd => ?_⟩
  · rw [h.tree_put hnames hfiles hfile rfl fun i hin _ => hw.keepsFile hwf.toCore hin, hcont]
    apply Tree.ext
    · rfl
    · show Function.update k.fs.contents ino _ = k.fs.contents
      rw [← Fs.contents_file hfile, Function.update_eq_self]
  · rw [ht.nrFreeInodes, ht.ifree, hw.geom.nrInodes]
    exact hcount
  · refine hd.of_kept hw.geom ?_ fun j hj => ?_
    · refine hw.disk 0 (hwf.owned.used (k.fs.refers_zero chain)) hwf.toCore.zero_notin ?_
      intro r hby hr
      have hr0 := hwf.owned.inj hr (k.fs.refers_zero chain)
      rw [hr0] at hby
      exact hby
    · rw [hinode]
      exact hd.inodes j ((hw.live j).1 hj)

/-- A hole is filled as in `write_big_file`. -/
theorem ouichefsFileGetBlock_hole {k₁ : Kernel} (hi : i < 1024)
    (hread : k.sbBread (k.inode ino).indexBlock = (true, k₁))
    (hptr : indexPtr (k₁.fs.disk (k.inode ino).indexBlock) i = 0) :
    ouichefsFileGetBlock k ino i true =
      match getDataBlock k₁ (k.inode ino).indexBlock i with
      | (0, k₂) => ((-ENOSPC, none), k₂.brelse (k.inode ino).indexBlock)
      | (b + 1, k₂) =>
        ((0, some (sectorOfInt (b + 1))), k₂.brelse (k.inode ino).indexBlock) := by
  unfold ouichefsFileGetBlock getDataBlock
  simp only [hread, hptr, if_neg (Nat.not_le.2 hi), if_true]
  generalize k₁.getFreeBlock = p
  obtain ⟨b, k₂⟩ := p
  cases b <;> rfl

/-- A page in front of the end gets a block of zeros, if one is free. -/
theorem FsInv.getBlock_hole (h : FsInv k chain) (hb : k.fs.Is ino .big)
    (hlt : 4096 * i < (k.fs.inode ino).iSize) (hptr : indexPtr (k.fs.indexOf ino) i = 0) :
    Maps k.fs (ouichefsFileGetBlock k ino i true).2.fs (k.fs.content ino) i true
        (ouichefsFileGetBlock k ino i true).1 ∧
      Mapping k (ouichefsFileGetBlock k ino i true).2 chain := by
  obtain ⟨hsz, hblocks, -⟩ := h.wf.inodes.big ino hb
  have hi : i < 1024 := by omega
  have hread := Kernel.sbBread_ok h.faults (h.wf.toCore.big_used hb).1
  rw [ouichefsFileGetBlock_hole hi hread hptr]
  generalize hk₁ : k.log (.bread (k.fs.inode ino).indexBlock) = k₁
  have hfs₁ : k₁.fs = k.fs := by rw [← hk₁]; rfl
  have hf₁ : k₁.faults = [] := by rw [← hk₁]; exact h.faults
  have hself : k.fs.setInode ino (k.fs.inode ino) = k.fs :=
    Fs.setInode_self (h.wf.inodes.cached ino hb.1)
  have hloop : LoopInv ino (k.fs.inode ino) chain k₁.fs := by
    rw [hfs₁]
    exact ⟨hself.symm ▸ h.wf.toCore, hself.symm ▸ hb⟩
  have hib : i < (k.fs.inode ino).iBlocks - 1 := by
    unfold divRoundUp at hblocks
    omega
  have h₁ : FsInv k₁ chain := h.of_fs hf₁ hfs₁
  have ht := (getDataBlock_quiet ino k₁ (k.fs.inode ino).indexBlock i).toTouch
  rcases getDataBlock_spec hf₁ hloop hi hib with
    ⟨b, k₂, hrun, h0, he, -, hptr₂, -, hbyte⟩ | ⟨hrun, hfull⟩
  · have hrun' : getDataBlock k₁ (k.inode ino).indexBlock i = (b, k₂) := hrun
    obtain ⟨b, rfl⟩ := Nat.exists_eq_succ_of_ne_zero h0
    rw [hrun] at ht
    have ht₂ : Touch ino k₁ k₂ := ht
    have hself₁ : k₁.fs.setInode ino (k.fs.inode ino) = k₁.fs := by rw [hfs₁, hself]
    have hself₂ : k₂.fs.setInode ino (k.fs.inode ino) = k₂.fs := by
      have hino : k₂.fs.inode ino = k.fs.inode ino := by
        unfold Fs.inode
        rw [he.icache, hfs₁]
      rw [← hino]
      refine Fs.setInode_self ?_
      rw [he.icache, hfs₁]
      exact h.wf.inodes.cached ino hb.1
    have hb₁ : k₁.fs.Is ino .big := by rwa [hfs₁]
    have hino₁ : k₁.fs.inode ino = k.fs.inode ino := by rw [hfs₁]
    rw [hself₂] at hptr₂
    have hm : Mapping k₁ k₂ chain := h₁.mapping hb₁ (hino₁.symm ▸ he) ht₂ fun x => by
      have hx := hbyte x
      rwa [hself₁, hself₂] at hx
    have hb₂ : k₂.fs.Is ino .big := by
      have := he.inv.big
      rwa [hself₂] at this
    have hcont : k₂.fs.content ino = k.fs.content ino := by
      have hfiles := congrFun (congrArg Tree.files hm.tree) ino
      have hf₂ : k₂.fs.contents ino = k₁.fs.contents ino := hfiles
      rw [Fs.contents_file (hb₂.file (by decide)), Fs.contents_file (hb₁.file (by decide)),
        hfs₁] at hf₂
      exact Option.some.inj hf₂
    have hused := (hm.inv.wf.owned.used (r := .data ino i) ⟨hb₂, hi, hptr₂.symm, h0⟩).1
    rw [hrun']
    simp only [hm.inv.sector hused]
    refine ⟨.block (Nat.succ_pos b) fun x hx => ?_, ?_⟩
    · rw [← hcont]
      exact hm.inv.mapped hb₂ hptr₂ h0 hx
    · have hm' : Mapping k k₂ chain := ⟨hm.inv, by rw [hm.tree, hfs₁], hfs₁ ▸ hm.keeps,
        hfs₁ ▸ hm.durable⟩
      exact ⟨hm'.inv.of_fs hm'.inv.faults rfl, hm'.tree, hm'.keeps, hm'.durable⟩
  · have hrun' : getDataBlock k₁ (k.inode ino).indexBlock i = (0, k₁.log .noFreeBlock) := hrun
    rw [hrun']
    exact ⟨.full rfl (hfs₁ ▸ hfull), h.mapping_refl hf₁ hfs₁⟩

/-- **One call on a big file.**  It changes no file and maps the page to what the file holds there. -/
theorem FsInv.getBlock (h : FsInv k chain) (hb : k.fs.Is ino .big) {create : Bool}
    (hin : create = true → 4096 * i < (k.fs.inode ino).iSize) :
    Maps k.fs (ouichefsFileGetBlock k ino i create).2.fs (k.fs.content ino) i create
        (ouichefsFileGetBlock k ino i create).1 ∧
      Mapping k (ouichefsFileGetBlock k ino i create).2 chain := by
  by_cases hlong : 1024 ≤ i
  · unfold ouichefsFileGetBlock
    rw [if_pos hlong]
    exact ⟨.long hlong, h.mapping_refl h.faults rfl⟩
  have hread := Kernel.sbBread_ok h.faults (h.wf.toCore.big_used hb).1
  by_cases hptr : indexPtr (k.fs.indexOf ino) i = 0
  · cases create with
    | false =>
        have hptr' : indexPtr (k.fs.disk (k.inode ino).indexBlock) i = 0 := hptr
        have hrun : ouichefsFileGetBlock k ino i false = ((0, none),
            (k.log (.bread (k.inode ino).indexBlock)).brelse (k.inode ino).indexBlock) := by
          unfold ouichefsFileGetBlock
          simp only [if_neg hlong]
          rw [show k.sbBread (k.inode ino).indexBlock = _ from hread]
          simp only [Kernel.log, hptr', if_true, Bool.false_eq_true, if_false]
          rfl
        rw [hrun]
        exact ⟨.hole rfl fun x hx => h.unmapped hb hptr hx, h.mapping_refl h.faults rfl⟩
    | true => exact h.getBlock_hole hb (hin rfl) hptr
  · have hused := (h.wf.owned.used (r := .data ino i) ⟨hb, by omega, rfl, hptr⟩).1
    have hptr' : indexPtr (k.fs.disk (k.inode ino).indexBlock) i ≠ 0 := hptr
    have hrun : ouichefsFileGetBlock k ino i create =
        ((0, some (indexPtr (k.fs.indexOf ino) i)),
          (k.log (.bread (k.inode ino).indexBlock)).brelse (k.inode ino).indexBlock) := by
      unfold ouichefsFileGetBlock
      simp only [if_neg hlong]
      rw [show k.sbBread (k.inode ino).indexBlock = _ from hread]
      have hsec := h.sector hused
      simp only [Kernel.log, hptr', if_false]
      rw [← hsec]
      rfl
    rw [hrun]
    exact ⟨.block (Nat.pos_iff_ne_zero.2 hptr) fun x hx => h.mapped hb rfl hptr hx,
      h.mapping_refl h.faults rfl⟩

/-- A page is mapped to the block of its pointer. -/
theorem FsInv.getBlock_refers (h : FsInv k chain) (hb : k.fs.Is ino .big) {b : Nat}
    (hrun : (ouichefsFileGetBlock k ino i false).1 = (0, some b)) :
    Refers k.fs chain (.data ino i) b := by
  unfold ouichefsFileGetBlock at hrun
  split at hrun
  · cases hrun
  · rename_i hi
    simp only at hrun
    rw [show k.sbBread (k.inode ino).indexBlock = _ from
      Kernel.sbBread_ok h.faults (h.wf.toCore.big_used hb).1] at hrun
    simp only [Bool.false_eq_true, if_false] at hrun
    split at hrun
    · cases hrun
    · rename_i hptr
      have hptr : indexPtr (k.fs.indexOf ino) i ≠ 0 := hptr
      have href : Refers k.fs chain (.data ino i) (indexPtr (k.fs.indexOf ino) i) :=
        ⟨hb, by omega, rfl, hptr⟩
      have hsec := h.sector (h.wf.owned.used href).1
      have hb' : sectorOfInt (indexPtr (k.fs.indexOf ino) i) = b :=
        Option.some.inj (congrArg Prod.snd hrun)
      rw [← hb', hsec]
      exact href

end Call

/-! ## Runs -/

section Runs

variable {k : Kernel} {chain : List Nat} {qs : List PageRequest}

theorem PageRequest.Ok.step {q : PageRequest} (hq : q.Ok k) (h : FsInv k chain)
    (hd : Durable k.fs) : ∃ r k' chain', q.exec k = .ok (r, k') ∧ FsInv k' chain' ∧
      Durable k'.fs ∧ k.fs.tree.StepOrMap q r k'.fs.tree := by
  cases q with
  | request q => exact Request.Ok.step hq h hd
  | getBlock ino iblock create =>
      obtain ⟨hb, hin⟩ := hq
      obtain ⟨-, hm⟩ := h.getBlock hb hin
      exact ⟨_, _, chain, rfl, hm.inv, hm.durable hd, hm.tree⟩

/-- **The page cache sees the files that reads and writes see.**  In any run in which it asks for
blocks between the calls, the tree goes its way as without it, and afterwards every page of a big
file is mapped to a block that holds it; no two pages are mapped to one block. -/
theorem getBlock_agrees (hf : k.faults = []) (h : Formatted k.fs) (hz : k.fs.Blank) (hd : Durable k.fs)
    (ha : Admissible PageRequest.exec PageRequest.Ok k qs) :
    Simulates PageRequest.exec Shows Tree.StepOrMap k Tree.root qs ∧
      ∃ k' t, runAll PageRequest.exec k qs = .ok k' ∧ Shows k' t ∧
        (∀ ino l i create, k'.fs.Is ino .big → t.files ino = some l →
          (create = true → 4096 * i < l.length) →
          Maps k'.fs (ouichefsFileGetBlock k' ino i create).2.fs l i create
            (ouichefsFileGetBlock k' ino i create).1) ∧
        ∀ ino j i m b, k'.fs.Is ino .big → k'.fs.Is j .big →
          (ouichefsFileGetBlock k' ino i false).1 = (0, some b) →
          (ouichefsFileGetBlock k' j m false).1 = (0, some b) → ino = j ∧ i = m := by
  have hinv := h.fsInv hf hz
  refine ⟨?_, ?_⟩
  · rw [← h.tree]
    refine simulates_of_step (I := fun k => ∃ chain, FsInv k chain ∧ Durable k.fs) ?_ qs k _
      ⟨[], hinv, hd⟩ hinv.shows ha
    rintro k t q ⟨chain, hi, hd⟩ hr hq
    obtain rfl := (hi.shows_iff t).1 hr
    obtain ⟨r, k', chain', he, hi', hd', hs⟩ := hq.step hi hd
    exact ⟨r, k', _, he, hs, ⟨chain', hi', hd'⟩, hi'.shows⟩
  · obtain ⟨k', hrun, chain', hinv', -⟩ :=
      runAll_invariant (I := fun k => ∃ chain, FsInv k chain ∧ Durable k.fs)
        (fun s q ⟨chain, hi, hd⟩ hq => by
          obtain ⟨r, k', chain', he, hi', hd', -⟩ := hq.step hi hd
          exact ⟨r, k', he, chain', hi', hd'⟩) qs k ⟨[], hinv, hd⟩ ha
    refine ⟨k', k'.fs.tree, hrun, hinv'.shows, fun ino l i create hb hl hin => ?_,
      fun ino j i m b hb hj hi hm => ?_⟩
    · have hl' : k'.fs.contents ino = some l := hl
      rw [Fs.contents_file (hb.file (by decide))] at hl'
      obtain rfl := Option.some.inj hl'
      rw [hinv'.content_length (hb.file (by decide))] at hin
      exact (hinv'.getBlock hb hin).1
    · have hrr := hinv'.wf.owned.inj (hinv'.getBlock_refers hb hi) (hinv'.getBlock_refers hj hm)
      cases hrr
      exact ⟨rfl, rfl⟩

/-- A file with a hole, into which the page cache maps a block. -/
def pageRun : List PageRequest :=
  [.request (.call (Op.create 1 [97] 0o100644).call), .request (.call (Op.write 2 8192 [7]).call),
    .getBlock 2 0 false, .getBlock 2 1 true, .getBlock 2 2 true,
    .request (.call (Op.write 2 4096 [9]).call)]

theorem pageRun_admissible :
    Admissible PageRequest.exec PageRequest.Ok (magicImage 12 8) pageRun := by
  decide +kernel

theorem getBlock_agrees_pageRun :
    Simulates PageRequest.exec Shows Tree.StepOrMap (magicImage 12 8) Tree.root pageRun :=
  (getBlock_agrees rfl (magicImage_formatted (by decide) (by decide) (by decide) (by decide))
    (magicImage_blank (by decide))
    (magicImage_durable (by decide) (by decide) (by decide) (by decide)) pageRun_admissible).1

end Runs

end Ouichefs
