import Ouichefs.Touch

/-!
# What creation and removal do to the inodes

In every state, well formed or not, with all reads succeeding: a creation either keeps every cached
inode and the inode bitmap (`Idle`) or takes the least free inode number (`Born`, `CreateEff`); a
removal clears one inode and gives its number back (`RemoveEff`).  The parent directory gets new
times and a new link count.
-/

set_option autoImplicit false

namespace Ouichefs

open FreeMap

variable {k k' : Kernel}

/-- No cached inode and no inode number changes hands. -/
structure Idle (k k' : Kernel) : Prop where
  faults : k'.faults = []
  geom : SameGeom k.fs.sbi k'.fs.sbi
  ifree : k'.fs.sbi.ifreeBitmap = k.fs.sbi.ifreeBitmap
  nrFreeInodes : k'.fs.sbi.nrFreeInodes = k.fs.sbi.nrFreeInodes
  slices : k'.fs.sbi.nrUsedSlices = k.fs.sbi.nrUsedSlices
  kept : ∀ i, (k.fs.icache i).isSome → k'.fs.icache i = k.fs.icache i

theorem Idle.of_quiet (hf : k.faults = []) (h : ∀ ino, Quiet ino k k') : Idle k k' :=
  ⟨(h 0).faults hf, (h 0).geom, (h 0).ifree, (h 0).nrFreeInodes, (h 0).slices,
    fun i _ => (h (i + 1)).others i (by omega)⟩

theorem Idle.trans {k₁ : Kernel} (h : Idle k k₁) (h' : Idle k₁ k') : Idle k k' :=
  ⟨h'.faults, h.geom.trans h'.geom, h'.ifree.trans h.ifree, h'.nrFreeInodes.trans h.nrFreeInodes,
    h'.slices.trans h.slices, fun i hi => (h'.kept i ((h.kept i hi).symm ▸ hi)).trans (h.kept i hi)⟩

/-- Inode `ino`, the least free one, becomes an inode of the given mode; nothing else about the
inodes changes. -/
structure Born (k k' : Kernel) (ino mode : Nat) : Prop where
  faults : k'.faults = []
  pos : ino ≠ 0
  lt : ino < k.fs.sbi.nrInodes
  free : k.fs.sbi.ifreeBitmap ino = true
  least : ∀ j < ino, k.fs.sbi.ifreeBitmap j = false
  geom : SameGeom k.fs.sbi k'.fs.sbi
  ifree : k'.fs.sbi.ifreeBitmap = Function.update k.fs.sbi.ifreeBitmap ino false
  nrFreeInodes : k'.fs.sbi.nrFreeInodes = sub32 k.fs.sbi.nrFreeInodes 1
  slices : k'.fs.sbi.nrUsedSlices = k.fs.sbi.nrUsedSlices
  others : ∀ i, i ≠ ino → k'.fs.icache i = k.fs.icache i
  cached : (k'.fs.icache ino).isSome
  dir : sIsDir (k'.inode ino).iMode = sIsDir mode
  reg : sIsDir mode = false → sIsReg (k'.inode ino).iMode = true
  size : (k'.inode ino).iSize = if sIsDir mode then 4096 else 0
  nlink : (k'.inode ino).iNlink = 1
  index : sIsDir mode = true → (k'.inode ino).indexBlock < k'.fs.sbi.nrBlocks

theorem initInode_size (k : Kernel) (ci dir : Inode) (mode idx : Nat) :
    (initInode k ci dir mode idx).iSize = if sIsDir mode then 4096 else 0 := by
  unfold initInode inodeInitOwner
  split <;> cases hd : sIsDir mode <;> simp

theorem ouichefsIget_idle (hf : k.faults = []) (ino : Nat) :
    Idle k (ouichefsIget k ino).2 ∧ (ouichefsIget k ino).1 ≤ 0 ∧
      (∀ i, i ≠ ino → (ouichefsIget k ino).2.fs.icache i = k.fs.icache i) ∧
      ((ouichefsIget k ino).1 = 0 → ((ouichefsIget k ino).2.fs.icache ino).isSome) := by
  have hidle : Idle k k := .of_quiet hf fun _ => .refl _ _
  unfold ouichefsIget
  split
  · exact ⟨hidle, show -EINVAL ≤ 0 by decide, fun _ _ => rfl,
      fun h => absurd (show -EINVAL = 0 from h) (by decide)⟩
  · cases hc : k.fs.icache ino with
    | some ci =>
        refine ⟨hidle, Int.le_refl _, fun _ _ => rfl, fun _ => ?_⟩
        show (k.fs.icache ino).isSome
        rw [hc]
        rfl
    | none =>
        simp only
        have hb := fun i => Quiet.sbBread i k (ino / 51 + 1)
        split
        · rename_i k₁ h
          rw [h] at hb
          exact ⟨.of_quiet hf hb, show - EIO ≤ 0 by decide,
            fun i _ => (hb (i + 1)).others i (by omega),
            fun h => absurd (show - EIO = 0 from h) (by decide)⟩
        · rename_i k₁ h
          rw [h] at hb
          have hi := Idle.of_quiet hf hb
          have hset : ∀ i, i ≠ ino → ((k₁.setInode ino
              (decodeInode (k₁.fs.disk (ino / 51 + 1)) (ino % 51))).brelse
                (ino / 51 + 1)).fs.icache i = k.fs.icache i := by
            intro i hne
            rw [Kernel.fs_brelse, Kernel.fs_setInode, Fs.icache_setInode_of_ne _ _ _ hne]
            exact (hb (i + 1)).others i (by omega)
          refine ⟨⟨hi.faults, hi.geom, hi.ifree, hi.nrFreeInodes, hi.slices, fun i hs => ?_⟩,
            Int.le_refl _, hset, fun _ => ?_⟩
          · refine hset i ?_
            rintro rfl
            rw [hc] at hs
            cases hs
          · simp

/-- **`ouichefs_new_inode` changes no inode, or takes the least free one.** -/
theorem ouichefsNewInode_effect (hf : k.faults = []) (h0 : k.fs.sbi.ifreeBitmap 0 = false)
    (hlt : k.fs.sbi.nrFreeInodes < 4294967296) (dir mode : Nat) :
    (∃ e, (ouichefsNewInode k dir mode).1 = .error e ∧ e < 0 ∧
      Idle k (ouichefsNewInode k dir mode).2) ∨
    ∃ ino, (ouichefsNewInode k dir mode).1 = .ok ino ∧
      Born k (ouichefsNewInode k dir mode).2 ino mode := by
  have hidle : Idle k k := .of_quiet hf fun _ => .refl _ _
  unfold ouichefsNewInode
  split
  · exact Or.inl ⟨_, rfl, by decide, hidle⟩
  rename_i htype
  split
  · exact Or.inl ⟨_, rfl, by decide, hidle⟩
  rcases Kernel.getFreeInode_cases h0 with ⟨ino, hpos, hino, hfree, hleast, heq⟩ | ⟨-, heq⟩
  swap
  · rw [heq]
    exact Or.inl ⟨_, rfl, by decide, hidle⟩
  rw [heq]
  simp only [hpos, if_false]
  generalize hk₁ : k.setSbi { k.fs.sbi with
    ifreeBitmap := Function.update k.fs.sbi.ifreeBitmap ino false,
    nrFreeInodes := sub32 k.fs.sbi.nrFreeInodes 1 } = k₁
  have hf₁ : k₁.faults = [] := by rw [← hk₁]; exact hf
  obtain ⟨hi, hneg, hother, -⟩ := ouichefsIget_idle hf₁ ino
  generalize ouichefsIget k₁ ino = p at hi hneg hother
  obtain ⟨err, k₂⟩ := p
  simp only at hi hneg hother ⊢
  -- giving the number back restores the bitmap and the counter
  have hback : ∀ k₃, Idle k₂ k₃ → Idle k (k₃.putInode ino) := by
    intro k₃ h₃
    have h₁₃ := hi.trans h₃
    have hge : ino ≤ k₃.fs.sbi.nrInodes := by
      rw [h₁₃.geom.nrInodes, ← hk₁]
      exact Nat.le_of_lt hino
    rw [Kernel.putInode_eq hge]
    have hg := h₁₃.geom
    rw [← hk₁] at hg
    refine ⟨h₁₃.faults, ⟨hg.nrBlocks, hg.nrInodes, hg.nrIstore, hg.nrIfree, hg.nrBfree⟩, ?_, ?_, ?_,
      fun i hs => ?_⟩
    · show Function.update k₃.fs.sbi.ifreeBitmap ino true = _
      rw [h₁₃.ifree, ← hk₁]
      show Function.update (Function.update k.fs.sbi.ifreeBitmap ino false) ino true = _
      rw [Function.update_idem, ← hfree, Function.update_eq_self]
    · show add32 k₃.fs.sbi.nrFreeInodes 1 = _
      rw [h₁₃.nrFreeInodes, ← hk₁]
      exact add32_sub32 hlt
    · show k₃.fs.sbi.nrUsedSlices = _
      rw [h₁₃.slices, ← hk₁]
      rfl
    · have h := h₁₃.kept i (by rw [← hk₁]; exact hs)
      rw [← hk₁] at h
      exact h
  -- the fields set at the end
  have hborn : ∀ (k₃ : Kernel) (bno : Nat), (∀ i, Quiet i k₂ k₃) →
      (sIsDir mode = true → bno < k₃.fs.sbi.nrBlocks) →
      Born k (k₃.setInode ino (initInode k₃ (k₃.inode ino) (k₃.inode dir) mode bno)) ino mode := by
    intro k₃ bno hq hbno
    have h₁₃ := hi.trans (.of_quiet hi.faults hq)
    have hg := h₁₃.geom
    rw [← hk₁] at hg
    have hself : (k₃.setInode ino (initInode k₃ (k₃.inode ino) (k₃.inode dir) mode bno)).inode ino =
        initInode k₃ (k₃.inode ino) (k₃.inode dir) mode bno := by simp [Kernel.inode]
    refine ⟨h₁₃.faults, hpos, hino, hfree, hleast,
      ⟨hg.nrBlocks, hg.nrInodes, hg.nrIstore, hg.nrIfree, hg.nrBfree⟩, ?_, ?_, ?_, fun i hne => ?_,
      ?_, ?_, fun hd => ?_, ?_, ?_, fun hd => ?_⟩
    · show k₃.fs.sbi.ifreeBitmap = _
      rw [h₁₃.ifree, ← hk₁]
      rfl
    · show k₃.fs.sbi.nrFreeInodes = _
      rw [h₁₃.nrFreeInodes, ← hk₁]
      rfl
    · show k₃.fs.sbi.nrUsedSlices = _
      rw [h₁₃.slices, ← hk₁]
      rfl
    · rw [Kernel.fs_setInode, Fs.icache_setInode_of_ne _ _ _ hne, (hq (i + 1)).others i (by omega),
      hother i hne, ← hk₁]
      rfl
    · simp
    · rw [hself, (initInode_mode _ _ _ _ _).1]
    · rw [hself, (initInode_mode _ _ _ _ _).2 hd]
      exact sIsReg_of_not_dir htype hd
    · rw [hself, initInode_size]
    · rw [hself]
      unfold initInode
      rfl
    · rw [hself, (initInode_fields _ _ _ _ _).1]
      exact hbno hd
  by_cases herr : err ≠ 0
  · simp only [herr, if_true, ne_eq, not_false_eq_true]
    exact Or.inl ⟨err, rfl, by omega, hback k₂ (.of_quiet hi.faults fun _ => .refl _ _)⟩
  · simp only [herr, if_false]
    cases hd : sIsDir mode with
    | false =>
        simp only [Bool.false_eq_true, if_false]
        exact Or.inr ⟨ino, rfl, hborn k₂ 0 (fun _ => .refl _ _) (by simp [hd])⟩
    | true =>
        simp only [if_true]
        have hq := fun i => Quiet.getFreeBlock i k₂
        have hb := k₂.getFreeBlock_lt
        generalize k₂.getFreeBlock = q at hq hb
        obtain ⟨bno, k₃⟩ := q
        simp only at hq hb ⊢
        split
        · exact Or.inl ⟨_, rfl, by decide, hback k₃ (.of_quiet hi.faults hq)⟩
        · rename_i hne
          refine Or.inr ⟨ino, rfl, hborn k₃ bno hq fun _ => ?_⟩
          rw [(hq 0).geom.nrBlocks]
          exact hb hne

/-- The effect of a successful creation in directory `dir`. -/
structure CreateEff (k k' : Kernel) (dir ino mode : Nat) : Prop where
  faults : k'.faults = []
  pos : ino ≠ 0
  lt : ino < k.fs.sbi.nrInodes
  free : k.fs.sbi.ifreeBitmap ino = true
  least : ∀ j < ino, k.fs.sbi.ifreeBitmap j = false
  geom : SameGeom k.fs.sbi k'.fs.sbi
  ifree : k'.fs.sbi.ifreeBitmap = Function.update k.fs.sbi.ifreeBitmap ino false
  nrFreeInodes : k'.fs.sbi.nrFreeInodes = sub32 k.fs.sbi.nrFreeInodes 1
  slices : k'.fs.sbi.nrUsedSlices = k.fs.sbi.nrUsedSlices
  view : ∀ i, i ≠ ino → SameView (k.inode i) (k'.inode i)
  links : ∀ i, i ≠ ino → (k'.inode i).iNlink =
    if i = dir ∧ sIsDir mode = true then add32 (k.inode i).iNlink 1 else (k.inode i).iNlink
  cached : ∀ i, i = ino ∨ (k.fs.icache i).isSome → (k'.fs.icache i).isSome
  dir : sIsDir (k'.inode ino).iMode = sIsDir mode
  reg : sIsDir mode = false → sIsReg (k'.inode ino).iMode = true
  size : (k'.inode ino).iSize = if sIsDir mode then 4096 else 0
  nlink : (k'.inode ino).iNlink = 1

/-- Entering the new inode in its directory. -/
theorem Born.register {k₁ k₂ : Kernel} {dir ino mode : Nat} {name : List UInt8}
    (hb : Born k k₁ ino mode) (hq : ∀ i, Quiet i k₁ k₂) (hd : k.fs.sbi.ifreeBitmap dir = false)
    {r : Int} (hr : registerInode k₂ dir ino name mode = .ok (r, k')) :
    r = 0 ∧ CreateEff k k' dir ino mode := by
  have hne : ino ≠ dir := by
    rintro rfl
    rw [hb.free] at hd
    cases hd
  have hin : ∀ i, k₂.fs.icache i = k₁.fs.icache i := fun i => (hq (i + 1)).others i (by omega)
  have hold : ∀ i, i ≠ ino → k₂.inode i = k.inode i := by
    intro i hi
    unfold Kernel.inode Fs.inode
    rw [hin, hb.others i hi]
  have hself : k₂.inode ino = k₁.inode ino := by
    unfold Kernel.inode Fs.inode
    rw [hin]
  unfold registerInode at hr
  simp only at hr
  split at hr
  · cases hr
  generalize hk₃ : (k₂.setBlock (k₂.inode dir).indexBlock (setSlot
    (k₂.fs.disk (k₂.inode dir).indexBlock) (firstFreeSlot (k₂.fs.disk (k₂.inode dir).indexBlock))
    ino name)).brelse (k₂.inode dir).indexBlock = k₃ at hr
  have hsbi : k₃.fs.sbi = k₂.fs.sbi := by rw [← hk₃]; rfl
  have hic : k₃.fs.icache = k₂.fs.icache := by rw [← hk₃]; rfl
  have hinode : k₃.fs.inode = k₂.fs.inode := by
    funext i
    unfold Fs.inode
    rw [hic]
  obtain ⟨rfl, rfl⟩ := Prod.mk.inj (Except.ok.inj hr)
  have hnd : (touchDir k₃ dir fun n => if sIsDir mode then add32 n 1 else n).inode ino =
      k₁.inode ino := by
    rw [← hself]
    exact (touchDir_other k₃ _ hne).trans (congrFun hinode ino)
  refine ⟨rfl, ?_, hb.pos, hb.lt, hb.free, hb.least, ?_, ?_, ?_, ?_, fun i hi => ?_, fun i hi => ?_,
    fun i hi => ?_, ?_, fun hm => ?_, ?_, ?_⟩
  · show k₃.faults = []
    rw [← hk₃]
    exact (hq 0).faults hb.faults
  · show SameGeom k.fs.sbi k₃.fs.sbi
    rw [hsbi]
    exact hb.geom.trans (hq 0).geom
  · show k₃.fs.sbi.ifreeBitmap = _
    rw [hsbi, (hq 0).ifree, hb.ifree]
  · show k₃.fs.sbi.nrFreeInodes = _
    rw [hsbi, (hq 0).nrFreeInodes, hb.nrFreeInodes]
  · show k₃.fs.sbi.nrUsedSlices = _
    rw [hsbi, (hq 0).slices, hb.slices]
  · have hv := touchDir_view k₃ dir (fun n => if sIsDir mode then add32 n 1 else n) i
    rw [hinode] at hv
    rw [← hold i hi]
    exact hv
  · refine (touchDir_nlink k₃ dir _ i).trans ?_
    rw [hinode, ← hold i hi]
    by_cases hid : i = dir
    · subst hid
      cases hm : sIsDir mode <;> simp [Kernel.inode]
    · simp [hid, Kernel.inode]
  · unfold touchDir
    rw [Kernel.fs_setInode]
    by_cases hid : i = dir
    · subst hid
      simp
    · rw [Fs.icache_setInode_of_ne _ _ _ hid, hic, hin]
      by_cases hii : i = ino
      · rw [hii]
        exact hb.cached
      · rw [hb.others i hii]
        exact hi.resolve_left hii
  · rw [hnd, hb.dir]
  · rw [hnd, hb.reg hm]
  · rw [hnd, hb.size]
  · rw [hnd, hb.nlink]

/-- **`ouichefs_create` changes no inode, or takes the least free one.** -/
theorem ouichefsCreate_effect {dir mode : Nat} {name : List UInt8} {r : Int} (hf : k.faults = [])
    (h0 : k.fs.sbi.ifreeBitmap 0 = false) (hlt : k.fs.sbi.nrFreeInodes < 4294967296)
    (hd : k.fs.sbi.ifreeBitmap dir = false) (h : ouichefsCreate k dir name mode = .ok (r, k')) :
    Idle k k' ∨ ∃ ino, r = 0 ∧ CreateEff k k' dir ino mode := by
  unfold ouichefsCreate at h
  split at h
  · cases h
    exact Or.inl (.of_quiet hf fun _ => .refl _ _)
  simp only at h
  have hb := fun i => Quiet.sbBread i k (k.inode dir).indexBlock
  split at h
  · rename_i k₁ heq
    rw [heq] at hb
    cases h
    exact Or.inl (.of_quiet hf hb)
  rename_i k₁ heq
  rw [heq] at hb
  simp only at hb
  have hidle := Idle.of_quiet hf hb
  split at h
  · cases h
    exact Or.inl (.of_quiet hf fun i => (hb i).trans (.brelse _ _ _))
  have hrel : ∀ k₂ b, Idle k k₂ → Idle k (k₂.brelse b) := fun k₂ b h₂ =>
    h₂.trans (.of_quiet h₂.faults fun _ => .brelse _ _ _)
  rcases ouichefsNewInode_effect hidle.faults (hidle.ifree ▸ h0)
    (hidle.nrFreeInodes ▸ hlt) dir mode with ⟨e, he, -, hi⟩ | ⟨ino, he, hborn⟩
  · generalize ouichefsNewInode k₁ dir mode = p at he hi h
    obtain ⟨res, k₂⟩ := p
    simp only at he hi
    subst he
    cases h
    exact Or.inl (hrel _ _ (hidle.trans hi))
  · generalize ouichefsNewInode k₁ dir mode = p at he hborn h
    obtain ⟨res, k₂⟩ := p
    simp only at he hborn
    subst he
    have hborn' : Born k k₂ ino mode :=
      ⟨hborn.faults, hborn.pos, hidle.geom.nrInodes ▸ hborn.lt, hidle.ifree ▸ hborn.free,
        hidle.ifree ▸ hborn.least, hidle.geom.trans hborn.geom, hidle.ifree ▸ hborn.ifree,
        hidle.nrFreeInodes ▸ hborn.nrFreeInodes, hidle.slices ▸ hborn.slices,
        fun i hi => (hborn.others i hi).trans ((hb (i + 1)).others i (by omega)), hborn.cached,
        hborn.dir, hborn.reg, hborn.size, hborn.nlink, hborn.index⟩
    simp only at h
    split at h
    · rename_i hm
      rw [Kernel.sbBread_ok hborn.faults (hborn.index hm)] at h
      exact Or.inr ⟨ino, hborn'.register (fun i => (Quiet.log _ _ _).trans
        ((Quiet.setBlock _ _ _ _).trans (.brelse _ _ _))) hd h⟩
    · exact Or.inr ⟨ino, hborn'.register (fun i => .refl _ _) hd h⟩

/-! ## Removal -/

/-- The effect of removing inode `ino` from directory `dir`. -/
structure RemoveEff (k k' : Kernel) (dir ino : Nat) : Prop where
  faults : k'.faults = []
  geom : SameGeom k.fs.sbi k'.fs.sbi
  ifree : k'.fs.sbi.ifreeBitmap = Function.update k.fs.sbi.ifreeBitmap ino true
  nrFreeInodes : k'.fs.sbi.nrFreeInodes = add32 k.fs.sbi.nrFreeInodes 1
  view : ∀ i, i ≠ ino → SameView (k.inode i) (k'.inode i)
  links : ∀ i, i ≠ ino → (k'.inode i).iNlink =
    if i = dir ∧ sIsDir (k.inode ino).iMode = true then sub32 (k.inode i).iNlink 1
    else (k.inode i).iNlink
  cached : ∀ i, i = ino ∨ (k.fs.icache i).isSome → (k'.fs.icache i).isSome
  mode : (k'.inode ino).iMode = 0
  size : (k'.inode ino).iSize = 0

/-- What the label `clean_inode` does. -/
structure Cleared (k k' : Kernel) (ino : Nat) : Prop where
  faults : k'.faults = k.faults
  geom : SameGeom k.fs.sbi k'.fs.sbi
  ifree : k'.fs.sbi.ifreeBitmap = Function.update k.fs.sbi.ifreeBitmap ino true
  nrFreeInodes : k'.fs.sbi.nrFreeInodes = add32 k.fs.sbi.nrFreeInodes 1
  slices : k'.fs.sbi.nrUsedSlices = k.fs.sbi.nrUsedSlices
  others : ∀ i, i ≠ ino → k'.fs.icache i = k.fs.icache i
  cached : (k'.fs.icache ino).isSome
  mode : (k'.inode ino).iMode = 0
  size : (k'.inode ino).iSize = 0

theorem cleanInode_cleared {ino : Nat} (bno : Nat) (small : Bool) (h : ino < k.fs.sbi.nrInodes) :
    Cleared k (cleanInode k ino bno small) ino := by
  unfold cleanInode
  simp only
  generalize hci : ({ k.inode ino with
      iBlocks := 0, indexBlock := 0, iSize := 0, iUid := 0, iGid := 0, iMode := 0,
      iCtime := ⟨0, 0⟩, iMtime := ⟨0, 0⟩, iAtime := ⟨0, 0⟩,
      iNlink := sub32 (k.inode ino).iNlink 1 } : Inode) = ci
  have hm : ci.iMode = 0 := by rw [← hci]
  have hs : ci.iSize = 0 := by rw [← hci]
  have hput : ∀ k₂ : Kernel, k₂.faults = k.faults → (∀ i, Quiet i (k.setInode ino ci) k₂) →
      Cleared k (k₂.putInode ino) ino := by
    intro k₂ hf hq
    have hic : ∀ i, k₂.fs.icache i = (k.fs.setInode ino ci).icache i :=
      fun i => (hq (i + 1)).others i (by omega)
    have hself : (k₂.putInode ino).inode ino = ci := by
      show (k₂.fs.icache ino).getD _ = ci
      rw [hic, Fs.icache_setInode_self]
      rfl
    have hle : ino ≤ k₂.fs.sbi.nrInodes := by
      rw [(hq 0).geom.nrInodes]
      exact Nat.le_of_lt h
    have hg := (hq 0).geom
    refine ⟨hf, ?_, ?_, ?_, ?_, fun i hi => ?_, ?_, by rw [hself, hm], by rw [hself, hs]⟩
    · rw [Kernel.putInode_eq hle]
      exact ⟨hg.nrBlocks, hg.nrInodes, hg.nrIstore, hg.nrIfree, hg.nrBfree⟩
    · rw [Kernel.putInode_eq hle]
      exact congrArg (Function.update · ino true) (hq 0).ifree
    · rw [Kernel.putInode_eq hle]
      exact congrArg (add32 · 1) (hq 0).nrFreeInodes
    · rw [Kernel.putInode_eq hle]
      exact (hq 0).slices
    · show k₂.fs.icache i = _
      rw [hic, Fs.icache_setInode_of_ne _ _ _ hi]
    · show (k₂.fs.icache ino).isSome
      rw [hic, Fs.icache_setInode_self]
      rfl
  split
  · refine hput _ ?_ fun i => .putBlock _ _ _
    unfold Kernel.putBlock
    rfl
  · exact hput _ rfl fun i => .refl _ _

/-- The stages of a successful `ouichefs_unlink`. -/
theorem ouichefsUnlink_stages {dir ino : Nat} {r : Int}
    (h : ouichefsUnlink k dir ino = .ok (r, k')) :
    (r < 0 ∧ ∀ i, Quiet i k k') ∨ r = 0 ∧ ∃ k₂ k₄, (∀ i, Quiet i k k₂) ∧
      releaseStorage (touchDir k₂ dir fun n => if sIsDir (k.inode ino).iMode then sub32 n 1 else n)
        ino = .ok ((), k₄) ∧
      k' = cleanInode k₄ ino (k.inode ino).indexBlock
        (decide ((k.inode ino).iBlocks = 0) && !sIsDir (k.inode ino).iMode) := by
  unfold ouichefsUnlink at h
  simp only at h
  have hb := fun i => Quiet.sbBread i k (k.inode dir).indexBlock
  split at h
  · rename_i k₁ heq
    rw [heq] at hb
    cases h
    exact Or.inl ⟨by decide, hb⟩
  rename_i k₁ heq
  rw [heq] at hb
  simp only at hb
  split at h
  · cases h
  split at h
  · cases h
  rename_i k₄ hrel
  obtain ⟨rfl, rfl⟩ := Prod.mk.inj (Except.ok.inj h)
  refine Or.inr ⟨rfl, _, k₄, fun i => ?_, hrel, rfl⟩
  exact (hb i).trans ((Quiet.setBlock _ _ _ _).trans (.brelse _ _ _))

/-- **`ouichefs_unlink` fails without an effect on inodes, or gives the inode back.** -/
theorem ouichefsUnlink_effect {dir ino : Nat} {r : Int} (hf : k.faults = [])
    (hino : ino < k.fs.sbi.nrInodes) (hne : ino ≠ dir)
    (h : ouichefsUnlink k dir ino = .ok (r, k')) :
    Idle k k' ∨ r = 0 ∧ RemoveEff k k' dir ino := by
  rcases ouichefsUnlink_stages h with ⟨-, hq⟩ | ⟨rfl, k₂, k₄, hq₂, hrel, rfl⟩
  · exact Or.inl (.of_quiet hf hq)
  have hin₂ : ∀ i, k₂.fs.icache i = k.fs.icache i := fun i => (hq₂ (i + 1)).others i (by omega)
  have hinode₂ : k₂.fs.inode = k.fs.inode := by
    funext i
    unfold Fs.inode
    rw [hin₂]
  generalize hfn : (fun n => if sIsDir (k.inode ino).iMode then sub32 n 1 else n) = fn at hrel
  have hview := fun i => touchDir_view k₂ dir fn i
  have hlinks := fun i => touchDir_nlink k₂ dir fn i
  have hother : ∀ i, i ≠ dir → (touchDir k₂ dir fn).fs.icache i = k₂.fs.icache i := by
    intro i hi
    unfold touchDir
    rw [Kernel.fs_setInode, Fs.icache_setInode_of_ne _ _ _ hi]
  have hdir : ((touchDir k₂ dir fn).fs.icache dir).isSome := by
    unfold touchDir
    simp
  have hsbi : (touchDir k₂ dir fn).fs.sbi = k₂.fs.sbi := rfl
  have hf₃ : (touchDir k₂ dir fn).faults = [] := (hq₂ 0).faults hf
  generalize touchDir k₂ dir fn = k₃ at hrel hview hlinks hother hdir hsbi hf₃
  have ht := releaseStorage_touch ino k₃
  rw [hrel] at ht
  have hlt : ino < k₄.fs.sbi.nrInodes := by
    have hg : k₄.fs.sbi.nrInodes = k₃.fs.sbi.nrInodes := ht.geom.nrInodes
    rw [hg, hsbi, (hq₂ 0).geom.nrInodes]
    exact hino
  have hc := cleanInode_cleared (k.inode ino).indexBlock
    (decide ((k.inode ino).iBlocks = 0) && !sIsDir (k.inode ino).iMode) hlt
  generalize cleanInode k₄ ino _ _ = k₅ at hc
  have hin₅ : ∀ i, i ≠ ino → k₅.fs.icache i = k₃.fs.icache i :=
    fun i hi => (hc.others i hi).trans (ht.others i hi)
  have hinode₅ : ∀ i, i ≠ ino → k₅.inode i = k₃.fs.inode i := by
    intro i hi
    unfold Kernel.inode Fs.inode
    rw [hin₅ i hi]
  right
  refine ⟨rfl, ?_, ?_, ?_, ?_, fun i hi => ?_, fun i hi => ?_, fun i hi => ?_, hc.mode, hc.size⟩
  · rw [hc.faults]
    exact ht.faults hf₃
  · refine SameGeom.trans ?_ (ht.geom.trans hc.geom)
    rw [hsbi]
    exact (hq₂ 0).geom
  · have hi : k₄.fs.sbi.ifreeBitmap = k.fs.sbi.ifreeBitmap :=
      ht.ifree.trans (by rw [hsbi, (hq₂ 0).ifree])
    rw [hc.ifree, hi]
  · have hn : k₄.fs.sbi.nrFreeInodes = k.fs.sbi.nrFreeInodes :=
      ht.nrFreeInodes.trans (by rw [hsbi, (hq₂ 0).nrFreeInodes])
    rw [hc.nrFreeInodes, hn]
  · have hv := hview i
    rw [hinode₂] at hv
    rw [hinode₅ i hi]
    exact hv
  · rw [hinode₅ i hi, hlinks i, hinode₂, ← hfn]
    by_cases hid : i = dir
    · subst hid
      cases hm : sIsDir (k.inode ino).iMode <;> simp [Kernel.inode]
    · simp [hid, Kernel.inode]
  · by_cases hii : i = ino
    · rw [hii]
      exact hc.cached
    · rw [hin₅ i hii]
      by_cases hid : i = dir
      · rw [hid]
        exact hdir
      · rw [hother i hid, hin₂]
        exact hi.resolve_left hii

/-- `ouichefs_rmdir` likewise. -/
theorem ouichefsRmdir_effect {dir ino : Nat} {r : Int} (hf : k.faults = [])
    (hino : ino < k.fs.sbi.nrInodes) (hne : ino ≠ dir)
    (h : ouichefsRmdir k dir ino = .ok (r, k')) :
    Idle k k' ∨ r = 0 ∧ RemoveEff k k' dir ino := by
  unfold ouichefsRmdir at h
  simp only at h
  split at h
  · cases h
    exact Or.inl (.of_quiet hf fun _ => .refl _ _)
  have hb := fun i => Quiet.sbBread i k (k.inode ino).indexBlock
  split at h
  · rename_i k₁ heq
    rw [heq] at hb
    cases h
    exact Or.inl (.of_quiet hf hb)
  rename_i k₁ heq
  rw [heq] at hb
  have hq : ∀ i, Quiet i k (k₁.brelse (k.inode ino).indexBlock) :=
    fun i => (hb i).trans (.brelse _ _ _)
  split at h
  · cases h
    exact Or.inl (.of_quiet hf hq)
  · have hidle := Idle.of_quiet hf hq
    have hin : ∀ i, (k₁.brelse (k.inode ino).indexBlock).inode i = k.inode i := by
      exact fun i => congrArg (Option.getD · Inode.blank) ((hq (i + 1)).others i (by omega))
    rcases ouichefsUnlink_effect hidle.faults (hidle.geom.nrInodes.symm ▸ hino) hne h with
      hi | ⟨hr, he⟩
    · exact Or.inl (hidle.trans hi)
    · refine Or.inr ⟨hr, he.faults, hidle.geom.trans he.geom, hidle.ifree ▸ he.ifree,
        hidle.nrFreeInodes ▸ he.nrFreeInodes, fun i hi => hin i ▸ he.view i hi, fun i hi => ?_,
        fun i hi => he.cached i (hi.imp_right fun hs => (hidle.kept i hs).symm ▸ hs), he.mode,
        he.size⟩
      have hl := he.links i hi
      rwa [hin, hin] at hl

end Ouichefs
