import Ouichefs.BufferRefs
import Ouichefs.DirErrors
import Ouichefs.NoLeak
import Ouichefs.BigGuard

/-!
# Directory calls with any answers

`Held` says of which inodes a call keeps its hands off.  With the shelter of their storage this is
`Fenced`, and every directory call stays on its side of the fence, whether it returns, fails on the
way or crashes.

* `ouichefsCreate_contained`, `ouichefsUnlink_contained`, `ouichefsRename_contained`.
-/

set_option autoImplicit false

namespace Ouichefs

open FreeMap

/-- The inodes `L` are in use and as they were.  Neither the device nor the cache of inodes gets
smaller. -/
structure Held (L : Nat → Prop) (base fs : Fs) : Prop where
  nrBlocks : fs.sbi.nrBlocks = base.sbi.nrBlocks
  nrInodes : fs.sbi.nrInodes = base.sbi.nrInodes
  cached : ∀ i, (base.icache i).isSome → (fs.icache i).isSome
  live : ∀ i, L i → fs.Live i
  inode : ∀ i, L i → fs.inode i = base.inode i

/-- Neither the shelter nor the inodes `L` can be reached. -/
structure Fenced (p : Shelter) (C L : Nat → Prop) (fs : Fs) : Prop extends
    Guard p C fs, Held L p.base fs

/-- What a call leaves behind, however it ends. -/
def Contained {α : Type} (p : Shelter) (L : Nat → Prop) (run : Outcome α) : Prop :=
  Unharmed p run.kernel.fs ∧ Held L p.base run.kernel.fs

theorem Guards.unharmed {α : Type} {p : Shelter} {post : α → Kernel → Prop} {run : Outcome α}
    (h : Guards p post run) (hpost : ∀ a k, post a k → Unharmed p k.fs) :
    Unharmed p run.kernel.fs := by
  cases run with
  | error e => exact h
  | ok r => exact hpost r.1 r.2 h

/-! ## Steps -/

section Steps

variable {p : Shelter} {C L : Nat → Prop} {fs fs' base : Fs} {k k' : Kernel} {ino b : Nat}

theorem Held.mono {L' : Nat → Prop} (h : Held L base fs) (hs : ∀ i, L' i → L i) :
    Held L' base fs :=
  ⟨h.nrBlocks, h.nrInodes, h.cached, fun i hi => h.live i (hs i hi),
    fun i hi => h.inode i (hs i hi)⟩

theorem Held.congr (h : Held L base fs) (hn : fs'.sbi.nrBlocks = fs.sbi.nrBlocks)
    (hi : fs'.sbi.nrInodes = fs.sbi.nrInodes)
    (hf : ∀ i, L i → fs.sbi.ifreeBitmap i = false → fs'.sbi.ifreeBitmap i = false)
    (hs : ∀ i, (fs.icache i).isSome → (fs'.icache i).isSome)
    (hc : ∀ i, L i → fs'.icache i = fs.icache i) : Held L base fs' := by
  refine ⟨hn.trans h.nrBlocks, hi.trans h.nrInodes, fun i hi => hs i (h.cached i hi),
    fun i hl => ?_, fun i hl => ?_⟩
  · obtain ⟨h0, hlt, hfree⟩ := h.live i hl
    exact ⟨h0, by rw [hi]; exact hlt, hf i hl hfree⟩
  · unfold Fs.inode
    rw [hc i hl]
    exact h.inode i hl

theorem Held.touch (h : Held L base k.fs) (ht : Touch ino k k') (hi : ¬L ino) :
    Held L base k'.fs := by
  refine h.congr ht.geom.nrBlocks ht.geom.nrInodes (fun i _ hf => ?_) ht.stays fun i hl => ?_
  · rw [ht.ifree]
    exact hf
  · refine ht.others i ?_
    rintro rfl
    exact hi hl

theorem Held.setInode (h : Held L base fs) (hi : ¬L ino) (ci : Inode) :
    Held L base (fs.setInode ino ci) := by
  refine h.congr rfl rfl (fun _ _ hf => hf) (fun i hs => ?_) fun i hl => ?_
  · by_cases hin : i = ino
    · rw [hin, Fs.icache_setInode_self]
      rfl
    · rwa [Fs.icache_setInode_of_ne _ _ _ hin]
  · exact Fs.icache_setInode_of_ne _ _ _ fun hc => hi (by rwa [← hc])

theorem Held.putInode (h : Held L base k.fs) (hi : ¬L ino) : Held L base (k.putInode ino).fs := by
  unfold Kernel.putInode SbInfo.putInode putFreeBit
  split
  · exact h
  · rename_i heq
    split at heq
    · cases heq
    · cases heq
      refine h.congr rfl rfl (fun i hl hf => ?_) (fun _ => id) fun _ _ => rfl
      show Function.update k.fs.sbi.ifreeBitmap ino true i = false
      rw [Function.update_of_ne fun hc => hi (by rwa [← hc])]
      exact hf

theorem Fenced.contained {α : Type} {run : Outcome α} (h : Fenced p C L run.kernel.fs) :
    Contained p L run := ⟨h.toUnharmed, h.toHeld⟩

theorem Fenced.mono {L' : Nat → Prop} (h : Fenced p C L fs) (hs : ∀ i, L' i → L i) :
    Fenced p C L' fs := ⟨h.toGuard, h.toHeld.mono hs⟩

theorem Fenced.setClear (h : Fenced p C L fs) (hb : p.Clear C b) (nb : Block) :
    Fenced p C L (fs.setBlock b nb) :=
  ⟨h.toGuard.setClear hb nb,
    h.toHeld.congr rfl rfl (fun _ _ hf => hf) (fun _ => id) fun _ _ => rfl⟩

theorem Fenced.setInode (h : Fenced p C L fs) (hi : ¬L ino) (ci : Inode) :
    Fenced p C L (fs.setInode ino ci) :=
  ⟨h.toGuard.setInode ino ci, h.toHeld.setInode hi ci⟩

theorem Fenced.putInode (h : Fenced p C L k.fs) (hi : ¬L ino) :
    Fenced p C L (k.putInode ino).fs := by
  have hsame : (k.fs.sbi.putInode ino).bfreeBitmap = k.fs.sbi.bfreeBitmap ∧
      (k.fs.sbi.putInode ino).sFreeSlicedBlocks = k.fs.sbi.sFreeSlicedBlocks := by
    unfold SbInfo.putInode
    split <;> exact ⟨rfl, rfl⟩
  exact ⟨h.toGuard.congr rfl hsame.1 hsame.2, h.toHeld.putInode hi⟩

theorem Fenced.putBlock (h : Fenced p C L k.fs) (hb : p.Clear C b) :
    Fenced p C L (k.putBlock b).fs := by
  refine ⟨h.toGuard.putBlock hb.block hb.slice, ?_⟩
  have hq := (Quiet.putBlock 0 k b).toTouch
  exact h.toHeld.congr hq.geom.nrBlocks hq.geom.nrInodes
    (fun i _ hf => by rw [hq.ifree]; exact hf) (fun _ => id) fun _ _ => rfl

theorem Fenced.getFreeBlock (h : Fenced p C L k.fs) (hf : Fertile C k.fs) :
    Fenced p C L k.getFreeBlock.2.fs ∧ Fertile C k.getFreeBlock.2.fs ∧
      (k.getFreeBlock.1 ≠ 0 → Fresh p C k.getFreeBlock.2.fs k.getFreeBlock.1) := by
  obtain ⟨hg, hf', hfresh⟩ := h.toGuard.getFreeBlock hf
  have hq := (Quiet.getFreeBlock 0 k).toTouch
  have hc : k.getFreeBlock.2.fs.icache = k.fs.icache := by
    unfold Kernel.getFreeBlock
    simp only
    split <;> rfl
  exact ⟨⟨hg, h.toHeld.congr hq.geom.nrBlocks hq.geom.nrInodes
    (fun i _ hf => by rw [hq.ifree]; exact hf) (fun i hs => by rwa [hc]) fun _ _ => by rw [hc]⟩,
    hf', hfresh⟩

theorem Fenced.same (h : Fenced p C L fs) (hs : fs' = fs) : Fenced p C L fs' := hs ▸ h

end Steps

/-! ## Creation -/

section Create

variable {p : Shelter} {C L : Nat → Prop} {k : Kernel} {dir ino mode : Nat} {name : List UInt8}

/-- `ouichefs_iget` takes no inode out of the cache. -/
theorem ouichefsIget_stays {k' : Kernel} {err : Int} (h : ouichefsIget k ino = (err, k')) (i : Nat)
    (hi : (k.fs.icache i).isSome) : (k'.fs.icache i).isSome := by
  by_cases hin : i = ino
  · subst hin
    obtain ⟨ci, hci⟩ := Option.isSome_iff_exists.1 hi
    unfold ouichefsIget at h
    rw [hci] at h
    split at h <;> cases h <;> exact hi
  · rwa [(ouichefsIget_frame h).2.2 i hin]

/-- A new inode, or an error. -/
theorem ouichefsNewInode_fenced (dir mode : Nat) (h : Fenced p C L k.fs) (hf : Fertile C k.fs)
    (h0 : k.fs.sbi.ifreeBitmap 0 = false) :
    ∃ res k', ouichefsNewInode k dir mode = (res, k') ∧ Fenced p C L k'.fs ∧
      ∀ ino, res = .ok ino → ¬L ino ∧
        (sIsDir mode = true → p.Clear C (k'.inode ino).indexBlock) := by
  unfold ouichefsNewInode
  split
  · exact ⟨_, _, rfl, h, fun _ hc => by cases hc⟩
  split
  · exact ⟨_, _, rfl, h, fun _ hc => by cases hc⟩
  rcases Kernel.getFreeInode_cases h0 with ⟨ino, hne, -, hfree, -, heq⟩ | ⟨-, heq⟩
  · have hnl : ¬L ino := by
      intro hl
      have := (h.live ino hl).2.2
      rw [hfree] at this
      cases this
    rw [heq]
    generalize hk₁ : k.setSbi _ = k₁
    have h₁ : Fenced p C L k₁.fs ∧ Fertile C k₁.fs := by
      rw [← hk₁]
      refine ⟨⟨h.toGuard.setSbi rfl h.head, h.toHeld.congr rfl rfl (fun i _ hi => ?_)
        (fun _ => id) fun _ _ => rfl⟩, hf.setSbi rfl rfl⟩
      show Function.update k.fs.sbi.ifreeBitmap ino false i = false
      rw [Function.update_apply]
      split
      · rfl
      · exact hi
    obtain ⟨h₁, hf₁⟩ := h₁
    simp only [hne, if_false]
    generalize hget : ouichefsIget k₁ ino = a
    obtain ⟨err, k₂⟩ := a
    obtain ⟨hsbi, hdisk, hcache⟩ := ouichefsIget_frame hget
    have h₂ : Fenced p C L k₂.fs := by
      refine ⟨h₁.toGuard.congr hdisk (by rw [hsbi]) (by rw [hsbi]), h₁.toHeld.congr (by rw [hsbi])
        (by rw [hsbi]) (fun i _ hi => by rw [hsbi]; exact hi) (ouichefsIget_stays hget)
        fun i hl => hcache i ?_⟩
      rintro rfl
      exact hnl hl
    have hf₂ : Fertile C k₂.fs := hf₁.congr hdisk (by rw [hsbi]) (by rw [hsbi])
    simp only
    split
    · exact ⟨_, _, rfl, h₂.putInode hnl, fun _ hc => by cases hc⟩
    split
    · obtain ⟨h₃, -, hfresh⟩ := h₂.getFreeBlock hf₂
      generalize k₂.getFreeBlock = a at h₃ hfresh
      obtain ⟨bno, k₃⟩ := a
      simp only at h₃ hfresh ⊢
      split
      · exact ⟨_, _, rfl, h₃.putInode hnl, fun _ hc => by cases hc⟩
      · rename_i hb
        refine ⟨_, _, rfl, h₃.setInode hnl _, fun i hi => ?_⟩
        cases hi
        refine ⟨hnl, fun _ => ?_⟩
        have hidx : ((k₃.setInode ino (initInode k₃ (k₃.inode ino) (k₃.inode dir) mode bno)).inode
            ino).indexBlock = bno := by
          unfold Kernel.inode
          rw [Kernel.fs_setInode, Fs.inode_setInode, if_pos rfl]
          unfold initInode inodeInitOwner
          simp only
          split <;> split <;> rfl
        rw [hidx]
        exact (hfresh hb).toClear
    · rename_i hm
      refine ⟨_, _, rfl, h₂.setInode hnl _, fun i hi => ?_⟩
      cases hi
      exact ⟨hnl, fun hc => absurd hc hm⟩
  · rw [heq]
    exact ⟨_, _, rfl, h, fun _ hc => by cases hc⟩

/-- The entry is written to the block of the parent. -/
theorem registerInode_contained (h : Fenced p C L k.fs) (hd : ¬L dir)
    (hb : p.Clear C (k.inode dir).indexBlock) :
    Contained p L (registerInode k dir ino name mode) := by
  unfold registerInode
  simp only
  split
  · exact h.contained
  · exact Fenced.contained ((h.setClear hb _).setInode hd _)

/-- **`ouichefs_create` touches its directory and a new inode.** -/
theorem ouichefsCreate_contained (h : Fenced p C L k.fs) (hf : Fertile C k.fs)
    (h0 : k.fs.sbi.ifreeBitmap 0 = false) (hd : L dir)
    (hb : p.Clear C (p.base.inode dir).indexBlock) :
    Contained p (fun i => L i ∧ i ≠ dir) (ouichefsCreate k dir name mode) := by
  have hsub : ∀ i, (L i ∧ i ≠ dir) → L i := fun _ hi => hi.1
  have hend : ∀ (k₁ : Kernel) (i : Nat), Fenced p C L k₁.fs →
      Contained p (fun i => L i ∧ i ≠ dir) (registerInode k₁ dir i name mode) := by
    intro k₁ i h₁
    refine registerInode_contained (h₁.mono hsub) (fun hc => hc.2 rfl) ?_
    rw [show k₁.inode dir = p.base.inode dir from h₁.inode dir hd]
    exact hb
  unfold ouichefsCreate
  split
  · exact (h.mono hsub).contained
  simp only
  generalize hread : k.sbBread (k.inode dir).indexBlock = a
  obtain ⟨ok, k₁⟩ := a
  have hfs := Kernel.sbBread_same hread
  have h₁ := h.same hfs
  have hf₁ : Fertile C k₁.fs := by rwa [hfs]
  cases ok with
  | false => exact (h₁.mono hsub).contained
  | true =>
      simp only
      split
      · exact Fenced.contained (h₁.mono hsub)
      obtain ⟨res, k₂, hnew, h₂, hres⟩ :=
        ouichefsNewInode_fenced dir mode h₁ hf₁ (by rw [hfs]; exact h0)
      rw [hnew]
      cases res with
      | error e => exact Fenced.contained (h₂.mono hsub)
      | ok ino =>
          obtain ⟨hnl, hclear⟩ := hres ino rfl
          simp only
          split
          · rename_i hm
            generalize hread' : k₂.sbBread (k₂.inode ino).indexBlock = a
            obtain ⟨ok, k₃⟩ := a
            have h₃ := h₂.same (Kernel.sbBread_same hread')
            cases ok with
            | false =>
                exact Fenced.contained (((h₃.putBlock (hclear hm)).putInode hnl).mono hsub)
            | true => exact hend _ _ (h₃.setClear (hclear hm) Page.zero)
          · exact hend _ _ h₂

end Create

/-! ## Deletion -/

section Remove

variable {p : Shelter} {C L : Nat → Prop} {k : Kernel} {dir ino b : Nat}

theorem Releasable.setBlock {fs : Fs} {ci : Inode} (h : Releasable p C fs ino) (hne : dir ≠ ino)
    (hb : (fs.inode ino).iBlocks ≠ 0 → b ≠ (fs.inode ino).indexBlock) (nb : Block) :
    Releasable p C ((fs.setBlock b nb).setInode dir ci) ino := by
  have hi : ((fs.setBlock b nb).setInode dir ci).inode ino = fs.inode ino := by
    rw [Fs.inode_setInode, if_neg hne.symm]
    rfl
  refine ⟨?_, ?_, ?_⟩
  · rw [hi]
    exact h.small
  · rw [hi]
    exact h.block
  · rw [hi]
    intro hbig hnd
    have ho := (h.data hbig hnd).setBlock (hb hbig) nb
    exact ⟨ho.index, ho.data⟩

theorem cleanInode_held {bno : Nat} {small : Bool} {base : Fs} (h : Held L base k.fs)
    (hi : ¬L ino) : Held L base (cleanInode k ino bno small).fs := by
  unfold cleanInode
  simp only
  refine Held.putInode ?_ hi
  split
  · exact Held.touch (h.setInode hi _) (Quiet.putBlock ino _ _).toTouch hi
  · exact h.setInode hi _

/-- **`ouichefs_unlink` touches its directory and the inode.** -/
theorem ouichefsUnlink_contained (h : Fenced p C L k.fs) (hd : L dir)
    (hne : dir ≠ ino) (hb : p.Clear C (p.base.inode dir).indexBlock) (hr : Releasable p C k.fs ino)
    (hsep : (k.fs.inode ino).iBlocks ≠ 0 →
      (k.fs.inode dir).indexBlock ≠ (k.fs.inode ino).indexBlock) :
    Contained p (fun i => L i ∧ i ≠ dir ∧ i ≠ ino) (ouichefsUnlink k dir ino) := by
  have hsub : ∀ i, (L i ∧ i ≠ dir ∧ i ≠ ino) → L i := fun _ hi => hi.1
  have hdir : k.inode dir = p.base.inode dir := h.inode dir hd
  unfold ouichefsUnlink
  simp only
  generalize hread : k.sbBread (k.inode dir).indexBlock = a
  obtain ⟨ok, k₁⟩ := a
  have hfs := Kernel.sbBread_same hread
  have h₁ := (h.same hfs).mono hsub
  cases ok with
  | false => exact h₁.contained
  | true =>
      simp only
      split
      · exact h₁.contained
      rename_i fId nrSubs hscan
      generalize hk₂ : touchDir _ _ _ = k₂
      have hstep : Fenced p C (fun i => L i ∧ i ≠ dir ∧ i ≠ ino) k₂.fs ∧
          Releasable p C k₂.fs ino := by
        rw [← hk₂]
        refine ⟨Fenced.setInode (h₁.setClear (hdir ▸ hb) _) (fun hc => hc.2.1 rfl) _, ?_⟩
        refine Releasable.setBlock (by rw [hfs]; exact hr) hne ?_ _
        rw [hfs]
        exact hsep
      obtain ⟨h₂, hr₂⟩ := hstep
      have hino₂ : ¬(L ino ∧ ino ≠ dir ∧ ino ≠ ino) := fun hc => hc.2.2 rfl
      have hrel := releaseStorage_guard h₂.toGuard hr₂
      have hheld := h₂.toHeld.touch (releaseStorage_touch ino k₂) hino₂
      generalize releaseStorage k₂ ino = run at hrel hheld
      cases run with
      | error e => exact ⟨hrel, hheld⟩
      | ok r =>
          refine ⟨(cleanInode_guard hrel fun hbno hsmall => ?_).toUnharmed,
            cleanInode_held hheld hino₂⟩
          refine hr.block hbno ?_
          by_cases hblocks : (k.fs.inode ino).iBlocks = 0
          · have hblocks' : (k.inode ino).iBlocks = 0 := hblocks
            have hmode : sIsDir (k.inode ino).iMode = true := by simpa [hblocks'] using hsmall
            exact Or.inr hmode
          · exact Or.inl hblocks

/-- **`ouichefs_rmdir` touches no more than `ouichefs_unlink`.** -/
theorem ouichefsRmdir_contained (h : Fenced p C L k.fs) (hd : L dir)
    (hne : dir ≠ ino) (hb : p.Clear C (p.base.inode dir).indexBlock) (hr : Releasable p C k.fs ino)
    (hsep : (k.fs.inode ino).iBlocks ≠ 0 →
      (k.fs.inode dir).indexBlock ≠ (k.fs.inode ino).indexBlock) :
    Contained p (fun i => L i ∧ i ≠ dir ∧ i ≠ ino) (ouichefsRmdir k dir ino) := by
  have hsub : ∀ i, (L i ∧ i ≠ dir ∧ i ≠ ino) → L i := fun _ hi => hi.1
  unfold ouichefsRmdir
  simp only
  split
  · exact (h.mono hsub).contained
  generalize hread : k.sbBread (k.inode ino).indexBlock = a
  obtain ⟨ok, k₁⟩ := a
  have hfs := Kernel.sbBread_same hread
  have h₁ := h.same hfs
  cases ok with
  | false => exact (h₁.mono hsub).contained
  | true =>
      simp only
      split
      · exact Fenced.contained (h₁.mono hsub)
      · refine ouichefsUnlink_contained (k := k₁.brelse _) h₁ hd hne hb ?_ ?_
        · rw [Kernel.fs_brelse, hfs]
          exact hr
        · rw [Kernel.fs_brelse, hfs]
          exact hsep

end Remove

/-! ## Renaming -/

section Rename

variable {p : Shelter} {C L : Nat → Prop} {k : Kernel} {oldDir src newDir flags : Nat}
  {oldName newName : List UInt8}

theorem removeFromOld_contained (h : Fenced p C L k.fs) (ho : ¬L oldDir)
    (hb : p.Clear C (k.inode oldDir).indexBlock) : Contained p L (removeFromOld k oldDir src) := by
  unfold removeFromOld
  simp only
  generalize hread : k.sbBread (k.inode oldDir).indexBlock = a
  obtain ⟨ok, k₁⟩ := a
  have h₁ := h.same (Kernel.sbBread_same hread)
  cases ok with
  | false => exact h₁.contained
  | true =>
      simp only
      split
      · exact h₁.contained
      split
      · exact h₁.contained
      · exact Fenced.contained (Fenced.setInode (h₁.setClear hb _) ho _)

/-- **`ouichefs_rename` touches its two directories.** -/
theorem ouichefsRename_contained (h : Fenced p C L k.fs) (ho : L oldDir) (hn : L newDir)
    (hbo : p.Clear C (p.base.inode oldDir).indexBlock)
    (hbn : p.Clear C (p.base.inode newDir).indexBlock) :
    Contained p (fun i => L i ∧ i ≠ oldDir ∧ i ≠ newDir)
      (ouichefsRename k oldDir oldName src newDir newName flags) := by
  have hsub : ∀ i, (L i ∧ i ≠ oldDir ∧ i ≠ newDir) → L i := fun _ hi => hi.1
  have hnew : k.inode newDir = p.base.inode newDir := h.inode newDir hn
  have hold : k.inode oldDir = p.base.inode oldDir := h.inode oldDir ho
  unfold ouichefsRename
  split
  · exact (h.mono hsub).contained
  split
  · exact (h.mono hsub).contained
  simp only
  generalize hread : k.sbBread (k.inode newDir).indexBlock = a
  obtain ⟨ok, k₁⟩ := a
  have hfs := Kernel.sbBread_same hread
  have h₁ := (h.same hfs).mono hsub
  have hclear : p.Clear C (k.inode newDir).indexBlock := hnew ▸ hbn
  cases ok with
  | false => exact h₁.contained
  | true =>
      simp only
      split
      · exact Fenced.contained h₁
      split
      · split
        · exact h₁.contained
        · exact Fenced.contained (h₁.setClear hclear _)
      rename_i hdirs
      split
      · exact Fenced.contained h₁
      · refine removeFromOld_contained (C := C) ?_ (fun hc => hc.2.1 rfl) ?_
        · exact Fenced.setInode (h₁.setClear hclear _) (fun hc => hc.2.2 rfl) _
        · have hsame : ∀ (nb : Block) (ci : Inode), p.Clear C
              (((k₁.fs.setBlock (k.inode newDir).indexBlock nb).setInode newDir ci).inode
                oldDir).indexBlock := by
            intro nb ci
            rw [Fs.inode_setInode, if_neg hdirs, Fs.inode_setBlock, hfs,
              show k.fs.inode oldDir = p.base.inode oldDir from hold]
            exact hbo
          exact hsame _ _

end Rename

end Ouichefs
