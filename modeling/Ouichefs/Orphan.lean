import Ouichefs.SessionInv
import Ouichefs.DirErrors

/-!
# Unlinked files that are still open

Every call of a session keeps the invariant and the content of all files but the one it is made on,
as long as no write goes through a handle whose inode number belongs to a later file: `Inv.write`,
`Inv.unlink` and `Inv.create`, and `orphans_run` for whole runs.
-/

set_option autoImplicit false

namespace Ouichefs

/-! ## The new inode of a file -/

/-- A new file takes the least free number, and its inode is the only one to change. -/
theorem ouichefsNewInode_file {k k' : Kernel} {dir ino mode : Nat} (hm : sIsDir mode = false)
    (h : ouichefsNewInode k dir mode = (.ok ino, k')) :
    ino = k.getFreeInode.1 ∧ ino ≠ 0 ∧ k'.fs.disk = k.fs.disk ∧
      k'.fs.sbi = k.getFreeInode.2.fs.sbi ∧
      (∀ i, i ≠ ino → k'.fs.icache i = k.getFreeInode.2.fs.icache i) ∧
      (k'.fs.icache ino).isSome := by
  have hdisk : k.getFreeInode.2.fs.disk = k.fs.disk := rfl
  unfold ouichefsNewInode at h
  split at h
  · cases h
  split at h
  · cases h
  generalize k.getFreeInode = q at h hdisk ⊢
  obtain ⟨i, k₁⟩ := q
  simp only at h hdisk ⊢
  split at h
  · cases h
  rename_i h0
  generalize hget : ouichefsIget k₁ i = q at h
  obtain ⟨err, k₂⟩ := q
  obtain ⟨hsbi, hd₂, hic⟩ := ouichefsIget_frame hget
  simp only [hm, Bool.false_eq_true, if_false] at h
  split at h
  · cases h
  cases h
  refine ⟨rfl, h0, ?_, ?_, fun j hj => ?_, ?_⟩
  · rw [Kernel.fs_setInode, Fs.disk_setInode, hd₂, hdisk]
  · rw [Kernel.fs_setInode, Fs.sbi_setInode, hsbi]
  · rw [Kernel.fs_setInode, Fs.icache_setInode_of_ne _ _ _ hj, hic j hj]
  · rw [Kernel.fs_setInode, Fs.icache_setInode_self]
    rfl

theorem ouichefsNewInode_error {k k' : Kernel} {dir mode : Nat} {e : Int}
    (hm : sIsDir mode = false) (h : ouichefsNewInode k dir mode = (.error e, k')) : e ≠ 0 := by
  unfold ouichefsNewInode at h
  simp only [hm, Bool.false_eq_true, if_false] at h
  split at h
  · cases h
    decide
  split at h
  · cases h
    decide
  split at h
  · cases h
    decide
  split at h
  · rename_i hne
    cases h
    exact hne
  · cases h

/-- What a successful creation of a file does outside the bitmap of inodes. -/
structure FileCreated (k k' : Kernel) (dir ino : Nat) : Prop where
  disk : ∃ nb, k'.fs.disk = (k.fs.setBlock (k.inode dir).indexBlock nb).disk
  sbi : k'.fs.sbi = k.getFreeInode.2.fs.sbi
  view : ∀ i, i ≠ ino → SameView (k.inode i) (k'.inode i)
  cached : ∀ i, i = ino ∨ (k.fs.icache i).isSome → (k'.fs.icache i).isSome

theorem FileCreated.sbi_eq {k k' : Kernel} {dir ino : Nat} (h : FileCreated k k' dir ino)
    (h0 : k.fs.sbi.ifreeBitmap 0 = false) :
    ∃ ifree n, k'.fs.sbi = { k.fs.sbi with ifreeBitmap := ifree, nrFreeInodes := n } := by
  rw [h.sbi]
  rcases Kernel.getFreeInode_cases h0 with ⟨i, -, -, -, -, heq⟩ | ⟨-, heq⟩
  · rw [heq]
    exact ⟨_, _, rfl⟩
  · rw [heq]
    exact ⟨_, _, rfl⟩

theorem ouichefsCreate_file {k k' : Kernel} {dir mode : Nat} {name : List UInt8}
    (hm : sIsDir mode = false) (h0 : k.fs.sbi.ifreeBitmap 0 = false)
    (hd : k.fs.sbi.ifreeBitmap dir = false)
    (h : ouichefsCreate k dir name mode = .ok (0, k')) :
    FileCreated k k' dir k.getFreeInode.1 := by
  unfold ouichefsCreate at h
  split at h
  · cases h
  simp only at h
  have hfs₁ := k.fs_sbBread (k.inode dir).indexBlock
  generalize k.sbBread (k.inode dir).indexBlock = p at h hfs₁
  obtain ⟨ok, k₁⟩ := p
  have hk₁ : k₁.fs = k.fs := hfs₁
  cases ok with
  | false => cases h
  | true =>
  simp only at h
  split at h
  · cases h
  generalize hnew : ouichefsNewInode k₁ dir mode = p at h
  obtain ⟨res, k₂⟩ := p
  cases res with
  | error e =>
      cases h
      exact absurd rfl (ouichefsNewInode_error hm hnew)
  | ok ino =>
      simp only [hm, Bool.false_eq_true, if_false] at h
      obtain ⟨hino, hne0, hdisk, hsbi, hother, hself⟩ := ouichefsNewInode_file hm hnew
      have hget : k₁.getFreeInode.1 = k.getFreeInode.1 ∧
          k₁.getFreeInode.2.fs = k.getFreeInode.2.fs := by
        unfold Kernel.getFreeInode
        rw [hk₁]
        refine ⟨rfl, ?_⟩
        show k₁.fs.setSbi _ = k.fs.setSbi _
        rw [hk₁]
      rw [hget.2] at hsbi hother
      rw [hget.1] at hino
      have hic : k.getFreeInode.2.fs.icache = k.fs.icache := rfl
      rw [hic] at hother
      rw [← hino]
      have hne : dir ≠ ino := by
        rcases Kernel.getFreeInode_cases h0 with ⟨i, -, -, hfree, -, heq⟩ | ⟨-, heq⟩
        · rw [heq] at hino
          rintro rfl
          rw [hino] at hd
          rw [hd] at hfree
          cases hfree
        · rw [heq] at hino
          exact absurd hino hne0
      have hdir : k₂.inode dir = k.inode dir := by
        unfold Kernel.inode Fs.inode
        rw [hother dir hne]
      unfold registerInode at h
      simp only at h
      split at h
      · cases h
      rw [hdir] at h
      generalize setSlot (k₂.fs.disk (k.inode dir).indexBlock) _ ino name = nb at h
      cases h
      refine ⟨⟨nb, ?_⟩, ?_, fun i hi => ?_, fun i hi => ?_⟩
      · show (k₂.fs.setBlock (k.inode dir).indexBlock nb).disk = _
        unfold Fs.setBlock
        rw [hdisk, hk₁]
      · exact hsbi
      · have hi₂ : k₂.inode i = k.inode i := by
          unfold Kernel.inode Fs.inode
          rw [hother i hi]
        rw [← hi₂]
        exact touchDir_view _ dir _ i
      · have hi₂ : (k₂.fs.icache i).isSome := by
          by_cases hin : i = ino
          · rw [hin]
            exact hself
          · rw [hother i hin]
            exact hi.resolve_left hin
        unfold touchDir
        by_cases hid : i = dir
        · rw [hid]
          simp
        · rw [Kernel.fs_setInode, Fs.icache_setInode_of_ne _ _ _ hid]
          exact hi₂

/-- What the label `clean_inode` leaves has no storage. -/
theorem cleanInode_kind (k : Kernel) (ino bno : Nat) (small : Bool) :
    ((cleanInode k ino bno small).inode ino).kind = .fresh := by
  rw [Inode.kind_fresh]
  unfold cleanInode Kernel.putInode Kernel.putBlock
  simp only
  split <;> simp [Kernel.inode, sIsDir]

namespace Session

variable {s : Session} {chain : List Nat} {f g i : Nat}

/-! ## Writing -/

/-- The directories survive what a write does to file `f`. -/
theorem Inv.dirs_write {k' : Kernel} {chain' : List Nat} (h : s.Inv chain) (hf : s.Has f)
    (hnd : (s.k.inode (s.ino f)).kind ≠ .dir) (ht : Touch (s.ino f) s.k k')
    (hw : FileWrite s.files (files { s with k := k' }) chain chain' f) : DirInv k'.fs := by
  have hmode : ∀ i, (k'.fs.inode i).iMode = (s.k.fs.inode i).iMode := by
    intro i
    by_cases hi : i = s.ino f
    · rw [hi]
      exact ht.mode
    · unfold Fs.inode
      rw [ht.others i hi]
  refine h.dirs.frame ht.live (fun d => ?_) fun d hd => ?_
  · unfold Fs.Is
    rw [ht.live, Inode.kind_dir, Inode.kind_dir, hmode]
  · obtain ⟨g, hl, rfl⟩ := h.owner d hd.1
    have hg := h.has hl
    have hne : g ≠ f := by
      rintro rfl
      exact hnd hd.2
    have hidx := hw.indexOf h.core ((h.files_is hl .dir).2 hd) hne
    rw [hg.indexOf] at hidx
    rw [← hidx]
    exact (Has.indexOf (s := { s with k := k' }) hg).symm

/-- **A write keeps the invariant and the content of all other files.** -/
theorem Inv.write {iocb : Kiocb} {data : List UInt8} (h : s.Inv chain)
    (hv : s.Vfs (.write f iocb data)) (hsafe : s.Safe (.write f iocb data)) :
    ∃ r s' chain', s.act (.write f iocb data) = .ok (r, s') ∧ s'.Inv chain' ∧
      s.Spares (.write f iocb data) s' := by
  obtain ⟨ho, hnd⟩ := hv
  obtain ⟨hnew, hfit⟩ := hsafe
  have hf : s.Has f := ⟨h.opened f ho, h.held f ho hnew⟩
  have hsee := h.toSound.files_see hf
  have hlive : s.files.Live f := (h.toSound.files_live f).2 hf.1
  -- the write as the files see it
  have hino : ((s.view f).see s.k).inode f = s.k.inode (s.ino f) := View.inode_see (s.view f) s.k
  have hwrite : WritesFile ((s.view f).see s.k) chain f
      (customWriteIter ((s.view f).see s.k) f iocb data) := by
    refine customWriteIter_file h.faults (hsee ▸ h.core) (hsee ▸ hlive) (fun hk => ?_) ?_
    · have he := h.empty f hf.1
      rw [← hsee] at he
      exact he hk
    · rw [hino]
      exact hfit
  obtain ⟨r, io, kv, chain', hrun, hfaults, hw⟩ := hwrite
  have hrun' := View.customWriteIter_see (s.view f) s.k iocb data
  rw [show (s.view f).id = f from rfl, hrun] at hrun'
  obtain ⟨k', hout, rfl⟩ := (s.view f).run_eq_ok hrun'.symm
  have ht : Touch (s.ino f) s.k (customWriteIter s.k (s.ino f) iocb data).kernel :=
    customWriteIter_touch _ _ iocb data
  replace hout : customWriteIter s.k (s.ino f) iocb data = .ok ((r, io), k') := hout
  rw [hout] at ht
  replace ht : Touch (s.ino f) s.k k' := ht
  have hfiles : files { s with k := k' } = (s.view f).fs k'.fs :=
    h.files_set hf ht.others (ht.cached (h.cached f hf.1 hf.2))
  have hw : FileWrite s.files (files { s with k := k' }) chain chain' f := by
    rw [← hsee, hfiles]
    exact hw
  refine ⟨r, { s with k := k' }, chain', ?_, ⟨h.toSound.setKernel ht.live ht.stays,
    ht.faults h.faults, hw.core, h.dirs_write hf hnd ht hw, h.table.frame ht.geom,
    (congrFun ht.ifree 0).trans h.bit0, fun g hl hk => ?_, fun g hg hk => ?_⟩,
    fun g hg hon => ?_⟩
  · show after (writeResult (customWriteIter s.k (s.ino f) iocb data)) _ = _
    rw [hout]
    rfl
  · have hsame : (files { s with k := k' }).inode g = s.files.inode g := by
      by_cases hgf : g = f
      · rw [hgf] at hk ⊢
        exact hw.fresh hk
      · exact hw.inode g hgf
    rw [hsame] at hk ⊢
    exact h.fresh g hl hk
  · by_cases hgf : g = f
    · rw [hgf] at hk hg ⊢
      rcases hk with hk | hk
      · have hsame := hw.fresh hk
        rw [hsame] at hk ⊢
        exact h.empty f hg (Or.inl hk)
      · exact hw.stray hk
    · rw [hw.inode g hgf] at hk ⊢
      exact h.empty g hg hk
  · exact hw.content h.core ((h.toSound.files_live g).2 hg) fun hgf => hon hgf.symm

/-! ## Removing -/

/-- The storage of a file that has its inode number is released, and the file has no storage
then. -/
theorem Sound.release (h : s.Sound) (hf : s.Has f) (hl : s.k.fs.Live (s.ino f))
    (hfaults : s.k.faults = []) (hc : Core s.files chain) {bno : Nat} {small : Bool}
    (hb : bno = (s.k.inode (s.ino f)).indexBlock)
    (hsm : small = (decide ((s.k.inode (s.ino f)).iBlocks = 0) &&
      !sIsDir (s.k.inode (s.ino f)).iMode)) :
    ∃ k₂ X chain', releaseStorage s.k (s.ino f) = .ok ((), k₂) ∧
      Freed s.files X chain chain' f ∧
      (files { s with k := cleanInode k₂ (s.ino f) bno small }).disk = X.disk ∧
      Core (files { s with k := cleanInode k₂ (s.ino f) bno small }) chain' := by
  have hsee := h.files_see hf
  have hlive := (h.files_live f).2 hf.1
  have hfree : FreeInode ((s.view f).see s.k) chain f :=
    freeInode_spec hfaults (hsee ▸ hc) (hsee ▸ hlive)
  obtain ⟨kv, X, chain', hrel, -, -, hag, hfreed⟩ := hfree
  have hino : ((s.view f).see s.k).inode f = s.k.inode (s.ino f) :=
    View.inode_see (s.view f) s.k
  rw [hino, ← hb, ← hsm] at hag
  rw [hsee] at hfreed
  have hrel' := View.releaseStorage_see (s.view f) s.k
  rw [show (s.view f).id = f from rfl, hrel] at hrel'
  obtain ⟨k₂, hout, rfl⟩ := (s.view f).run_eq_ok hrel'.symm
  have ht := releaseStorage_touch (s.ino f) s.k
  replace hout : releaseStorage s.k (s.ino f) = .ok ((), k₂) := hout
  rw [hout] at ht
  replace ht : Touch (s.ino f) s.k k₂ := ht
  have hlt : s.ino f < k₂.fs.sbi.nrInodes := by
    rw [ht.geom.nrInodes]
    exact hl.2.1
  have hcl := cleanInode_cleared bno small hlt
  have hkind := cleanInode_kind k₂ (s.ino f) bno small
  have hclean := View.cleanInode_see (s.view f) k₂ bno small
    (Nat.le_of_lt (h.known f hf.1).2) (Nat.le_of_lt hlt)
  rw [show (s.view f).id = f from rfl, show (s.view f).ino = s.ino f from rfl] at hclean
  rw [hclean] at hag
  refine ⟨k₂, X, chain', hout, hfreed, ?_⟩
  generalize cleanInode k₂ (s.ino f) bno small = k' at hcl hag hkind ⊢
  have hset : files { s with k := k' } = (s.view f).fs k'.fs :=
    h.files_set hf (fun i hi => (hcl.others i hi).trans (ht.others i hi)) hcl.cached
  have hused : (s.view f).ifree f = false := by
    show (decide (f ≠ 0) && !s.known f) = false
    simp [hf.1]
  have hbirth : ((s.view f).freed.fs k'.fs).birth f (k'.fs.inode (s.ino f)) =
      (s.view f).fs k'.fs := View.freed_birth (s.view f) hused hcl.cached
  refine ⟨?_, ?_⟩
  · rw [hset]
    exact hag.disk
  · rw [hset, ← hbirth]
    refine (hag.core hfreed.core).birth ⟨(h.known f hf.1).1, (h.known f hf.1).2, fun hx => ?_,
      Or.inl hkind⟩
    have hbit : Function.update (s.view f).ifree f true f = false := hx.2.2
    rw [Function.update_self] at hbit
    cases hbit

/-- The state between the removal of the entry and the release of the storage. -/
theorem Inv.dropEntry {k₁ : Kernel} {dir e n : Nat} (h : s.Inv chain) (hld : s.linked dir = true)
    (hd : s.k.fs.Is (s.ino dir) .dir) (hdrop : EntryDropped s.k k₁ (s.ino dir) e n) :
    Sound { s with k := k₁ } ∧ Core (files { s with k := k₁ }) chain ∧
      ∀ g, s.known g = true → SameView (s.files.inode g) ((files { s with k := k₁ }).inode g) ∧
        (files { s with k := k₁ }).content g = s.files.content g := by
  have hfd := h.has hld
  have hdfile : s.files.Is dir .dir := (h.files_is hld .dir).2 hd
  have hblk : (s.files.inode dir).indexBlock = (s.k.fs.inode (s.ino dir)).indexBlock := by
    rw [hfd.files_inode]
  have hag : Agree (s.files.setBlock (s.files.inode dir).indexBlock
      (removeSlot (s.k.fs.indexOf (s.ino dir)) e n)) (files { s with k := k₁ }) := by
    rw [hblk]
    refine h.files_agree hdrop.agree.disk ⟨_, _, hdrop.sbi⟩ fun g hg => ?_
    by_cases hgd : s.ino g = s.ino dir
    · rw [hgd]
      exact hdrop.agree.view _ hd.1
    · exact .of_eq (hdrop.inode hgd)
  refine ⟨h.toSound.setKernel (fun i => ?_) fun i hi => ?_, ?_, fun g hg => ?_⟩
  · unfold Fs.Live
    rw [hdrop.sbi]
  · by_cases hid : i = s.ino dir
    · rw [hid] at hi ⊢
      exact hdrop.agree.cached _ hd.1 hi
    · rw [hdrop.icache i hid]
      exact hi
  · obtain ⟨hu, hc, hbig, -⟩ := h.core.dir_block_alone hdfile
    exact hag.core (h.core.setBlock (fun _ => hu) hc hbig _)
  · have hlive := (h.files_live g).2 hg
    exact ⟨hag.view g hlive, h.core.content_setDir hdfile hag hlive⟩

/-- **Removing a file keeps the invariant and the content of all other files**, also when handles
of the file are open. -/
theorem Inv.unlink {dir : Nat} (h : s.Inv chain) (hv : s.Vfs (.unlink dir f)) :
    ∃ r s' chain', s.act (.unlink dir f) = .ok (r, s') ∧ s'.Inv chain' ∧
      s.Spares (.unlink dir f) s' := by
  obtain ⟨hld, hlf, ⟨hd, h0, e, hs⟩, hnd⟩ := hv
  have hwf := h.wf
  have hf := h.has hlf
  have hlive := (h.linked f hlf).2.2
  have hne : s.ino f ≠ s.ino dir := fun he => hnd (he ▸ hd)
  obtain ⟨n, hle, hn⟩ := hwf.dirs.tree.compact _ hd
  obtain ⟨k₁, hdrop, hrun⟩ := ouichefsUnlink_entry h.faults hwf hd hs h0 hn hle
  obtain ⟨k', chain₂, n', hrun', hf', -, hrem⟩ :=
    ouichefsUnlink_spec h.faults hwf hd hs h0 fun hx => absurd hx hnd
  obtain ⟨hsound₁, hcore₁, hcont₁⟩ := h.dropEntry hld hd hdrop
  have hino := hdrop.inode hne
  have hlive₁ : k₁.fs.Live (s.ino f) := by
    unfold Fs.Live
    rw [hdrop.sbi]
    exact hlive
  obtain ⟨k₂, X, chain', hrel, hfreed, hdisk, hcore'⟩ := hsound₁.release (f := f) hf hlive₁
    hdrop.faults hcore₁ (congrArg Inode.indexBlock hino.symm)
    (congrArg (fun ci => decide (ci.iBlocks = 0) && !sIsDir ci.iMode) hino.symm)
  rw [show releaseStorage k₁ (s.ino f) = _ from hrel] at hrun
  have heff : RemoveEff s.k k' (s.ino dir) (s.ino f) := by
    rcases ouichefsUnlink_effect h.faults hlive.2.1 hne hrun' with hidle | ⟨-, heff⟩
    · refine absurd ((hrem.live (s.ino f)).1 ?_).2 (fun hx => hx rfl)
      unfold Fs.Live
      rw [hidle.geom.nrInodes, hidle.ifree]
      exact hlive
    · exact heff
  have hk : cleanInode k₂ (s.ino f) (s.k.inode (s.ino f)).indexBlock
      (decide ((s.k.inode (s.ino f)).iBlocks = 0) && !sIsDir (s.k.inode (s.ino f)).iMode) = k' := by
    have hk := hrun.symm.trans hrun'
    simpa using hk
  replace hdisk : (files { s with k := k' }).disk = X.disk := hk ▸ hdisk
  replace hcore' : Core (files { s with k := k' }) chain' := hk ▸ hcore'
  have hview : ∀ g, s.known g = true → g ≠ f →
      SameView (s.files.inode g) ((files { s with k := k' }).inode g) := fun g hg hgf =>
    files_view hg fun hh => heff.view _ fun he => hgf (h.alone hf hh he)
  have hself : (files { s with k := k' }).inode f = k'.inode (s.ino f) :=
    Has.files_inode (s := { s with k := k' }) hf
  have hlinked : ∀ g, Function.update s.linked f false g = true → g ≠ f ∧ s.linked g = true := by
    intro g hg
    have hgf : g ≠ f := by
      rintro rfl
      rw [Function.update_self] at hg
      cases hg
    exact ⟨hgf, by rwa [Function.update_of_ne hgf] at hg⟩
  have hinv : Inv { s with k := k', linked := Function.update s.linked f false } chain' := by
    refine ⟨⟨h.known, h.opened, fun g hg => ?_, fun i hi => ?_, fun g hk hl => ?_, h.newest,
      h.held⟩, hf', hcore', hrem.wf.dirs, hrem.wf.table, hrem.wf.inodes.bit0, fun g hg hx => ?_,
      fun g hg hx => ?_⟩
    · obtain ⟨hgf, hl⟩ := hlinked g hg
      obtain ⟨hk, hleft, hlv⟩ := h.linked g hl
      exact ⟨hk, hleft, (hrem.live _).2 ⟨hlv, fun he => hgf (h.alone hf ⟨hk, hleft⟩ he)⟩⟩
    · obtain ⟨hlv, hne⟩ := (hrem.live i).1 hi
      obtain ⟨g, hl, rfl⟩ := h.owner i hlv
      refine ⟨g, ?_, rfl⟩
      show Function.update s.linked f false g = true
      rw [Function.update_of_ne (fun he => hne (by rw [he]))]
      exact hl
    · exact heff.cached _ (Or.inr (h.cached g hk hl))
    · obtain ⟨hgf, hl⟩ := hlinked g hg
      have hv := hview g (h.linked g hl).1 hgf
      have hx' : (s.files.inode g).kind = .fresh := hv.kind.symm.trans hx
      have hfr := h.fresh g hl hx'
      exact ⟨hv.iSize.trans hfr.1, hv.numSlices.trans hfr.2⟩
    · by_cases hgf : g = f
      · rw [hgf]
        exact (congrArg Inode.iSize hself).trans heff.size
      · have hv := hview g hg hgf
        exact hv.iSize.trans (h.empty g hg (hx.imp hv.kind.symm.trans hv.kind.symm.trans))
  refine ⟨0, _, chain', ?_, hinv.iput (s.ino f), fun g hg hon => ?_⟩
  · show after (ouichefsUnlink s.k (s.ino dir) (s.ino f)) _ = _
    rw [hrun']
    rfl
  · have hgf : g ≠ f := fun he => hon he.symm
    obtain ⟨hv₁, hc₁⟩ := hcont₁ g hg
    rw [iput_files, ← hc₁]
    exact hfreed.content hcore₁ hdisk ((hsound₁.files_live g).2 hg) hgf
      (hv₁.symm.trans (hview g hg hgf))

/-! ## Creating -/

/-- The session in which the next file has inode number `j` of kernel `k'`. -/
def created (s : Session) (j : Nat) (k' : Kernel) : Session := { (s.lose j).enter j with k := k' }

theorem known_created {k' : Kernel} {j : Nat} :
    (s.created j k').known g = true ↔ s.known g = true ∨ g = s.next := by
  show Function.update s.known s.next true g = true ↔ _
  by_cases hg : g = s.next
  · simp [hg]
  · simp [hg]

theorem created_old (j : Nat) (k' : Kernel) (hg : g ≠ s.next) :
    (s.created j k').ino g = s.ino g ∧ (s.created j k').linked g = s.linked g ∧
      (s.created j k').opened g = s.opened g ∧ (s.created j k').left g = (s.lose j).left g :=
  ⟨Function.update_of_ne hg _ _, Function.update_of_ne hg _ _, Function.update_of_ne hg _ _,
    Function.update_of_ne hg _ _⟩

theorem created_new (s : Session) (j : Nat) (k' : Kernel) :
    (s.created j k').ino s.next = j ∧ (s.created j k').linked s.next = true ∧
      (s.created j k').opened s.next = 0 ∧ (s.created j k').left s.next = none :=
  ⟨Function.update_self _ _ _, Function.update_self _ _ _, Function.update_self _ _ _,
    Function.update_self _ _ _⟩

theorem Sound.created {k' : Kernel} {j : Nat} (h : s.Sound) (h0 : s.next ≠ 0)
    (hdead : ¬s.k.fs.Live j) (hlive : ∀ i, k'.fs.Live i ↔ s.k.fs.Live i ∨ i = j)
    (hc : ∀ i, i = j ∨ (s.k.fs.icache i).isSome → (k'.fs.icache i).isSome) :
    (s.created j k').Sound := by
  obtain ⟨hni, hnl, hno, hnx⟩ := created_new s j k'
  have hold : ∀ g, s.known g = true → g ≠ s.next := fun g hg =>
    Nat.ne_of_lt (h.known g hg).2
  refine ⟨fun g hg => ?_, fun g hg => ?_, fun g hg => ?_, fun i hi => ?_, fun g hk hl => ?_,
    fun f g hf hl hg hi => ?_, fun g ho hn => ?_⟩
  · rcases known_created.1 hg with hg | rfl
    · exact ⟨(h.known g hg).1, Nat.lt_succ_of_lt (h.known g hg).2⟩
    · exact ⟨h0, Nat.lt_succ_self _⟩
  · by_cases hgn : g = s.next
    · rw [hgn, hno] at hg
      exact absurd rfl hg
    · rw [(created_old _ _ hgn).2.2.1] at hg
      exact known_created.2 (Or.inl (h.opened g hg))
  · by_cases hgn : g = s.next
    · rw [hgn, hni, hnx]
      exact ⟨known_created.2 (Or.inr rfl), rfl, (hlive j).2 (Or.inr rfl)⟩
    · obtain ⟨hi, hl, -, hx⟩ := created_old j k' hgn
      rw [hl] at hg
      obtain ⟨hk, hleft, hlv⟩ := h.linked g hg
      rw [hi, hx]
      refine ⟨known_created.2 (Or.inl hk), lose_left_none.2 ⟨hleft, fun he => ?_⟩,
        (hlive _).2 (Or.inl hlv)⟩
      rw [he.2] at hlv
      exact hdead hlv
  · rcases (hlive i).1 hi with hi | rfl
    · obtain ⟨g, hl, rfl⟩ := h.owner i hi
      have hgn := hold g (h.linked g hl).1
      exact ⟨g, (created_old _ _ hgn).2.1.trans hl, (created_old _ _ hgn).1⟩
    · exact ⟨s.next, hnl, hni⟩
  · rcases known_created.1 hk with hk | rfl
    · obtain ⟨hi, -, -, hx⟩ := created_old j k' (hold g hk)
      rw [hx] at hl
      rw [hi]
      exact hc _ (Or.inr (h.cached g hk (lose_left_none.1 hl).1))
    · rw [hni]
      exact hc j (Or.inl rfl)
  · rcases known_created.1 hf with hf | rfl
    · obtain ⟨hif, -, -, hxf⟩ := created_old j k' (hold f hf)
      rw [hxf] at hl
      obtain ⟨hlf, hnf⟩ := lose_left_none.1 hl
      rcases known_created.1 hg with hg | rfl
      · rw [hif, (created_old _ _ (hold g hg)).1] at hi
        exact h.newest f g hf hlf hg hi
      · rw [hif, hni] at hi
        exact absurd ⟨hf, hi.symm⟩ hnf
    · rcases known_created.1 hg with hg | rfl
      · exact Nat.le_of_lt (h.known g hg).2
      · exact Nat.le_refl _
  · by_cases hgn : g = s.next
    · rw [hgn]
      exact hnx
    · obtain ⟨hi, -, hop, hx⟩ := created_old j k' hgn
      rw [hop] at ho
      have hk := h.opened g ho
      rw [hx]
      refine lose_left_none.2 ⟨h.held g ho fun f hlt hf he => ?_, fun he => ?_⟩
      · refine hn f (Nat.lt_succ_of_lt hlt) (known_created.2 (Or.inl hf)) ?_
        rw [hi, (created_old _ _ (hold f hf)).1, he]
      · have hle := hn s.next (Nat.lt_succ_self _) (known_created.2 (Or.inr rfl)) (by
          rw [hi, hni, he.2])
        have hlt := (h.known g hk).2
        omega

/-- The files that were there keep the fields that the invariant looks at. -/
theorem created_view {k' : Kernel} {j : Nat} (h : s.Sound)
    (hv : ∀ i, i ≠ j → SameView (s.k.inode i) (k'.inode i)) (hg : s.known g = true) :
    SameView (s.files.inode g) ((s.created j k').files.inode g) := by
  obtain ⟨hi, -, -, hx⟩ := created_old j k' (Nat.ne_of_lt (h.known g hg).2)
  rw [files_inode hg, files_inode (known_created.2 (Or.inl hg)), ← lose_inodeOf j]
  show SameView (((s.lose j).left g).getD _) (((s.created j k').left g).getD _)
  rw [hx]
  cases hl : (s.lose j).left g with
  | some ci => exact .refl ci
  | none =>
      obtain ⟨-, hne⟩ := lose_left_none.1 hl
      rw [hi]
      exact hv _ fun he => hne ⟨hg, he⟩

theorem created_inode {k' : Kernel} {j : Nat} :
    (s.created j k').files.inode s.next = k'.inode j := by
  obtain ⟨hi, -, -, hx⟩ := created_new s j k'
  rw [files_inode (known_created.2 (Or.inr rfl))]
  unfold inodeOf
  rw [hi, hx]
  rfl

/-- **The storage invariant for a file more.** -/
theorem Inv.created_core {k' : Kernel} {dir j : Nat} (h : s.Inv chain)
    (hld : s.linked dir = true) (hd : s.k.fs.Is (s.ino dir) .dir)
    (hc : FileCreated s.k k' (s.ino dir) j) (hk : (k'.inode j).kind = .fresh) :
    Core (s.created j k').files chain ∧ ∀ g, s.known g = true →
      (s.created j k').files.content g = s.files.content g := by
  have hfd := h.has hld
  have hdk := (h.linked dir hld).1
  have hnext : s.known s.next = false := by
    by_contra hx
    exact Nat.lt_irrefl _ (h.known _ (by simpa using hx)).2
  -- room for one file more
  generalize ht : (s.files.setSbi { s.files.sbi with nrInodes := s.next + 1 }) = t
  have hlive : ∀ g, t.Live g ↔ s.known g = true := by
    intro g
    rw [← ht]
    show g ≠ 0 ∧ g < s.next + 1 ∧ (decide (g ≠ 0) && !s.known g) = false ↔ _
    constructor
    · rintro ⟨hg, -, hb⟩
      simpa [hg] using hb
    · intro hg
      obtain ⟨hg0, hlt⟩ := h.known g hg
      exact ⟨hg0, Nat.lt_succ_of_lt hlt, by simp [hg]⟩
  have hcore : Core t chain := by
    have hre : Renumbered id s.files t := by
      refine ⟨by rw [← ht]; rfl, ⟨_, _, by rw [← ht]; rfl⟩, ?_,
        fun g hg => ⟨(h.files_live g).2 ((hlive g).1 hg), by rw [← ht]; rfl⟩, fun _ _ _ _ he => he⟩
      rw [← ht]
      exact h.core.inodes.bit0
    exact hre.core h.core
  have hb : BirthOk t chain s.next (k'.inode j) := by
    refine ⟨fun h0 => ?_, ?_, fun hx => ?_, Or.inl hk⟩
    · have hlt := (h.known dir hdk).2
      omega
    · rw [← ht]
      exact Nat.lt_succ_self _
    · rw [hlive, hnext] at hx
      cases hx
  have hbirth := hcore.birth hb
  have hold : ∀ g, s.known g = true → (t.birth s.next (k'.inode j)).inode g = s.files.inode g := by
    intro g hg
    rw [Fs.birth_inode, if_neg (Nat.ne_of_lt (h.known g hg).2), ← ht]
    rfl
  have hdir : (t.birth s.next (k'.inode j)).Is dir .dir := by
    refine (Fs.birth_is hb.pos hb.lt hb.dead _ _).2 (Or.inl ⟨(hlive dir).2 hdk, ?_⟩)
    have hdx := ((h.files_is hld .dir).2 hd).2
    rw [← ht]
    exact hdx
  have hblk : ((t.birth s.next (k'.inode j)).inode dir).indexBlock =
      (s.k.inode (s.ino dir)).indexBlock := by
    rw [hold dir hdk, hfd.files_inode]
    rfl
  -- the new file and the entry
  obtain ⟨nb, hdisk⟩ := hc.disk
  have hag : Agree ((t.birth s.next (k'.inode j)).setBlock
      ((t.birth s.next (k'.inode j)).inode dir).indexBlock nb) (s.created j k').files := by
    obtain ⟨ifree, n, hsbi⟩ := hc.sbi_eq h.bit0
    have hsbi' : (s.created j k').files.sbi = { s.files.sbi with
        nrFreeInodes := n, nrInodes := s.next + 1,
        ifreeBitmap := fun g => decide (g ≠ 0) && !(s.created j k').known g } := by
      have hk' : (s.created j k').k.fs.sbi = k'.fs.sbi := rfl
      unfold files
      simp only [hk', hsbi]
      rfl
    have hknown : ∀ g, (t.birth s.next (k'.inode j)).Live g → (s.created j k').known g = true := by
      intro g hg
      rw [Fs.birth_live _ hb.pos hb.lt, hlive] at hg
      exact known_created.2 hg
    rw [hblk]
    refine ⟨?_, ?_, ?_, ?_, ?_, ?_, ?_, fun g hg _ => ?_, fun g hg => ?_⟩
    · rw [← ht]
      exact hdisk
    · rw [hsbi', ← ht]
      exact ⟨rfl, rfl, rfl, rfl, rfl⟩
    · rw [hsbi', ← ht]
      funext g
      show (decide (g ≠ 0) && !(Function.update s.known s.next true g)) =
        Function.update (fun g => decide (g ≠ 0) && !s.known g) s.next false g
      by_cases hgn : g = s.next
      · simp [hgn]
      · simp [hgn]
    · rw [hsbi', ← ht]
      rfl
    · rw [hsbi', ← ht]
      rfl
    · rw [hsbi', ← ht]
      rfl
    · rw [hsbi', ← ht]
      rfl
    · show (if (s.created j k').known g = true then some _ else none).isSome
      rw [if_pos (hknown g hg)]
      rfl
    · rw [Fs.inode_setBlock]
      rcases known_created.1 (hknown g hg) with hgk | rfl
      · rw [hold g hgk]
        exact created_view h.toSound hc.view hgk
      · rw [Fs.birth_inode, if_pos rfl, created_inode]
        exact .refl _
  refine ⟨?_, fun g hg => ?_⟩
  · obtain ⟨hu, hn, hbig, -⟩ := hbirth.dir_block_alone hdir
    exact hag.core (hbirth.setBlock (fun _ => hu) hn hbig _)
  · have hlg : (t.birth s.next (k'.inode j)).Live g :=
      (Fs.birth_live _ hb.pos hb.lt g).2 (Or.inl ((hlive g).2 hg))
    rw [hbirth.content_setDir hdir hag hlg]
    refine h.core.content_congr (.of_eq (hold g hg)) ((h.files_live g).2 hg) (fun _ => ?_)
      fun _ _ _ _ _ => by rw [← ht]; rfl
    unfold Fs.smallBytes
    rw [hold g hg, ← ht]
    rfl

/-- **Creating a file keeps the invariant and the content of all other files**, also of those whose
inode number it gets. -/
theorem Inv.create {dir mode : Nat} {name : List UInt8} (h : s.Inv chain)
    (hv : s.Vfs (.create dir name mode)) :
    ∃ r s', s.act (.create dir name mode) = .ok (r, s') ∧ s'.Inv chain ∧
      s.Spares (.create dir name mode) s' := by
  obtain ⟨hld, hd, hm⟩ := hv
  obtain ⟨r, k', hrun, hf', -, ⟨hneg, hsame, -⟩ | ⟨rfl, i, n, hcr⟩⟩ :=
    ouichefsCreate_spec h.faults h.wf hd name mode
  · obtain ⟨hinv, hfiles⟩ := h.sameFs hsame hf'
    refine ⟨r, { s with k := k' }, ?_, hinv, fun g _ _ => by rw [hfiles]⟩
    show after (ouichefsCreate s.k (s.ino dir) name mode) _ = _
    rw [hrun]
    show Except.ok (r, if r = 0 then _ else _) = _
    rw [if_neg (by omega)]
  have hc := ouichefsCreate_file hm h.bit0 hd.1.2.2 hrun
  -- the number of the new file
  have hnum : i = s.k.getFreeInode.1 := by
    rcases Kernel.getFreeInode_cases h.bit0 with ⟨j, hj0, hjlt, hjfree, -, heq⟩ | ⟨-, heq⟩
    · have hlive : k'.fs.Live j := by
        refine ⟨hj0, by rw [hcr.geom.nrInodes]; exact hjlt, ?_⟩
        rw [hc.sbi, heq]
        exact Function.update_self _ _ _
      rw [heq]
      refine (((hcr.live j).1 hlive).resolve_left fun hx => ?_).symm
      rw [hx.2.2] at hjfree
      cases hjfree
    · have hlive : k'.fs.Live i := (hcr.live i).2 (Or.inr rfl)
      refine absurd ?_ hcr.dead
      unfold Fs.Live at hlive
      rw [hc.sbi, heq] at hlive
      exact hlive
  rw [← hnum] at hc
  have hk : (k'.inode i).kind = .fresh := by
    have hki := hcr.kind
    rw [if_neg (by simp [hm])] at hki
    exact hki.2
  have hnext : s.next ≠ 0 := by
    have := (h.known dir (h.linked dir hld).1).2
    omega
  have hsound := h.toSound.created hnext hcr.dead hcr.live hc.cached
  obtain ⟨hcore, hcont⟩ := h.created_core hld hd hc hk
  have hnew := hcr.wf.fresh i ⟨(hcr.live i).2 (Or.inr rfl), hk⟩
  refine ⟨0, s.created i k', ?_, ⟨hsound, hf', hcore, hcr.wf.dirs, hcr.wf.table,
    hcr.wf.inodes.bit0, fun g hl hx => ?_, fun g hg hx => ?_⟩, fun g hg _ => hcont g hg⟩
  · show after (ouichefsCreate s.k (s.ino dir) name mode) _ = _
    rw [hrun, hnum]
    rfl
  · by_cases hgn : g = s.next
    · rw [hgn, created_inode]
      exact hnew
    · rw [(created_old _ _ hgn).2.1] at hl
      have hview := created_view h.toSound hc.view (h.linked g hl).1
      have hfr := h.fresh g hl (hview.kind.symm.trans hx)
      exact ⟨hview.iSize.trans hfr.1, hview.numSlices.trans hfr.2⟩
  · rcases known_created.1 hg with hgk | rfl
    · have hview := created_view h.toSound hc.view hgk
      exact hview.iSize.trans
        (h.empty g hgk (hx.imp hview.kind.symm.trans hview.kind.symm.trans))
    · rw [created_inode]
      exact hnew.1

/-! ## Whole runs -/

/-- **An allowed call returns, keeps the invariant and spares all other files.** -/
theorem Inv.step {c : UserCall} (h : s.Inv chain) (hc : s.Allowed c) :
    ∃ r s' chain', s.exec c = .ok (r, s') ∧ s'.Inv chain' ∧ s.Spares c.act s' := by
  have h' := h.setCaller c
  obtain ⟨act, now, uid, gid⟩ := c
  obtain ⟨hv, hsafe⟩ := hc
  cases act with
  | create dir name mode =>
      obtain ⟨r, s', hrun, hinv, hsp⟩ := h'.create hv
      exact ⟨r, s', chain, hrun, hinv, hsp⟩
  | openFile f flags =>
      obtain ⟨r, s', hrun, hinv, hsp⟩ := h'.openFile hv
      exact ⟨r, s', chain, hrun, hinv, hsp⟩
  | write f iocb data => exact h'.write hv hsafe
  | unlink dir f => exact h'.unlink hv
  | close f =>
      obtain ⟨s', hrun, hinv, hsp⟩ := h'.close (f := f)
      exact ⟨0, s', chain, hrun, hinv, hsp⟩

/-- Writes of at most 31 slices to files without storage, while block `b` is free. -/
def Roomy (b : Nat) (s : Session) : Act → Prop
  | .write f iocb data => s.Newest f ∧ (s.k.inode (s.ino f)).kind = .fresh ∧
    max (iocb.kiPos + data.length) (s.k.inode (s.ino f)).iSize ≤ 3968 ∧
    b < s.k.fs.sbi.nrBlocks ∧ s.k.fs.sbi.bfreeBitmap b = true
  | _ => True

instance (b : Nat) (s : Session) : (a : Act) → Decidable (Roomy b s a)
  | .create .. => inferInstanceAs (Decidable True)
  | .openFile .. => inferInstanceAs (Decidable True)
  | .write .. => inferInstanceAs (Decidable (_ ∧ _ ∧ _ ∧ _ ∧ _))
  | .unlink .. => inferInstanceAs (Decidable True)
  | .close .. => inferInstanceAs (Decidable True)

theorem Roomy.safe {b : Nat} {a : Act} (h : Roomy b s a) : s.Safe a := by
  cases a with
  | write f iocb data =>
      obtain ⟨hnew, hkind, hsize, hb, hfree⟩ := h
      refine ⟨hnew, ?_⟩
      unfold Fs.WriteFits
      rw [hkind]
      exact Or.inl ⟨decide_eq_true hsize, .of_free hb hfree _⟩
  | create | openFile | unlink | close => trivial

/-- **Unlinked files stay apart from later ones.**  In every run of creations, writes through
handles, removals and closes in which every write fits and none goes through a handle whose inode
number was given to a later file, no byte ever belongs to two files, and a call changes the content
of no file but the one it is made on.  The free blocks have to be zero-filled when the run starts. -/
theorem orphans_run {Z : Prop} {k : Kernel} {cs : List UserCall} (hf : k.faults = [])
    (h : WF k.fs chain Z) (hz : k.fs.Blank)
    (ha : Admissible Session.exec Allowed k.session cs) :
    Simulates Session.exec (fun s t => t = s ∧ s.Isolated) (fun s c _ s' => s.Spares c.act s')
      k.session k.session cs := by
  have h0 := mounted hf (h.blank hz)
  refine simulates_of_step (I := fun s => ∃ chain, s.Inv chain) ?_ cs _ _ ⟨chain, h0⟩
    ⟨rfl, h0.isolated⟩ ha
  rintro s t c ⟨chain, hi⟩ ⟨rfl, -⟩ hc
  obtain ⟨r, s', chain', hrun, hinv, hsp⟩ := hi.step hc
  exact ⟨r, s', s', hrun, hsp, ⟨chain', hinv⟩, rfl, hinv.isolated⟩

/-- A file is removed while it is open, written again through its handle, and closed; its number
goes to another file, which is written too. -/
def orphanRun : List UserCall :=
  [.create 1 [97] 0o100644, .openFile 8 ⟨true, false, false⟩, .write 8 ⟨0, false⟩ [1], .unlink 1 8,
    .write 8 ⟨0, false⟩ [2], .create 1 [98] 0o100644, .openFile 9 ⟨true, false, false⟩,
    .write 9 ⟨0, false⟩ [3], .close 8, .unlink 1 9, .close 9].map fun a => ⟨a, ⟨0, 0⟩, 0, 0⟩

theorem orphans_run_orphanRun : Simulates Session.exec (fun s t => t = s ∧ s.Isolated)
    (fun s c _ s' => s.Spares c.act s') (emptyImage 8 8).session (emptyImage 8 8).session
    orphanRun := by
  refine orphans_run rfl
    (emptyImage_wf (by decide) (by decide) (by decide) (by decide)) (emptyImage_blank (by decide)) ?_
  have hallowed : ∀ (s : Session) (c : UserCall), s.Vfs c.act ∧ Roomy 7 s c.act → s.Allowed c :=
    fun s c hc => ⟨hc.1, hc.2.safe⟩
  exact Admissible.mono hallowed _ _ (by decide +kernel)

/-- A file is removed while it is open, and another file is created. -/
def reuseRun : List UserCall :=
  [.create 1 [97] 0o100644, .openFile 8 ⟨true, false, false⟩, .unlink 1 8,
    .create 1 [98] 0o100644].map fun a => ⟨a, ⟨0, 0⟩, 0, 0⟩

/-- A write through the handle of the first file. -/
def staleWrite : UserCall := ⟨.write 8 ⟨0, false⟩ [1], ⟨0, 0⟩, 0, 0⟩

/-- The state after a run. -/
def afterRun (s : Session) (cs : List UserCall) : Session :=
  match runAll Session.exec s cs with
  | .ok s' => s'
  | .error _ => s

theorem afterRun_eq {cs : List UserCall} {s' : Session} (h : runAll Session.exec s cs = .ok s') :
    s.afterRun cs = s' := by
  unfold afterRun
  rw [h]

/-- **The second file gets the number of the first, and its content is written through the old
handle.** -/
theorem orphans_staleWrite : WF (emptyImage 8 8).fs [] ∧ (emptyImage 8 8).fs.Blank ∧
    (emptyImage 8 8).faults = [] ∧
    Admissible Session.exec (fun s c => s.Vfs c.act) (emptyImage 8 8).session
      (reuseRun ++ [staleWrite]) ∧
    ¬Simulates Session.exec (fun s t => t = s ∧ s.Isolated) (fun s c _ s' => s.Spares c.act s')
      (emptyImage 8 8).session (emptyImage 8 8).session (reuseRun ++ [staleWrite]) := by
  refine ⟨emptyImage_wf (by decide) (by decide) (by decide) (by decide),
    emptyImage_blank (by decide), rfl, by decide +kernel, fun h => ?_⟩
  have hchanged :
      (((emptyImage 8 8).session.afterRun reuseRun).afterRun [staleWrite]).files.content 9 ≠
        ((emptyImage 8 8).session.afterRun reuseRun).files.content 9 := by decide +kernel
  have hknown : ((emptyImage 8 8).session.afterRun reuseRun).known 9 = true := by decide +kernel
  generalize (emptyImage 8 8).session = s at h hknown hchanged
  obtain ⟨t, b, hrun, ⟨rfl, -⟩, r, s', t', he, hspares, rfl, -⟩ := h.drop
  rw [afterRun_eq hrun] at hknown hchanged
  have hlast : b.afterRun [staleWrite] = t' := by
    refine afterRun_eq ?_
    rw [runAll, he]
    rfl
  rw [hlast] at hchanged
  exact hchanged (hspares 9 hknown fun h8 => absurd (show 8 = 9 from h8) (by decide))

end Session

end Ouichefs
