import Ouichefs.Session

/-!
# The invariant of a session

`Sound` says how files, inode numbers and in-memory inodes belong together: a linked file has the
in-memory inode of its number, and so has the newest file that is held.  `Inv` adds the storage
invariant with the inodes numbered by files, so that files which were unlinked or whose inode number
was given away count as well, and the directory invariant for the inode numbers.  From it follow the
well-formedness of the file system itself (`Inv.wf`) and that no byte belongs to two files
(`Inv.isolated`).
-/

set_option autoImplicit false

namespace Ouichefs

namespace Session

variable {s : Session} {chain : List Nat} {f g i : Nat}

/-! ## Files and inode numbers -/

/-- How files, inode numbers and the in-memory inodes belong together. -/
structure Sound (s : Session) : Prop where
  known : ∀ f, s.known f = true → f ≠ 0 ∧ f < s.next
  opened : ∀ f, s.opened f ≠ 0 → s.known f = true
  linked : ∀ f, s.linked f = true → s.known f = true ∧ s.left f = none ∧ s.k.fs.Live (s.ino f)
  owner : ∀ i, s.k.fs.Live i → ∃ f, s.linked f = true ∧ s.ino f = i
  cached : ∀ f, s.known f = true → s.left f = none → (s.k.fs.icache (s.ino f)).isSome
  newest : ∀ f g, s.known f = true → s.left f = none → s.known g = true → s.ino g = s.ino f → g ≤ f
  held : ∀ f, s.opened f ≠ 0 → s.Newest f → s.left f = none

/-- The file has its inode number still. -/
def Has (s : Session) (f : Nat) : Prop := s.known f = true ∧ s.left f = none

theorem Sound.alone (h : s.Sound) (hf : s.Has f) (hg : s.Has g) (hi : s.ino g = s.ino f) : g = f :=
  Nat.le_antisymm (h.newest f g hf.1 hf.2 hg.1 hi) (h.newest g f hg.1 hg.2 hf.1 hi.symm)

theorem Sound.has (h : s.Sound) (hl : s.linked f = true) : s.Has f :=
  ⟨(h.linked f hl).1, (h.linked f hl).2.1⟩

theorem Has.inodeOf (h : s.Has f) : s.inodeOf f = s.k.inode (s.ino f) := by
  unfold Session.inodeOf
  rw [h.2]
  rfl

theorem Sound.files_live (h : s.Sound) (f : Nat) : s.files.Live f ↔ s.known f = true := by
  show f ≠ 0 ∧ f < s.next ∧ (decide (f ≠ 0) && !s.known f) = false ↔ _
  constructor
  · rintro ⟨h0, -, hb⟩
    simpa [h0] using hb
  · intro hk
    obtain ⟨h0, hlt⟩ := h.known f hk
    exact ⟨h0, hlt, by simp [hk]⟩

theorem files_inode (hk : s.known f = true) : s.files.inode f = s.inodeOf f := by
  unfold Fs.inode files
  simp [hk]

/-- A new kernel under the same files. -/
theorem Sound.setKernel {k' : Kernel} (h : s.Sound) (hlive : ∀ i, k'.fs.Live i ↔ s.k.fs.Live i)
    (hc : ∀ i, (s.k.fs.icache i).isSome → (k'.fs.icache i).isSome) : Sound { s with k := k' } := by
  refine ⟨h.known, h.opened, fun f hf => ?_, fun i hi => h.owner i ((hlive i).1 hi),
    fun f hk hl => hc _ (h.cached f hk hl), h.newest, h.held⟩
  obtain ⟨hk, hl, hi⟩ := h.linked f hf
  exact ⟨hk, hl, (hlive _).2 hi⟩

/-! ## The view of one file -/

/-- File `f` among the other files. -/
def view (s : Session) (f : Nat) : View where
  ino := s.ino f
  id := f
  ifree := s.files.sbi.ifreeBitmap
  nrInodes := s.next
  others := s.files.icache

/-- A kernel that differs in the inode of file `f`, seen by the files. -/
theorem Sound.files_set {k' : Kernel} (h : s.Sound) (hf : s.Has f)
    (hother : ∀ i, i ≠ s.ino f → k'.fs.icache i = s.k.fs.icache i)
    (hc : (k'.fs.icache (s.ino f)).isSome) : files { s with k := k' } = (s.view f).fs k'.fs := by
  have hic : (files { s with k := k' }).icache = ((s.view f).fs k'.fs).icache := by
    funext g
    show (if s.known g = true then some (inodeOf { s with k := k' } g) else none) =
      Function.update s.files.icache f (k'.fs.icache (s.ino f)) g
    rw [Function.update_apply]
    by_cases hg : g = f
    · subst hg
      rw [if_pos hf.1, if_pos rfl, Has.inodeOf (s := { s with k := k' }) hf]
      obtain ⟨ci, hci⟩ := Option.isSome_iff_exists.1 hc
      show some ((k'.fs.icache (s.ino g)).getD _) = _
      rw [hci]
      rfl
    · rw [if_neg hg]
      show _ = if s.known g = true then some (s.inodeOf g) else none
      by_cases hk : s.known g = true
      · rw [if_pos hk, if_pos hk]
        unfold inodeOf
        cases hl : s.left g with
        | some ci => rfl
        | none =>
            have hne : s.ino g ≠ s.ino f := fun he => hg (h.alone hf ⟨hk, hl⟩ he)
            show some (k'.inode (s.ino g)) = some (s.k.inode (s.ino g))
            unfold Kernel.inode Fs.inode
            rw [hother _ hne]
      · rw [if_neg hk, if_neg hk]
  unfold files View.fs
  simp only [Fs.mk.injEq, true_and]
  exact ⟨rfl, hic⟩

theorem Sound.files_see (h : s.Sound) (hf : s.Has f) : ((s.view f).see s.k).fs = s.files := by
  have hset : files { s with k := s.k } = (s.view f).fs s.k.fs :=
    h.files_set hf (fun _ _ => rfl) (h.cached f hf.1 hf.2)
  exact hset.symm

/-! ## Losing an inode -/

theorem lose_left_none : (s.lose i).left f = none ↔
    s.left f = none ∧ ¬(s.known f = true ∧ s.ino f = i) := by
  unfold lose
  simp only
  split
  · rename_i hc
    simp only [Bool.and_eq_true, beq_iff_eq] at hc
    simp [hc.1]
  · rename_i hc
    simp only [Bool.and_eq_true, beq_iff_eq, Option.isNone_iff_eq_none, not_and] at hc
    exact ⟨fun hl => ⟨hl, fun hi => hc hi hl⟩, And.left⟩

/-- Giving the in-memory inode away does not change what the file is. -/
theorem lose_inodeOf (i : Nat) : (s.lose i).inodeOf = s.inodeOf := by
  funext f
  unfold lose inodeOf
  simp only
  by_cases hc : (s.known f && s.ino f == i && (s.left f).isNone) = true
  · rw [if_pos hc]
    simp only [Bool.and_eq_true, beq_iff_eq, Option.isNone_iff_eq_none] at hc
    obtain ⟨⟨-, rfl⟩, hl⟩ := hc
    rw [hl]
    rfl
  · rw [if_neg hc]

theorem unused_iff : s.unused i = true ↔
    ∀ f < s.next, s.known f = true → s.ino f = i → s.linked f = false ∧ s.opened f = 0 := by
  unfold unused
  simp only [List.all_eq_true, List.mem_range, Bool.not_eq_true', Bool.and_eq_false_iff,
    beq_eq_false_iff_ne, Bool.or_eq_false_iff, decide_eq_false_iff_not, not_not]
  refine forall₂_congr fun f _ => ?_
  cases s.known f <;> simp [imp_iff_not_or]

theorem Sound.not_live (h : s.Sound) (hu : s.unused i = true) : ¬s.k.fs.Live i := by
  intro hl
  obtain ⟨f, hf, hi⟩ := h.owner i hl
  have hk := (h.linked f hf).1
  have hno := (unused_iff.1 hu f (h.known f hk).2 hk hi).1
  rw [hf] at hno
  cases hno

/-- An evicted inode belongs to files that are neither linked nor held. -/
theorem Sound.iput (h : s.Sound) (i : Nat) : (s.iput i).Sound := by
  unfold Session.iput
  split
  swap
  · exact h
  rename_i hu
  have hno := unused_iff.1 hu
  refine ⟨h.known, h.opened, fun f hf => ?_, h.owner, fun f hk hl => ?_, fun f g hk hl hg hi => ?_,
    fun f ho hn => ?_⟩
  · obtain ⟨hk, hl, hlive⟩ := h.linked f hf
    refine ⟨hk, lose_left_none.2 ⟨hl, fun hi => ?_⟩, hlive⟩
    have := (hno f (h.known f hk).2 hk hi.2).1
    rw [show s.linked f = true from hf] at this
    cases this
  · obtain ⟨hl, hne⟩ := lose_left_none.1 hl
    show (Function.update s.k.fs.icache i none (s.ino f)).isSome
    rw [Function.update_of_ne fun he => hne ⟨hk, he⟩]
    exact h.cached f hk hl
  · exact h.newest f g hk (lose_left_none.1 hl).1 hg hi
  · have hk := h.opened f ho
    refine lose_left_none.2 ⟨h.held f ho hn, fun hi => ?_⟩
    exact ho (hno f (h.known f hk).2 hk hi.2).2

/-- Nor does its eviction. -/
theorem iput_files (i : Nat) : (s.iput i).files = s.files := by
  unfold Session.iput
  split
  swap
  · rfl
  have hic : ∀ f, s.known f = true →
      inodeOf { s.lose i with k := s.k.uncache i } f = s.inodeOf f := by
    intro f hk
    rw [show s.inodeOf f = (s.lose i).inodeOf f from (congrFun (lose_inodeOf i) f).symm]
    show ((s.lose i).left f).getD _ = ((s.lose i).left f).getD _
    cases hl : (s.lose i).left f with
    | some ci => rfl
    | none =>
        have hne : s.ino f ≠ i := fun he => (lose_left_none.1 hl).2 ⟨hk, he⟩
        show (s.k.uncache i).inode (s.ino f) = s.k.inode (s.ino f)
        unfold Kernel.inode Fs.inode Kernel.uncache
        simp only
        rw [Function.update_of_ne hne]
  unfold files
  congr 1
  funext f
  show (if s.known f = true then _ else none) = if s.known f = true then _ else none
  by_cases hk : s.known f = true
  · rw [if_pos hk, if_pos hk, hic f hk]
  · rw [if_neg hk, if_neg hk]

/-! ## The invariant -/

/-- What holds between the calls: the storage invariant for the files, and what the calls need to
know about the inode numbers. -/
structure Inv (s : Session) (chain : List Nat) : Prop extends Sound s where
  faults : s.k.faults = []
  core : Core s.files chain
  dirs : DirInv s.k.fs
  table : InodeTable s.k.fs.sbi
  bit0 : s.k.fs.sbi.ifreeBitmap 0 = false
  fresh : ∀ f, s.linked f = true → (s.files.inode f).kind = .fresh →
    (s.files.inode f).iSize = 0 ∧ (s.files.inode f).numSlices = 0
  empty : ∀ f, s.known f = true → (s.files.inode f).kind = .fresh ∨
    (s.files.inode f).kind = .stray → (s.files.inode f).iSize = 0

theorem Has.files_inode (h : s.Has f) : s.files.inode f = s.k.fs.inode (s.ino f) :=
  (Session.files_inode h.1).trans h.inodeOf

theorem Has.indexOf (h : s.Has f) : s.files.indexOf f = s.k.fs.indexOf (s.ino f) := by
  unfold Fs.indexOf
  rw [h.files_inode]
  rfl

theorem Sound.files_is (h : s.Sound) (hl : s.linked f = true) (κ : Kind) :
    s.files.Is f κ ↔ s.k.fs.Is (s.ino f) κ := by
  obtain ⟨hk, -, hlive⟩ := h.linked f hl
  unfold Fs.Is
  rw [h.files_live, (h.has hl).files_inode]
  simp [hk, hlive]

/-- The inode numbers show some of the files. -/
theorem Sound.renumbered (h : s.Sound) (h0 : s.k.fs.sbi.ifreeBitmap 0 = false) :
    ∃ φ, Renumbered φ s.files s.k.fs := by
  choose! φ hφ using h.owner
  refine ⟨φ, rfl, ⟨s.k.fs.sbi.ifreeBitmap, s.k.fs.sbi.nrInodes, rfl⟩, h0, fun i hi => ?_,
    fun i j hi hj he => ?_⟩
  · obtain ⟨hl, hino⟩ := hφ i hi
    have hhas := h.has hl
    refine ⟨(h.files_live _).2 hhas.1, ?_⟩
    obtain ⟨ci, hci⟩ := Option.isSome_iff_exists.1 (h.cached _ hhas.1 hhas.2)
    show _ = if s.known (φ i) = true then some (s.inodeOf (φ i)) else none
    rw [if_pos hhas.1, hhas.inodeOf]
    unfold Kernel.inode Fs.inode
    rw [hci, ← hci, hino, ← hino, hci]
    rfl
  · rw [← (hφ i hi).2, ← (hφ j hj).2, he]

/-- **Between the calls the file system itself is well formed.** -/
theorem Inv.wf (h : s.Inv chain) : WF s.k.fs chain := by
  obtain ⟨φ, hφ⟩ := h.renumbered h.bit0
  refine { hφ.core h.core with
    dirs := h.dirs, table := h.table, fresh := fun i hi => ?_, stray := fun i hi => ?_ }
  · obtain ⟨f, hl, rfl⟩ := h.owner i hi.1
    rw [← (h.has hl).files_inode]
    exact h.fresh f hl ((h.has hl).files_inode ▸ hi.2)
  · obtain ⟨f, hl, rfl⟩ := h.owner i hi.1
    rw [← (h.has hl).files_inode]
    exact h.empty f (h.has hl).1 (Or.inr ((h.has hl).files_inode ▸ hi.2))

/-- **No byte belongs to two files.** -/
theorem Inv.isolated (h : s.Inv chain) : s.Isolated := by
  have href : ∀ {f b r}, r.By f → Refers s.files [] r b → Refers s.files chain r b := by
    intro f b r hby hr
    cases r with
    | index i => exact hr
    | data i j => exact hr
    | header _ | sliced _ => exact hby.elim
  intro f g b o hf hg
  rcases hf with hf | ⟨r, hby, hr⟩
  · have hm := (h.core.slices.file f hf.1).mem
    rw [hf.2.1] at hm
    rcases hg with hg | ⟨r', hby', hr'⟩
    · exact h.core.slices.disjoint hf hg
    · exact absurd hm (h.core.by_notin_chain hby' (href hby' hr'))
  · rcases hg with hg | ⟨r', hby', hr'⟩
    · have hm := (h.core.slices.file g hg.1).mem
      rw [hg.2.1] at hm
      exact absurd hm (h.core.by_notin_chain hby (href hby hr))
    · obtain rfl := h.core.owned.inj (href hby hr) (href hby' hr')
      cases r with
      | index i => exact hby.symm.trans hby'
      | data i j => exact hby.symm.trans hby'
      | header _ | sliced _ => exact hby.elim

/-! ## The mount -/

variable {k : Kernel}

/-- At the mount every inode is a file. -/
theorem mounted_sound (h : WF k.fs chain) : k.session.Sound := by
  have hlive : ∀ i, k.session.known i = true ↔ k.fs.Live i := fun i => decide_eq_true_iff
  refine ⟨fun f hf => ⟨((hlive f).1 hf).1, ((hlive f).1 hf).2.1⟩, fun f ho => absurd rfl ho,
    fun f hf => ⟨hf, rfl, (hlive f).1 hf⟩, fun i hi => ⟨i, (hlive i).2 hi, rfl⟩,
    fun f hf _ => h.inodes.cached f ((hlive f).1 hf), fun f g _ _ _ he => Nat.le_of_eq he,
    fun f ho => absurd rfl ho⟩

theorem mounted_inode (h : WF k.fs chain) {i : Nat} (hi : k.fs.Live i) :
    k.session.files.icache i = k.fs.icache i := by
  obtain ⟨ci, hci⟩ := Option.isSome_iff_exists.1 (h.inodes.cached i hi)
  have hk : k.session.known i = true := decide_eq_true hi
  show (if k.session.known i = true then some (k.session.inodeOf i) else none) = _
  rw [if_pos hk]
  show some ((k.fs.icache i).getD _) = _
  rw [hci]
  rfl

theorem mounted (hf : k.faults = []) (h : WF k.fs chain) : k.session.Inv chain := by
  have hs := mounted_sound h
  have hlive : ∀ i, k.session.files.Live i ↔ k.fs.Live i :=
    fun i => (hs.files_live i).trans decide_eq_true_iff
  have hinode : ∀ i, k.fs.Live i → k.session.files.inode i = k.fs.inode i := by
    intro i hi
    unfold Fs.inode
    rw [mounted_inode h hi]
  have hre : Renumbered id k.fs k.session.files := by
    refine ⟨rfl, ⟨_, _, rfl⟩, ?_, fun i hi => ?_, fun i j _ _ he => he⟩
    · show (decide (0 ≠ 0) && !k.session.known 0) = false
      simp
    · exact ⟨(hlive i).1 hi, mounted_inode h ((hlive i).1 hi)⟩
  refine ⟨hs, hf, hre.core h.toCore, h.dirs, h.table, h.inodes.bit0, fun f hl hk => ?_,
    fun f hl hk => ?_⟩
  · have hi : k.fs.Live f := of_decide_eq_true hl
    rw [hinode f hi] at hk ⊢
    exact h.fresh f ⟨hi, hk⟩
  · have hi : k.fs.Live f := of_decide_eq_true hl
    rw [hinode f hi] at hk ⊢
    rcases hk with hk | hk
    · exact (h.fresh f ⟨hi, hk⟩).1
    · exact h.stray f ⟨hi, hk⟩

/-! ## Another kernel under the same files -/

/-- The files a new kernel does not touch keep the fields that the invariant looks at. -/
theorem files_view {k' : Kernel} {g : Nat} (hk : s.known g = true)
    (hv : s.Has g → SameView (s.k.inode (s.ino g)) (k'.inode (s.ino g))) :
    SameView (s.files.inode g) ((files { s with k := k' }).inode g) := by
  rw [files_inode hk, files_inode (s := { s with k := k' }) hk]
  unfold inodeOf
  cases hg : s.left g with
  | some ci => exact .refl ci
  | none => exact hv ⟨hk, hg⟩

/-- Block `b` changes, and the fields of the inodes that the invariant looks at do not. -/
theorem Sound.files_agree {k' : Kernel} {b : Nat} {nb : Block} (h : s.Sound)
    (hdisk : k'.fs.disk = (s.k.fs.setBlock b nb).disk)
    (hsbi : ∃ ifree n, k'.fs.sbi = { s.k.fs.sbi with ifreeBitmap := ifree, nrFreeInodes := n })
    (hv : ∀ g, s.Has g → SameView (s.k.inode (s.ino g)) (k'.inode (s.ino g))) :
    Agree (s.files.setBlock b nb) (files { s with k := k' }) := by
  obtain ⟨ifree, n, hsbi⟩ := hsbi
  have hsbi' : (files { s with k := k' }).sbi = { s.files.sbi with nrFreeInodes := n } := by
    unfold files
    simp only [hsbi]
  refine ⟨hdisk, hsbi' ▸ ⟨rfl, rfl, rfl, rfl, rfl⟩, hsbi' ▸ rfl, hsbi' ▸ rfl, hsbi' ▸ rfl,
    hsbi' ▸ rfl, hsbi' ▸ rfl, fun g hl _ => ?_, fun g hl => ?_⟩
  · have hk : s.known g = true := (h.files_live g).1 hl
    show (if s.known g = true then some (inodeOf { s with k := k' } g) else none).isSome
    rw [if_pos hk]
    rfl
  · rw [Fs.inode_setBlock]
    exact files_view ((h.files_live g).1 hl) (hv g)

/-- Another kernel with the same file system. -/
theorem Inv.sameFs {k' : Kernel} (h : s.Inv chain) (hfs : k'.fs = s.k.fs) (hf : k'.faults = []) :
    Inv { s with k := k' } chain ∧ files { s with k := k' } = s.files := by
  have hfiles : files { s with k := k' } = s.files := by
    unfold files inodeOf Kernel.inode
    simp only [hfs]
  refine ⟨⟨h.toSound.setKernel (fun i => ?_) fun i hi => ?_, hf, hfiles ▸ h.core, hfs ▸ h.dirs,
    hfs ▸ h.table, hfs ▸ h.bit0, fun g hl => ?_, fun g hk => ?_⟩, hfiles⟩
  · rw [hfs]
  · rw [hfs]
    exact hi
  · rw [hfiles]
    exact h.fresh g hl
  · rw [hfiles]
    exact h.empty g hk

theorem Inv.setCaller (h : s.Inv chain) (c : UserCall) : (s.setCaller c).Inv chain := by
  have hfs : (s.k.setCaller c.now c.fsuid c.fsgid).fs = s.k.fs := rfl
  exact (h.sameFs hfs h.faults).1

/-! ## Opening and closing -/

/-- Handles of files that have their inode number. -/
theorem Inv.setOpened {opened' : Nat → Nat} (h : s.Inv chain)
    (ho : ∀ g, opened' g ≠ 0 → s.opened g ≠ 0 ∨ s.Has g) :
    Inv { s with opened := opened' } chain := by
  refine { h with opened := fun g hg => ?_, held := fun g hg hn => ?_ }
  · rcases ho g hg with hg | hg
    · exact h.opened g hg
    · exact hg.1
  · rcases ho g hg with hg | hg
    · exact h.held g hg hn
    · exact hg.2

theorem Inv.iput (h : s.Inv chain) (i : Nat) : (s.iput i).Inv chain := by
  have hfiles := iput_files (s := s) i
  have hsound := h.toSound.iput i
  have hknown : (s.iput i).known = s.known := by
    unfold Session.iput
    split <;> rfl
  have hlinked : (s.iput i).linked = s.linked := by
    unfold Session.iput
    split <;> rfl
  have hdirs : DirInv (s.iput i).k.fs ∧ (s.iput i).k.fs.sbi = s.k.fs.sbi ∧
      (s.iput i).k.faults = s.k.faults := by
    unfold Session.iput
    split
    swap
    · exact ⟨h.dirs, rfl, rfl⟩
    rename_i hu
    have hinode : ∀ d, s.k.fs.Live d → (s.k.uncache i).fs.inode d = s.k.fs.inode d := by
      intro d hd
      have hne : d ≠ i := by
        rintro rfl
        exact h.not_live hu hd
      unfold Fs.inode Kernel.uncache
      simp only
      rw [Function.update_of_ne hne]
    refine ⟨h.dirs.frame (fun _ => Iff.rfl) (fun d => ?_) fun d hd => ?_, rfl, rfl⟩
    · exact and_congr_right fun hl => by rw [hinode d hl]
    · unfold Fs.indexOf
      rw [hinode d hd.1]
      rfl
  obtain ⟨hdirs, hsbi, hfaults⟩ := hdirs
  refine ⟨hsound, hfaults.trans h.faults, hfiles ▸ h.core, hdirs, hsbi ▸ h.table, hsbi ▸ h.bit0,
    fun f hl => ?_, fun f hk => ?_⟩
  · rw [hfiles]
    exact h.fresh f (hlinked ▸ hl)
  · rw [hfiles]
    exact h.empty f (hknown ▸ hk)

theorem Inv.openFile {flags : OpenFlags} (h : s.Inv chain) (hv : s.Vfs (.openFile f flags)) :
    ∃ r s', s.act (.openFile f flags) = .ok (r, s') ∧ s'.Inv chain ∧
      s.Spares (.openFile f flags) s' := by
  obtain ⟨hl, ht⟩ := hv
  have hrun : ouichefsOpen s.k (s.ino f) flags = .ok (0, s.k) := by
    unfold ouichefsOpen
    simp [ht]
  refine ⟨0, { s with opened := Function.update s.opened f (s.opened f + 1) }, ?_,
    h.setOpened fun g hg => ?_, fun _ _ _ => rfl⟩
  · show after (ouichefsOpen s.k (s.ino f) flags) _ = _
    rw [hrun]
    rfl
  · by_cases hgf : g = f
    · exact Or.inr (hgf ▸ h.has hl)
    · rw [Function.update_of_ne hgf] at hg
      exact Or.inl hg

theorem Inv.close (h : s.Inv chain) :
    ∃ s', s.act (.close f) = .ok (0, s') ∧ s'.Inv chain ∧ s.Spares (.close f) s' := by
  refine ⟨_, rfl, (h.setOpened fun g hg => ?_).iput _, fun g _ _ => ?_⟩
  · by_cases hgf : g = f
    · rw [hgf, Function.update_self] at hg
      rw [hgf]
      exact Or.inl fun h0 => hg (by rw [h0])
    · rw [Function.update_of_ne hgf] at hg
      exact Or.inl hg
  · rw [iput_files]
    rfl

end Session

end Ouichefs
