import Ouichefs.Create

/-!
# Removing files and directories

`ouichefs_unlink` takes the entry out of the parent directory, scrubs and frees what the inode
owned, and frees the inode.  In the proofs the inode dies first (`Fs.kill`): its blocks and slices
are then referenced by nobody, and freeing them is a sequence of `Fs.scrub` or one `delete_slice`.
-/

set_option autoImplicit false

namespace Ouichefs

open FreeMap

variable {Z : Prop}

/-! ## Scrubbing blocks -/

/-- Block `p` is zeroed and freed. -/
def Fs.scrub (fs : Fs) (p : Nat) : Fs := (fs.setBlock p Page.zero).freeBlock p

/-- The effect of scrubbing the blocks `l`. -/
structure ScrubEff (fs fs' : Fs) (chain l : List Nat) (Z : Prop := True) : Prop where
  core : Core fs' chain Z
  owners : SameOwners fs fs'
  kept : ∀ i, Kept fs fs' i
  tight : ∀ lost leak, TightBut fs chain lost leak →
    TightBut fs' chain (fun a => lost a ∧ a ∉ l) leak

section Scrub

variable {fs : Fs} {chain : List Nat} {p : Nat}

theorem Fs.scrub_owners (hr : Unref fs chain p) : SameOwners fs (fs.scrub p) := by
  refine .of_icache ⟨rfl, rfl, rfl, rfl, rfl⟩ rfl rfl fun d hd => ?_
  show (fs.setBlock p Page.zero).disk _ = _
  rw [Fs.disk_setBlock, if_neg (hr.ne_index hd)]

theorem Core.scrub (h : Core fs chain Z) (hu : fs.Used p) (hr : Unref fs chain p) :
    ScrubEff fs (fs.scrub p) chain [p] Z := by
  have hc := Core.unref_notin hr
  have hbig : ∀ d, fs.Is d .big → (fs.inode d).indexBlock ≠ p := fun d hd =>
    hr.ne_index (Or.inr hd)
  have hset := h.setBlock (fun _ => hu.2) hc hbig Page.zero
  refine ⟨hset.freeBlock hu (fun r hr' => hr r ((refers_setBlock _ hbig r p).1 hr')) (by simp),
    Fs.scrub_owners hr, fun i => .of_bytes rfl fun hs x _ _ => ?_, fun lost leak ht => ?_⟩
  · show ((fs.setBlock p Page.zero).disk _).get x = _
    rw [Fs.disk_setBlock, if_neg]
    intro he
    exact hc (he ▸ (h.slices.file i hs).mem)
  · have := (ht.setBlock hc hbig Page.zero).freeBlock (a := p)
    simpa [Fs.scrub] using this

/-- Scrubbing one block leaves the others used and unreferenced. -/
theorem Fs.scrub_unref (hr : Unref fs chain p) {a : Nat} (hua : fs.Used a)
    (hra : Unref fs chain a) (hne : a ≠ p) :
    (fs.scrub p).Used a ∧ Unref (fs.scrub p) chain a := by
  refine ⟨⟨hua.1, ?_⟩, fun r hr' => hra r (((Fs.scrub_owners hr).refers chain r a).1 hr')⟩
  show Function.update fs.sbi.bfreeBitmap p true a = false
  rw [Function.update_of_ne hne, hua.2]

/-- **Scrubbing a list of lost blocks.** -/
theorem Core.scrubAll : ∀ (l : List Nat) (fs : Fs), Core fs chain Z → l.Nodup →
    (∀ a ∈ l, fs.Used a ∧ Unref fs chain a) → ScrubEff fs (l.foldl Fs.scrub fs) chain l Z := by
  intro l
  induction l with
  | nil =>
      intro fs h _ _
      refine ⟨h, .of_icache ⟨rfl, rfl, rfl, rfl, rfl⟩ rfl rfl fun _ _ => rfl,
        fun i => ⟨rfl, fun _ => rfl⟩, fun lost leak ht => ?_⟩
      exact ht.weaken (fun a _ hl => ⟨hl, by simp⟩) fun _ _ => id
  | cons p l ih =>
      intro fs h hnd hall
      obtain ⟨hpl, hnd⟩ := List.nodup_cons.1 hnd
      obtain ⟨hu, hr⟩ := hall p List.mem_cons_self
      have h1 := h.scrub hu hr
      have h2 := ih (fs.scrub p) h1.core hnd fun a ha => by
        obtain ⟨hua, hra⟩ := hall a (List.mem_cons_of_mem _ ha)
        exact Fs.scrub_unref hr hua hra (by rintro rfl; exact hpl ha)
      refine ⟨h2.core, h1.owners.trans h2.owners, fun i => (h1.kept i).trans h1.owners (h2.kept i),
        fun lost leak ht => ?_⟩
      refine (h2.tight _ _ (h1.tight _ _ ht)).weaken (fun a _ hl => ⟨hl.1.1, ?_⟩) fun _ _ => id
      have h3 : a ≠ p := by simpa using hl.1.2
      simp [h3, hl.2]

theorem Fs.scrubAll_kill (ino : Nat) : ∀ (l : List Nat) (fs : Fs),
    (l.foldl Fs.scrub fs).kill ino = l.foldl Fs.scrub (fs.kill ino) := by
  intro l
  induction l with
  | nil => intro fs; rfl
  | cons p l ih => intro fs; exact ih (fs.scrub p)

theorem Fs.scrubAll_disk {c : Nat} : ∀ (l : List Nat) (fs : Fs), c ∉ l →
    (l.foldl Fs.scrub fs).disk c = fs.disk c := by
  intro l
  induction l with
  | nil => intro fs _; rfl
  | cons p l ih =>
      intro fs hc
      simp only [List.mem_cons, not_or] at hc
      rw [List.foldl_cons, ih _ hc.2]
      show (fs.setBlock p Page.zero).disk c = _
      rw [Fs.disk_setBlock, if_neg hc.1]

theorem Fs.scrubAll_nrBlocks : ∀ (l : List Nat) (fs : Fs),
    (l.foldl Fs.scrub fs).sbi.nrBlocks = fs.sbi.nrBlocks := by
  intro l
  induction l with
  | nil => intro fs; rfl
  | cons p l ih => intro fs; exact (ih (fs.scrub p)).trans rfl

theorem Fs.scrubAll_slices : ∀ (l : List Nat) (fs : Fs),
    (l.foldl Fs.scrub fs).sbi.sFreeSlicedBlocks = fs.sbi.sFreeSlicedBlocks ∧
      (l.foldl Fs.scrub fs).sbi.nrUsedSlices = fs.sbi.nrUsedSlices := by
  intro l
  induction l with
  | nil => intro fs; exact ⟨rfl, rfl⟩
  | cons p l ih => intro fs; exact ⟨(ih (fs.scrub p)).1.trans rfl, (ih (fs.scrub p)).2.trans rfl⟩

/-- Exactly the scrubbed blocks have become free. -/
theorem Fs.scrubAll_bits {c : Nat} : ∀ (l : List Nat) (fs : Fs),
    (l.foldl Fs.scrub fs).sbi.bfreeBitmap c = true ↔ fs.sbi.bfreeBitmap c = true ∨ c ∈ l := by
  intro l
  induction l with
  | nil => intro fs; simp
  | cons p l ih =>
      intro fs
      rw [List.foldl_cons, ih, List.mem_cons]
      have hbit : (fs.scrub p).sbi.bfreeBitmap c = true ↔ fs.sbi.bfreeBitmap c = true ∨ c = p := by
        show Function.update fs.sbi.bfreeBitmap p true c = true ↔ _
        by_cases hc : c = p
        · simp [hc]
        · simp [hc]
      rw [hbit, or_assoc]

/-- The scrubbed blocks are zero. -/
theorem Fs.scrubAll_zero {c : Nat} : ∀ (l : List Nat) (fs : Fs), c ∈ l →
    (l.foldl Fs.scrub fs).disk c = Page.zero := by
  intro l
  induction l with
  | nil => intro fs hc; cases hc
  | cons p l ih =>
      intro fs hc
      rw [List.foldl_cons]
      by_cases hl : c ∈ l
      · exact ih _ hl
      · rw [Fs.scrubAll_disk _ _ hl]
        have hcp : c = p := (List.mem_cons.1 hc).resolve_right hl
        show (fs.setBlock p Page.zero).disk c = _
        rw [Fs.disk_setBlock, if_pos hcp]

end Scrub

/-! ## The data blocks of a big file -/

/-- The nonzero pointers `i … i + n - 1` of an index block. -/
def ptrsFrom (b : Block) (i n : Nat) : List Nat :=
  ((List.range' i n).map (indexPtr b)).filter (· ≠ 0)

theorem mem_ptrsFrom {b : Block} {i n p : Nat} :
    p ∈ ptrsFrom b i n ↔ p ≠ 0 ∧ ∃ j, i ≤ j ∧ j < i + n ∧ indexPtr b j = p := by
  simp only [ptrsFrom, List.mem_filter, List.mem_map, List.mem_range'_1, decide_eq_true_eq]
  constructor
  · rintro ⟨⟨j, ⟨h1, h2⟩, h3⟩, h0⟩
    exact ⟨h0, j, h1, h2, h3⟩
  · rintro ⟨h0, j, h1, h2, h3⟩
    exact ⟨⟨j, ⟨h1, h2⟩, h3⟩, h0⟩

theorem ptrsFrom_succ (b : Block) (i n : Nat) : ptrsFrom b i (n + 1) =
    if indexPtr b i = 0 then ptrsFrom b (i + 1) n else indexPtr b i :: ptrsFrom b (i + 1) n := by
  unfold ptrsFrom
  rw [List.range'_succ, List.map_cons]
  by_cases h : indexPtr b i = 0
  · rw [if_pos h, List.filter_cons_of_neg (by simp [h])]
  · rw [if_neg h, List.filter_cons_of_pos (by simp [h])]

theorem nodup_ptrsFrom {b : Block} : ∀ (n i : Nat),
    (∀ j j', i ≤ j → j < i + n → i ≤ j' → j' < i + n → indexPtr b j ≠ 0 →
      indexPtr b j = indexPtr b j' → j = j') → (ptrsFrom b i n).Nodup := by
  intro n
  induction n with
  | zero => intro i _; simp [ptrsFrom]
  | succ n ih =>
      intro i hinj
      have hrec := ih (i + 1) fun j j' h1 h2 h3 h4 => hinj j j' (by omega) (by omega) (by omega)
        (by omega)
      rw [ptrsFrom_succ]
      split
      · exact hrec
      · rename_i hne
        refine List.nodup_cons.2 ⟨fun hm => ?_, hrec⟩
        obtain ⟨-, j, h1, h2, h3⟩ := mem_ptrsFrom.1 hm
        have := hinj i j (by omega) (by omega) (by omega) (by omega) hne h3.symm
        omega

/-- The loop of `ouichefs_unlink` scrubs the data blocks in order. -/
theorem releaseData_spec {idx : Nat} {I : Block} : ∀ (n i : Nat) (k : Kernel), k.faults = [] →
    k.fs.disk idx = I → i + n ≤ 1024 →
    (∀ p ∈ ptrsFrom I i n, p < k.fs.sbi.nrBlocks ∧ p ≠ idx) →
    ∃ k', releaseData idx n i k = .ok ((), k') ∧ k'.faults = [] ∧
      (k'.AllocFailed ↔ k.AllocFailed) ∧ k'.fs = (ptrsFrom I i n).foldl Fs.scrub k.fs := by
  intro n
  induction n with
  | zero => intro i k hf _ _ _; exact ⟨k, rfl, hf, Iff.rfl, rfl⟩
  | succ n ih =>
      intro i k hf hI hle hp
      rw [releaseData, if_neg (by omega), hI]
      rw [ptrsFrom_succ] at hp ⊢
      by_cases h0 : indexPtr I i = 0
      · simp only [h0, if_true] at hp ⊢
        exact ih (i + 1) k hf hI (by omega) hp
      · simp only [h0, if_false] at hp ⊢
        obtain ⟨hlt, hne⟩ := hp _ List.mem_cons_self
        rw [Kernel.sbBread_ok hf hlt]
        simp only
        generalize hk₁ : ((k.log (.bread (indexPtr I i))).setBlock (indexPtr I i) Page.zero).brelse
          (indexPtr I i) = k₁
        have hfs₁ : k₁.fs = k.fs.setBlock (indexPtr I i) Page.zero := by rw [← hk₁]; rfl
        have hI₁ : k₁.fs.disk idx = I := by
          rw [hfs₁, Fs.disk_setBlock, if_neg hne.symm, hI]
        rw [hI₁]
        have hput : (k₁.putBlock (indexPtr I i)).fs = k.fs.scrub (indexPtr I i) := by
          rw [Kernel.putBlock_eq (by rw [hfs₁]; exact Nat.le_of_lt hlt), Kernel.fs_setSbi, hfs₁]
          rfl
        obtain ⟨k', hrun, hf', ha', hfs'⟩ := ih (i + 1) (k₁.putBlock (indexPtr I i))
          (by rw [← hk₁]; simpa [Kernel.putBlock] using hf)
          (by rw [hput]; show (k.fs.setBlock _ _).disk idx = I
              rw [Fs.disk_setBlock, if_neg hne.symm, hI]) (by omega)
          (fun p hm => by rw [hput]; exact hp p (List.mem_cons_of_mem _ hm))
        refine ⟨k', hrun, hf', ?_, ?_⟩
        · rw [ha', ← hk₁]; simp [Kernel.putBlock]
        · rw [hfs', hput]; rfl

/-! ## Freeing the inode -/

theorem Agree.of_dead {fs fs' : Fs} (ino : Nat) (hdisk : fs'.disk = fs.disk)
    (hsbi : ∃ x, fs'.sbi = { fs.sbi with nrFreeInodes := x })
    (hdead : fs.sbi.ifreeBitmap ino = true) (hother : ∀ i, i ≠ ino → fs'.icache i = fs.icache i) :
    Agree fs fs' := by
  obtain ⟨x, hsbi⟩ := hsbi
  have hne : ∀ i, fs.Live i → i ≠ ino := by
    rintro i ⟨-, -, hb⟩ rfl
    rw [hdead] at hb
    cases hb
  refine ⟨hdisk, ?_, ?_, ?_, ?_, ?_, ?_, fun i hl hi => ?_, fun i hl => .of_eq ?_⟩
  · rw [hsbi]; exact ⟨rfl, rfl, rfl, rfl, rfl⟩
  all_goals try rw [hsbi]
  · rw [hother i (hne i hl)]; exact hi
  · unfold Fs.inode
    rw [hother i (hne i hl)]

/-- The fields of a dead inode do not matter. -/
theorem Fs.kill_setInode_agree (fs : Fs) (ino : Nat) (ci : Inode) :
    Agree (fs.kill ino) ((fs.setInode ino ci).kill ino) := by
  refine .of_dead ino rfl ⟨fs.sbi.nrFreeInodes, rfl⟩ (by simp [Fs.kill]) fun i hi => ?_
  simp [Fs.kill, Fs.setInode, hi]

section Clean

variable {k : Kernel} {ino bno : Nat}

theorem Kernel.putInode_eq (h : ino ≤ k.fs.sbi.nrInodes) :
    k.putInode ino = k.setSbi { k.fs.sbi with
      ifreeBitmap := Function.update k.fs.sbi.ifreeBitmap ino true,
      nrFreeInodes := add32 k.fs.sbi.nrFreeInodes 1 } := by
  unfold Kernel.putInode SbInfo.putInode putFreeBit
  rw [if_neg (by omega)]

theorem cleanInode_small (k : Kernel) {ino : Nat} (bno : Nat) (hino : ino < k.fs.sbi.nrInodes) :
    Agree (k.fs.kill ino) (cleanInode k ino bno true).fs ∧
      (cleanInode k ino bno true).faults = k.faults ∧
      ((cleanInode k ino bno true).AllocFailed ↔ k.AllocFailed) := by
  unfold cleanInode
  simp only [Bool.true_eq_false, and_false, if_false]
  rw [Kernel.putInode_eq (by exact Nat.le_of_lt hino)]
  refine ⟨.of_dead ino rfl ⟨add32 k.fs.sbi.nrFreeInodes 1, rfl⟩ (by simp [Fs.kill])
    fun i hi => ?_, rfl, by simp⟩
  simp [Fs.kill, Fs.setInode, hi]

theorem cleanInode_big (k : Kernel) {ino bno : Nat} (hino : ino < k.fs.sbi.nrInodes) (h0 : bno ≠ 0)
    (hb : bno < k.fs.sbi.nrBlocks) :
    Agree ((k.fs.kill ino).freeBlock bno) (cleanInode k ino bno false).fs ∧
      (cleanInode k ino bno false).faults = k.faults ∧
      ((cleanInode k ino bno false).AllocFailed ↔ k.AllocFailed) := by
  unfold cleanInode
  simp only [ne_eq, h0, not_false_eq_true, and_self, if_true]
  rw [Kernel.putBlock_eq (by exact Nat.le_of_lt hb),
    Kernel.putInode_eq (by exact Nat.le_of_lt hino)]
  refine ⟨.of_dead ino rfl ⟨add32 k.fs.sbi.nrFreeInodes 1, rfl⟩
    (by simp [Fs.kill, Fs.freeBlock]) fun i hi => ?_, rfl, by simp⟩
  simp [Fs.kill, Fs.freeBlock, Fs.setInode, hi]

end Clean

/-- What freeing inode `ino` does: `X` agrees with the state afterwards. -/
structure Freed (fs X : Fs) (chain chain' : List Nat) (ino : Nat) (Z : Prop := True) : Prop where
  core : Core X chain' Z
  length : chain'.length ≤ chain.length
  owners : SameOwners (fs.kill ino) X
  kept : ∀ i, Kept (fs.kill ino) X i
  outside : ∀ c, c ∉ chain → (∀ r : Ref, r.By ino → ¬Refers fs chain r c) → X.disk c = fs.disk c
  tight : Tight fs chain → Tight X chain'

/-- The result of `releaseStorage` and `cleanInode` together. -/
def FreeInode (k : Kernel) (chain : List Nat) (ino : Nat) (Z : Prop := True) : Prop :=
  ∃ k₁ X chain', releaseStorage k ino = .ok ((), k₁) ∧
    let k' := cleanInode k₁ ino (k.inode ino).indexBlock
      (decide ((k.inode ino).iBlocks = 0) && !sIsDir (k.inode ino).iMode)
    k'.faults = [] ∧ (k'.AllocFailed ↔ k.AllocFailed) ∧ Agree X k'.fs ∧
      Freed k.fs X chain chain' ino Z

section FreeInode

variable {k : Kernel} {chain : List Nat} {ino : Nat}

/-- A dead file without slices: nothing is left to free. -/
theorem Core.freed_unplaced {fs : Fs} (h : Core fs chain Z) (hl : fs.Live ino)
    (hk : fs.Is ino .fresh ∨ fs.Is ino .stray) : Freed fs (fs.kill ino) chain chain ino Z := by
  refine ⟨h.kill hl.1, Nat.le_refl _, .of_icache ⟨rfl, rfl, rfl, rfl, rfl⟩ rfl rfl fun _ _ => rfl,
    fun i => ⟨rfl, fun _ => rfl⟩, fun _ _ _ => rfl, fun ht => ?_⟩
  have hno : ∀ κ, κ ≠ .fresh → κ ≠ .stray → ¬fs.Is ino κ := by
    intro κ h1 h2 hi
    rcases hk with hk | hk
    · exact h1 (hi.kind_unique hk)
    · exact h2 (hi.kind_unique hk)
  refine (TightBut.kill ht).weaken ?_ ?_
  · rintro a - (hl | ⟨r, hby, hr⟩)
    · exact hl
    · cases r with
      | header b => exact hby
      | sliced b => exact hby
      | index i =>
          cases hby
          exact hr.1.elim (hno _ (by decide) (by decide)) (hno _ (by decide) (by decide))
      | data i j =>
          cases hby
          exact hno _ (by decide) (by decide) hr.1
  · rintro b j (hl | ho)
    · exact hl
    · exact hno _ (by decide) (by decide) ho.1

theorem releaseStorage_sliced {k₁ : Kernel} (hb : (k.inode ino).iBlocks = 0)
    (hm : sIsDir (k.inode ino).iMode = false)
    (hdel : deleteSlice k (k.inode ino).getBno (k.inode ino).getSlice (k.inode ino).numSlices =
      .ok (0, k₁)) :
    releaseStorage k ino = .ok ((), k₁.setInode ino (k₁.inode ino).detached) := by
  have hclear : deleteSliceAndClearInode k ino =
      .ok (0, k₁.setInode ino (k₁.inode ino).detached) := by
    unfold deleteSliceAndClearInode
    simp only [hdel]
    rfl
  unfold releaseStorage
  rw [if_pos ⟨hb, hm⟩, hclear]

theorem freeInode_unplaced (hf : k.faults = []) (h : Core k.fs chain Z)
    (hk : k.fs.Is ino .fresh ∨ k.fs.Is ino .stray) : FreeInode k chain ino Z := by
  have hl : k.fs.Live ino := hk.elim And.left And.left
  have hci : (k.inode ino).iBlocks = 0 ∧ sIsDir (k.inode ino).iMode = false ∧
      ((k.inode ino).getBno = 0 ∨ (k.inode ino).numSlices = 0) := by
    rcases hk with hk | hk
    · obtain ⟨h1, h2, h3⟩ := Inode.kind_fresh.1 hk.2
      exact ⟨h2, h1, Or.inl (by simp [Inode.getBno, Kernel.inode, h3])⟩
    · obtain ⟨h1, h2, -, h3⟩ := Inode.kind_stray.1 hk.2
      exact ⟨h2, h1, Or.inr h3⟩
  have hdel : deleteSlice k (k.inode ino).getBno (k.inode ino).getSlice (k.inode ino).numSlices =
      .ok (0, k) := (deleteSlice_exits _ _ _ _).2 (.nothing hci.2.2 rfl)
  have hrel := releaseStorage_sliced hci.1 hci.2.1 hdel
  refine ⟨_, k.fs.kill ino, chain, hrel, ?_⟩
  have hsmall : (decide ((k.inode ino).iBlocks = 0) && !sIsDir (k.inode ino).iMode) = true := by
    simp [hci.1, hci.2.1]
  simp only [hsmall]
  obtain ⟨hag, hf', ha'⟩ := cleanInode_small (k.setInode ino (k.inode ino).detached)
    (k.inode ino).indexBlock hl.2.1
  exact ⟨by rw [hf']; simpa using hf, by rw [ha']; simp,
    (Fs.kill_setInode_agree k.fs ino _).trans hag, h.freed_unplaced hl hk⟩

/-- Pruning does not look at the inode bitmap. -/
theorem PruneEff.kill {fs fs' : Fs} {l : List Nat} (he : PruneEff fs fs' [] l) (ino : Nat) :
    PruneEff (fs.kill ino) (fs'.kill ino) [] l := by
  refine ⟨he.isChain, he.outside, he.keptSame, he.restSame, he.gone, he.bfree, he.sliced,
    he.freeBlocks, he.count,
    ?_, he.icache⟩
  show { fs'.sbi with ifreeBitmap := Function.update fs'.sbi.ifreeBitmap ino true } = _
  rw [he.sbi]
  rfl

theorem freeInode_small (hf : k.faults = []) (h : Core k.fs chain Z) (hk : k.fs.Is ino .small) :
    FreeInode k chain ino Z := by
  have hok := h.slices.file ino hk
  obtain ⟨h1, h2, -, h4⟩ := Inode.kind_small.1 hk.2
  have h2' : (k.inode ino).iBlocks = 0 := h2
  have h1' : sIsDir (k.inode ino).iMode = false := h1
  obtain ⟨k₁, hdel, hf₁, ha₁, he⟩ := deleteSlice_spec hf h.pruneInv hok.mem hok.slice_pos h4
  have hdone := @PruneEff.deleted (k.fs.kill ino) _ _ _ _ _ _ (he.kill ino) (h.kill hk.1.1)
    hok.mem hok.slice_pos hok.fits fun i j h3 h4 hown => by
      obtain ⟨hown, hne⟩ := (Fs.kill_owns i _ j).1 hown
      exact hne (h.slices.disjoint hown ⟨hk, rfl, h3, h4⟩)
  have hrel := releaseStorage_sliced h2' h1' hdel
  generalize keepUsed _ chain = chain' at hdone
  refine ⟨_, k₁.fs.kill ino, chain', hrel, ?_⟩
  have hsmall : (decide ((k.inode ino).iBlocks = 0) && !sIsDir (k.inode ino).iMode) = true := by
    simp [h1', h2']
  simp only [hsmall]
  obtain ⟨hag, hf', ha'⟩ := cleanInode_small
    (k₁.setInode ino (k₁.inode ino).detached) (k.inode ino).indexBlock (by
      have := hdone.owners.geom.nrInodes
      exact this ▸ hk.1.2.1)
  refine ⟨by rw [hf']; simpa using hf₁, by rw [ha']; simpa using ha₁, ?_,
    hdone.core, hdone.length, hdone.owners, hdone.kept, fun c hc _ => hdone.outside c hc,
    fun ht => ?_⟩
  · exact (Fs.kill_setInode_agree k₁.fs ino _).trans hag
  · -- the slices of the dead file were the only leak
    refine (hdone.tight _ _ (TightBut.kill ht) ?_).weaken ?_ fun _ _ => id
    · rintro c j (hl | ⟨-, h5, h6, h7⟩)
      · exact hl.elim
      · exact ⟨h5.symm, h6, h7⟩
    · rintro a - (hl | ⟨r, hby, hr⟩)
      · exact hl
      · cases r with
        | header b => exact hby
        | sliced b => exact hby
        | index i =>
            cases hby
            rcases hr.1 with hi | hi <;> have := hi.kind_unique hk <;> cases this
        | data i j =>
            cases hby
            have := hr.1.kind_unique hk
            cases this

/-- The blocks of a dead inode are referenced by nobody. -/
theorem Core.kill_unref {fs : Fs} (h : Core fs chain Z) {r : Ref} {a : Nat}
    (hr : Refers fs chain r a) (hby : r.By ino) : Unref (fs.kill ino) chain a := by
  intro r' hr'
  obtain ⟨hold, hnot⟩ := (Fs.kill_refers r' a).1 hr'
  rw [h.owned.inj hr hold] at hby
  exact hnot hby

theorem Core.index_ne_zero {fs : Fs} (h : Core fs chain Z) {d : Nat}
    (hd : fs.Is d .dir ∨ fs.Is d .big) : (fs.inode d).indexBlock ≠ 0 :=
  h.ne_of_refs (r := .index d) (s := .header 0) ⟨hd, rfl⟩
    ⟨rfl, by unfold SbInfo.metaBlocks; omega⟩ (by simp)

theorem freeInode_dir (hf : k.faults = []) (h : Core k.fs chain Z) (hk : k.fs.Is ino .dir) :
    FreeInode k chain ino Z := by
  have hmode : sIsDir (k.inode ino).iMode = true := Inode.kind_dir.1 hk.2
  have h0 : (k.inode ino).indexBlock ≠ 0 := h.index_ne_zero (Or.inl hk)
  have hu : k.fs.Used (k.inode ino).indexBlock := h.dir_used hk
  generalize hidx : (k.inode ino).indexBlock = idx at h0 hu
  have hr : Refers k.fs chain (.index ino) idx := ⟨Or.inl hk, hidx.symm⟩
  have hrel : releaseStorage k ino =
      .ok ((), ((k.log (.bread idx)).setBlock idx Page.zero).brelse idx) := by
    unfold releaseStorage
    simp [hmode, hidx, h0, Kernel.sbBread_ok hf hu.1]
  have hsmall : (decide ((k.inode ino).iBlocks = 0) && !sIsDir (k.inode ino).iMode) = false := by
    simp [hmode]
  obtain ⟨hag, hf', ha'⟩ := cleanInode_big
    (((k.log (.bread idx)).setBlock idx Page.zero).brelse idx) hk.1.2.1 h0 hu.1
  have hscrub := (h.kill hk.1.1).scrub hu (h.kill_unref hr rfl)
  refine ⟨_, (k.fs.kill ino).scrub idx, chain, hrel, ?_⟩
  simp only [hsmall, hidx]
  refine ⟨by rw [hf']; simpa using hf, by rw [ha']; simp, hag, hscrub.core, Nat.le_refl _,
    hscrub.owners, hscrub.kept, fun c _ hn => ?_, fun ht => ?_⟩
  · show ((k.fs.kill ino).setBlock idx Page.zero).disk c = _
    rw [Fs.disk_setBlock, if_neg]
    · rfl
    · rintro rfl
      exact hn (.index ino) rfl hr
  refine (hscrub.tight _ _ (TightBut.kill ht)).weaken ?_ ?_
  · rintro a - ⟨hl | ⟨r, hby, hra⟩, hne⟩
    · exact hl
    · cases r with
      | header b => exact hby
      | sliced b => exact hby
      | index i =>
          cases hby
          have : a = idx := hra.2.trans hidx
          simp [this] at hne
      | data i j =>
          cases hby
          have := hra.1.kind_unique hk
          cases this
  · rintro b j (hl | ho)
    · exact hl
    · have := ho.1.kind_unique hk
      cases this

theorem pred64_of_pos {a : Nat} (h0 : a ≠ 0) (h : a ≤ 1025) : pred64 a = a - 1 := by
  unfold pred64
  omega

/-- Sizes that the release of a big file relies on. -/
theorem Core.big_blocks (h : Core k.fs chain Z) (hk : k.fs.Is ino .big) :
    sIsDir (k.inode ino).iMode = false ∧ (k.inode ino).iBlocks ≠ 0 ∧
      (k.inode ino).iBlocks ≤ 1025 := by
  obtain ⟨hmode, hblocks⟩ := Inode.kind_big.1 hk.2
  exact ⟨hmode, hblocks, (h.inodes.big ino hk).blocks_le⟩

/-- The pointers that the release of a big file visits are references of that file. -/
theorem Core.mem_bigPtrs (h : Core k.fs chain Z) (hk : k.fs.Is ino .big) {p : Nat}
    (hp : p ∈ ptrsFrom (k.fs.indexOf ino) 0 ((k.inode ino).iBlocks - 1)) :
    ∃ j, j < (k.inode ino).iBlocks - 1 ∧ Refers k.fs chain (.data ino j) p := by
  have hle := (h.big_blocks hk).2.2
  obtain ⟨hne, j, -, hj, hjp⟩ := mem_ptrsFrom.1 hp
  exact ⟨j, by omega, hk, by omega, hjp.symm, hne⟩

/-- `releaseStorage` scrubs the data blocks of a big file and clears its index block. -/
theorem releaseStorage_big (hf : k.faults = []) (h : Core k.fs chain Z) (hk : k.fs.Is ino .big) :
    ∃ k₁, releaseStorage k ino = .ok ((), k₁) ∧ k₁.faults = [] ∧
      (k₁.AllocFailed ↔ k.AllocFailed) ∧
      k₁.fs = ((ptrsFrom (k.fs.indexOf ino) 0 ((k.inode ino).iBlocks - 1)).foldl Fs.scrub
        k.fs).setBlock (k.inode ino).indexBlock Page.zero := by
  obtain ⟨hmode, hblocks, hle⟩ := h.big_blocks hk
  have h0 : (k.inode ino).indexBlock ≠ 0 := h.index_ne_zero (Or.inr hk)
  have hu : (k.inode ino).indexBlock < k.fs.sbi.nrBlocks := (h.big_used hk).1
  obtain ⟨k₁, hrun, hf₁, ha₁, hfs₁⟩ := @releaseData_spec (k.inode ino).indexBlock
    (k.fs.indexOf ino) ((k.inode ino).iBlocks - 1) 0 (k.log (.bread (k.inode ino).indexBlock))
    (by simpa using hf) rfl (by omega) fun p hp => by
      obtain ⟨j, -, hj⟩ := h.mem_bigPtrs hk hp
      exact ⟨(h.owned.used hj).1, h.ne_of_refs (r := .data ino j) (s := .index ino) hj
        ⟨Or.inr hk, rfl⟩ (by simp)⟩
  refine ⟨(k₁.setBlock (k.inode ino).indexBlock Page.zero).brelse (k.inode ino).indexBlock, ?_,
    by simpa using hf₁, by simpa using ha₁, by rw [Kernel.fs_brelse, Kernel.fs_setBlock, hfs₁]; rfl⟩
  unfold releaseStorage
  simp [hmode, hblocks, h0, Kernel.sbBread_ok hf hu, pred64_of_pos hblocks hle, hrun]

theorem freeInode_big (hf : k.faults = []) (h : Core k.fs chain Z) (hk : k.fs.Is ino .big) :
    FreeInode k chain ino Z := by
  obtain ⟨-, hblocks, hle⟩ := h.big_blocks hk
  have h0 : (k.inode ino).indexBlock ≠ 0 := h.index_ne_zero (Or.inr hk)
  have hu : k.fs.Used (k.inode ino).indexBlock := h.big_used hk
  obtain ⟨k₁, hrel, hf₁, ha₁, hfs₁⟩ := releaseStorage_big hf h hk
  have hr : Refers k.fs chain (.index ino) (k.inode ino).indexBlock := ⟨Or.inr hk, rfl⟩
  have hmem := fun p => h.mem_bigPtrs (p := p) hk
  -- the data blocks, in the order in which they are freed
  generalize hl : ptrsFrom (k.fs.indexOf ino) 0 ((k.inode ino).iBlocks - 1) = l at hfs₁ hmem
  generalize hidx : (k.inode ino).indexBlock = idx at h0 hu hr hfs₁
  have hidxl : idx ∉ l := by
    intro hp
    obtain ⟨j, -, hj⟩ := hmem idx hp
    exact h.ne_of_refs hr hj (by simp) rfl
  have hnd : (l ++ [idx]).Nodup := by
    refine List.nodup_append.2 ⟨?_, by simp, ?_⟩
    · rw [← hl]
      refine nodup_ptrsFrom _ _ fun j j' _ h2 _ h4 hne heq => ?_
      have h5 : Refers k.fs chain (.data ino j) _ := ⟨hk, by omega, rfl, hne⟩
      have h6 : Refers k.fs chain (.data ino j') _ := ⟨hk, by omega, heq, hne⟩
      have := h.owned.inj h5 h6
      simpa using this
    · rintro a ha b hb rfl
      exact hidxl (List.mem_singleton.1 hb ▸ ha)
  have hall : ∀ a ∈ l ++ [idx], (k.fs.kill ino).Used a ∧ Unref (k.fs.kill ino) chain a := by
    intro a ha
    rcases List.mem_append.1 ha with ha | ha
    · obtain ⟨j, -, hj⟩ := hmem a ha
      exact ⟨h.owned.used hj, h.kill_unref hj rfl⟩
    · rw [List.mem_singleton.1 ha]
      exact ⟨hu, h.kill_unref hr rfl⟩
  have hscrub := Core.scrubAll (l ++ [idx]) (k.fs.kill ino) (h.kill hk.1.1) hnd hall
  have hsmall : (decide ((k.inode ino).iBlocks = 0) && !sIsDir (k.inode ino).iMode) = false := by
    simp [hblocks]
  have hsame : (k₁.fs.kill ino).freeBlock idx = (l ++ [idx]).foldl Fs.scrub (k.fs.kill ino) := by
    rw [List.foldl_append, ← Fs.scrubAll_kill, hfs₁]
    rfl
  obtain ⟨hag, hf', ha'⟩ := cleanInode_big k₁
    (by
      have := hscrub.owners.geom.nrInodes
      rw [← hsame] at this
      exact this ▸ hk.1.2.1) h0
    (by
      have := hscrub.owners.geom.nrBlocks
      rw [← hsame] at this
      exact this ▸ hu.1)
  rw [hsame] at hag
  refine ⟨_, (l ++ [idx]).foldl Fs.scrub (k.fs.kill ino), chain, hrel, ?_⟩
  simp only [hsmall, hidx]
  refine ⟨by rw [hf']; exact hf₁, by rw [ha']; exact ha₁, hag, ?_⟩
  refine ⟨hscrub.core, Nat.le_refl _, hscrub.owners, hscrub.kept, fun c _ hn => ?_, fun ht => ?_⟩
  · refine Fs.scrubAll_disk _ _ fun hm => ?_
    rcases List.mem_append.1 hm with hm | hm
    · obtain ⟨j, -, hj⟩ := hmem c hm
      exact hn (.data ino j) rfl hj
    · rw [List.mem_singleton.1 hm] at hn
      exact hn (.index ino) rfl hr
  refine (hscrub.tight _ _ (TightBut.kill ht)).weaken ?_ ?_
  · rintro a - ⟨hlost | ⟨r, hby, hra⟩, hne⟩
    · exact hlost
    · cases r with
      | header b => exact hby
      | sliced b => exact hby
      | index i =>
          cases hby
          have : a = idx := hra.2.trans hidx
          simp [this] at hne
      | data i j =>
          cases hby
          obtain ⟨-, hj, rfl, hnz⟩ := hra
          -- pointers past `i_blocks - 1` are zero
          have hjb : j < (k.inode ino).iBlocks - 1 := by
            by_contra hge
            exact hnz (ht.ptrs ino hk j (Nat.le_of_not_lt hge) hj)
          refine hne (List.mem_append_left _ ?_)
          rw [← hl]
          exact mem_ptrsFrom.2 ⟨hnz, j, by omega, by omega, rfl⟩
  · rintro b j (hlk | ho)
    · exact hlk
    · have := ho.1.kind_unique hk
      cases this

/-- **Whatever kind of inode it is, its storage and the inode itself are freed.** -/
theorem freeInode_spec (hf : k.faults = []) (h : Core k.fs chain Z) (hl : k.fs.Live ino) :
    FreeInode k chain ino Z := by
  have hk := hl.is
  cases hκ : (k.fs.inode ino).kind with
  | dir => exact freeInode_dir hf h (hκ ▸ hk)
  | big => exact freeInode_big hf h (hκ ▸ hk)
  | fresh => exact freeInode_unplaced hf h (Or.inl (hκ ▸ hk))
  | small => exact freeInode_small hf h (hκ ▸ hk)
  | stray => exact freeInode_unplaced hf h (Or.inr (hκ ▸ hk))

end FreeInode

/-! ## `ouichefs_unlink` -/

/-- Entry `f` of directory `dir`, which had `n` entries, and its inode `ino` are gone. -/
structure Removed (fs fs' : Fs) (chain chain' : List Nat) (dir ino f n : Nat)
    (Z : Prop := True) : Prop where
  wf : WF fs' chain' Z
  tight : Tight fs chain → Tight fs' chain'
  length : chain'.length ≤ chain.length
  live : ∀ i, fs'.Live i ↔ fs.Live i ∧ i ≠ ino
  view : ∀ i, fs.Live i → i ≠ ino → SameView (fs.inode i) (fs'.inode i)
  bytes : ∀ i, fs.Is i .small → i ≠ ino → fs'.smallBytes i = fs.smallBytes i
  geom : SameGeom fs.sbi fs'.sbi
  compact : Compact (slotInode (fs.indexOf dir)) n
  cap : n ≤ 128
  lt : f < n
  slot : slotInode (fs.indexOf dir) f = ino
  notDir : ino ≠ dir
  block : fs'.indexOf dir = removeSlot (fs.indexOf dir) f n
  others : ∀ d, fs.Is d .dir → d ≠ dir → d ≠ ino → fs'.indexOf d = fs.indexOf d

theorem Agree.kill {fs fs' : Fs} (h : Agree fs fs') (ino : Nat) :
    Agree (fs.kill ino) (fs'.kill ino) := by
  refine ⟨h.disk, ⟨h.geom.nrBlocks, h.geom.nrInodes, h.geom.nrIstore, h.geom.nrIfree,
    h.geom.nrBfree⟩, ?_, h.bfree, h.nrFree, h.head, h.sliced, fun i hl hi => ?_, fun i hl => ?_⟩
  · show Function.update fs'.sbi.ifreeBitmap ino true = _
    rw [h.ifree]
    rfl
  · exact h.cached i ((Fs.kill_live i).1 hl).1 hi
  · exact h.view i ((Fs.kill_live i).1 hl).1

section Remove

variable {fs : Fs} {chain : List Nat} {dir ino f n : Nat}

/-- The directories after entry `f` was taken out of `dir` and its inode died. -/
theorem DirInv.remove (h : WF fs chain Z) (hd : fs.Is dir .dir)
    (hs : slotInode (fs.indexOf dir) f = ino) (h0 : ino ≠ 0)
    (hempty : fs.Is ino .dir → ∀ i, slotInode (fs.indexOf ino) i = 0)
    (hn : Compact (slotInode (fs.indexOf dir)) n) (hle : n ≤ 128) :
    DirInv ((fs.setBlock (fs.inode dir).indexBlock (removeSlot (fs.indexOf dir) f n)).kill ino) := by
  generalize hfs₁ : fs.setBlock (fs.inode dir).indexBlock (removeSlot (fs.indexOf dir) f n) = fs₁
  have hf : f < n := hn.lt_iff.2 (by rw [hs]; exact h0)
  have hclean := h.dirs.clean dir hd
  have hdir : ∀ d, (fs₁.kill ino).Is d .dir ↔ fs.Is d .dir ∧ d ≠ ino := by
    intro d
    rw [Fs.kill_is, ← hfs₁]
    exact Iff.rfl
  have hblk : ∀ d, fs.Is d .dir → (fs₁.kill ino).indexOf d =
      if d = dir then removeSlot (fs.indexOf dir) f n else fs.indexOf d := by
    intro d hdd
    rw [← hfs₁]
    exact h.toCore.indexOf_setDir hd _ hdd
  have h1 : ino ≠ 1 := by
    have := (h.dirs.tree.entry (i := f) hd (by rw [hs]; exact h0)).2
    rwa [hs] at this
  refine ⟨(hdir 1).2 ⟨h.dirs.root, h1.symm⟩, ?_, ?_⟩
  · have hrem := h.dirs.tree.remove hd hs h0
    by_cases hid : fs.Is ino .dir
    · -- an empty directory stops being a table
      have hne : ino ≠ dir := by
        rintro rfl
        exact h0 (hs.symm.trans (hempty hid f))
      refine (hrem.dropTable (x := ino) fun i => ?_).congr hdir ?_ ?_
      · rw [Function.update_of_ne hne]; exact hempty hid i
      · intro x
        rw [Fs.kill_live, ← hfs₁]
        exact Iff.rfl
      · intro d hdd i
        rw [hblk d hdd.1]
        by_cases hdd' : d = dir
        · subst hdd'
          rw [if_pos rfl, slotInode_removeSlot hclean hn hf hle, Function.update_self]
        · rw [if_neg hdd', Function.update_of_ne hdd']
    · refine hrem.congr ?_ ?_ ?_
      · intro d
        rw [hdir]
        refine and_iff_left_of_imp fun hdd => ?_
        rintro rfl
        exact hid hdd
      · intro x
        rw [Fs.kill_live, ← hfs₁]
        exact Iff.rfl
      · intro d hdd i
        rw [hblk d hdd]
        by_cases hdd' : d = dir
        · subst hdd'
          rw [if_pos rfl, slotInode_removeSlot hclean hn hf hle, Function.update_self]
        · rw [if_neg hdd', Function.update_of_ne hdd']
  · intro d hdd
    rw [hblk d ((hdir d).1 hdd).1]
    split
    · exact hclean.removeSlot hn hf hle
    · exact h.dirs.clean d ((hdir d).1 hdd).1

end Remove

/-- The state of `ouichefs_unlink` between the removal of entry `f` and the release of the storage. -/
structure EntryDropped (k k₁ : Kernel) (dir f n : Nat) : Prop where
  faults : k₁.faults = []
  alloc : k₁.AllocFailed ↔ k.AllocFailed
  agree : Agree (k.fs.setBlock (k.fs.inode dir).indexBlock (removeSlot (k.fs.indexOf dir) f n)) k₁.fs
  sbi : k₁.fs.sbi = k.fs.sbi
  icache : ∀ i, i ≠ dir → k₁.fs.icache i = k.fs.icache i

theorem EntryDropped.inode {k k₁ : Kernel} {dir f n i : Nat} (h : EntryDropped k k₁ dir f n)
    (hi : i ≠ dir) : k₁.inode i = k.inode i := by
  unfold Kernel.inode Fs.inode
  rw [h.icache i hi]

/-- The first half of `ouichefs_unlink`. -/
theorem ouichefsUnlink_entry {k : Kernel} {chain : List Nat} {dir ino f n : Nat}
    (hf : k.faults = []) (h : WF k.fs chain Z) (hd : k.fs.Is dir .dir)
    (hs : slotInode (k.fs.indexOf dir) f = ino) (h0 : ino ≠ 0)
    (hn : Compact (slotInode (k.fs.indexOf dir)) n) (hle : n ≤ 128) :
    ∃ k₁, EntryDropped k k₁ dir f n ∧ ouichefsUnlink k dir ino =
      match releaseStorage k₁ ino with
      | .error e => .error e
      | .ok ((), k₂) => .ok (0, cleanInode k₂ ino (k.inode ino).indexBlock
          (decide ((k.inode ino).iBlocks = 0) && !sIsDir (k.inode ino).iMode)) := by
  have hfn : f < n := hn.lt_iff.2 (by rw [hs]; exact h0)
  have huniq : ∀ j, slotInode (k.fs.indexOf dir) j = ino → j = f := fun j hj =>
    (h.dirs.tree.unique hd hd (hj.trans hs.symm) (by rw [hj]; exact h0)).2
  have hscan := scanSlots_spec hn hs h0 huniq 128 0 none (by omega) (by omega)
  rw [if_pos (Nat.zero_le _)] at hscan
  have hscan' : scanSlots (k.fs.disk (k.inode dir).indexBlock) ino 128 0 none = (some f, n) := hscan
  have hdb : (k.inode dir).indexBlock < k.fs.sbi.nrBlocks := (h.toCore.dir_used hd).1
  unfold ouichefsUnlink
  simp only [Kernel.sbBread_ok hf hdb, Kernel.fs_log, hscan']
  generalize hk₁ : ((k.log (.bread (k.inode dir).indexBlock)).setBlock (k.inode dir).indexBlock
    (removeSlot (k.fs.disk (k.inode dir).indexBlock) f n)).brelse (k.inode dir).indexBlock = k₁
  have hfs₁ : k₁.fs = k.fs.setBlock (k.fs.inode dir).indexBlock
      (removeSlot (k.fs.indexOf dir) f n) := by rw [← hk₁]; rfl
  refine ⟨touchDir k₁ dir fun n => if sIsDir (k.inode ino).iMode then sub32 n 1 else n,
    ⟨?_, ?_, ?_, ?_, fun i hi => ?_⟩, rfl⟩
  · rw [← hk₁]
    simpa [touchDir] using hf
  · rw [← hk₁]
    simp [touchDir]
  · rw [← hfs₁]
    exact touchDir_agree k₁ dir _
  · show k₁.fs.sbi = _
    rw [hfs₁]
    rfl
  · unfold touchDir
    rw [Kernel.fs_setInode, Fs.icache_setInode_of_ne _ _ _ hi, hfs₁]
    rfl

/-- **`ouichefs_unlink` removes one entry and frees its inode with everything it owned.** -/
theorem ouichefsUnlink_spec {k : Kernel} {chain : List Nat} {dir ino f : Nat} (hf : k.faults = [])
    (h : WF k.fs chain Z) (hd : k.fs.Is dir .dir) (hs : slotInode (k.fs.indexOf dir) f = ino)
    (h0 : ino ≠ 0) (hempty : k.fs.Is ino .dir → ∀ i, slotInode (k.fs.indexOf ino) i = 0) :
    ∃ k' chain' n, ouichefsUnlink k dir ino = .ok (0, k') ∧ k'.faults = [] ∧
      (k'.AllocFailed ↔ k.AllocFailed) ∧ Removed k.fs k'.fs chain chain' dir ino f n Z := by
  obtain ⟨n, hle, hn⟩ := h.dirs.tree.compact dir hd
  have hfn : f < n := hn.lt_iff.2 (by rw [hs]; exact h0)
  have hlive : k.fs.Live ino := by
    have := (h.dirs.tree.entry (i := f) hd (by rw [hs]; exact h0)).1
    rwa [hs] at this
  have hne : ino ≠ dir := by
    rintro rfl
    exact h0 (hs.symm.trans (hempty hd f))
  obtain ⟨hu, hc, hbig, -⟩ := h.toCore.dir_block_alone hd
  -- the state after the entry is gone and before the storage is released
  generalize hfs₁ : k.fs.setBlock (k.fs.inode dir).indexBlock
    (removeSlot (k.fs.indexOf dir) f n) = fs₁
  have hcore₁ : Core fs₁ chain Z := hfs₁ ▸ h.toCore.setBlock (fun _ => hu) hc hbig _
  obtain ⟨k₂, hdrop, hrun⟩ := ouichefsUnlink_entry hf h hd hs h0 hn hle
  have hag₂ : Agree fs₁ k₂.fs := hfs₁ ▸ hdrop.agree
  have hin₂ : ∀ i, i ≠ dir → k₂.inode i = k.inode i := fun i hi => hdrop.inode hi
  have hf₂ := hdrop.faults
  have ha₂ := hdrop.alloc
  have hlive₂ : k₂.fs.Live ino := (hag₂.live ino).2 (hfs₁ ▸ hlive)
  obtain ⟨k₃, X, chain', hrel, hf₃, ha₃, hag, hfreed⟩ := freeInode_spec hf₂ (hag₂.core hcore₁) hlive₂
  rw [hin₂ ino hne] at hf₃ ha₃ hag
  rw [hrel] at hrun
  have hkill := hag₂.kill ino
  have hdirX : DirInv X := hfreed.owners.dirs (hkill.owners.dirs (hfs₁ ▸
    DirInv.remove h hd hs h0 hempty hn hle))
  have hview : ∀ i, k.fs.Live i → i ≠ ino → SameView (k.fs.inode i) (X.inode i) := by
    intro i hi hin
    rw [(hfreed.kept i).inode]
    have hv := hag₂.view i (hfs₁ ▸ hi)
    rw [← hfs₁] at hv
    exact hv
  have hliveX : ∀ i, X.Live i ↔ k.fs.Live i ∧ i ≠ ino := by
    intro i
    rw [hfreed.owners.live, Fs.kill_live, hag₂.live, ← hfs₁]
    exact Iff.rfl
  have hview' : ∀ i, k.fs.Live i → i ≠ ino → SameView (k.fs.inode i)
      ((cleanInode k₃ ino (k.inode ino).indexBlock
        (decide ((k.inode ino).iBlocks = 0) && !sIsDir (k.inode ino).iMode)).fs.inode i) := by
    intro i hi hin
    exact (hview i hi hin).trans (hag.view i ((hliveX i).2 ⟨hi, hin⟩))
  have hgeomX : SameGeom k.fs.sbi X.sbi := by
    have h2 := hfreed.owners.geom
    have h3 := hag₂.geom
    have hfs : fs₁.sbi = k.fs.sbi := by rw [← hfs₁]; rfl
    rw [hfs] at h3
    exact ⟨h2.nrBlocks.trans h3.nrBlocks, h2.nrInodes.trans h3.nrInodes,
      h2.nrIstore.trans h3.nrIstore, h2.nrIfree.trans h3.nrIfree, h2.nrBfree.trans h3.nrBfree⟩
  have hwfX : WF X chain' Z := by
    refine { hfreed.core with
      dirs := hdirX, table := h.table.frame hgeomX, fresh := fun i hi => ?_,
      stray := fun i hi => ?_ }
    · obtain ⟨hl, hin⟩ := (hliveX i).1 hi.1
      have hv := hview i hl hin
      rw [hv.iSize, hv.numSlices]
      exact h.fresh i ⟨hl, hv.kind ▸ hi.2⟩
    · obtain ⟨hl, hin⟩ := (hliveX i).1 hi.1
      have hv := hview i hl hin
      rw [hv.iSize]
      exact h.stray i ⟨hl, hv.kind ▸ hi.2⟩
  have hblk : ∀ d, k.fs.Is d .dir → d ≠ ino → X.indexOf d =
      if d = dir then removeSlot (k.fs.indexOf dir) f n else k.fs.indexOf d := by
    intro d hdd hdi
    have hd₁ : fs₁.Is d .dir := hfs₁ ▸ hdd
    have hd₂ : (k₂.fs.kill ino).Is d .dir := (Fs.kill_is d .dir).2 ⟨(hag₂.is d .dir).2 hd₁, hdi⟩
    rw [hfreed.owners.index d (Or.inl hd₂)]
    show k₂.fs.indexOf d = _
    rw [hag₂.indexOf hd₁.1, ← hfs₁]
    exact h.toCore.indexOf_setDir hd _ hdd
  refine ⟨_, chain', n, hrun, hf₃, ha₃.trans ha₂, hag.wf hwfX, fun ht => ?_, hfreed.length,
    fun i => by rw [hag.live, hliveX], hview', fun i hi hin => ?_, ?_, hn, hle, hfn, hs, hne, ?_, ?_⟩
  · refine hag.tight (hfreed.tight (hag₂.tight ?_))
    rw [← hfs₁]
    exact TightBut.setBlock ht hc hbig _
  · -- the bytes of another small file
    have hi₂ : (k₂.fs.kill ino).Is i .small := (Fs.kill_is i .small).2
      ⟨(hag₂.is i .small).2 (hfs₁ ▸ hi), hin⟩
    have hb₁ : k₂.fs.smallBytes i = k.fs.smallBytes i := by
      have hv := hag₂.view i (hfs₁ ▸ hi.1)
      rw [hv.smallBytes (by rw [hag₂.disk]), ← hfs₁]
      exact (h.toCore.setDir_kept hd _ i).bytes hi
    have hb₂ : X.smallBytes i = k₂.fs.smallBytes i := (hfreed.kept i).bytes hi₂
    have hv := hag.view i ((hliveX i).2 ⟨hi.1, hin⟩)
    rw [hv.smallBytes (by rw [hag.disk]), hb₂, hb₁]
  · exact hgeomX.trans hag.geom
  · rw [hag.indexOf ((hliveX dir).2 ⟨hd.1, hne.symm⟩), hblk dir hd hne.symm, if_pos rfl]
  · intro d hdd hdir hdi
    rw [hag.indexOf ((hliveX d).2 ⟨hdd.1, hdi⟩), hblk d hdd hdi, if_neg hdir]

/-- `ouichefs_rmdir` refuses a directory that is not empty, or removes it. -/
theorem ouichefsRmdir_spec {k : Kernel} {chain : List Nat} {dir ino f : Nat} (hf : k.faults = [])
    (h : WF k.fs chain Z) (hd : k.fs.Is dir .dir) (hs : slotInode (k.fs.indexOf dir) f = ino)
    (hi : k.fs.Is ino .dir) :
    ∃ r k', ouichefsRmdir k dir ino = .ok (r, k') ∧ k'.faults = [] ∧
      (k'.AllocFailed ↔ k.AllocFailed) ∧
      (r < 0 ∧ k'.fs = k.fs ∨
        r = 0 ∧ ∃ chain' n, Removed k.fs k'.fs chain chain' dir ino f n Z) := by
  have hib : (k.inode ino).indexBlock < k.fs.sbi.nrBlocks := (h.toCore.dir_used hi).1
  unfold ouichefsRmdir
  by_cases hl : (k.inode ino).iNlink > 2
  · simp only [hl, if_true]
    exact ⟨_, k, rfl, hf, Iff.rfl, Or.inl ⟨by decide, rfl⟩⟩
  simp only [hl, if_false, Kernel.sbBread_ok hf hib, Kernel.fs_log]
  by_cases h0 : slotInode (k.fs.disk (k.inode ino).indexBlock) 0 ≠ 0
  · simp only [h0, if_true, ne_eq, not_false_eq_true]
    exact ⟨_, _, rfl, by simpa using hf, by simp, Or.inl ⟨by decide, rfl⟩⟩
  · simp only [h0, if_false]
    obtain ⟨m, -, hm⟩ := h.dirs.tree.compact ino hi
    -- an empty first slot means an empty directory
    have hempty : ∀ i, slotInode (k.fs.indexOf ino) i = 0 := by
      intro i
      by_contra hne
      exact hm.used 0 (Nat.lt_of_le_of_lt (Nat.zero_le _) (hm.lt_iff.2 hne)) (not_not.1 h0)
    obtain ⟨k', chain', n, hrun, hf', ha', hrem⟩ := ouichefsUnlink_spec
      (k := (k.log (.bread (k.inode ino).indexBlock)).brelse (k.inode ino).indexBlock)
      (by simpa using hf) h hd hs hi.1.1 fun _ => hempty
    exact ⟨0, k', hrun, hf', by rw [ha']; simp, Or.inr ⟨rfl, chain', n, hrem⟩⟩

end Ouichefs
