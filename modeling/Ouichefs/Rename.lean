import Ouichefs.Names

/-!
# What renaming does

`ouichefs_rename` scans the new directory once (`renameScan_spec`).  In one directory it replaces
the name of an entry; between two directories it appends an entry to the new one and takes the
entry out of the old one.  `ouichefsRename_spec` says when it succeeds and what it does to the
name space and to the link counts.
-/

set_option autoImplicit false

namespace Ouichefs

variable {Z : Prop}

/-! ## The scan of the new directory -/

section Scan

variable {b : Block} {same : Bool} {oldName newName : List UInt8} {p n : Nat}

/-- The new name exists. -/
theorem renameScan_exists : ∀ (m i : Nat) (fPos newPos : Option Nat),
    (∃ j, i ≤ j ∧ j < i + m ∧ strncmpEq (slotName b j) newName 28 = true) →
    renameScan b same oldName newName m i fPos newPos = none := by
  intro m
  induction m with
  | zero =>
      rintro i fPos newPos ⟨j, h1, h2, -⟩
      omega
  | succ m ih =>
      rintro i fPos newPos ⟨j, h1, h2, hj⟩
      rw [renameScan]
      by_cases hi : strncmpEq (slotName b i) newName 28 = true
      · simp only [hi, if_true]
      · simp only [hi]
        have hij : j ≠ i := by
          rintro rfl
          exact hi hj
        exact ih (i + 1) _ _ ⟨j, by omega, by omega, hj⟩

/-- The new name does not exist: the slot of the old name and the end of the used slots. -/
theorem renameScan_fresh (hn : Compact (slotInode b) n)
    (hnew : ∀ j, strncmpEq (slotName b j) newName 28 = false)
    (hold : same = true → ∀ j, strncmpEq (slotName b j) oldName 28 = true ↔ j = p) :
    ∀ m i : Nat, renameScan b same oldName newName m i
        (if same = true ∧ p < i then some p else none) (if n < i then some n else none) =
      some (if same = true ∧ p < i + m then some p else none, if n < i + m then some n else none) := by
  intro m
  induction m with
  | zero => intro i; rfl
  | succ m ih =>
      intro i
      rw [renameScan]
      have hf : (if same && strncmpEq (slotName b i) oldName 28 then some i
          else if same = true ∧ p < i then some p else none) =
          if same = true ∧ p < i + 1 then some p else none := by
        cases same with
        | false => simp
        | true =>
            have := hold rfl i
            by_cases hip : i = p
            · subst hip
              simp [this.2 rfl]
            · have hno : strncmpEq (slotName b i) oldName 28 = false := by
                rw [← Bool.not_eq_true]
                exact fun hc => hip (this.1 hc)
              simp only [hno, Bool.and_false]
              by_cases hlt : p < i
              · simp [hlt, Nat.lt_succ_of_lt hlt]
              · have : ¬p < i + 1 := by omega
                simp [hlt, this]
      have hp : (if ((if n < i then some n else none : Option Nat).isNone && slotInode b i == 0)
          then some i else if n < i then some n else none) = if n < i + 1 then some n else none := by
        by_cases hlt : n < i
        · simp [hlt, Nat.lt_succ_of_lt hlt]
        · by_cases hin : i = n
          · have h0 := hn.empty i (Nat.le_of_eq hin.symm)
            simp [hin, hin ▸ h0]
          · have h0 := hn.used i (by omega)
            have : ¬n < i + 1 := by omega
            simp [hlt, h0, this]
      simp only [hnew i, Bool.false_eq_true, if_false, hf, hp]
      have := ih (i + 1)
      rw [this]
      have harith : i + 1 + m = i + (m + 1) := by omega
      rw [harith]

end Scan

/-! ## One directory -/

section SameDir

variable {fs : Fs} {chain : List Nat} {dir p : Nat} {name : List UInt8}

/-- Entry `p` of `dir` under a new name. -/
def Fs.renameEntry (fs : Fs) (dir p : Nat) (name : List UInt8) : Fs :=
  fs.setBlock (fs.inode dir).indexBlock (setSlotName (fs.indexOf dir) p name)

theorem WF.renameEntry (h : WF fs chain Z) (hd : fs.Is dir .dir)
    (hp : slotInode (fs.indexOf dir) p ≠ 0) : WF (fs.renameEntry dir p name) chain Z := by
  obtain ⟨hu, hc, hbig, -⟩ := h.toCore.dir_block_alone hd
  have hp128 : p < 128 := lt_of_slotInode hp
  have hblk : ∀ d, fs.Is d .dir → (fs.renameEntry dir p name).indexOf d =
      if d = dir then setSlotName (fs.indexOf dir) p name else fs.indexOf d :=
    fun d hd' => h.toCore.indexOf_setDir hd _ hd'
  have hdirs : DirInv (fs.renameEntry dir p name) := by
    refine ⟨h.dirs.root, h.dirs.tree.congr (fun _ => Iff.rfl) (fun _ => Iff.rfl) fun d hd' i => ?_,
      fun d hd' => ?_⟩
    · rw [hblk d hd']
      split
      · rename_i hdd
        rw [slotInode_setSlotName _ _ hp128, hdd]
      · rfl
    · rw [hblk d hd']
      split
      · exact (h.dirs.clean dir hd).setSlotName name hp128 hp
      · exact h.dirs.clean d hd'
  exact { h.toCore.setBlock (fun _ => hu) hc hbig _ with
    dirs := hdirs, table := h.table, fresh := h.fresh, stray := h.stray }

theorem NameInv.renameEntry (h : WF fs chain Z) (hn : NameInv fs) (hd : fs.Is dir .dir)
    (hp : slotInode (fs.indexOf dir) p ≠ 0) (hv : ValidName name)
    (hnew : blockMap (fs.indexOf dir) name = none) :
    NameInv (fs.renameEntry dir p name) ∧ (fs.renameEntry dir p name).names =
      (fs.names.delete dir (entryName (fs.indexOf dir) p)).insert dir name
        (slotInode (fs.indexOf dir) p) := by
  obtain ⟨n, hle, hc⟩ := h.dirs.tree.compact dir hd
  obtain ⟨hkey, hmap⟩ := blockMap_setSlotName (hn dir hd) hc hle (hc.lt_iff.2 hp) hv hnew
  have hblk : ∀ d, fs.Is d .dir → (fs.renameEntry dir p name).indexOf d =
      if d = dir then setSlotName (fs.indexOf dir) p name else fs.indexOf d :=
    fun d hd' => h.toCore.indexOf_setDir hd _ hd'
  constructor
  · intro d hd'
    rw [hblk d hd']
    split
    · exact hkey
    · exact hn d hd'
  · apply Fs.names_eq
    · intro d hd'
      rw [hblk d hd']
      unfold Names.insert Names.delete
      rw [Function.update_apply]
      split
      · rw [Function.update_self, Fs.names_dir hd, hmap]
        rfl
      · rename_i hdd
        rw [Function.update_of_ne hdd]
        exact Fs.names_dir hd'
    · intro d hd'
      have hdd : d ≠ dir := by
        rintro rfl
        exact hd' hd
      unfold Names.insert Names.delete
      rw [Function.update_of_ne hdd, Function.update_of_ne hdd]
      exact Fs.names_notDir hd'

end SameDir

/-! ## Two directories -/

section Move

variable {fs : Fs} {chain : List Nat} {oldDir newDir src f n m : Nat} {name : List UInt8}

/-- Entry `f` of the `n` entries of `oldDir` moves behind the `m` entries of `newDir`. -/
def Fs.moveEntry (fs : Fs) (oldDir f n newDir m src : Nat) (name : List UInt8) : Fs :=
  (fs.setBlock (fs.inode newDir).indexBlock (setSlot (fs.indexOf newDir) m src name)).setBlock
    (fs.inode oldDir).indexBlock (removeSlot (fs.indexOf oldDir) f n)

theorem Core.moveEntry_indexOf (src : Nat) (name : List UInt8) (h : Core fs chain Z)
    (ho : fs.Is oldDir .dir) (hw : fs.Is newDir .dir) {d : Nat} (hd : fs.Is d .dir) :
    (fs.moveEntry oldDir f n newDir m src name).indexOf d =
      if d = oldDir then removeSlot (fs.indexOf oldDir) f n
      else if d = newDir then setSlot (fs.indexOf newDir) m src name else fs.indexOf d := by
  obtain ⟨hu, hc, hbig, -⟩ := h.dir_block_alone hw
  have hcore := h.setBlock (fun _ => hu) hc hbig (setSlot (fs.indexOf newDir) m src name)
  have hstep : (fs.moveEntry oldDir f n newDir m src name).indexOf d =
      if d = oldDir then removeSlot (fs.indexOf oldDir) f n else
        (fs.setBlock (fs.inode newDir).indexBlock
          (setSlot (fs.indexOf newDir) m src name)).indexOf d :=
    hcore.indexOf_setDir ho _ hd
  rw [hstep, h.indexOf_setDir hw _ hd]

theorem Core.moveEntry (h : Core fs chain Z) (ho : fs.Is oldDir .dir) (hw : fs.Is newDir .dir) :
    Core (fs.moveEntry oldDir f n newDir m src name) chain Z := by
  obtain ⟨hu, hc, hbig, -⟩ := h.dir_block_alone hw
  obtain ⟨hu', hc', hbig', -⟩ := h.dir_block_alone ho
  exact (h.setBlock (fun _ => hu) hc hbig _).setBlock (fun _ => hu') hc' hbig' _

theorem Tight.moveEntry (ht : Tight fs chain) (h : Core fs chain Z) (ho : fs.Is oldDir .dir)
    (hw : fs.Is newDir .dir) : Tight (fs.moveEntry oldDir f n newDir m src name) chain := by
  obtain ⟨-, hc, hbig, -⟩ := h.dir_block_alone hw
  obtain ⟨-, hc', hbig', -⟩ := h.dir_block_alone ho
  exact TightBut.setBlock (TightBut.setBlock ht hc hbig _) hc' hbig' _

theorem WF.moveEntry (h : WF fs chain Z) (name : List UInt8) (ho : fs.Is oldDir .dir)
    (hw : fs.Is newDir .dir) (hne : oldDir ≠ newDir)
    (hf : slotInode (fs.indexOf oldDir) f = src) (h0 : src ≠ 0)
    (hn : Compact (slotInode (fs.indexOf oldDir)) n) (hle : n ≤ 128)
    (hm : Compact (slotInode (fs.indexOf newDir)) m) (hlt : m < 128) :
    WF (fs.moveEntry oldDir f n newDir m src name) chain Z := by
  have hblk := fun d => h.toCore.moveEntry_indexOf (f := f) (n := n) (m := m) src name
    ho hw (d := d)
  have hfn : f < n := hn.lt_iff.2 (by rw [hf]; exact h0)
  obtain ⟨hlive, hroot⟩ := h.dirs.tree.entry (i := f) ho (by rw [hf]; exact h0)
  rw [hf] at hlive hroot
  have h32 : src < 4294967296 := Nat.lt_trans hlive.2.1 h.table.lt
  have hclean := h.dirs.clean oldDir ho
  have hdirs : DirInv (fs.moveEntry oldDir f n newDir m src name) := by
    refine ⟨h.dirs.root, ?_, fun d hd => ?_⟩
    · -- the entry goes first and comes back, so that no object is named twice in between
      have hrem := h.dirs.tree.remove ho hf h0
      have hnew : Function.update (fun d => slotInode (fs.indexOf d)) oldDir
          (dropSlot (slotInode (fs.indexOf oldDir)) f) newDir = slotInode (fs.indexOf newDir) :=
        Function.update_of_ne hne.symm _ _
      have hins := hrem.insert (x := src) hw (by rw [hnew]; exact hm) hlt (fun hc => hc.2 rfl) h0
        hroot
      refine hins.congr (fun _ => Iff.rfl) (fun x => ?_) fun d hd i => ?_
      · constructor
        · intro hx
          by_cases hxs : x = src
          · exact Or.inr hxs
          · exact Or.inl ⟨hx, hxs⟩
        · rintro (⟨hx, -⟩ | rfl)
          · exact hx
          · exact hlive
      · rw [hblk d hd]
        by_cases hdo : d = oldDir
        · rw [if_pos hdo, hdo, Function.update_of_ne hne, Function.update_self,
            slotInode_removeSlot hclean hn hfn hle]
        · rw [if_neg hdo]
          by_cases hdn : d = newDir
          · rw [if_pos hdn, hdn, Function.update_self, slotInode_setSlot _ _ hlt h32, hnew,
              Function.update_apply]
          · rw [if_neg hdn, Function.update_of_ne hdn, Function.update_of_ne hdo]
    · rw [hblk d hd]
      split
      · exact hclean.removeSlot hn hfn hle
      · split
        · exact (h.dirs.clean newDir hw).setSlot name hlt h32 h0
        · exact h.dirs.clean d hd
  exact { h.toCore.moveEntry ho hw with
    dirs := hdirs, table := h.table, fresh := h.fresh, stray := h.stray }

theorem NameInv.moveEntry (h : WF fs chain Z) (hk : NameInv fs) (ho : fs.Is oldDir .dir)
    (hw : fs.Is newDir .dir) (hne : oldDir ≠ newDir) (hf : slotInode (fs.indexOf oldDir) f = src)
    (h0 : src ≠ 0) (hn : Compact (slotInode (fs.indexOf oldDir)) n) (hle : n ≤ 128)
    (hm : Compact (slotInode (fs.indexOf newDir)) m) (hlt : m < 128) (hv : ValidName name)
    (hnew : blockMap (fs.indexOf newDir) name = none) :
    NameInv (fs.moveEntry oldDir f n newDir m src name) ∧
    (fs.moveEntry oldDir f n newDir m src name).names =
      (fs.names.delete oldDir (entryName (fs.indexOf oldDir) f)).insert newDir name src := by
  have hblk := fun d => h.toCore.moveEntry_indexOf (f := f) (n := n) (m := m) src name
    ho hw (d := d)
  have hfn : f < n := hn.lt_iff.2 (by rw [hf]; exact h0)
  have hlive := (h.dirs.tree.entry (i := f) ho (by rw [hf]; exact h0)).1
  rw [hf] at hlive
  have h32 : src < 4294967296 := Nat.lt_trans hlive.2.1 h.table.lt
  obtain ⟨hkey, hmap⟩ := blockMap_setSlot (hk newDir hw) hm hlt h0 h32 hv hnew
  obtain ⟨hkey', hmap'⟩ := blockMap_removeSlot (hk oldDir ho) (h.dirs.clean oldDir ho) hn hle hfn
  constructor
  · intro d hd
    rw [hblk d hd]
    split
    · exact hkey'
    · split
      · exact hkey
      · exact hk d hd
  · apply Fs.names_eq
    · intro d hd
      rw [hblk d hd]
      unfold Names.insert Names.delete
      by_cases hdn : d = newDir
      · rw [hdn, if_neg hne.symm, if_pos rfl, Function.update_self,
          Function.update_of_ne hne.symm, Fs.names_dir hw, hmap]
        rfl
      · rw [Function.update_of_ne hdn]
        by_cases hdo : d = oldDir
        · rw [hdo, if_pos rfl, Function.update_self, Fs.names_dir ho, hmap']
          rfl
        · rw [if_neg hdo, if_neg hdn, Function.update_of_ne hdo]
          exact Fs.names_dir hd
    · intro d hd
      have hdn : d ≠ newDir := by
        rintro rfl
        exact hd hw
      have hdo : d ≠ oldDir := by
        rintro rfl
        exact hd ho
      unfold Names.insert Names.delete
      rw [Function.update_of_ne hdn, Function.update_of_ne hdo]
      exact Fs.names_notDir hd

end Move

/-! ## The call -/

/-- A successful `ouichefs_rename`. -/
structure Renamed (k k' : Kernel) (chain : List Nat) (oldDir : Nat) (oldName : List UInt8)
    (src newDir : Nat) (newName : List UInt8) (Z : Prop := True) : Prop where
  wf : WF k'.fs chain Z
  tight : Tight k.fs chain → Tight k'.fs chain
  inv : NameInv k'.fs
  names : k'.fs.names = (k.fs.names.delete oldDir oldName).insert newDir newName src
  sbi : k'.fs.sbi = k.fs.sbi
  view : ∀ i, SameView (k.inode i) (k'.inode i)
  nlink : ∀ i, (k'.inode i).iNlink =
    if oldDir ≠ newDir ∧ sIsDir (k.inode src).iMode = true then
      if i = newDir then add32 (k.inode i).iNlink 1
      else if i = oldDir then sub32 (k.inode i).iNlink 1 else (k.inode i).iNlink
    else (k.inode i).iNlink

/-- When `ouichefs_rename` succeeds. -/
def CanRename (k : Kernel) (oldDir newDir : Nat) (newName : List UInt8) (flags : Nat) : Prop :=
  flags &&& 6 = 0 ∧ blockMap (k.fs.indexOf newDir) newName = none ∧
    (oldDir = newDir ∨ slotInode (k.fs.indexOf newDir) 127 = 0)

section Call

variable {k : Kernel} {chain : List Nat} {oldDir src newDir f n m : Nat}
  {oldName newName : List UInt8}

/-- The second half of a move. -/
theorem removeFromOld_spec {blk : Nat} (hf : k.faults = [])
    (hblk : (k.inode oldDir).indexBlock = blk) (hlt : blk < k.fs.sbi.nrBlocks)
    (hn : Compact (slotInode (k.fs.disk blk)) n) (h128 : n < 128)
    (hs : slotInode (k.fs.disk blk) f = src) (h0 : src ≠ 0)
    (huniq : ∀ j, slotInode (k.fs.disk blk) j = src → j = f) :
    removeFromOld k oldDir src = .ok (0, touchDir
      (((k.log (.bread blk)).setBlock blk (removeSlot (k.fs.disk blk) f n)).brelse blk) oldDir
      fun n => if sIsDir (k.inode src).iMode then sub32 n 1 else n) := by
  have hscan := scanSlots_spec hn hs h0 huniq 128 0 none (by omega) (by omega)
  rw [if_pos (Nat.zero_le _)] at hscan
  unfold removeFromOld
  simp only [hblk, Kernel.sbBread_ok hf hlt, Kernel.fs_log, hscan]
  rw [if_neg (by omega)]
  rfl

/-- A move between two directories whose scan has found a free slot, whatever the names are. -/
theorem ouichefsRename_move {flags : Nat} {fPos : Option Nat} (hf : k.faults = []) (h : WF k.fs chain Z)
    (ho : k.fs.Is oldDir .dir) (hw : k.fs.Is newDir .dir) (hsame : oldDir ≠ newDir)
    (hfl : flags &&& 6 = 0) (hlen : (cstr newName).length ≤ 28)
    (hn : Compact (slotInode (k.fs.indexOf oldDir)) n) (hn128 : n < 128)
    (hs : slotInode (k.fs.indexOf oldDir) f = src) (h0 : src ≠ 0)
    (hscan : renameScan (k.fs.indexOf newDir) (newDir == oldDir) oldName newName 128 0 none none =
      some (fPos, some m)) :
    ∃ k', ouichefsRename k oldDir oldName src newDir newName flags = .ok (0, k') ∧
      k'.faults = [] ∧ (k'.AllocFailed ↔ k.AllocFailed) ∧
      Agree (k.fs.moveEntry oldDir f n newDir m src newName) k'.fs ∧ k'.fs.sbi = k.fs.sbi ∧
      (∀ i, SameView (k.inode i) (k'.inode i)) ∧
      ∀ i, (k'.inode i).iNlink = if sIsDir (k.inode src).iMode = true then
        if i = newDir then add32 (k.inode i).iNlink 1
        else if i = oldDir then sub32 (k.inode i).iNlink 1 else (k.inode i).iNlink
      else (k.inode i).iNlink := by
  have hwb : (k.inode newDir).indexBlock < k.fs.sbi.nrBlocks := (h.toCore.dir_used hw).1
  have hblk : k.fs.disk (k.inode newDir).indexBlock = k.fs.indexOf newDir := rfl
  unfold ouichefsRename
  rw [if_neg (by simpa using hfl), if_neg (Nat.not_lt.2 hlen)]
  simp only [Kernel.sbBread_ok hf hwb, Kernel.fs_log, hblk, hscan, hsame, if_false]
  -- the state after the entry was added to the new directory
  generalize hk₁ : ((k.log (.bread (k.inode newDir).indexBlock)).setBlock
    (k.inode newDir).indexBlock (setSlot (k.fs.indexOf newDir) m src newName)).brelse
      (k.inode newDir).indexBlock = k₁
  have hfs₁ : k₁.fs = k.fs.setBlock (k.inode newDir).indexBlock
      (setSlot (k.fs.indexOf newDir) m src newName) := by rw [← hk₁]; rfl
  have hin₁ : ∀ i, k₁.inode i = k.inode i := by intro i; rw [← hk₁]; rfl
  generalize hk₂ : k₁.setInode newDir
    { k₁.inode newDir with
      iAtime := k₁.now, iCtime := k₁.now, iMtime := k₁.now,
      iNlink := if sIsDir (k₁.inode src).iMode then add32 (k₁.inode newDir).iNlink 1
        else (k₁.inode newDir).iNlink } = k₂
  have hag₂ : Agree k₁.fs k₂.fs := by
    rw [← hk₂]
    exact .of_setInode ⟨rfl, rfl, rfl, rfl, rfl⟩
  have hother₂ : ∀ i, i ≠ newDir → k₂.inode i = k.inode i := by
    intro i hi
    rw [← hin₁, ← hk₂]
    unfold Kernel.inode
    rw [Kernel.fs_setInode, Fs.inode_setInode, if_neg hi]
  have hview₂ : ∀ i, SameView (k.inode i) (k₂.inode i) := by
    intro i
    rw [← hin₁, ← hk₂]
    unfold Kernel.inode
    rw [Kernel.fs_setInode, Fs.inode_setInode]
    split
    · rename_i hi
      rw [hi]
      exact ⟨rfl, rfl, rfl, rfl, rfl⟩
    · exact .refl _
  have hold₂ : k₂.fs.disk (k.inode oldDir).indexBlock = k.fs.indexOf oldDir := by
    rw [hag₂.disk, hfs₁]
    have := h.toCore.indexOf_setDir hw (setSlot (k.fs.indexOf newDir) m src newName) ho
    rw [if_neg hsame] at this
    exact this
  have huniq : ∀ j, slotInode (k.fs.indexOf oldDir) j = src → j = f := fun j hj =>
    (h.dirs.tree.unique ho ho (hj.trans hs.symm) (by rw [hj]; exact h0)).2
  have hf₂ : k₂.faults = [] := by rw [← hk₂, ← hk₁]; simpa using hf
  have ha₂ : k₂.AllocFailed ↔ k.AllocFailed := by rw [← hk₂, ← hk₁]; simp
  have hsbi₂ : k₂.fs.sbi = k.fs.sbi := by rw [← hk₂, ← hk₁]; rfl
  have hrem := removeFromOld_spec (k := k₂) (f := f) (n := n) hf₂
    (by rw [hother₂ oldDir hsame]) (by rw [hsbi₂]; exact (h.toCore.dir_used ho).1)
    (by rw [hold₂]; exact hn) hn128 (by rw [hold₂]; exact hs) h0 (by rw [hold₂]; exact huniq)
  rw [hrem, hold₂]
  generalize hk₃ : ((k₂.log (.bread (k.inode oldDir).indexBlock)).setBlock
    (k.inode oldDir).indexBlock (removeSlot (k.fs.indexOf oldDir) f n)).brelse
      (k.inode oldDir).indexBlock = k₃
  have hin₃ : ∀ i, k₃.inode i = k₂.inode i := by intro i; rw [← hk₃]; rfl
  have hag₃ : Agree (k.fs.moveEntry oldDir f n newDir m src newName) k₃.fs := by
    have := hag₂.setBlock (k.inode oldDir).indexBlock (removeSlot (k.fs.indexOf oldDir) f n)
    rw [hfs₁] at this
    rw [← hk₃]
    exact this
  have hag : Agree (k.fs.moveEntry oldDir f n newDir m src newName) (touchDir k₃ oldDir
      fun n => if sIsDir (k₂.inode src).iMode then sub32 n 1 else n).fs :=
    hag₃.trans (touchDir_agree k₃ oldDir _)
  refine ⟨_, rfl, by rw [← hk₃]; simpa [touchDir] using hf₂, by rw [← hk₃]; simp [touchDir, ha₂],
    hag, ?_, fun i => ?_, fun i => ?_⟩
  · rw [← hk₃]
    exact hsbi₂
  · have h1 := touchDir_view k₃ oldDir
      (fun n => if sIsDir (k₂.inode src).iMode then sub32 n 1 else n) i
    have h2 := hview₂ i
    rw [← hin₃] at h2
    exact h2.trans h1
  · have hmode : sIsDir (k₂.inode src).iMode = sIsDir (k.inode src).iMode := by
      rw [(hview₂ src).iMode]
    have hnl₂ : (k₂.inode newDir).iNlink = if sIsDir (k.inode src).iMode = true then
        add32 (k.inode newDir).iNlink 1 else (k.inode newDir).iNlink := by
      rw [← hk₂, ← hin₁, ← hin₁]
      unfold Kernel.inode
      rw [Kernel.fs_setInode, Fs.inode_setInode, if_pos rfl]
    show ((touchDir k₃ oldDir _).fs.inode i).iNlink = _
    have hin₃' : ∀ j, k₃.fs.inode j = k₂.inode j := hin₃
    rw [touchDir_nlink, hmode]
    by_cases hio : i = oldDir
    · rw [if_pos hio, hio]
      rw [hin₃', hother₂ oldDir hsame]
      by_cases hd : sIsDir (k.inode src).iMode = true
      · rw [if_pos hd, if_pos hd, if_neg hsame, if_pos rfl]
      · rw [if_neg hd, if_neg hd]
    · rw [if_neg hio, hin₃']
      by_cases hin : i = newDir
      · rw [hin, hnl₂]
        by_cases hd : sIsDir (k.inode src).iMode = true
        · rw [if_pos hd, if_pos hd, if_pos rfl]
        · rw [if_neg hd, if_neg hd]
      · rw [hother₂ i hin]
        rw [if_neg hin, if_neg hio, ite_self]

/-- **`ouichefs_rename` fails without a change, or moves one name.** -/
theorem ouichefsRename_spec (hf : k.faults = []) (h : WF k.fs chain Z) (hk : NameInv k.fs)
    (ho : k.fs.Is oldDir .dir) (hw : k.fs.Is newDir .dir) (hvo : ValidName oldName)
    (hvn : ValidName newName) (hsrc : blockMap (k.fs.indexOf oldDir) oldName = some src)
    (hroom : oldDir ≠ newDir → slotInode (k.fs.indexOf oldDir) 127 = 0) (flags : Nat) :
    ∃ r k', ouichefsRename k oldDir oldName src newDir newName flags = .ok (r, k') ∧
      k'.faults = [] ∧ (k'.AllocFailed ↔ k.AllocFailed) ∧
      (r < 0 ∧ k'.fs = k.fs ∧ ¬CanRename k oldDir newDir newName flags ∨
        r = 0 ∧ CanRename k oldDir newDir newName flags ∧
          Renamed k k' chain oldDir oldName src newDir newName Z) := by
  unfold ouichefsRename
  by_cases hfl : flags &&& 6 ≠ 0
  · rw [if_pos hfl]
    exact ⟨-EINVAL, k, rfl, hf, Iff.rfl, Or.inl ⟨by decide, rfl, fun hc => hfl hc.1⟩⟩
  rw [if_neg hfl]
  have hfl' : flags &&& 6 = 0 := not_not.1 hfl
  have hlen : ¬(cstr newName).length > 28 := by
    rw [cstr_eq_self hvn.2.2]
    have := hvn.2.1
    omega
  rw [if_neg hlen]
  have hwb : (k.inode newDir).indexBlock < k.fs.sbi.nrBlocks := (h.toCore.dir_used hw).1
  have hblk : k.fs.disk (k.inode newDir).indexBlock = k.fs.indexOf newDir := rfl
  simp only [Kernel.sbBread_ok hf hwb, Kernel.fs_log, hblk]
  obtain ⟨m, hmle, hm⟩ := h.dirs.tree.compact newDir hw
  obtain ⟨n, hnle, hn⟩ := h.dirs.tree.compact oldDir ho
  have hnone := slotFind_eq_none (x := newName) (hk newDir hw) (hm.lt_cap hmle)
  obtain ⟨f, hs, h0, hname⟩ := (slotFind_eq_some (hk oldDir ho) (hn.lt_cap hnle)).1 hsrc
  -- an empty slot has the empty name, which is not valid
  have hmatch : ∀ (d : Nat) (name : List UInt8), k.fs.Is d .dir → ValidName name → ∀ j,
      strncmpEq (slotName (k.fs.indexOf d) j) name 28 = true →
      slotInode (k.fs.indexOf d) j ≠ 0 ∧ entryName (k.fs.indexOf d) j = name := by
    intro d name hd hv j hj
    have hj' := (strncmpEq_slotName hv _ _).1 hj
    refine ⟨fun hz => ?_, hj'⟩
    exact hv.ne_nil (hj'.symm.trans ((h.dirs.clean d hd).entryName hz))
  by_cases hex : blockMap (k.fs.indexOf newDir) newName = none
  swap
  · -- the new name exists
    have hscan : renameScan (k.fs.indexOf newDir) (newDir == oldDir) oldName newName 128 0 none none =
        none := by
      apply renameScan_exists
      obtain ⟨v, hv⟩ := Option.ne_none_iff_exists'.1 hex
      obtain ⟨j, -, -, hj⟩ := (slotFind_eq_some (hk newDir hw) (hm.lt_cap hmle)).1 hv
      have hjs := (strncmpEq_slotName hvn (k.fs.indexOf newDir) j).2 hj
      have hj128 := lt_of_slotInode (hmatch newDir newName hw hvn j hjs).1
      exact ⟨j, Nat.zero_le _, by omega, hjs⟩
    rw [hscan]
    exact ⟨-EEXIST, _, rfl, by simpa using hf, by simp,
      Or.inl ⟨by decide, rfl, fun hc => hex hc.2.1⟩⟩
  have hnew : ∀ j, strncmpEq (slotName (k.fs.indexOf newDir) j) newName 28 = false := by
    intro j
    rw [← Bool.not_eq_true]
    intro hj
    obtain ⟨hu, he⟩ := hmatch newDir newName hw hvn j hj
    exact hnone.1 hex j hu he
  have hold : (newDir == oldDir) = true → ∀ j,
      strncmpEq (slotName (k.fs.indexOf newDir) j) oldName 28 = true ↔ j = f := by
    intro hsame j
    rw [beq_iff_eq] at hsame
    rw [hsame]
    constructor
    · intro hj
      obtain ⟨hu, he⟩ := hmatch oldDir oldName ho hvo j hj
      exact hk oldDir ho j f hu (by rw [hs]; exact h0) (he.trans hname.symm)
    · rintro rfl
      exact (strncmpEq_slotName hvo _ _).2 hname
  have hscan := renameScan_fresh hm hnew hold 128 0
  simp only [Nat.not_lt_zero, and_false, if_false, Nat.zero_add] at hscan
  rw [hscan]
  have hfs : slotInode (k.fs.indexOf oldDir) f ≠ 0 := by rw [hs]; exact h0
  have hf128 : f < 128 := lt_of_slotInode hfs
  by_cases hsame : oldDir = newDir
  · subst hsame
    simp only [beq_self_eq_true, hf128, and_self, if_true]
    obtain ⟨hinv, hnames⟩ := NameInv.renameEntry h hk ho hfs hvn hex
    rw [hname, hs] at hnames
    refine ⟨0, _, rfl, by simpa using hf, by simp, Or.inr ⟨rfl, ⟨hfl', hex, Or.inl rfl⟩, ?_⟩⟩
    refine ⟨h.renameEntry ho hfs, fun ht => ?_, hinv, hnames, rfl, fun i => .refl _, fun i => ?_⟩
    · obtain ⟨-, hc, hbig, -⟩ := h.toCore.dir_block_alone ho
      exact TightBut.setBlock ht hc hbig _
    · rw [if_neg (fun hc => hc.1 rfl)]
      rfl
  · simp only [hsame, if_false]
    by_cases hfull : m < 128
    swap
    · simp only [hfull, if_false]
      refine ⟨-EMLINK, _, rfl, by simpa using hf, by simp, Or.inl ⟨by decide, rfl, fun hc => ?_⟩⟩
      exact hfull ((slot127_iff hm hmle).1 (hc.2.2.resolve_left hsame))
    simp only [hfull, if_true]
    have hn128 : n < 128 := (slot127_iff hn hnle).1 (hroom hsame)
    have hscan' := hscan
    rw [if_pos hfull] at hscan'
    obtain ⟨k', hrun, hf', ha', hag, hsbi, hview, hnlink⟩ :=
      ouichefsRename_move hf h ho hw hsame hfl' (Nat.not_lt.1 hlen) hn hn128 hs h0 hscan'
    obtain ⟨hinv, hnames⟩ := NameInv.moveEntry h hk ho hw hsame hs h0 hn hnle hm hfull hvn hex
    rw [hname] at hnames
    refine ⟨0, k', ?_, hf', ha',
      Or.inr ⟨rfl, ⟨hfl', hex, Or.inr ((slot127_iff hm hmle).2 hfull)⟩, ?_⟩⟩
    · unfold ouichefsRename at hrun
      rw [if_neg hfl, if_neg hlen] at hrun
      simp only [Kernel.sbBread_ok hf hwb, Kernel.fs_log, hblk, hscan', hsame, if_false] at hrun
      exact hrun
    refine ⟨hag.wf (h.moveEntry newName ho hw hsame hs h0 hn hnle hm hfull),
      fun ht => hag.tight (Tight.moveEntry ht h.toCore ho hw), ?_, ?_, hsbi, hview, fun i => ?_⟩
    · intro d hd
      have hd' := (hag.is d .dir).1 hd
      rw [hag.indexOf hd'.1]
      exact hinv d hd'
    · rw [← hnames]
      apply Fs.names_eq
      · intro d hd
        have hd' := (hag.is d .dir).1 hd
        rw [hag.indexOf hd'.1]
        exact Fs.names_dir hd'
      · intro d hd
        exact Fs.names_notDir fun hc => hd ((hag.is d .dir).2 hc)
    · rw [hnlink i]
      simp only [ne_eq, hsame, not_false_eq_true, true_and]

end Call

end Ouichefs
