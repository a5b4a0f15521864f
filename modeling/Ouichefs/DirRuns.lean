import Ouichefs.Run
import Ouichefs.Effect
import Mathlib.Data.Finset.Card

/-!
# Runs of directory operations

Creation, removal and renaming in any order.  The operations act on the name space as insertion,
deletion and renaming (`MapStep`), the directory blocks stay compact, clean and without duplicates
(`DirState`), and every link count is the number of subdirectories plus a constant (`LinkCounts`).
Free blocks may hold anything here: a new directory block is cleared before it is used.
-/

set_option autoImplicit false

namespace Ouichefs

open FreeMap

variable {Z : Prop}

/-! ## Entries of a name space -/

/-- Some name in directory `d` stands for inode `j`. -/
def Names.Child (m : Names) (d j : Nat) : Prop := ∃ f name, m d = some f ∧ f name = some j

namespace Names

variable {m : Names} {f : List UInt8 → Option Nat} {dir ino d j x : Nat} {name : List UInt8}

theorem child_insert (hm : m dir = some f) (hnew : f name = none) :
    (m.insert dir name ino).Child d j ↔ m.Child d j ∨ d = dir ∧ j = ino := by
  unfold Child insert
  rw [Function.update_apply]
  split
  · rename_i hd
    rw [hd, hm]
    simp only [Option.map_some, Option.some.injEq, exists_and_left, exists_eq_left', true_and]
    constructor
    · rintro ⟨y, hy⟩
      rw [Function.update_apply] at hy
      split at hy
      · exact Or.inr (Option.some.inj hy).symm
      · exact Or.inl ⟨y, hy⟩
    · rintro (⟨y, hy⟩ | rfl)
      · refine ⟨y, ?_⟩
        rw [Function.update_of_ne, hy]
        rintro rfl
        rw [hnew] at hy
        cases hy
      · exact ⟨name, Function.update_self ..⟩
  · rename_i hd
    simp [hd]

theorem child_delete (hm : m dir = some f) (hf : f name = some ino)
    (hinj : ∀ y, f y = some ino → y = name) :
    (m.delete dir name).Child d j ↔ m.Child d j ∧ ¬(d = dir ∧ j = ino) := by
  unfold Child delete
  rw [Function.update_apply]
  split
  · rename_i hd
    rw [hd, hm]
    simp only [Option.map_some, Option.some.injEq, exists_and_left, exists_eq_left', true_and]
    constructor
    · rintro ⟨y, hy⟩
      rw [Function.update_apply] at hy
      split at hy
      · cases hy
      · rename_i hne
        refine ⟨⟨y, hy⟩, ?_⟩
        rintro rfl
        exact hne (hinj y hy)
    · rintro ⟨⟨y, hy⟩, hj⟩
      refine ⟨y, ?_⟩
      rw [Function.update_of_ne, hy]
      rintro rfl
      rw [hf] at hy
      exact hj (Option.some.inj hy).symm
  · rename_i hd
    simp [hd]

theorem child_addDir : (m.addDir x).Child d j ↔ d ≠ x ∧ m.Child d j := by
  unfold Child addDir
  rw [Function.update_apply]
  split
  · rename_i hd
    simp [hd]
  · rename_i hd
    simp [hd]

theorem child_dropDir : (m.dropDir x).Child d j ↔ d ≠ x ∧ m.Child d j := by
  unfold Child dropDir
  rw [Function.update_apply]
  split
  · rename_i hd
    simp [hd]
  · rename_i hd
    simp [hd]

end Names

section Entries

variable {fs fs' : Fs} {chain chain' : List Nat} {dir ino d j f n mode : Nat} {name : List UInt8}

theorem blockMap_some (h : WF fs chain Z) (hn : NameInv fs) (hd : fs.Is d .dir) :
    blockMap (fs.indexOf d) name = some j ↔
      ∃ i, slotInode (fs.indexOf d) i = j ∧ j ≠ 0 ∧ entryName (fs.indexOf d) i = name := by
  obtain ⟨n, hle, hc⟩ := h.dirs.tree.compact d hd
  exact slotFind_eq_some (hn d hd) (hc.lt_cap hle)

/-- The entries are the children in the name space. -/
theorem Fs.names_child (h : WF fs chain Z) (hn : NameInv fs) :
    fs.names.Child d j ↔ fs.Entry d j := by
  unfold Names.Child Fs.Entry
  by_cases hd : fs.Is d .dir
  · rw [Fs.names_dir hd]
    simp only [hd, true_and, Option.some.injEq, exists_eq_left', exists_and_left]
    constructor
    · rintro ⟨name, hname⟩
      obtain ⟨i, hi, h0, -⟩ := (blockMap_some h hn hd).1 hname
      exact ⟨h0, i, hi⟩
    · rintro ⟨h0, i, hi⟩
      exact ⟨entryName (fs.indexOf d) i, (blockMap_some h hn hd).2 ⟨i, hi, h0, rfl⟩⟩
  · rw [Fs.names_notDir hd]
    simp [hd]

/-- One inode has one name. -/
theorem blockMap_inj (h : WF fs chain Z) (hn : NameInv fs) (hd : fs.Is d .dir)
    {y : List UInt8} (hname : blockMap (fs.indexOf d) name = some j)
    (hy : blockMap (fs.indexOf d) y = some j) : y = name := by
  obtain ⟨i, hi, h0, rfl⟩ := (blockMap_some h hn hd).1 hname
  obtain ⟨i', hi', -, rfl⟩ := (blockMap_some h hn hd).1 hy
  have := (h.dirs.tree.unique hd hd (hi'.trans hi.symm) (by rw [hi']; exact h0)).2
  rw [this]

theorem Fs.Entry.parent_unique {d' : Nat} (h : WF fs chain Z) (he : fs.Entry d j)
    (he' : fs.Entry d' j) : d = d' := by
  obtain ⟨hd, h0, i, hi⟩ := he
  obtain ⟨hd', -, i', hi'⟩ := he'
  exact (h.dirs.tree.unique hd hd' (hi.trans hi'.symm) (by rw [hi]; exact h0)).1

theorem Fs.Entry.live (h : WF fs chain Z) (he : fs.Entry d j) : fs.Live j ∧ j ≠ 1 := by
  obtain ⟨hd, h0, i, hi⟩ := he
  have := h.dirs.tree.entry (i := i) hd (by rw [hi]; exact h0)
  rwa [hi] at this

theorem Created.entry (hc : Created fs fs' chain dir ino n name mode Z) (h : WF fs chain Z)
    (hn : NameInv fs) (hd : fs.Is dir .dir) (hv : ValidName name)
    (hnew : blockMap (fs.indexOf dir) name = none) (d j : Nat) :
    fs'.Entry d j ↔ fs.Entry d j ∨ d = dir ∧ j = ino := by
  obtain ⟨hn', hnames⟩ := hc.names hn hd hv hnew
  have hold : ¬fs.Entry ino j := fun he => hc.dead he.1.1
  have hne : dir ≠ ino := by
    rintro rfl
    exact hc.dead hd.1
  rw [← Fs.names_child hc.wf hn', hnames]
  have hins := @Names.child_insert fs.names _ dir ino d j name (Fs.names_dir hd) hnew
  rw [Fs.names_child h hn] at hins
  split
  · rw [Names.child_addDir, hins]
    constructor
    · exact And.right
    · rintro (he | ⟨rfl, rfl⟩)
      · refine ⟨?_, Or.inl he⟩
        rintro rfl
        exact hold he
      · exact ⟨hne, Or.inr ⟨rfl, rfl⟩⟩
  · exact hins

theorem Removed.entry (hr : Removed fs fs' chain chain' dir ino f n Z) (h : WF fs chain Z)
    (hn : NameInv fs) (hd : fs.Is dir .dir) (h0 : ino ≠ 0) (d j : Nat) :
    fs'.Entry d j ↔ fs.Entry d j ∧ j ≠ ino ∧ d ≠ ino := by
  obtain ⟨hn', hnames⟩ := hr.names h hn hd
  have hname : blockMap (fs.indexOf dir) (entryName (fs.indexOf dir) f) = some ino :=
    (blockMap_some h hn hd).2 ⟨f, hr.slot, h0, rfl⟩
  have hdel := @Names.child_delete fs.names _ dir ino d j _ (Fs.names_dir hd) hname
    fun y hy => blockMap_inj h hn hd hname hy
  rw [← Fs.names_child hr.wf hn', hnames, Names.child_dropDir, hdel, Fs.names_child h hn]
  constructor
  · rintro ⟨hdi, he, hne⟩
    refine ⟨he, ?_, hdi⟩
    rintro rfl
    exact hne ⟨Fs.Entry.parent_unique h he ⟨hd, h0, f, hr.slot⟩, rfl⟩
  · rintro ⟨he, hj, hdi⟩
    exact ⟨hdi, he, fun hc => hj hc.2⟩

theorem Renamed.entry {k k' : Kernel} {oldDir src newDir : Nat} {oldName newName : List UInt8}
    (hr : Renamed k k' chain oldDir oldName src newDir newName Z) (h : WF k.fs chain Z)
    (hn : NameInv k.fs) (ho : k.fs.Is oldDir .dir) (hw : k.fs.Is newDir .dir)
    (hsrc : blockMap (k.fs.indexOf oldDir) oldName = some src)
    (hnew : blockMap (k.fs.indexOf newDir) newName = none) (d j : Nat) :
    k'.fs.Entry d j ↔ k.fs.Entry d j ∧ j ≠ src ∨ d = newDir ∧ j = src := by
  have hdel := @Names.child_delete k.fs.names _ oldDir src d j _ (Fs.names_dir ho) hsrc
    fun y hy => blockMap_inj h hn ho hsrc hy
  obtain ⟨i, hi, h0, -⟩ := (blockMap_some h hn ho).1 hsrc
  -- the map of the new directory after the deletion
  obtain ⟨g, hg, hgn⟩ : ∃ g, (k.fs.names.delete oldDir oldName) newDir = some g ∧
      g newName = none := by
    unfold Names.delete
    rw [Function.update_apply]
    split
    · rename_i hd
      subst hd
      refine ⟨Function.update (blockMap (k.fs.indexOf newDir)) oldName none,
        by rw [Fs.names_dir ho]; rfl, ?_⟩
      rw [Function.update_apply]
      split
      · rfl
      · exact hnew
    · exact ⟨_, Fs.names_dir hw, hnew⟩
  rw [← Fs.names_child hr.wf hr.inv, hr.names, Names.child_insert hg hgn, hdel,
    Fs.names_child h hn]
  constructor
  · rintro (⟨he, hne⟩ | hnew)
    · refine Or.inl ⟨he, ?_⟩
      rintro rfl
      exact hne ⟨Fs.Entry.parent_unique h he ⟨ho, h0, i, hi⟩, rfl⟩
    · exact Or.inr hnew
  · rintro (⟨he, hne⟩ | hnew)
    · exact Or.inl ⟨he, fun hc => hne hc.2⟩
    · exact Or.inr hnew

end Entries

/-! ## Link counts -/

/-- The subdirectories of `d`. -/
def Fs.childDirs (fs : Fs) (d : Nat) : Finset Nat :=
  (Finset.range fs.sbi.nrInodes).filter fun j => fs.Entry d j ∧ fs.Is j .dir

/-- Every link count is the number of subdirectories plus 2 for the root and plus 1 for all
others. -/
def LinkInv (fs : Fs) : Prop :=
  ∀ i, fs.Live i → (fs.inode i).iNlink = (fs.childDirs i).card + if i = 1 then 2 else 1

section Links

variable {k k' : Kernel} {fs fs' : Fs} {chain chain' : List Nat} {dir ino d j f n mode : Nat}
  {name : List UInt8}

theorem Fs.mem_childDirs : j ∈ fs.childDirs d ↔ fs.Entry d j ∧ fs.Is j .dir := by
  unfold Fs.childDirs
  rw [Finset.mem_filter, Finset.mem_range]
  exact ⟨And.right, fun h => ⟨h.2.1.2.1, h⟩⟩

/-- A block has room for 128 subdirectories. -/
theorem Fs.card_childDirs (fs : Fs) (d : Nat) : (fs.childDirs d).card ≤ 128 := by
  have hsub : fs.childDirs d ⊆ (Finset.range 128).image (slotInode (fs.indexOf d)) := by
    intro j hj
    obtain ⟨⟨-, h0, i, hi⟩, -⟩ := Fs.mem_childDirs.1 hj
    rw [Finset.mem_image]
    exact ⟨i, Finset.mem_range.2 (lt_of_slotInode (by rw [hi]; exact h0)), hi⟩
  calc (fs.childDirs d).card
      ≤ ((Finset.range 128).image (slotInode (fs.indexOf d))).card := Finset.card_le_card hsub
    _ ≤ (Finset.range 128).card := Finset.card_image_le
    _ = 128 := Finset.card_range 128

theorem Formatted.linkInv (h : Formatted fs) : LinkInv fs := by
  intro i hi
  obtain rfl := (h.live i).1 hi
  obtain ⟨ci, hci, -, -, hl, -⟩ := h.root
  have hnone : fs.childDirs 1 = ∅ := by
    rw [Finset.eq_empty_iff_forall_notMem]
    intro j hj
    obtain ⟨⟨-, h0, i, hi⟩, -⟩ := Fs.mem_childDirs.1 hj
    rw [h.rootBlock] at hi
    exact h0 (hi.symm.trans (slotInode_zero i))
  unfold Fs.inode
  rw [hci, hnone]
  exact hl

theorem LinkInv.idle {k k' : Kernel} (h : LinkInv k.fs) (hs : k'.fs = k.fs) : LinkInv k'.fs := by
  rw [hs]
  exact h

/-- Creation: the parent of a new directory gains a link. -/
theorem LinkInv.create (hl : LinkInv k.fs) (hc : Created k.fs k'.fs chain dir ino n name mode Z)
    (he : CreateEff k k' dir ino mode) (h : WF k.fs chain Z)
    (hentry : ∀ d j, k'.fs.Entry d j ↔ k.fs.Entry d j ∨ d = dir ∧ j = ino)
    (hd : k.fs.Is dir .dir) : LinkInv k'.fs := by
  intro i hi
  have hroot : ino ≠ 1 := by
    rintro rfl
    exact hc.dead h.dirs.root.1
  by_cases hino : i = ino
  · -- the new inode has no entries
    have hnone : k'.fs.childDirs i = ∅ := by
      rw [Finset.eq_empty_iff_forall_notMem]
      intro j hj
      rw [Fs.mem_childDirs, hentry, hino] at hj
      rcases hj.1 with hj | ⟨hj, -⟩
      · exact hc.dead hj.1.1
      · exact hc.dead (hj ▸ hd.1)
    have hone : (k'.fs.inode ino).iNlink = 1 := he.nlink
    rw [hnone, hino, if_neg hroot, hone]
    rfl
  · have hlive : k.fs.Live i := ((hc.live i).1 hi).resolve_right hino
    have hlinks : (k'.fs.inode i).iNlink = if i = dir ∧ sIsDir mode = true
        then add32 (k.fs.inode i).iNlink 1 else (k.fs.inode i).iNlink := he.links i hino
    have hcard := k.fs.card_childDirs i
    rw [hlinks, hl i hlive]
    split
    · rename_i hdm
      have hset : k'.fs.childDirs i = insert ino (k.fs.childDirs i) := by
        ext j
        rw [Finset.mem_insert, Fs.mem_childDirs, Fs.mem_childDirs, hentry, hc.is_dir]
        constructor
        · rintro ⟨hj | ⟨-, rfl⟩, hjd⟩
          · refine Or.inr ⟨hj, hjd.resolve_right ?_⟩
            rintro ⟨rfl, -⟩
            exact hc.dead (Fs.Entry.live h hj).1
          · exact Or.inl rfl
        · rintro (rfl | ⟨hj, hjd⟩)
          · exact ⟨Or.inr ⟨hdm.1, rfl⟩, Or.inr ⟨rfl, hdm.2⟩⟩
          · exact ⟨Or.inl hj, Or.inl hjd⟩
      have hnew : ino ∉ k.fs.childDirs i := by
        intro hj
        exact hc.dead (Fs.mem_childDirs.1 hj).2.1
      rw [hset, Finset.card_insert_of_notMem hnew, add32_of_lt (by split <;> omega)]
      omega
    · rename_i hdm
      have hset : k'.fs.childDirs i = k.fs.childDirs i := by
        ext j
        rw [Fs.mem_childDirs, Fs.mem_childDirs, hentry, hc.is_dir]
        constructor
        · rintro ⟨hj | ⟨hdd, rfl⟩, hjd⟩
          · refine ⟨hj, hjd.resolve_right ?_⟩
            rintro ⟨rfl, -⟩
            exact hc.dead (Fs.Entry.live h hj).1
          · rcases hjd with hjd | ⟨-, hm⟩
            · exact absurd hjd.1 hc.dead
            · exact absurd ⟨hdd, hm⟩ hdm
        · rintro ⟨hj, hjd⟩
          exact ⟨Or.inl hj, Or.inl hjd⟩
      rw [hset]

/-- Removal: the parent of a removed directory loses a link. -/
theorem LinkInv.remove (hl : LinkInv k.fs) (hr : Removed k.fs k'.fs chain chain' dir ino f n Z)
    (he : RemoveEff k k' dir ino) (h : WF k.fs chain Z)
    (hentry : ∀ d j, k'.fs.Entry d j ↔ k.fs.Entry d j ∧ j ≠ ino ∧ d ≠ ino)
    (hin : k.fs.Entry dir ino) : LinkInv k'.fs := by
  intro i hi
  obtain ⟨hlive, hino⟩ := (hr.live i).1 hi
  have hset : k'.fs.childDirs i = (k.fs.childDirs i).erase ino := by
    ext j
    rw [Finset.mem_erase, Fs.mem_childDirs, Fs.mem_childDirs, hentry, hr.is_dir]
    constructor
    · rintro ⟨⟨hj, hne, -⟩, hjd, -⟩
      exact ⟨hne, hj, hjd⟩
    · rintro ⟨hne, hj, hjd⟩
      exact ⟨⟨hj, hne, hino⟩, hjd, hne⟩
  have hlinks : (k'.fs.inode i).iNlink = if i = dir ∧ sIsDir (k.fs.inode ino).iMode = true
      then sub32 (k.fs.inode i).iNlink 1 else (k.fs.inode i).iNlink := he.links i hino
  have hcard := k.fs.card_childDirs i
  rw [hlinks, hl i hlive, hset]
  split
  · rename_i hdm
    have hmem : ino ∈ k.fs.childDirs i := by
      rw [Fs.mem_childDirs, hdm.1]
      exact ⟨hin, (Fs.Entry.live h hin).1, Inode.kind_dir.2 hdm.2⟩
    have hpos := Finset.card_pos.2 ⟨ino, hmem⟩
    rw [Finset.card_erase_of_mem hmem, sub32_of_le (by split <;> omega) (by omega)]
    omega
  · rename_i hdm
    rw [Finset.erase_eq_of_notMem]
    intro hmem
    obtain ⟨hj, hjd⟩ := Fs.mem_childDirs.1 hmem
    exact hdm ⟨Fs.Entry.parent_unique h hj hin, Inode.kind_dir.1 hjd.2⟩

theorem Renamed.is_dir {oldDir src newDir : Nat} {oldName newName : List UInt8}
    (hr : Renamed k k' chain oldDir oldName src newDir newName Z) (d : Nat) :
    k'.fs.Is d .dir ↔ k.fs.Is d .dir := by
  have hk : (k'.fs.inode d).kind = (k.fs.inode d).kind := (hr.view d).kind
  unfold Fs.Is Fs.Live
  rw [hr.sbi, hk]

/-- Moving a directory moves a link from the old parent to the new one. -/
theorem LinkInv.rename {oldDir src newDir : Nat} {oldName newName : List UInt8}
    (hl : LinkInv k.fs) (hr : Renamed k k' chain oldDir oldName src newDir newName Z)
    (h : WF k.fs chain Z)
    (hentry : ∀ d j, k'.fs.Entry d j ↔ k.fs.Entry d j ∧ j ≠ src ∨ d = newDir ∧ j = src)
    (hsrc : k.fs.Entry oldDir src) : LinkInv k'.fs := by
  intro i hi
  have hlive : k.fs.Live i := by
    unfold Fs.Live at hi ⊢
    rwa [hr.sbi] at hi
  have hcard := k.fs.card_childDirs i
  have hlinks : (k'.fs.inode i).iNlink =
      if oldDir ≠ newDir ∧ sIsDir (k.fs.inode src).iMode = true then
        if i = newDir then add32 (k.fs.inode i).iNlink 1
        else if i = oldDir then sub32 (k.fs.inode i).iNlink 1 else (k.fs.inode i).iNlink
      else (k.fs.inode i).iNlink := hr.nlink i
  have hmem : ∀ j, j ∈ k'.fs.childDirs i ↔
      j ∈ k.fs.childDirs i ∧ j ≠ src ∨ i = newDir ∧ j = src ∧ k.fs.Is src .dir := by
    intro j
    rw [Fs.mem_childDirs, Fs.mem_childDirs, hentry, hr.is_dir]
    constructor
    · rintro ⟨⟨hj, hne⟩ | ⟨hd, rfl⟩, hjd⟩
      · exact Or.inl ⟨⟨hj, hjd⟩, hne⟩
      · exact Or.inr ⟨hd, rfl, hjd⟩
    · rintro (⟨⟨hj, hjd⟩, hne⟩ | ⟨hd, rfl, hjd⟩)
      · exact ⟨Or.inl ⟨hj, hne⟩, hjd⟩
      · exact ⟨Or.inr ⟨hd, rfl⟩, hjd⟩
  have hold : src ∈ k.fs.childDirs i ↔ i = oldDir ∧ k.fs.Is src .dir := by
    rw [Fs.mem_childDirs]
    constructor
    · rintro ⟨hj, hjd⟩
      exact ⟨Fs.Entry.parent_unique h hj hsrc, hjd⟩
    · rintro ⟨rfl, hjd⟩
      exact ⟨hsrc, hjd⟩
  have hdir : sIsDir (k.fs.inode src).iMode = true ↔ k.fs.Is src .dir :=
    ⟨fun hm => ⟨(Fs.Entry.live h hsrc).1, Inode.kind_dir.2 hm⟩, fun hd => Inode.kind_dir.1 hd.2⟩
  rw [hlinks, hl i hlive]
  by_cases hmove : oldDir ≠ newDir ∧ sIsDir (k.fs.inode src).iMode = true
  · have hsd := hdir.1 hmove.2
    rw [if_pos hmove]
    by_cases hin : i = newDir
    · have hnot : src ∉ k.fs.childDirs i := fun hc => hmove.1 ((hold.1 hc).1.symm.trans hin)
      have hset : k'.fs.childDirs i = insert src (k.fs.childDirs i) := by
        ext j
        rw [hmem, Finset.mem_insert]
        constructor
        · rintro (⟨hj, -⟩ | ⟨-, hj, -⟩)
          · exact Or.inr hj
          · exact Or.inl hj
        · rintro (hj | hj)
          · exact Or.inr ⟨hin, hj, hsd⟩
          · refine Or.inl ⟨hj, ?_⟩
            rintro rfl
            exact hnot hj
      rw [if_pos hin, hset, Finset.card_insert_of_notMem hnot,
        add32_of_lt (by split <;> omega)]
      omega
    · have hset : k'.fs.childDirs i = (k.fs.childDirs i).erase src := by
        ext j
        rw [hmem, Finset.mem_erase]
        constructor
        · rintro (⟨hj, hne⟩ | ⟨hc, -⟩)
          · exact ⟨hne, hj⟩
          · exact absurd hc hin
        · rintro ⟨hne, hj⟩
          exact Or.inl ⟨hj, hne⟩
      rw [if_neg hin, hset]
      split
      · rename_i hio
        have hpos := Finset.card_pos.2 ⟨src, hold.2 ⟨hio, hsd⟩⟩
        rw [Finset.card_erase_of_mem (hold.2 ⟨hio, hsd⟩),
          sub32_of_le (by split <;> omega) (by omega)]
        omega
      · rename_i hio
        rw [Finset.erase_eq_of_notMem fun hc => hio (hold.1 hc).1]
  · -- a file, or a new name in the same directory
    rw [if_neg hmove]
    have hset : k'.fs.childDirs i = k.fs.childDirs i := by
      ext j
      rw [hmem]
      constructor
      · rintro (⟨hj, -⟩ | ⟨hin, rfl, hsd⟩)
        · exact hj
        · refine hold.2 ⟨?_, hsd⟩
          by_contra hne
          exact hmove ⟨fun hc => hne (hin.trans hc.symm), hdir.2 hsd⟩
      · intro hj
        by_cases hjs : j = src
        · rw [hjs] at hj ⊢
          obtain ⟨hio, hsd⟩ := hold.1 hj
          refine Or.inr ⟨?_, rfl, hsd⟩
          by_contra hne
          exact hmove ⟨fun hc => hne (hio.trans hc), hdir.2 hsd⟩
        · exact Or.inl ⟨hj, hjs⟩
    rw [hset]

end Links

/-! ## Steps -/

/-- The calls the VFS makes: names of 1 to 27 bytes, existing entries for `unlink`, `rmdir` and
`rename`, a new name for `create` and `mkdir`; an entry leaves a directory by `rename` only if the
last slot of its block is free. -/
def Op.Dir (fs : Fs) : Op → Prop
  | .create dir name _ => fs.Is dir .dir ∧ ValidName name ∧ blockMap (fs.indexOf dir) name = none
  | .mkdir dir name _ => fs.Is dir .dir ∧ ValidName name ∧ blockMap (fs.indexOf dir) name = none
  | .unlink dir name ino =>
    fs.Is dir .dir ∧ blockMap (fs.indexOf dir) name = some ino ∧ ¬fs.Is ino .dir
  | .rmdir dir name ino =>
    fs.Is dir .dir ∧ blockMap (fs.indexOf dir) name = some ino ∧ fs.Is ino .dir
  | .rename oldDir oldName src newDir newName _ => fs.Is oldDir .dir ∧ fs.Is newDir .dir ∧
    ValidName oldName ∧ ValidName newName ∧ blockMap (fs.indexOf oldDir) oldName = some src ∧
    (oldDir ≠ newDir → slotInode (fs.indexOf oldDir) 127 = 0)
  | .write .. => False
  | .append .. => False

instance (fs : Fs) : (op : Op) → Decidable (op.Dir fs)
  | .create .. => inferInstanceAs (Decidable (_ ∧ _ ∧ _))
  | .mkdir .. => inferInstanceAs (Decidable (_ ∧ _ ∧ _))
  | .unlink .. => inferInstanceAs (Decidable (_ ∧ _ ∧ _))
  | .rmdir .. => inferInstanceAs (Decidable (_ ∧ _ ∧ _))
  | .rename .. => inferInstanceAs (Decidable (_ ∧ _ ∧ _ ∧ _ ∧ _ ∧ (_ → _)))
  | .write .. => inferInstanceAs (Decidable False)
  | .append .. => inferInstanceAs (Decidable False)

def DirCall (k : Kernel) (c : Call) : Prop := c.op.Dir k.fs

instance (k : Kernel) (c : Call) : Decidable (DirCall k c) := inferInstanceAs (Decidable (Op.Dir ..))

/-- What an operation does to the name space. -/
def MapStep (k : Kernel) (op : Op) (r : Int) (k' : Kernel) : Prop :=
  match op with
  | .create dir name mode =>
    r = 0 ∧ (∃ ino, ¬k.fs.Live ino ∧ k'.fs.names = if sIsDir mode
      then (k.fs.names.insert dir name ino).addDir ino else k.fs.names.insert dir name ino) ∨
    r < 0 ∧ ¬CanCreate k dir name mode ∧ k'.fs = k.fs
  | .mkdir dir name mode =>
    r = 0 ∧ (∃ ino, ¬k.fs.Live ino ∧
      k'.fs.names = (k.fs.names.insert dir name ino).addDir ino) ∨
    r < 0 ∧ ¬CanCreate k dir name (mode ||| 0o040000) ∧ k'.fs = k.fs
  | .unlink dir name _ => r = 0 ∧ k'.fs.names = k.fs.names.delete dir name
  | .rmdir dir name ino =>
    r = 0 ∧ (∀ j, ¬k.fs.Entry ino j) ∧ k'.fs.names = (k.fs.names.delete dir name).dropDir ino ∨
    r = -ENOTEMPTY ∧ (∃ j, k.fs.Entry ino j) ∧ k'.fs = k.fs
  | .rename oldDir oldName src newDir newName flags =>
    r = 0 ∧ CanRename k oldDir newDir newName flags ∧
      k'.fs.names = (k.fs.names.delete oldDir oldName).insert newDir newName src ∨
    r < 0 ∧ ¬CanRename k oldDir newDir newName flags ∧ k'.fs = k.fs
  | .write .. => False
  | .append .. => False

/-- What holds between directory operations. -/
structure TreeInv (k : Kernel) (chain : List Nat) (Z : Prop := True) : Prop where
  faults : k.faults = []
  wf : WF k.fs chain Z
  names : NameInv k.fs
  links : LinkInv k.fs
  free_lt : k.fs.sbi.nrFreeInodes < 4294967296

section Steps

variable {k k' : Kernel} {chain chain' : List Nat} {dir ino f n mode : Nat} {name : List UInt8}

theorem TreeInv.of_fs (h : TreeInv k chain Z) (hf : k'.faults = []) (hs : k'.fs = k.fs) :
    TreeInv k' chain Z :=
  ⟨hf, hs ▸ h.wf, hs ▸ h.names, hs ▸ h.links, hs ▸ h.free_lt⟩

/-- The two descriptions of a creation speak of the same inode. -/
theorem Created.effect {r : Int} (hc : Created k.fs k'.fs chain dir ino n name mode Z)
    (he : Idle k k' ∨ ∃ i, r = 0 ∧ CreateEff k k' dir i mode) : CreateEff k k' dir ino mode := by
  have hnew := (hc.live ino).2 (Or.inr rfl)
  have hbit : k.fs.sbi.ifreeBitmap ino = true := by
    by_contra hb
    exact hc.dead ⟨hc.pos, hc.lt, by simpa using hb⟩
  rcases he with hidle | ⟨i, -, he⟩
  · have := hnew.2.2
    rw [hidle.ifree, hbit] at this
    cases this
  · have := hnew.2.2
    rw [he.ifree, Function.update_apply] at this
    split at this
    · rename_i hi
      rw [hi]
      exact he
    · rw [hbit] at this
      cases this

theorem Removed.effect {r : Int} (hr : Removed k.fs k'.fs chain chain' dir ino f n Z)
    (hl : k.fs.Live ino) (he : Idle k k' ∨ r = 0 ∧ RemoveEff k k' dir ino) :
    RemoveEff k k' dir ino := by
  rcases he with hidle | ⟨-, he⟩
  · refine absurd ((hr.live ino).1 ⟨hl.1, ?_, ?_⟩).2 (fun hc => hc rfl)
    · rw [hidle.geom.nrInodes]
      exact hl.2.1
    · rw [hidle.ifree]
      exact hl.2.2
  · exact he

theorem add32_lt (a b : Nat) : add32 a b < 4294967296 := Nat.mod_lt _ (by decide)

theorem sub32_lt (a b : Nat) : sub32 a b < 4294967296 := by
  unfold sub32
  omega

/-- `ouichefs_new_inode` makes directories and regular files only. -/
theorem ouichefsCreate_mode (h : ouichefsCreate k dir name mode = .ok (0, k')) :
    sIsDir mode = true ∨ sIsReg mode = true := by
  by_contra hm
  have hnew : ∀ k₁, ouichefsNewInode k₁ dir mode = (.error (-EINVAL), k₁) := by
    intro k₁
    unfold ouichefsNewInode
    rw [if_pos (by simpa using hm)]
  unfold ouichefsCreate at h
  split at h
  · cases h
  simp only at h
  split at h
  · cases h
  split at h
  · cases h
  · rw [hnew] at h
    cases h

theorem not_sIsReg_mkdir (mode : Nat) : sIsReg (mode ||| 0o040000) = false := by
  unfold sIsReg
  rw [beq_eq_false_iff_ne]
  intro h
  have := congrArg (fun n => n.testBit 14) h
  simp [Nat.testBit_and, Nat.testBit_or, show Nat.testBit 16384 14 = true by decide,
    show Nat.testBit 61440 14 = true by decide, show Nat.testBit 32768 14 = false by decide] at this

theorem TreeInv.create (h : TreeInv k chain Z) (hd : k.fs.Is dir .dir) (hv : ValidName name)
    (hnew : blockMap (k.fs.indexOf dir) name = none) (mode : Nat) :
    ∃ r k', ouichefsCreate k dir name mode = .ok (r, k') ∧ TreeInv k' chain Z ∧
      MapStep k (.create dir name mode) r k' := by
  obtain ⟨r, k', hrun, hf', -, ⟨hr, hsame, hcan⟩ | ⟨hr, ino, n, hc⟩⟩ :=
    ouichefsCreate_spec h.faults h.wf hd name mode
  · exact ⟨r, k', hrun, h.of_fs hf' hsame, Or.inr ⟨hr, hcan, hsame⟩⟩
  · obtain ⟨hn', hnames⟩ := hc.names h.names hd hv hnew
    have he := hc.effect (ouichefsCreate_effect h.faults h.wf.inodes.bit0 h.free_lt hd.1.2.2 hrun)
    refine ⟨r, k', hrun, ⟨hf', hc.wf, hn', ?_, ?_⟩, Or.inl ⟨hr, ino, hc.dead, hnames⟩⟩
    · exact h.links.create hc he h.wf (hc.entry h.wf h.names hd hv hnew) hd
    · rw [he.nrFreeInodes]
      exact sub32_lt _ _

theorem TreeInv.remove {r : Int} (h : TreeInv k chain Z) (hd : k.fs.Is dir .dir)
    (hname : blockMap (k.fs.indexOf dir) name = some ino) (hf' : k'.faults = [])
    (hr : Removed k.fs k'.fs chain chain' dir ino f n Z)
    (he : Idle k k' ∨ r = 0 ∧ RemoveEff k k' dir ino) :
    TreeInv k' chain' Z ∧ k'.fs.names = (k.fs.names.delete dir name).dropDir ino := by
  obtain ⟨i, hi, h0, hin⟩ := (blockMap_some h.wf h.names hd).1 hname
  have hentry : k.fs.Entry dir ino := ⟨hd, h0, i, hi⟩
  have he := hr.effect (Fs.Entry.live h.wf hentry).1 he
  obtain ⟨hn', hnames⟩ := hr.names h.wf h.names hd
  have hfi : f = i := (h.wf.dirs.tree.unique hd hd (hr.slot.trans hi.symm)
    (by rw [hr.slot]; exact h0)).2
  rw [hfi, hin] at hnames
  refine ⟨⟨hf', hr.wf, hn', ?_, ?_⟩, hnames⟩
  · exact h.links.remove hr he h.wf (hr.entry h.wf h.names hd h0) hentry
  · rw [he.nrFreeInodes]
    exact add32_lt _ _

theorem TreeInv.unlink (h : TreeInv k chain Z) (hd : k.fs.Is dir .dir)
    (hname : blockMap (k.fs.indexOf dir) name = some ino) (hnd : ¬k.fs.Is ino .dir) :
    ∃ k' chain', ouichefsUnlink k dir ino = .ok (0, k') ∧ TreeInv k' chain' Z ∧
      k'.fs.names = k.fs.names.delete dir name := by
  obtain ⟨i, hi, h0, -⟩ := (blockMap_some h.wf h.names hd).1 hname
  have hlive := (Fs.Entry.live h.wf ⟨hd, h0, i, hi⟩).1
  have hne : ino ≠ dir := by
    rintro rfl
    exact hnd hd
  obtain ⟨k', chain', n, hrun, hf', -, hr⟩ :=
    ouichefsUnlink_spec h.faults h.wf hd hi h0 fun hc => absurd hc hnd
  obtain ⟨hinv, hnames⟩ := h.remove hd hname hf' hr
    (ouichefsUnlink_effect h.faults hlive.2.1 hne hrun)
  refine ⟨k', chain', hrun, hinv, ?_⟩
  -- a file has no map to drop
  rw [hnames]
  unfold Names.dropDir
  apply Function.update_eq_self_iff.2
  unfold Names.delete
  rw [Function.update_of_ne hne, Fs.names_notDir hnd]

/-- `ouichefs_rmdir` refuses exactly the directories with entries. -/
theorem TreeInv.rmdir (h : TreeInv k chain Z) (hd : k.fs.Is dir .dir)
    (hname : blockMap (k.fs.indexOf dir) name = some ino) (hid : k.fs.Is ino .dir) :
    ∃ r k' chain', ouichefsRmdir k dir ino = .ok (r, k') ∧ TreeInv k' chain' Z ∧
      MapStep k (.rmdir dir name ino) r k' := by
  obtain ⟨i, hi, h0, -⟩ := (blockMap_some h.wf h.names hd).1 hname
  have hentry : k.fs.Entry dir ino := ⟨hd, h0, i, hi⟩
  have hroot := (Fs.Entry.live h.wf hentry).2
  obtain ⟨m, -, hm⟩ := h.wf.dirs.tree.compact ino hid
  have hlinks := h.links ino hid.1
  rw [if_neg hroot] at hlinks
  have hib : (k.inode ino).indexBlock < k.fs.sbi.nrBlocks := (h.wf.toCore.dir_used hid).1
  have hblk : k.fs.disk (k.inode ino).indexBlock = k.fs.indexOf ino := rfl
  by_cases hempty : slotInode (k.fs.indexOf ino) 0 = 0
  · have hnone : ∀ j, ¬k.fs.Entry ino j := by
      rintro j ⟨-, hj0, x, hx⟩
      exact hm.used 0 (Nat.lt_of_le_of_lt (Nat.zero_le x) (hm.lt_iff.2 (by rw [hx]; exact hj0)))
        hempty
    have hcard : k.fs.childDirs ino = ∅ := by
      rw [Finset.eq_empty_iff_forall_notMem]
      exact fun j hj => hnone j (Fs.mem_childDirs.1 hj).1
    rw [hcard, Finset.card_empty, Nat.zero_add] at hlinks
    have hne : ino ≠ dir := by
      rintro rfl
      exact hnone ino hentry
    obtain ⟨r, k', hrun, hf', -, hres⟩ := ouichefsRmdir_spec h.faults h.wf hd hi hid
    have hr0 : r = 0 := by
      have hrun' := hrun
      unfold ouichefsRmdir at hrun'
      have hnl : ¬(k.inode ino).iNlink > 2 := by
        show ¬(k.fs.inode ino).iNlink > 2
        omega
      simp only [hnl, if_false, Kernel.sbBread_ok h.faults hib, Kernel.fs_log, hblk, hempty,
        ne_eq, not_true_eq_false] at hrun'
      obtain ⟨k'', -, -, hun, -⟩ := ouichefsUnlink_spec
        (k := (k.log (.bread (k.inode ino).indexBlock)).brelse (k.inode ino).indexBlock)
        (by simpa using h.faults) h.wf hd hi h0
        fun _ x => by
          by_contra hx
          exact hnone _ ⟨hid, hx, x, rfl⟩
      rw [hun] at hrun'
      cases hrun'
      rfl
    rcases hres with ⟨hneg, -⟩ | ⟨-, chain', n, hr⟩
    · omega
    · obtain ⟨hinv, hnames⟩ := h.remove hd hname hf' hr
        (ouichefsRmdir_effect h.faults hid.1.2.1 hne hrun)
      exact ⟨r, k', chain', hrun, hinv, Or.inl ⟨hr0, hnone, hnames⟩⟩
  · have hsome : ∃ j, k.fs.Entry ino j := ⟨_, hid, hempty, 0, rfl⟩
    unfold ouichefsRmdir
    by_cases hnl : (k.inode ino).iNlink > 2
    · simp only [hnl, if_true]
      exact ⟨_, k, chain, rfl, h, Or.inr ⟨rfl, hsome, rfl⟩⟩
    · simp only [hnl, if_false, Kernel.sbBread_ok h.faults hib, Kernel.fs_log, hblk, ne_eq, hempty,
        not_false_eq_true, if_true]
      exact ⟨_, _, chain, rfl, h.of_fs (by simpa using h.faults) rfl, Or.inr ⟨rfl, hsome, rfl⟩⟩

theorem TreeInv.rename {oldDir src newDir : Nat} {oldName newName : List UInt8} {flags : Nat}
    (h : TreeInv k chain Z) (hop : Op.Dir k.fs (.rename oldDir oldName src newDir newName flags)) :
    ∃ r k', ouichefsRename k oldDir oldName src newDir newName flags = .ok (r, k') ∧
      TreeInv k' chain Z ∧ MapStep k (.rename oldDir oldName src newDir newName flags) r k' := by
  obtain ⟨ho, hw, hvo, hvn, hsrc, hroom⟩ := hop
  obtain ⟨r, k', hrun, hf', -, ⟨hr, hsame, hcan⟩ | ⟨hr, hcan, hren⟩⟩ :=
    ouichefsRename_spec h.faults h.wf h.names ho hw hvo hvn hsrc hroom flags
  · exact ⟨r, k', hrun, h.of_fs hf' hsame, Or.inr ⟨hr, hcan, hsame⟩⟩
  · obtain ⟨i, hi, h0, -⟩ := (blockMap_some h.wf h.names ho).1 hsrc
    refine ⟨r, k', hrun, ⟨hf', hren.wf, hren.inv, ?_, ?_⟩, Or.inl ⟨hr, hcan, hren.names⟩⟩
    · exact h.links.rename hren h.wf (hren.entry h.wf h.names ho hw hsrc hcan.2.1) ⟨ho, h0, i, hi⟩
    · rw [hren.sbi]
      exact h.free_lt

/-- **One directory operation.** -/
theorem Op.Dir.step {op : Op} (hop : op.Dir k.fs) (h : TreeInv k chain Z) :
    ∃ r k' chain', op.exec k = .ok (r, k') ∧ TreeInv k' chain' Z ∧ MapStep k op r k' := by
  cases op with
  | create dir name mode =>
      obtain ⟨r, k', hrun, hinv, hmap⟩ := h.create hop.1 hop.2.1 hop.2.2 mode
      exact ⟨r, k', chain, hrun, hinv, hmap⟩
  | mkdir dir name mode =>
      obtain ⟨r, k', hrun, hinv, hmap⟩ := h.create hop.1 hop.2.1 hop.2.2 (mode ||| 0o040000)
      refine ⟨r, k', chain, hrun, hinv, hmap.imp_left ?_⟩
      rintro ⟨rfl, ino, hdead, hnames⟩
      have hm := (ouichefsCreate_mode hrun).resolve_right (by simp [not_sIsReg_mkdir])
      rw [if_pos hm] at hnames
      exact ⟨rfl, ino, hdead, hnames⟩
  | unlink dir name ino =>
      obtain ⟨k', chain', hrun, hinv, hnames⟩ := h.unlink hop.1 hop.2.1 hop.2.2
      exact ⟨0, k', chain', hrun, hinv, rfl, hnames⟩
  | rmdir dir name ino => exact h.rmdir hop.1 hop.2.1 hop.2.2
  | rename oldDir oldName src newDir newName flags =>
      obtain ⟨r, k', hrun, hinv, hmap⟩ := h.rename hop
      exact ⟨r, k', chain, hrun, hinv, hmap⟩
  | write | append => exact hop.elim

theorem TreeInv.setCaller (h : TreeInv k chain Z) (now : Timespec) (fsuid fsgid : Nat) :
    TreeInv (k.setCaller now fsuid fsgid) chain Z :=
  ⟨h.faults, h.wf, h.names, h.links, h.free_lt⟩

theorem DirCall.step {c : Call} (hc : DirCall k c) (h : TreeInv k chain Z) :
    ∃ r k' chain', c.exec k = .ok (r, k') ∧ TreeInv k' chain' Z ∧ MapStep k c.op r k' := by
  obtain ⟨r, k', chain', hrun, hinv, hmap⟩ :=
    Op.Dir.step (k := k.setCaller c.now c.fsuid c.fsgid) hc (h.setCaller c.now c.fsuid c.fsgid)
  refine ⟨r, k', chain', hrun, hinv, ?_⟩
  cases hop : c.op <;> rw [hop] at hmap <;> exact hmap

theorem Formatted.treeInv (hf : k.faults = []) (h : Formatted k.fs) (hz : Z → k.fs.Blank) :
    TreeInv k [] Z := by
  refine ⟨hf, h.wf hz, h.nameInv, h.linkInv, ?_⟩
  have h1 := h.nrFreeInodes
  have h2 := h.inodes_lt
  omega

theorem TreeInv.run {cs : List Call} (h : TreeInv k chain Z)
    (ha : Admissible Call.exec DirCall k cs) :
    ∃ k' chain', runAll Call.exec k cs = .ok k' ∧ TreeInv k' chain' Z := by
  obtain ⟨k', hrun, chain', hinv⟩ := runAll_invariant (I := fun k => ∃ chain, TreeInv k chain Z)
    (fun k c ⟨chain, hi⟩ hc => by
      obtain ⟨r, k', chain', he, hi', -⟩ := hc.step hi
      exact ⟨r, k', he, chain', hi'⟩) cs k ⟨chain, h⟩ ha
  exact ⟨k', chain', hrun, hinv⟩

end Steps

/-! ## Runs -/

/-- The directory blocks and the inode bitmap. -/
structure DirState (fs : Fs) : Prop where
  compact : ∀ d, fs.Is d .dir → ∃ n ≤ 128, (∀ i < n, slotInode (fs.indexOf d) i ≠ 0) ∧
    ∀ x, 32 * n ≤ x → x < 4096 → (fs.indexOf d).get x = 0
  distinct : ∀ d, fs.Is d .dir → ∀ i j, slotInode (fs.indexOf d) i ≠ 0 →
    slotInode (fs.indexOf d) j ≠ 0 → entryName (fs.indexOf d) i = entryName (fs.indexOf d) j → i = j
  placed : ∀ ino, ino ≠ 0 → ino ≠ 1 → ino < fs.sbi.nrInodes → fs.sbi.ifreeBitmap ino = false →
    ∃! p : Nat × Nat, fs.Is p.1 .dir ∧ slotInode (fs.indexOf p.1) p.2 = ino
  marked : ∀ d, fs.Is d .dir → ∀ i, slotInode (fs.indexOf d) i ≠ 0 →
    slotInode (fs.indexOf d) i < fs.sbi.nrInodes ∧
    fs.sbi.ifreeBitmap (slotInode (fs.indexOf d) i) = false

/-- Link counts, in particular: none is 0 when it is decremented. -/
structure LinkCounts (fs : Fs) : Prop where
  dirs : ∀ d, fs.Is d .dir → (fs.inode d).iNlink = (fs.childDirs d).card + if d = 1 then 2 else 1
  pos : ∀ i, fs.Live i → 1 ≤ (fs.inode i).iNlink

section Runs

variable {k : Kernel} {chain : List Nat} {cs : List Call}

theorem TreeInv.dirState (h : TreeInv k chain Z) : DirState k.fs where
  compact d hd := by
    obtain ⟨n, hle, hc⟩ := h.wf.dirs.tree.compact d hd
    refine ⟨n, hle, hc.used, fun x hx hlt => ?_⟩
    have := h.wf.dirs.clean d hd (x / 32) (hc.empty _ (by omega)) (x % 32) (by omega)
    rwa [Nat.div_add_mod] at this
  distinct d hd := h.names d hd
  placed ino h0 h1 hlt hb := by
    obtain ⟨d, i, hd, hs⟩ := h.wf.dirs.tree.named ino ⟨h0, hlt, hb⟩ h1
    refine ⟨(d, i), ⟨hd, hs⟩, ?_⟩
    rintro ⟨d', i'⟩ ⟨hd', hs'⟩
    obtain ⟨rfl, rfl⟩ := h.wf.dirs.tree.unique hd' hd (hs'.trans hs.symm)
      (fun hz => h0 (hs'.symm.trans hz))
    rfl
  marked d hd i hi := by
    obtain ⟨hl, -⟩ := h.wf.dirs.tree.entry hd hi
    exact ⟨hl.2.1, hl.2.2⟩

theorem TreeInv.linkCounts (h : TreeInv k chain Z) : LinkCounts k.fs where
  dirs d hd := h.links d hd.1
  pos i hi := by
    rw [h.links i hi]
    split <;> omega

/-- **Directory operations are map operations**: after every run the blocks are in order, the next
operation changes the maps as its name says, and lookup evaluates them. -/
theorem dirState_run (hf : k.faults = []) (h : Formatted k.fs)
    (ha : Admissible Call.exec DirCall k cs) :
    ∃ k', runAll Call.exec k cs = .ok k' ∧ DirState k'.fs ∧
      (∀ c, DirCall k' c → ∃ r k'', c.exec k' = .ok (r, k'') ∧ MapStep k' c.op r k'') ∧
      ∀ d name, k'.fs.Is d .dir → ValidName name → ∃ m k'', k'.fs.names d = some m ∧
        ouichefsLookup k' d name = .ok (.ok (m name), k'') := by
  obtain ⟨k', chain', hrun, hinv⟩ := (h.treeInv hf False.elim).run ha
  refine ⟨k', hrun, hinv.dirState, fun c hc => ?_, fun d name hd hv => ?_⟩
  · obtain ⟨r, k'', -, he, -, hmap⟩ := hc.step hinv
    exact ⟨r, k'', he, hmap⟩
  · obtain ⟨k'', -, hlook⟩ := ouichefsLookup_spec hinv.faults hinv.wf hd hv.accepted
    exact ⟨_, k'', Fs.names_dir hd, hlook⟩

/-- **Link counts over whole runs**, and `ouichefs_rmdir` refuses exactly the non-empty
directories. -/
theorem linkCounts_run (hf : k.faults = []) (h : Formatted k.fs)
    (ha : Admissible Call.exec DirCall k cs) :
    ∃ k', runAll Call.exec k cs = .ok k' ∧ LinkCounts k'.fs ∧
      ∀ dir name ino, k'.fs.Is dir .dir → blockMap (k'.fs.indexOf dir) name = some ino →
        k'.fs.Is ino .dir → ∃ r k'', ouichefsRmdir k' dir ino = .ok (r, k'') ∧
          (r = -ENOTEMPTY ↔ ∃ j, k'.fs.Entry ino j) := by
  obtain ⟨k', chain', hrun, hinv⟩ := (h.treeInv hf False.elim).run ha
  refine ⟨k', hrun, hinv.linkCounts, fun dir name ino hd hname hid => ?_⟩
  obtain ⟨r, k'', -, he, -, hmap⟩ := hinv.rmdir hd hname hid
  refine ⟨r, k'', he, ?_⟩
  rcases hmap with ⟨hr, hnone, -⟩ | ⟨hr, hsome, -⟩
  · constructor
    · intro hc
      rw [hr] at hc
      cases hc
    · rintro ⟨j, hj⟩
      exact absurd hj (hnone j)
  · exact ⟨fun _ => hsome, fun _ => hr⟩

/-- A directory with a file, moved to the root under a new name. -/
def moveRun : List Call :=
  [(Op.mkdir 1 [100] 0o755).call, (Op.mkdir 1 [101] 0o755).call,
    (Op.create 2 [97] 0o100644).call, (Op.rename 1 [100] 2 3 [98] 0).call,
    (Op.unlink 2 [97] 4).call, (Op.rmdir 3 [98] 2).call]

theorem moveRun_admissible : Admissible Call.exec DirCall (emptyImage 8 8) moveRun := by
  decide +kernel

theorem dirState_run_moveRun :
    ∃ k', runAll Call.exec (emptyImage 8 8) moveRun = .ok k' ∧ DirState k'.fs := by
  obtain ⟨k', hrun, hstate, -⟩ := dirState_run rfl
    (emptyImage_formatted (by decide) (by decide) (by decide) (by decide)) moveRun_admissible
  exact ⟨k', hrun, hstate⟩

theorem linkCounts_run_moveRun :
    ∃ k', runAll Call.exec (emptyImage 8 8) moveRun = .ok k' ∧ LinkCounts k'.fs := by
  obtain ⟨k', hrun, hlinks, -⟩ := linkCounts_run rfl
    (emptyImage_formatted (by decide) (by decide) (by decide) (by decide)) moveRun_admissible
  exact ⟨k', hrun, hlinks⟩

end Runs

end Ouichefs
