import Ouichefs.DirBlock

/-!
# Life of blocks and inodes

The elementary state changes of `inode.c` and `write_big_file`, and what they do to the
invariant: a block is allocated (it is lost until something refers to it), scrubbed and freed; an
inode is born and dies (its blocks and slices are lost until they are freed); the block of a
directory changes.  Each operation is a sequence of these.
-/

set_option autoImplicit false

namespace Ouichefs

open FreeMap

variable {Z : Prop}

section Blocks

variable {fs : Fs} {chain : List Nat} {a : Nat} {lost : Nat → Prop} {leak : Nat → Nat → Prop}

/-- Block `a` is marked used. -/
def Fs.allocBlock (fs : Fs) (a : Nat) : Fs :=
  fs.setSbi { fs.sbi with
    bfreeBitmap := Function.update fs.sbi.bfreeBitmap a false,
    nrFreeBlocks := fs.sbi.nrFreeBlocks - 1 }

/-- Block `a` is marked free. -/
def Fs.freeBlock (fs : Fs) (a : Nat) : Fs :=
  fs.setSbi { fs.sbi with
    bfreeBitmap := Function.update fs.sbi.bfreeBitmap a true,
    nrFreeBlocks := add32 fs.sbi.nrFreeBlocks 1 }

/-- No reference names block `a`. -/
def Unref (fs : Fs) (chain : List Nat) (a : Nat) : Prop := ∀ r, ¬Refers fs chain r a

theorem Core.unref_notin (h : Unref fs chain a) : a ∉ chain := fun hm => h (.sliced a) ⟨rfl, hm⟩

theorem Unref.ne_index (h : Unref fs chain a) {d : Nat} (hd : fs.Is d .dir ∨ fs.Is d .big) :
    (fs.inode d).indexBlock ≠ a := fun he => h (.index d) ⟨hd, he.symm⟩

/-- Changing only the bitmap of free blocks and its counter. -/
theorem SameOwners.of_bfree {fs : Fs} (bfree : Nat → Bool) (nrFree : Nat) : SameOwners fs
    (fs.setSbi { fs.sbi with bfreeBitmap := bfree, nrFreeBlocks := nrFree }) :=
  .of_icache ⟨rfl, rfl, rfl, rfl, rfl⟩ rfl rfl fun _ _ => rfl

theorem Core.allocBlock (h : Core fs chain Z) (ha : a < fs.sbi.nrBlocks)
    (hfree : fs.sbi.bfreeBitmap a = true) : Core (fs.allocBlock a) chain Z := by
  have hown : SameOwners fs (fs.allocBlock a) := .of_bfree _ _
  refine ⟨hown.sb h.sb ?_, h.isChain, h.nodup, h.sliced, ?_, ?_, ?_, hown.inodes h.inodes⟩
  · have := countBits_clear ha hfree
    have := h.sb.count
    simp only [Fs.allocBlock, Fs.sbi_setSbi]
    omega
  · refine h.owned.mono (fun r a => (hown.refers chain r a).1) fun r c _ hu => ⟨hu.1, ?_⟩
    simp only [Fs.allocBlock, Fs.sbi_setSbi, Function.update_apply]
    split
    · rfl
    · exact hu.2
  · intro hZ c hc hcf
    simp only [Fs.allocBlock, Fs.sbi_setSbi, Function.update_apply] at hc hcf
    split at hcf
    · cases hcf
    · exact h.zero hZ c hc hcf
  · exact h.slices.frame (fun _ _ => .refl _) fun i hi => ⟨hi, .refl _⟩

theorem TightBut.allocBlock (ht : TightBut fs chain lost leak) :
    TightBut (fs.allocBlock a) chain (fun c => lost c ∨ c = a) leak := by
  have hown : SameOwners fs (fs.allocBlock a) := .of_bfree _ _
  refine ⟨?_, ht.bits, ht.noStray, ht.ptrs, ht.blocks⟩
  rintro c ⟨⟨h1, h2⟩, hl⟩
  simp only [not_or] at hl
  simp only [Fs.allocBlock, Fs.sbi_setSbi, Function.update_of_ne hl.2] at h1 h2
  obtain ⟨r, hr⟩ := ht.covered c ⟨⟨h1, h2⟩, hl.1⟩
  exact ⟨r, (hown.refers chain r c).2 hr⟩

theorem Core.unref_alloc (h : Core fs chain Z) (hfree : fs.sbi.bfreeBitmap a = true) :
    Unref (fs.allocBlock a) chain a := by
  intro r hr
  have hown : SameOwners fs (fs.allocBlock a) := .of_bfree _ _
  exact h.free_unref hfree r ((hown.refers chain r a).1 hr)

theorem Core.freeBlock (h : Core fs chain Z) (hu : fs.Used a) (hr : Unref fs chain a)
    (hz : fs.disk a = Page.zero) : Core (fs.freeBlock a) chain Z := by
  have hown : SameOwners fs (fs.freeBlock a) := .of_bfree _ _
  refine ⟨hown.sb h.sb ?_, h.isChain, h.nodup, h.sliced, ?_, ?_, ?_, hown.inodes h.inodes⟩
  · have := countBits_set hu.1 hu.2
    have := countBits_le (Function.update fs.sbi.bfreeBitmap a true) fs.sbi.nrBlocks
    have := h.sb.count
    have := h.sb.blocks_lt
    simp only [Fs.freeBlock, Fs.sbi_setSbi]
    rw [add32_of_lt (by omega)]
    omega
  · refine h.owned.mono (fun r a => (hown.refers chain r a).1) fun r c hrc hc => ⟨hc.1, ?_⟩
    simp only [Fs.freeBlock, Fs.sbi_setSbi]
    rw [Function.update_of_ne, hc.2]
    rintro rfl
    exact hr r ((hown.refers chain r c).1 hrc)
  · intro hZ c hc hcf
    simp only [Fs.freeBlock, Fs.sbi_setSbi, Function.update_apply] at hc hcf
    split at hcf
    · rename_i hca
      rw [hca]; exact hz
    · exact h.zero hZ c hc hcf
  · exact h.slices.frame (fun _ _ => .refl _) fun i hi => ⟨hi, .refl _⟩

theorem TightBut.freeBlock (ht : TightBut fs chain lost leak) :
    TightBut (fs.freeBlock a) chain (fun c => lost c ∧ c ≠ a) leak := by
  have hown : SameOwners fs (fs.freeBlock a) := .of_bfree _ _
  refine ⟨?_, ht.bits, ht.noStray, ht.ptrs, ht.blocks⟩
  rintro c ⟨⟨h1, h2⟩, hl⟩
  simp only [Fs.freeBlock, Fs.sbi_setSbi, Function.update_apply] at h1 h2
  split at h2
  · cases h2
  · rename_i hca
    obtain ⟨r, hr⟩ := ht.covered c ⟨⟨h1, h2⟩, fun hc => hl ⟨hc, hca⟩⟩
    exact ⟨r, (hown.refers chain r c).2 hr⟩

/-- The block of nobody, or of a directory, may change: the storage part does not look at it. -/
theorem SameOwners.of_setBlock (nb : Block) (hd : ∀ d, fs.Is d .dir ∨ fs.Is d .big →
    (fs.inode d).indexBlock ≠ a) : SameOwners fs (fs.setBlock a nb) := by
  refine .of_icache ⟨rfl, rfl, rfl, rfl, rfl⟩ rfl rfl fun d hd' => ?_
  rw [Fs.disk_setBlock, if_neg (hd d hd')]

theorem refers_setBlock (nb : Block) (hd : ∀ d, fs.Is d .big → (fs.inode d).indexBlock ≠ a)
    (r : Ref) (c : Nat) : Refers (fs.setBlock a nb) chain r c ↔ Refers fs chain r c := by
  cases r with
  | data ino i =>
      refine and_congr_right fun hb => ?_
      have hb' : fs.Is ino .big := hb
      have : (fs.setBlock a nb).indexOf ino = fs.indexOf ino := by
        unfold Fs.indexOf
        rw [Fs.disk_setBlock, Fs.inode_setBlock, if_neg (hd ino hb')]
      rw [this]
  | header b => exact Iff.rfl
  | index ino => exact Iff.rfl
  | sliced b => exact Iff.rfl

/-- A used block that neither belongs to the chain nor is the index block of a big file may be
overwritten. -/
theorem Core.setBlock (h : Core fs chain Z) (hu : Z → fs.sbi.bfreeBitmap a = false)
    (hc : a ∉ chain) (hd : ∀ d, fs.Is d .big → (fs.inode d).indexBlock ≠ a) (nb : Block) :
    Core (fs.setBlock a nb) chain Z := by
  have hne : ∀ c ∈ chain, c ≠ a := by
    rintro c hm rfl
    exact hc hm
  refine ⟨⟨h.sb.meta_lt, h.sb.blocks_lt, h.sb.blocks_le, h.sb.count⟩, ?_, h.nodup,
    h.sliced, ?_, ?_, ?_,
    ⟨h.inodes.bit0, h.inodes.cached, h.inodes.big⟩⟩
  · refine h.isChain.congr fun c hm => ?_
    unfold Fs.next
    rw [Fs.disk_setBlock, if_neg (hne c hm)]
  · exact h.owned.mono (fun r c => (refers_setBlock nb hd r c).1) fun _ _ _ => id
  · intro hZ c hcl hcf
    rw [Fs.disk_setBlock, if_neg, h.zero hZ c hcl hcf]
    rintro rfl
    rw [Fs.sbi_setBlock, hu hZ] at hcf
    cases hcf
  · refine h.slices.frame (fun c hm => ?_) fun i hi => ⟨hi, .refl _⟩
    rw [Fs.disk_setBlock, if_neg (hne c hm)]
    exact .refl _

theorem TightBut.setBlock (ht : TightBut fs chain lost leak) (hc : a ∉ chain)
    (hd : ∀ d, fs.Is d .big → (fs.inode d).indexBlock ≠ a) (nb : Block) :
    TightBut (fs.setBlock a nb) chain lost leak := by
  refine ⟨?_, ?_, ht.noStray, ?_, ht.blocks⟩
  · intro c hcu
    obtain ⟨r, hr⟩ := ht.covered c hcu
    exact ⟨r, (refers_setBlock nb hd r c).2 hr⟩
  · intro c hm j h1 h2 hbit
    rw [Fs.disk_setBlock, if_neg (by rintro rfl; exact hc hm)] at hbit
    exact ht.bits c hm j h1 h2 hbit
  · intro i hi
    have hi' : fs.Is i .big := hi
    have : (fs.setBlock a nb).indexOf i = fs.indexOf i := by
      unfold Fs.indexOf
      rw [Fs.disk_setBlock, Fs.inode_setBlock, if_neg (hd i hi')]
    rw [this]
    exact ht.ptrs i hi'

end Blocks

/-! ## Birth and death of inodes -/

/-- Inode `ino` is allocated with fields `ci`. -/
def Fs.birth (fs : Fs) (ino : Nat) (ci : Inode) : Fs :=
  (fs.setSbi { fs.sbi with
    ifreeBitmap := Function.update fs.sbi.ifreeBitmap ino false }).setInode ino ci

/-- Inode `ino` is deallocated; nothing it owned is released. -/
def Fs.kill (fs : Fs) (ino : Nat) : Fs :=
  fs.setSbi { fs.sbi with ifreeBitmap := Function.update fs.sbi.ifreeBitmap ino true }

section Birth

variable {fs : Fs} {chain : List Nat} {ino : Nat} {ci : Inode} {lost : Nat → Prop}
  {leak : Nat → Nat → Prop}

theorem Fs.birth_live (ci : Inode) (h0 : ino ≠ 0) (hlt : ino < fs.sbi.nrInodes) (i : Nat) :
    (fs.birth ino ci).Live i ↔ fs.Live i ∨ i = ino := by
  unfold Fs.Live Fs.birth
  simp only [Fs.sbi_setInode, Fs.sbi_setSbi, Function.update_apply]
  by_cases hi : i = ino
  · subst hi; simp [h0, hlt]
  · simp [hi]

theorem Fs.birth_inode (i : Nat) :
    (fs.birth ino ci).inode i = if i = ino then ci else fs.inode i := by
  simp [Fs.birth]

theorem Fs.birth_is (h0 : ino ≠ 0) (hlt : ino < fs.sbi.nrInodes) (hdead : ¬fs.Live ino) (i : Nat)
    (κ : Kind) : (fs.birth ino ci).Is i κ ↔ fs.Is i κ ∨ i = ino ∧ ci.kind = κ := by
  unfold Fs.Is
  rw [Fs.birth_live _ h0 hlt, Fs.birth_inode]
  by_cases hi : i = ino
  · subst hi; simp [hdead]
  · simp [hi]

/-- A born file or directory: a file has no storage, a directory has a block nobody refers to. -/
structure BirthOk (fs : Fs) (chain : List Nat) (ino : Nat) (ci : Inode) : Prop where
  pos : ino ≠ 0
  lt : ino < fs.sbi.nrInodes
  dead : ¬fs.Live ino
  kind : ci.kind = .fresh ∨
    ci.kind = .dir ∧ fs.Used ci.indexBlock ∧ Unref fs chain ci.indexBlock

theorem BirthOk.is_other (h : BirthOk fs chain ino ci) {κ : Kind} (hκ : κ ≠ .fresh)
    (hκ' : κ ≠ .dir) (i : Nat) : (fs.birth ino ci).Is i κ ↔ fs.Is i κ := by
  rw [Fs.birth_is h.pos h.lt h.dead]
  refine or_iff_left ?_
  rintro ⟨-, hk⟩
  rcases h.kind with hf | hd
  · exact hκ (hk.symm.trans hf)
  · exact hκ' (hk.symm.trans hd.1)

theorem BirthOk.inode_of_is (h : BirthOk fs chain ino ci) {i : Nat} {κ : Kind} (hi : fs.Is i κ) :
    (fs.birth ino ci).inode i = fs.inode i := by
  rw [Fs.birth_inode, if_neg]
  rintro rfl
  exact h.dead hi.1

theorem BirthOk.refers (h : BirthOk fs chain ino ci) (r : Ref) (a : Nat) :
    Refers (fs.birth ino ci) chain r a ↔
      Refers fs chain r a ∨ ci.kind = .dir ∧ r = .index ino ∧ a = ci.indexBlock := by
  cases r with
  | header b => simp only [Refers, reduceCtorEq, false_and, and_false, or_false]; exact Iff.rfl
  | sliced b => simp only [Refers, reduceCtorEq, false_and, and_false, or_false]
  | data i j =>
      simp only [Refers, reduceCtorEq, false_and, and_false, or_false]
      rw [h.is_other (by decide) (by decide)]
      refine and_congr_right fun hi => ?_
      have : (fs.birth ino ci).indexOf i = fs.indexOf i := by
        unfold Fs.indexOf
        rw [h.inode_of_is hi]
        rfl
      rw [this]
  | index i =>
      simp only [Refers, Ref.index.injEq]
      rw [Fs.birth_is h.pos h.lt h.dead, h.is_other (by decide) (by decide)]
      constructor
      · rintro ⟨(hi | ⟨rfl, hk⟩) | hi, rfl⟩
        · exact Or.inl ⟨Or.inl hi, by rw [h.inode_of_is hi]⟩
        · exact Or.inr ⟨hk, rfl, by rw [Fs.birth_inode, if_pos rfl]⟩
        · exact Or.inl ⟨Or.inr hi, by rw [h.inode_of_is hi]⟩
      · rintro (⟨hi, rfl⟩ | ⟨hk, rfl, rfl⟩)
        · refine ⟨by tauto, ?_⟩
          rcases hi with hi | hi <;> rw [h.inode_of_is hi]
        · exact ⟨Or.inl (Or.inr ⟨rfl, hk⟩), by rw [Fs.birth_inode, if_pos rfl]⟩

theorem BirthOk.owns (h : BirthOk fs chain ino ci) (i b j : Nat) :
    (fs.birth ino ci).OwnsSlice i b j ↔ fs.OwnsSlice i b j := by
  unfold Fs.OwnsSlice
  rw [h.is_other (by decide) (by decide)]
  exact and_congr_right fun hi => by rw [h.inode_of_is hi]

/-- **A new file or directory keeps the storage invariant.** -/
theorem Core.birth (h : Core fs chain Z) (hb : BirthOk fs chain ino ci) :
    Core (fs.birth ino ci) chain Z := by
  refine ⟨⟨h.sb.meta_lt, h.sb.blocks_lt, h.sb.blocks_le, h.sb.count⟩, h.isChain,
    h.nodup, h.sliced, ?_, h.zero, ?_, ?_⟩
  · rcases hb.kind with hf | ⟨hd, hu, hun⟩
    · refine h.owned.mono (fun r a hr => ?_) fun _ _ _ => id
      rcases (hb.refers r a).1 hr with hr | ⟨hk, -⟩
      · exact hr
      · rw [hf] at hk; cases hk
    · refine h.owned.link (s := .index ino) hun (fun r a hr => ?_) (fun _ => id) hu
      exact ((hb.refers r a).1 hr).imp_right And.right
  · refine h.slices.frame (fun _ _ => .refl _) fun i hi => ?_
    have hi' := (hb.is_other (by decide) (by decide) i).1 hi
    exact ⟨hi', .of_eq (hb.inode_of_is hi')⟩
  · refine ⟨?_, fun i hi => ?_, fun i hi => ?_⟩
    · show Function.update fs.sbi.ifreeBitmap ino false 0 = false
      rw [Function.update_of_ne hb.pos.symm]
      exact h.inodes.bit0
    · rcases (Fs.birth_live _ hb.pos hb.lt i).1 hi with hl | rfl
      · show (Function.update fs.icache ino (some ci) i).isSome
        rw [Function.update_of_ne (by rintro rfl; exact hb.dead hl)]
        exact h.inodes.cached i hl
      · show (Function.update fs.icache i (some ci) i).isSome
        rw [Function.update_self]
        rfl
    · have hi' := (hb.is_other (by decide) (by decide) i).1 hi
      rw [hb.inode_of_is hi']
      exact h.inodes.big i hi'

theorem TightBut.birth (ht : TightBut fs chain lost leak) (hb : BirthOk fs chain ino ci) :
    TightBut (fs.birth ino ci) chain
      (fun a => lost a ∧ ¬(ci.kind = .dir ∧ a = ci.indexBlock)) leak := by
  refine ⟨?_, ?_, fun i hi => ht.noStray i ((hb.is_other (by decide) (by decide) i).1 hi), ?_,
    fun i hi => ?_⟩
  · rintro a ⟨hu, hl⟩
    by_cases hd : ci.kind = .dir ∧ a = ci.indexBlock
    · exact ⟨.index ino, (hb.refers _ a).2 (Or.inr ⟨hd.1, rfl, hd.2⟩)⟩
    · obtain ⟨r, hr⟩ := ht.covered a ⟨hu, fun hc => hl ⟨hc, hd⟩⟩
      exact ⟨r, (hb.refers r a).2 (Or.inl hr)⟩
  · intro b hm j h1 h2 hbit
    refine (ht.bits b hm j h1 h2 hbit).imp_right ?_
    rintro ⟨i, hi⟩
    exact ⟨i, (hb.owns i b j).2 hi⟩
  · intro i hi
    have hi' := (hb.is_other (by decide) (by decide) i).1 hi
    have : (fs.birth ino ci).indexOf i = fs.indexOf i := by
      unfold Fs.indexOf
      rw [hb.inode_of_is hi']
      rfl
    rw [hb.inode_of_is hi', this]
    exact ht.ptrs i hi'
  · have hi' := (hb.is_other (by decide) (by decide) i).1 hi
    rw [hb.inode_of_is hi']
    exact ht.blocks i hi'

end Birth

section Kill

variable {fs : Fs} {chain : List Nat} {ino : Nat} {lost : Nat → Prop} {leak : Nat → Nat → Prop}

theorem Fs.kill_live (i : Nat) : (fs.kill ino).Live i ↔ fs.Live i ∧ i ≠ ino := by
  unfold Fs.Live Fs.kill
  simp only [Fs.sbi_setSbi, Function.update_apply]
  by_cases hi : i = ino
  · simp [hi]
  · simp [hi]

theorem Fs.kill_is (i : Nat) (κ : Kind) : (fs.kill ino).Is i κ ↔ fs.Is i κ ∧ i ≠ ino := by
  unfold Fs.Is
  rw [Fs.kill_live]
  simp only [Fs.kill, Fs.inode_setSbi]
  tauto

theorem Fs.kill_owns (i b j : Nat) :
    (fs.kill ino).OwnsSlice i b j ↔ fs.OwnsSlice i b j ∧ i ≠ ino := by
  unfold Fs.OwnsSlice
  rw [Fs.kill_is]
  simp only [Fs.kill, Fs.inode_setSbi]
  tauto

/-- The references that inode `ino` holds. -/
def Ref.By (ino : Nat) : Ref → Prop
  | .index i => i = ino
  | .data i _ => i = ino
  | _ => False

/-- What an inode refers to is no sliced block. -/
theorem Core.by_notin_chain (h : Core fs chain Z) {r : Ref} {b : Nat} (hby : r.By ino)
    (hr : Refers fs chain r b) : b ∉ chain := by
  intro hc
  rw [h.owned.inj hr (show Refers fs chain (.sliced b) b from ⟨rfl, hc⟩)] at hby
  exact hby

theorem Fs.kill_refers (r : Ref) (a : Nat) :
    Refers (fs.kill ino) chain r a ↔ Refers fs chain r a ∧ ¬r.By ino := by
  cases r with
  | header b => simp only [Refers, Ref.By, not_false_eq_true, and_true]; exact Iff.rfl
  | sliced b => simp only [Refers, Ref.By, not_false_eq_true, and_true]
  | index i =>
      simp only [Refers, Ref.By, Fs.kill_is]
      simp only [Fs.kill, Fs.inode_setSbi]
      tauto
  | data i j =>
      simp only [Refers, Ref.By, Fs.kill_is]
      simp only [Fs.indexOf, Fs.kill, Fs.inode_setSbi, Fs.disk_setSbi]
      tauto

/-- **An inode may die.** -/
theorem Core.kill (h : Core fs chain Z) (h0 : ino ≠ 0) : Core (fs.kill ino) chain Z := by
  refine ⟨⟨h.sb.meta_lt, h.sb.blocks_lt, h.sb.blocks_le, h.sb.count⟩, h.isChain,
    h.nodup, h.sliced, ?_, h.zero, ?_, ?_⟩
  · exact h.owned.mono (fun r a hr => ((Fs.kill_refers r a).1 hr).1) fun _ _ _ => id
  · refine h.slices.frame (fun _ _ => .refl _) fun i hi => ?_
    exact ⟨((Fs.kill_is i .small).1 hi).1, .refl _⟩
  · refine ⟨?_, fun i hi => ?_, fun i hi => ?_⟩
    · show Function.update fs.sbi.ifreeBitmap ino true 0 = false
      rw [Function.update_of_ne h0.symm]
      exact h.inodes.bit0
    · exact h.inodes.cached i ((Fs.kill_live i).1 hi).1
    · exact h.inodes.big i ((Fs.kill_is i .big).1 hi).1

theorem TightBut.kill (ht : TightBut fs chain lost leak) :
    TightBut (fs.kill ino) chain (fun a => lost a ∨ ∃ r : Ref, r.By ino ∧ Refers fs chain r a)
      fun b j => leak b j ∨ fs.OwnsSlice ino b j := by
  refine ⟨?_, ?_, fun i hi => ht.noStray i ((Fs.kill_is i .stray).1 hi).1,
    fun i hi => ht.ptrs i ((Fs.kill_is i .big).1 hi).1,
    fun i hi => ht.blocks i ((Fs.kill_is i .big).1 hi).1⟩
  · rintro a ⟨hu, hl⟩
    simp only [not_or, not_exists] at hl
    obtain ⟨r, hr⟩ := ht.covered a ⟨hu, hl.1⟩
    exact ⟨r, (Fs.kill_refers r a).2 ⟨hr, fun hb => hl.2 r ⟨hb, hr⟩⟩⟩
  · intro b hm j h1 h2 hbit
    rcases ht.bits b hm j h1 h2 hbit with hl | ⟨i, hi⟩
    · exact Or.inl (Or.inl hl)
    · by_cases hii : i = ino
      · exact Or.inl (Or.inr (hii ▸ hi))
      · exact Or.inr ⟨i, (Fs.kill_owns i b j).2 ⟨hi, hii⟩⟩

end Kill

end Ouichefs
