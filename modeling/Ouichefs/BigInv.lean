import Ouichefs.Unlink

/-!
# Big files and the invariant

The elementary steps of `write_big_file`: the inode of a file changes its block fields
(`Core.setFile`), and a lost block becomes a data block (`Core.linkData`).
-/

set_option autoImplicit false

namespace Ouichefs

open FreeMap

section SetFile

variable {fs : Fs} {chain : List Nat} {ino : Nat} {ci : Inode} {lost : Nat → Prop}
  {leak : Nat → Nat → Prop}

theorem Fs.setInode_live (i : Nat) : (fs.setInode ino ci).Live i ↔ fs.Live i := Iff.rfl

theorem Fs.setInode_is_other {i : Nat} (hi : i ≠ ino) (κ : Kind) :
    (fs.setInode ino ci).Is i κ ↔ fs.Is i κ := by
  unfold Fs.Is
  rw [Fs.setInode_live, Fs.inode_setInode, if_neg hi]

theorem Fs.setInode_is_self (hl : fs.Live ino) (κ : Kind) :
    (fs.setInode ino ci).Is ino κ ↔ ci.kind = κ := by
  unfold Fs.Is
  rw [Fs.setInode_live, Fs.inode_setInode, if_pos rfl]
  exact and_iff_right hl

theorem Fs.setInode_indexOf_other {i : Nat} (hi : i ≠ ino) :
    (fs.setInode ino ci).indexOf i = fs.indexOf i := by
  unfold Fs.indexOf
  rw [Fs.inode_setInode, if_neg hi]
  rfl

theorem Fs.setInode_indexOf_self : (fs.setInode ino ci).indexOf ino = fs.disk ci.indexBlock := by
  unfold Fs.indexOf
  rw [Fs.inode_setInode, if_pos rfl]
  rfl

/-- References not held by `ino` do not depend on its inode. -/
theorem refers_setInode_other {r : Ref} (hr : ¬r.By ino) (a : Nat) :
    Refers (fs.setInode ino ci) chain r a ↔ Refers fs chain r a := by
  cases r with
  | header b => exact Iff.rfl
  | sliced b => exact Iff.rfl
  | index i =>
      have hi : i ≠ ino := hr
      simp only [Refers, Fs.setInode_is_other hi, Fs.inode_setInode, if_neg hi]
  | data i j =>
      have hi : i ≠ ino := hr
      simp only [Refers, Fs.setInode_is_other hi, Fs.setInode_indexOf_other hi]

/-- The references of a file that is not a directory. -/
theorem refers_setInode_self (hl : fs.Live ino) (hd : ci.kind ≠ .dir) {r : Ref} (hr : r.By ino)
    (a : Nat) : Refers (fs.setInode ino ci) chain r a ↔ ci.kind = .big ∧
      (r = .index ino ∧ a = ci.indexBlock ∨
        ∃ i < 1024, r = .data ino i ∧ a = indexPtr (fs.disk ci.indexBlock) i ∧ a ≠ 0) := by
  cases r with
  | header b => exact hr.elim
  | sliced b => exact hr.elim
  | index i =>
      cases hr
      simp only [Refers, Fs.setInode_is_self hl, Fs.inode_setInode, if_pos, hd, false_or]
      simp
  | data i j =>
      cases hr
      simp only [Refers, Fs.setInode_is_self hl, Fs.setInode_indexOf_self]
      simp only [reduceCtorEq, false_and, Ref.data.injEq, true_and, false_or]
      constructor
      · rintro ⟨h1, h2, h3, h4⟩
        exact ⟨h1, j, h2, rfl, h3, h4⟩
      · rintro ⟨h1, i, h2, rfl, h3, h4⟩
        exact ⟨h1, h2, h3, h4⟩

/-- The storage fields of a file change, its references staying sound. -/
theorem Core.setFile {Z : Prop} (h : Core fs chain Z) (hl : fs.Live ino)
    (hm : ci.iMode = (fs.inode ino).iMode) (hs : ci.kind ≠ .small)
    (hb : ci.kind = .big → ci.BigOk)
    (ho : Owned fs.Used (Refers (fs.setInode ino ci) chain)) :
    Core (fs.setInode ino ci) chain Z := by
  refine ⟨⟨h.sb.meta_lt, h.sb.blocks_lt, h.sb.blocks_le, h.sb.count⟩, h.isChain,
    h.nodup, h.sliced, ho, h.zero, ?_, ?_⟩
  · refine h.slices.frame (fun _ _ => .refl _) fun i hi => ?_
    have hne : i ≠ ino := by
      rintro rfl
      exact hs ((Fs.setInode_is_self hl _).1 hi)
    exact ⟨(Fs.setInode_is_other hne _).1 hi, .of_eq (by rw [Fs.inode_setInode, if_neg hne])⟩
  · refine ⟨h.inodes.bit0, fun i hi => ?_, fun i hi => ?_⟩
    · show (Function.update fs.icache ino (some ci) i).isSome
      rw [Function.update_apply]
      split
      · rfl
      · exact h.inodes.cached i hi
    · by_cases hii : i = ino
      · subst hii
        rw [Fs.inode_setInode, if_pos rfl]
        exact hb ((Fs.setInode_is_self hl _).1 hi)
      · rw [Fs.inode_setInode, if_neg hii]
        exact h.inodes.big i ((Fs.setInode_is_other hii _).1 hi)

/-- A file that owns no slices before or after. -/
theorem TightBut.setFile (ht : TightBut fs chain lost leak) (hl : fs.Live ino)
    (hold : ¬fs.Is ino .small) (hns : ci.kind ≠ .stray) {lost' : Nat → Prop}
    (hcov : ∀ a, fs.Used a → ¬lost' a → (∀ r, r.By ino → Refers fs chain r a →
      ∃ r', Refers (fs.setInode ino ci) chain r' a))
    (hlost : ∀ a, lost a → lost' a ∨ ∃ r', Refers (fs.setInode ino ci) chain r' a)
    (hptrs : ci.kind = .big → ∀ i, ci.iBlocks - 1 ≤ i → i < 1024 →
      indexPtr (fs.disk ci.indexBlock) i = 0)
    (hblocks : ci.kind = .big → ci.BlocksExact) :
    TightBut (fs.setInode ino ci) chain lost' leak := by
  refine ⟨?_, ?_, fun i hi => ?_, fun i hi => ?_, fun i hi => ?_⟩
  · rintro a ⟨hu, hnl⟩
    by_cases hla : lost a
    · exact (hlost a hla).resolve_left hnl
    · obtain ⟨r, hr⟩ := ht.covered a ⟨hu, hla⟩
      by_cases hby : r.By ino
      · exact hcov a hu hnl r hby hr
      · exact ⟨r, (refers_setInode_other hby a).2 hr⟩
  · intro b hm j h1 h2 hbit
    refine (ht.bits b hm j h1 h2 hbit).imp_right ?_
    rintro ⟨i, hi⟩
    have hne : i ≠ ino := by
      rintro rfl
      exact hold hi.1
    refine ⟨i, (Fs.setInode_is_other hne _).2 hi.1, ?_⟩
    rw [Fs.inode_setInode, if_neg hne]
    exact hi.2
  · by_cases hii : i = ino
    · subst hii
      exact hns ((Fs.setInode_is_self hl _).1 hi)
    · exact ht.noStray i ((Fs.setInode_is_other hii _).1 hi)
  · by_cases hii : i = ino
    · subst hii
      rw [Fs.inode_setInode, if_pos rfl, Fs.setInode_indexOf_self]
      exact hptrs ((Fs.setInode_is_self hl _).1 hi)
    · rw [Fs.inode_setInode, if_neg hii, Fs.setInode_indexOf_other hii]
      exact ht.ptrs i ((Fs.setInode_is_other hii _).1 hi)
  · by_cases hii : i = ino
    · subst hii
      rw [Fs.inode_setInode, if_pos rfl]
      exact hblocks ((Fs.setInode_is_self hl _).1 hi)
    · rw [Fs.inode_setInode, if_neg hii]
      exact ht.blocks i ((Fs.setInode_is_other hii _).1 hi)

end SetFile

/-! ## Data blocks -/

/-- Pointer `i` of index block `idx` set to `b`. -/
def Fs.linkData (fs : Fs) (idx i b : Nat) : Fs :=
  fs.setBlock idx ((fs.disk idx).setWord (4 * i) b)

theorem indexPtr_setWord (I : Block) {i b : Nat} (hi : i < 1024) (hb : b < 4294967296) (j : Nat) :
    indexPtr (I.setWord (4 * i) b) j = if j = i then b else indexPtr I j := by
  unfold indexPtr
  split
  · rename_i hji
    rw [hji, Page.word_setWord I (by omega), Nat.mod_eq_of_lt hb]
  · exact Page.word_setWord_of_disjoint I (by omega) (by omega)

section LinkData

variable {fs : Fs} {chain : List Nat} {ino i b : Nat} {lost : Nat → Prop} {leak : Nat → Nat → Prop}

theorem Core.linkData_index (h : Core fs chain) (hk : fs.Is ino .big) {d : Nat}
    (hd : fs.Is d .dir ∨ fs.Is d .big) :
    (fs.linkData (fs.inode ino).indexBlock i b).indexOf d =
      if d = ino then (fs.indexOf ino).setWord (4 * i) b else fs.indexOf d := by
  unfold Fs.linkData Fs.indexOf
  rw [Fs.inode_setBlock, Fs.disk_setBlock]
  by_cases hdi : d = ino
  · rw [hdi, if_pos rfl, if_pos rfl]
  · rw [if_neg, if_neg hdi]
    refine h.ne_of_refs (r := .index d) (s := .index ino) ⟨hd, rfl⟩ ⟨Or.inr hk, rfl⟩ ?_
    rintro ⟨⟩
    exact hdi rfl

/-- Filling a hole adds one reference. -/
theorem Core.linkData_refers (h : Core fs chain) (hk : fs.Is ino .big) (hi : i < 1024)
    (hb : b < 4294967296) (h0 : b ≠ 0) (hole : indexPtr (fs.indexOf ino) i = 0) (r : Ref) (a : Nat) :
    Refers (fs.linkData (fs.inode ino).indexBlock i b) chain r a ↔
      Refers fs chain r a ∨ r = .data ino i ∧ a = b := by
  cases r with
  | header c => simp only [Refers, reduceCtorEq, false_and, or_false]; exact Iff.rfl
  | sliced c => simp only [Refers, reduceCtorEq, false_and, or_false]
  | index d => simp only [reduceCtorEq, false_and, or_false]; exact Iff.rfl
  | data d j =>
      simp only [Refers, Ref.data.injEq]
      have his : (fs.linkData (fs.inode ino).indexBlock i b).Is d .big ↔ fs.Is d .big := Iff.rfl
      rw [his]
      by_cases hd : fs.Is d .big
      · rw [h.linkData_index hk (Or.inr hd)]
        by_cases hdi : d = ino
        · subst hdi
          rw [if_pos rfl, indexPtr_setWord _ hi hb]
          by_cases hji : j = i
          · subst hji
            rw [if_pos rfl, hole]
            constructor
            · rintro ⟨-, -, rfl, -⟩
              exact Or.inr ⟨⟨rfl, rfl⟩, rfl⟩
            · rintro (⟨-, -, h1, h2⟩ | ⟨-, rfl⟩)
              · exact absurd h1 h2
              · exact ⟨hk, hi, rfl, h0⟩
          · rw [if_neg hji]
            simp [hji]
        · rw [if_neg hdi]
          simp [hdi]
      · constructor
        · rintro ⟨hd', -⟩; exact absurd hd' hd
        · rintro (⟨hd', -⟩ | ⟨⟨rfl, rfl⟩, -⟩)
          · exact absurd hd' hd
          · exact absurd hk hd

/-- **A lost block may become a data block.** -/
theorem Core.linkData (h : Core fs chain) (hk : fs.Is ino .big) (hi : i < 1024) (hu : fs.Used b)
    (hr : Unref fs chain b) (h0 : b ≠ 0) (hole : indexPtr (fs.indexOf ino) i = 0) :
    Core (fs.linkData (fs.inode ino).indexBlock i b) chain := by
  have hb : b < 4294967296 := by
    have := h.sb.blocks_lt
    have := hu.1
    omega
  have hiu := h.big_used hk
  have hne : ∀ c ∈ chain, c ≠ (fs.inode ino).indexBlock := by
    rintro c hm rfl
    exact h.dir_notin_chain (Or.inr hk) hm
  refine ⟨⟨h.sb.meta_lt, h.sb.blocks_lt, h.sb.blocks_le, h.sb.count⟩, ?_, h.nodup,
    h.sliced, ?_, ?_, ?_, ⟨h.inodes.bit0, h.inodes.cached, h.inodes.big⟩⟩
  · refine h.isChain.congr fun c hm => ?_
    unfold Fs.next Fs.linkData
    rw [Fs.disk_setBlock, if_neg (hne c hm)]
  · exact h.owned.link hr (fun r a hra => (h.linkData_refers hk hi hb h0 hole r a).1 hra)
      (fun _ => id) hu
  · intro _ c hcl hcf
    unfold Fs.linkData
    rw [Fs.disk_setBlock, if_neg, h.zero trivial c hcl hcf]
    rintro rfl
    have hcf' : fs.sbi.bfreeBitmap (fs.inode ino).indexBlock = true := hcf
    rw [hiu.2] at hcf'
    cases hcf'
  · refine h.slices.frame (fun c hm => ?_) fun i hi => ⟨hi, .refl _⟩
    unfold Fs.linkData
    rw [Fs.disk_setBlock, if_neg (hne c hm)]
    exact .refl _

theorem TightBut.linkData (ht : TightBut fs chain lost leak) (h : Core fs chain)
    (hk : fs.Is ino .big) (hi : i < 1024) (hib : i < (fs.inode ino).iBlocks - 1)
    (hb : b < 4294967296) (h0 : b ≠ 0) (hole : indexPtr (fs.indexOf ino) i = 0) :
    TightBut (fs.linkData (fs.inode ino).indexBlock i b) chain (fun a => lost a ∧ a ≠ b) leak := by
  refine ⟨?_, ?_, ht.noStray, fun d hd => ?_, ht.blocks⟩
  · rintro a ⟨hu, hl⟩
    by_cases hab : a = b
    · exact ⟨.data ino i, (h.linkData_refers hk hi hb h0 hole _ a).2 (Or.inr ⟨rfl, hab⟩)⟩
    · obtain ⟨r, hr⟩ := ht.covered a ⟨hu, fun hla => hl ⟨hla, hab⟩⟩
      exact ⟨r, (h.linkData_refers hk hi hb h0 hole r a).2 (Or.inl hr)⟩
  · intro c hm j h1 h2 hbit
    unfold Fs.linkData at hbit
    rw [Fs.disk_setBlock, if_neg] at hbit
    · exact ht.bits c hm j h1 h2 hbit
    · rintro rfl
      exact h.dir_notin_chain (Or.inr hk) hm
  · have hd' : fs.Is d .big := hd
    rw [h.linkData_index hk (Or.inr hd')]
    split
    · rename_i hdi
      subst hdi
      intro j h1 h2
      have h1' : (fs.inode d).iBlocks - 1 ≤ j := h1
      rw [indexPtr_setWord _ hi hb, if_neg (by omega)]
      exact ht.ptrs d hd' j h1 h2
    · exact ht.ptrs d hd'

end LinkData

end Ouichefs
