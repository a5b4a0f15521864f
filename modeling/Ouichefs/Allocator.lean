import Ouichefs.Bitmap
import Ouichefs.Lib.Pool
import Ouichefs.Lib.Run

/-!
# The allocator as a pool of free numbers

`get_free_inode` and `put_inode` work on the inode bitmap, `get_free_block` and `put_block` on the
block bitmap, each with its counter.  A `Ledger` adds the numbers that were handed out and not put
back; over runs in which only those are put, each region refines a `Pool`.  Any numbers may be put
in `rejected_iff`: bits at or beyond the size stay as they are unless the size itself is put, which
can write past the allocated bitmap (`put_past_map_iff`).
-/

set_option autoImplicit false

namespace Ouichefs

open FreeMap

/-- The two bitmaps. -/
inductive Region where
  | inode
  | block
  deriving DecidableEq, Repr

namespace SbInfo

def freemap (sbi : SbInfo) : Region → Nat → Bool
  | .inode => sbi.ifreeBitmap
  | .block => sbi.bfreeBitmap

def size (sbi : SbInfo) : Region → Nat
  | .inode => sbi.nrInodes
  | .block => sbi.nrBlocks

def nrFree (sbi : SbInfo) : Region → Nat
  | .inode => sbi.nrFreeInodes
  | .block => sbi.nrFreeBlocks

def get (sbi : SbInfo) : Region → Nat × SbInfo
  | .inode => sbi.getFreeInode
  | .block => sbi.getFreeBlock

def put (sbi : SbInfo) : Region → Nat → SbInfo
  | .inode => sbi.putInode
  | .block => sbi.putBlock

/-- Replace a bitmap and its counter. -/
def withMap (sbi : SbInfo) (map : Nat → Bool) (n : Nat) : Region → SbInfo
  | .inode => { sbi with ifreeBitmap := map, nrFreeInodes := n }
  | .block => { sbi with bfreeBitmap := map, nrFreeBlocks := n }

variable (sbi : SbInfo) (map : Nat → Bool) (n : Nat) (r r' : Region)

@[simp] theorem size_withMap : (sbi.withMap map n r).size r' = sbi.size r' := by
  cases r <;> cases r' <;> rfl

@[simp] theorem freemap_withMap_self : (sbi.withMap map n r).freemap r = map := by
  cases r <;> rfl

@[simp] theorem nrFree_withMap_self : (sbi.withMap map n r).nrFree r = n := by
  cases r <;> rfl

variable {r r'}

theorem freemap_withMap_of_ne (h : r' ≠ r) : (sbi.withMap map n r).freemap r' = sbi.freemap r' := by
  cases r <;> cases r' <;> first | rfl | exact absurd rfl h

theorem nrFree_withMap_of_ne (h : r' ≠ r) : (sbi.withMap map n r).nrFree r' = sbi.nrFree r' := by
  cases r <;> cases r' <;> first | rfl | exact absurd rfl h

variable {sbi}

theorem get_eq (sbi : SbInfo) (r : Region) :
    sbi.get r = ((getFirstFreeBit (sbi.freemap r) (sbi.size r)).1,
      sbi.withMap (getFirstFreeBit (sbi.freemap r) (sbi.size r)).2
        (if (getFirstFreeBit (sbi.freemap r) (sbi.size r)).1 ≠ 0 then sub32 (sbi.nrFree r) 1
          else sbi.nrFree r) r) := by
  by_cases h : (getFirstFreeBit (sbi.freemap r) (sbi.size r)).1 ≠ 0
  · rw [if_pos h]
    cases r with
    | inode => exact if_pos h
    | block => exact if_pos h
  · rw [if_neg h]
    cases r with
    | inode => exact if_neg h
    | block => exact if_neg h

/-- With bit 0 clear, the least free number is handed out, or nothing changes. -/
theorem get_cases (h0 : sbi.freemap r 0 = false) :
    (∃ b, 0 < b ∧ b < sbi.size r ∧ sbi.freemap r b = true ∧ (∀ j < b, sbi.freemap r j = false) ∧
      sbi.get r = (b, sbi.withMap (Function.update (sbi.freemap r) b false)
        (sub32 (sbi.nrFree r) 1) r)) ∨
    ((∀ b < sbi.size r, sbi.freemap r b = false) ∧ sbi.get r = (0, sbi)) := by
  rw [get_eq]
  rcases getFirstFreeBit_cases (sbi.size r) h0 with
    ⟨b, hpos, hb, hset, hleast, heq⟩ | ⟨hno, heq⟩
  · refine Or.inl ⟨b, hpos, hb, hset, hleast, ?_⟩
    rw [heq, if_pos (Nat.pos_iff_ne_zero.1 hpos)]
  · refine Or.inr ⟨hno, ?_⟩
    rw [heq, if_neg (fun h => h rfl)]
    cases r <;> rfl

theorem put_eq (sbi : SbInfo) (r : Region) (i : Nat) :
    sbi.put r i = if i > sbi.size r then sbi else
      sbi.withMap (Function.update (sbi.freemap r) i true) (add32 (sbi.nrFree r) 1) r := by
  by_cases h : i > sbi.size r
  · rw [if_pos h]
    have hmap := putFreeBit_of_gt (sbi.freemap r) h
    cases r with
    | inode =>
        simp only [freemap, size] at hmap
        simp only [put, putInode, hmap]
    | block =>
        simp only [freemap, size] at hmap
        simp only [put, putBlock, hmap]
  · rw [if_neg h]
    have hmap := putFreeBit_eq (sbi.freemap r) (Nat.not_lt.1 h)
    cases r with
    | inode =>
        simp only [freemap, size] at hmap
        simp only [put, putInode, hmap]
        rfl
    | block =>
        simp only [freemap, size] at hmap
        simp only [put, putBlock, hmap]
        rfl

/-- The sizes, the counters and the bits below the sizes agree. -/
structure SameBelow (sbi sbi' : SbInfo) : Prop where
  size : ∀ r, sbi'.size r = sbi.size r
  nrFree : ∀ r, sbi'.nrFree r = sbi.nrFree r
  freemap : ∀ r, ∀ i < sbi.size r, sbi'.freemap r i = sbi.freemap r i

theorem SameBelow.withMap {sbi' : SbInfo} (h : SameBelow sbi sbi') {map map' : Nat → Bool}
    (hmap : ∀ i < sbi.size r, map' i = map i) (n : Nat) :
    SameBelow (sbi.withMap map n r) (sbi'.withMap map' n r) := by
  constructor
  · intro r'
    simpa using h.size r'
  · intro r'
    by_cases hr : r' = r
    · subst hr
      simp
    · rw [nrFree_withMap_of_ne _ _ _ hr, nrFree_withMap_of_ne _ _ _ hr]
      exact h.nrFree r'
  · intro r' i hi
    rw [size_withMap] at hi
    by_cases hr : r' = r
    · subst hr
      simpa using hmap i hi
    · rw [freemap_withMap_of_ne _ _ _ hr, freemap_withMap_of_ne _ _ _ hr]
      exact h.freemap r' i hi

theorem SameBelow.get {sbi' : SbInfo} (h : SameBelow sbi sbi') (r : Region) :
    (sbi'.get r).1 = (sbi.get r).1 ∧ SameBelow (sbi.get r).2 (sbi'.get r).2 := by
  obtain ⟨hi, hmap⟩ := getFirstFreeBit_congr (h.freemap r)
  rw [get_eq, get_eq, h.size, h.nrFree, hi]
  exact ⟨rfl, h.withMap hmap _⟩

theorem SameBelow.put {sbi' : SbInfo} (h : SameBelow sbi sbi') (r : Region) (i : Nat) :
    SameBelow (sbi.put r i) (sbi'.put r i) := by
  rw [put_eq, put_eq, h.size, h.nrFree]
  split
  · exact h
  · refine h.withMap (fun j hj => ?_) _
    simp only [Function.update_apply]
    rw [h.freemap r j hj]

end SbInfo

/-! ## Runs -/

/-- A call of the allocator of one region. -/
abbrev AllocCall := Region × PoolCall Nat

/-- The superblock and the numbers that were handed out and not put back. -/
structure Ledger where
  sbi : SbInfo
  held : Region → Finset Nat

namespace Ledger

/-- One call; a put answers 0. -/
def exec (l : Ledger) : AllocCall → Except Empty (Nat × Ledger)
  | (r, .get) =>
    match l.sbi.get r with
    | (i, sbi) =>
      .ok (i, ⟨sbi, if i = 0 then l.held else Function.update l.held r (insert i (l.held r))⟩)
  | (r, .put i) => .ok (0, ⟨l.sbi.put r i, Function.update l.held r ((l.held r).erase i)⟩)

/-- Only numbers that were handed out and not put back since are put. -/
def Fair (l : Ledger) : AllocCall → Prop
  | (_, .get) => True
  | (r, .put i) => i ∈ l.held r

instance (l : Ledger) : ∀ c, Decidable (l.Fair c)
  | (_, .get) => isTrue trivial
  | (r, .put i) => inferInstanceAs (Decidable (i ∈ l.held r))

/-- What is free and what is handed out in region `r`. -/
def pool (l : Ledger) (r : Region) : Pool Nat where
  free := {i | i < l.sbi.size r ∧ l.sbi.freemap r i = true}
  held := {i | i ∈ l.held r}

structure Inv (l : Ledger) : Prop where
  zero : ∀ r, l.sbi.freemap r 0 = false
  lt : ∀ r, l.sbi.size r < 4294967296
  count : ∀ r, l.sbi.nrFree r = countBits (l.sbi.freemap r) (l.sbi.size r)
  held : ∀ r, ∀ i ∈ l.held r, 0 < i ∧ i < l.sbi.size r ∧ l.sbi.freemap r i = false

variable {l : Ledger}

/-- Replace what the ledger says about one region. -/
def withMap (l : Ledger) (r : Region) (map : Nat → Bool) (n : Nat) (held : Finset Nat) : Ledger :=
  ⟨l.sbi.withMap map n r, Function.update l.held r held⟩

section WithMap

variable {r : Region} {map : Nat → Bool} {n : Nat} {held : Finset Nat}

theorem pool_withMap_self : (l.withMap r map n held).pool r =
    ⟨{i | i < l.sbi.size r ∧ map i = true}, {i | i ∈ held}⟩ := by
  unfold pool withMap
  simp

theorem pool_withMap_of_ne {r' : Region} (h : r' ≠ r) :
    (l.withMap r map n held).pool r' = l.pool r' := by
  unfold pool withMap
  simp [SbInfo.freemap_withMap_of_ne l.sbi map n h, h]

theorem Inv.withMap (hi : l.Inv) (hz : map 0 = false) (hn : n = countBits map (l.sbi.size r))
    (hh : ∀ i ∈ held, 0 < i ∧ i < l.sbi.size r ∧ map i = false) :
    (l.withMap r map n held).Inv := by
  unfold Ledger.withMap
  constructor
  · intro r'
    by_cases h : r' = r
    · subst h
      simpa using hz
    · rw [SbInfo.freemap_withMap_of_ne _ _ _ h]
      exact hi.zero r'
  · intro r'
    rw [SbInfo.size_withMap]
    exact hi.lt r'
  · intro r'
    rw [SbInfo.size_withMap]
    by_cases h : r' = r
    · subst h
      simpa using hn
    · rw [SbInfo.freemap_withMap_of_ne _ _ _ h, SbInfo.nrFree_withMap_of_ne _ _ _ h]
      exact hi.count r'
  · intro r' i him
    rw [SbInfo.size_withMap]
    by_cases h : r' = r
    · subst h
      simp only [Function.update_self] at him
      simpa using hh i him
    · simp only [Function.update_of_ne h] at him
      rw [SbInfo.freemap_withMap_of_ne _ _ _ h]
      exact hi.held r' i him

end WithMap

end Ledger

/-- A result as the answer of a pool: 0 is the error value. -/
def answer (i : Nat) : Option Nat := if i = 0 then none else some i

namespace Ledger

variable {l : Ledger} {r : Region}

/-- Getting hands out the least free number, or answers 0 when none is free. -/
theorem Inv.get (hi : l.Inv) :
    ∃ i l', l.exec (r, .get) = .ok (i, l') ∧ l'.Inv ∧
      PoolStep (l.pool r) .get (answer i) (l'.pool r) ∧ ∀ r' ≠ r, l'.pool r' = l.pool r' := by
  rcases SbInfo.get_cases (hi.zero r) with ⟨b, hpos, hb, hset, hleast, heq⟩ | ⟨hno, heq⟩
  · have hne := Nat.pos_iff_ne_zero.1 hpos
    have hcount := countBits_clear hb hset
    have hle := countBits_le (l.sbi.freemap r) (l.sbi.size r)
    have hlt := hi.lt r
    have hsub : sub32 (l.sbi.nrFree r) 1 =
        countBits (Function.update (l.sbi.freemap r) b false) (l.sbi.size r) := by
      rw [hi.count r, sub32_of_le (by omega) (by omega)]
      omega
    refine ⟨b, l.withMap r (Function.update (l.sbi.freemap r) b false) (sub32 (l.sbi.nrFree r) 1)
      (insert b (l.held r)), ?_, hi.withMap ?_ hsub ?_, ?_, fun r' h => pool_withMap_of_ne h⟩
    · simp only [exec, heq, if_neg hne]
      rfl
    · rw [Function.update_of_ne (by omega)]
      exact hi.zero r
    · intro i him
      rcases Finset.mem_insert.1 him with rfl | hold
      · exact ⟨hpos, hb, Function.update_self ..⟩
      · obtain ⟨h1, h2, h3⟩ := hi.held r i hold
        refine ⟨h1, h2, ?_⟩
        by_cases hib : i = b
        · rw [hib, Function.update_self]
        · rw [Function.update_of_ne hib, h3]
    · rw [pool_withMap_self, answer, if_neg hne]
      have hmin : IsLeast (l.pool r).free b := by
        refine ⟨⟨hb, hset⟩, fun j hj => ?_⟩
        by_contra hlt
        have := hleast j (by omega)
        rw [hj.2] at this
        cases this
      convert PoolStep.got hmin using 1
      refine congrArg₂ Pool.mk ?_ ?_
      · ext j
        by_cases hjb : j = b
        · simp [hjb, pool]
        · simp [hjb, pool]
      · ext j
        simp [pool]
  · refine ⟨0, l, ?_, hi, ?_, fun r' _ => rfl⟩
    · simp only [exec, heq]
      rfl
    · refine PoolStep.refused (Set.eq_empty_iff_forall_notMem.2 fun j hj => ?_)
      have := hno j hj.1
      rw [hj.2] at this
      cases this

/-- Putting takes a held number back. -/
theorem Inv.put (hi : l.Inv) {i : Nat} (hheld : i ∈ l.held r) :
    ∃ l', l.exec (r, .put i) = .ok (0, l') ∧ l'.Inv ∧
      PoolStep (l.pool r) (.put i) none (l'.pool r) ∧ ∀ r' ≠ r, l'.pool r' = l.pool r' := by
  obtain ⟨hpos, hlt, hclear⟩ := hi.held r i hheld
  have hcount := countBits_set hlt hclear
  have hle := countBits_le (Function.update (l.sbi.freemap r) i true) (l.sbi.size r)
  have hsize := hi.lt r
  have hadd : add32 (l.sbi.nrFree r) 1 =
      countBits (Function.update (l.sbi.freemap r) i true) (l.sbi.size r) := by
    rw [hi.count r, add32_of_lt (by omega), hcount]
  refine ⟨l.withMap r (Function.update (l.sbi.freemap r) i true) (add32 (l.sbi.nrFree r) 1)
    ((l.held r).erase i), ?_, hi.withMap ?_ hadd ?_, ?_, fun r' h => pool_withMap_of_ne h⟩
  · simp only [exec]
    rw [SbInfo.put_eq, if_neg (by omega)]
    rfl
  · rw [Function.update_of_ne (by omega)]
    exact hi.zero r
  · intro j hj
    obtain ⟨hji, hold⟩ := Finset.mem_erase.1 hj
    rw [Function.update_of_ne hji]
    exact hi.held r j hold
  · rw [pool_withMap_self]
    convert PoolStep.put (p := l.pool r) (a := i) hheld using 1
    refine congrArg₂ Pool.mk ?_ ?_
    · ext j
      by_cases hji : j = i
      · simp [hji, pool, hlt]
      · simp [hji, pool]
    · ext j
      by_cases hji : j = i
      · simp [hji, pool]
      · simp [hji, pool]

/-- The pools say what the bitmaps say, and the counters are exact. -/
def Represents (l : Ledger) (p : Region → Pool Nat) : Prop :=
  ∀ r, p r = l.pool r ∧ l.sbi.nrFree r = countBits (l.sbi.freemap r) (l.sbi.size r)

/-- A step of one pool. -/
def PoolsStep (p : Region → Pool Nat) (c : AllocCall) (i : Nat) (p' : Region → Pool Nat) : Prop :=
  PoolStep (p c.1) c.2 (answer i) (p' c.1) ∧ ∀ r ≠ c.1, p' r = p r

theorem Inv.represents (hi : l.Inv) : l.Represents l.pool := fun r => ⟨rfl, hi.count r⟩

theorem Inv.step (hi : l.Inv) {c : AllocCall} (hc : l.Fair c) :
    ∃ i l', l.exec c = .ok (i, l') ∧ l'.Inv ∧ PoolsStep l.pool c i l'.pool := by
  obtain ⟨r, c⟩ := c
  cases c with
  | get =>
      obtain ⟨i, l', he, hi', hs, hrest⟩ := hi.get (r := r)
      exact ⟨i, l', he, hi', hs, hrest⟩
  | put i =>
      obtain ⟨l', he, hi', hs, hrest⟩ := hi.put hc
      exact ⟨0, l', he, hi', hs, hrest⟩

theorem Inv.simulates (hi : l.Inv) {cs : List AllocCall} (ha : Admissible exec Fair l cs) :
    Simulates exec Represents PoolsStep l l.pool cs := by
  refine simulates_of_step (I := Inv) ?_ cs l l.pool hi hi.represents ha
  intro l p c hi hp hc
  obtain rfl : p = l.pool := funext fun r => (hp r).1
  obtain ⟨i, l', he, hi', hs⟩ := hi.step hc
  exact ⟨i, l', l'.pool, he, hs, hi', hi'.represents⟩

/-- Two ledgers that agree below the sizes get the same answers. -/
theorem transcript_congr {cs : List AllocCall} {l' : Ledger} (h : l.sbi.SameBelow l'.sbi)
    (hheld : l'.held = l.held) : transcript exec l' cs = transcript exec l cs := by
  induction cs generalizing l l' with
  | nil => rfl
  | cons c cs ih =>
      obtain ⟨r, c⟩ := c
      cases c with
      | get =>
          obtain ⟨hi, hsame⟩ := h.get r
          simp only [transcript, exec, hi, hheld]
          exact congrArg (List.cons _) (ih hsame rfl)
      | put i =>
          simp only [transcript, exec, hheld]
          exact congrArg (List.cons _) (ih (h.put r i) rfl)

end Ledger

/-- The calls for region `r` with their answers. -/
def regionPart (r : Region) (h : List (AllocCall × Nat)) : List (PoolCall Nat × Option Nat) :=
  (h.filter fun e => e.1.1 = r).map fun e => (e.1.2, answer e.2)

/-- A simulated run is a run of each pool. -/
theorem poolRun_of_simulates {cs : List AllocCall} {l : Ledger} {p : Region → Pool Nat}
    (h : Simulates Ledger.exec Ledger.Represents Ledger.PoolsStep l p cs) (r : Region) :
    ∃ q, PoolRun (p r) (regionPart r (transcript Ledger.exec l cs)) q := by
  induction cs generalizing l p with
  | nil => exact ⟨p r, .nil⟩
  | cons c cs ih =>
      obtain ⟨-, i, l', p', he, hs, hrest⟩ := h
      obtain ⟨q, hq⟩ := ih hrest
      refine ⟨q, ?_⟩
      simp only [transcript, he, regionPart]
      by_cases hr : c.1 = r
      · subst hr
        rw [List.filter_cons_of_pos (by simp)]
        exact .cons hs.1 hq
      · rw [List.filter_cons_of_neg (by simpa using hr)]
        rw [hs.2 r (Ne.symm hr)] at hq
        exact hq

/-- **The allocator refines a pool of free numbers.**  Every answer and every state of a run is that
of a first-fit pool, the counters are exact after every call, no number is handed out twice without
a put in between, and bits at or above the sizes do not matter. -/
theorem allocator_refines_pool {sbi : SbInfo} {cs : List AllocCall}
    (h0 : ∀ r, sbi.freemap r 0 = false) (hlt : ∀ r, sbi.size r < 4294967296)
    (hc : ∀ r, sbi.nrFree r = countBits (sbi.freemap r) (sbi.size r))
    (ha : Admissible Ledger.exec Ledger.Fair ⟨sbi, fun _ => ∅⟩ cs) :
    Simulates Ledger.exec Ledger.Represents Ledger.PoolsStep ⟨sbi, fun _ => ∅⟩
      (fun r => ⟨{i | i < sbi.size r ∧ sbi.freemap r i = true}, ∅⟩) cs ∧
    (∀ r a h₁ h₂ h₃, regionPart r (transcript Ledger.exec ⟨sbi, fun _ => ∅⟩ cs) =
      h₁ ++ (.get, some a) :: h₂ ++ (.get, some a) :: h₃ → ∃ o, (.put a, o) ∈ h₂) ∧
    ∀ sbi', sbi.SameBelow sbi' →
      transcript Ledger.exec ⟨sbi', fun _ => ∅⟩ cs = transcript Ledger.exec ⟨sbi, fun _ => ∅⟩ cs := by
  have hi : Ledger.Inv ⟨sbi, fun _ => ∅⟩ := ⟨h0, hlt, hc, by simp⟩
  have hpool : Ledger.pool ⟨sbi, fun _ => ∅⟩ =
      fun r => ⟨{i | i < sbi.size r ∧ sbi.freemap r i = true}, ∅⟩ := by
    funext r
    simp [Ledger.pool]
  have hsim := hi.simulates ha
  rw [hpool] at hsim
  refine ⟨hsim, ?_, fun sbi' h => Ledger.transcript_congr h rfl⟩
  intro r a h₁ h₂ h₃ heq
  obtain ⟨q, hq⟩ := poolRun_of_simulates hsim r
  rw [heq] at hq
  exact PoolRun.put_between (Pool.apart_fresh _) hq

/-- Eight blocks and six inodes; the bitmaps are set beyond their sizes. -/
def smallSbInfo : SbInfo where
  nrBlocks := 8
  nrInodes := 6
  nrIstoreBlocks := 1
  nrIfreeBlocks := 1
  nrBfreeBlocks := 1
  nrSlicedBlocks := 0
  nrFreeInodes := 4
  nrFreeBlocks := 3
  nrUsedSlices := 0
  sFreeSlicedBlocks := 0
  ifreeBitmap i := decide (2 ≤ i)
  bfreeBitmap i := decide (5 ≤ i)

theorem allocator_refines_pool_smallSbInfo :
    Simulates Ledger.exec Ledger.Represents Ledger.PoolsStep ⟨smallSbInfo, fun _ => ∅⟩
      (fun r => ⟨{i | i < smallSbInfo.size r ∧ smallSbInfo.freemap r i = true}, ∅⟩)
      [(.block, .get), (.block, .get), (.inode, .get), (.block, .put 5), (.block, .get),
        (.block, .get), (.block, .get)] :=
  (allocator_refines_pool (by intro r; cases r <;> decide) (by intro r; cases r <;> decide)
    (by intro r; cases r <;> decide) (by decide)).1

/-! ## Numbers at or beyond the size -/

namespace SbInfo

variable {sbi sbi' : SbInfo} {r : Region}

/-- The sizes, and the bits at or beyond them, are the same. -/
structure SameBeyond (sbi sbi' : SbInfo) : Prop where
  size : ∀ r, sbi'.size r = sbi.size r
  freemap : ∀ r i, sbi.size r ≤ i → sbi'.freemap r i = sbi.freemap r i

theorem SameBeyond.refl (sbi : SbInfo) : sbi.SameBeyond sbi :=
  ⟨fun _ => rfl, fun _ _ _ => rfl⟩

theorem SameBeyond.withMap (h : sbi.SameBeyond sbi') {map : Nat → Bool}
    (hmap : ∀ i, sbi'.size r ≤ i → map i = sbi'.freemap r i) (n : Nat) :
    sbi.SameBeyond (sbi'.withMap map n r) := by
  constructor
  · intro r'
    rw [size_withMap]
    exact h.size r'
  · intro r' i hi
    by_cases hr : r' = r
    · subst hr
      rw [freemap_withMap_self, hmap i ((h.size r').symm ▸ hi)]
      exact h.freemap r' i hi
    · rw [freemap_withMap_of_ne _ _ _ hr]
      exact h.freemap r' i hi

theorem SameBeyond.get (h : sbi.SameBeyond sbi') (r : Region) : sbi.SameBeyond (sbi'.get r).2 := by
  rw [get_eq]
  exact h.withMap (getFirstFreeBit_below _ _).2 _

theorem get_lt (sbi : SbInfo) (r : Region) (h : (sbi.get r).1 ≠ 0) :
    (sbi.get r).1 < sbi.size r := by
  rw [get_eq] at h ⊢
  exact (getFirstFreeBit_below _ _).1 h

/-- Putting a number beyond the size changes nothing. -/
theorem put_of_gt {i : Nat} (h : sbi.size r < i) : sbi.put r i = sbi := by
  rw [put_eq, if_pos h]

theorem SameBeyond.put (h : sbi.SameBeyond sbi') {i : Nat} (hi : i ≠ sbi'.size r) :
    sbi.SameBeyond (sbi'.put r i) := by
  by_cases hgt : sbi'.size r < i
  · rw [put_of_gt hgt]
    exact h
  · rw [put_eq, if_neg hgt]
    refine h.withMap (fun j hj => Function.update_of_ne ?_ _ _) _
    omega

/-- Putting the size counts one free number more. -/
theorem put_size_ne (sbi : SbInfo) (r : Region) : sbi.put r (sbi.size r) ≠ sbi := by
  intro h
  have hcount : (sbi.put r (sbi.size r)).nrFree r = sbi.nrFree r := by rw [h]
  rw [put_eq, if_neg (Nat.lt_irrefl _), nrFree_withMap_self] at hcount
  exact add32_one_ne _ hcount

/-- The bits of the blocks that `ouichefs_fill_super` allocates for a bitmap. -/
def mapBits (sbi : SbInfo) : Region → Nat
  | .inode => 32768 * sbi.nrIfreeBlocks
  | .block => 32768 * sbi.nrBfreeBlocks

/-- **A put writes past the allocated bitmap** only if it puts the size, and the size fills whole
blocks. -/
theorem put_past_map_iff {i : Nat} (h : sbi.size r ≤ sbi.mapBits r) :
    (∃ j, sbi.mapBits r ≤ j ∧ (sbi.put r i).freemap r j ≠ sbi.freemap r j) ↔
      i = sbi.size r ∧ sbi.size r = sbi.mapBits r ∧ sbi.freemap r i = false := by
  constructor
  · rintro ⟨j, hj, hne⟩
    by_cases hgt : sbi.size r < i
    · rw [put_of_gt hgt] at hne
      exact absurd rfl hne
    · rw [put_eq, if_neg hgt, freemap_withMap_self] at hne
      by_cases hji : j = i
      · subst hji
        rw [Function.update_self] at hne
        exact ⟨by omega, by omega, by simpa using hne⟩
      · rw [Function.update_of_ne hji] at hne
        exact absurd rfl hne
  · rintro ⟨rfl, hfull, hfree⟩
    refine ⟨sbi.size r, hfull.ge, ?_⟩
    rw [put_eq, if_neg (Nat.lt_irrefl _), freemap_withMap_self, Function.update_self, hfree]
    decide

/-- One call; a put answers 0. -/
def exec (sbi : SbInfo) : AllocCall → Except Empty (Nat × SbInfo)
  | (r, .get) => .ok (sbi.get r)
  | (r, .put i) => .ok (0, sbi.put r i)

/-- A get answers 0 or a number below the size; a put of a number at or beyond the size changes
nothing. -/
def InRange (sbi : SbInfo) : AllocCall → Nat → SbInfo → Prop
  | (r, .get), i, _ => i ≠ 0 → i < sbi.size r
  | (r, .put i), _, sbi' => sbi.size r ≤ i → sbi' = sbi

/-- A call that does not put the size. -/
theorem SameBeyond.step (h : sbi.SameBeyond sbi') {c : AllocCall}
    (hc : ∀ r, c ≠ (r, .put (sbi'.size r))) :
    ∃ i s, sbi'.exec c = .ok (i, s) ∧ sbi'.InRange c i s ∧ sbi.SameBeyond s := by
  obtain ⟨r, c⟩ := c
  cases c with
  | get => exact ⟨_, _, rfl, get_lt sbi' r, h.get r⟩
  | put i =>
      have hi : i ≠ sbi'.size r := by
        rintro rfl
        exact hc r rfl
      refine ⟨0, sbi'.put r i, rfl, fun hle => ?_, h.put hi⟩
      exact put_of_gt (Nat.lt_of_le_of_ne hle hi.symm)

/-- **Frees out of range are rejected, except for the size itself.**  In a run of gets and puts of
any numbers, every put at or beyond the size changes nothing, no bit there changes and every number
handed out is below the size, if and only if the size of a bitmap is never put to it. -/
theorem rejected_iff (sbi : SbInfo) (cs : List AllocCall) :
    Simulates exec (fun s t => t = s ∧ sbi.SameBeyond s) InRange sbi sbi cs ↔
      ∀ r, (r, PoolCall.put (sbi.size r)) ∉ cs := by
  constructor
  · intro h r hmem
    obtain ⟨pre, rest, rfl⟩ := List.append_of_mem hmem
    obtain ⟨s, t, -, ⟨rfl, hsame⟩, i, s', t', he, hstep, hrest⟩ := h.drop
    obtain ⟨rfl, -⟩ := hrest.rep
    cases he
    rw [← hsame.size r] at hstep
    exact put_size_ne t r (hstep (Nat.le_refl _))
  · intro h
    refine simulates_of_step (I := sbi.SameBeyond) ?_ cs sbi sbi (.refl sbi) ⟨rfl, .refl sbi⟩
      (Admissible.of_forall (p := fun c => ∀ r, c ≠ (r, PoolCall.put (sbi.size r))) cs sbi
        fun c hc r hr => h r (hr ▸ hc))
    rintro s t c hs ⟨rfl, -⟩ hc
    obtain ⟨i, s', he, hin, hs'⟩ := hs.step (c := c) fun r => hs.size r ▸ hc r
    exact ⟨i, s', s', he, hin, hs', rfl, hs'⟩

/-- A block number one past the last block is accepted. -/
theorem rejected_lastBlock : ¬Simulates exec (fun s t => t = s ∧ smallSbInfo.SameBeyond s) InRange
    smallSbInfo smallSbInfo [(.block, .put 8)] := by
  rintro ⟨-, i, s', t', he, hstep, rfl, -⟩
  cases he
  exact put_size_ne smallSbInfo .block (hstep (by decide))

end SbInfo

end Ouichefs
