import Ouichefs.Lib.Naming
import Mathlib.Data.Nat.Find

/-!
# The map of a table with keys

Slot `i` of a table holds the object `f i` under the key `key i`; object `0` is an empty slot.
`slotFind` is the finite map the table stands for.  With distinct keys the table operations are
the map operations: appending inserts, closing a gap deletes, a new key renames.
-/

set_option autoImplicit false

variable {κ : Type}

/-- The object under key `x`. -/
def slotFind [DecidableEq κ] (cap : Nat) (f : Nat → Nat) (key : Nat → κ) (x : κ) : Option Nat :=
  ((List.range cap).find? fun i => f i != 0 && key i == x).map f

/-- Used slots have distinct keys. -/
def Keyed (f : Nat → Nat) (key : Nat → κ) : Prop :=
  ∀ i j, f i ≠ 0 → f j ≠ 0 → key i = key j → i = j

/-! ## The first match -/

section First

variable [DecidableEq κ] {cap i : Nat} {f : Nat → Nat} {key : Nat → κ} {x : κ}

theorem slotFind_of_none (h : ∀ j < cap, f j ≠ 0 → key j ≠ x) : slotFind cap f key x = none := by
  unfold slotFind
  rw [Option.map_eq_none_iff, List.find?_eq_none]
  intro j hj hm
  simp only [Bool.and_eq_true, bne_iff_ne, beq_iff_eq] at hm
  exact h j (List.mem_range.1 hj) hm.1 hm.2

theorem slotFind_of_first (hi : i < cap) (h0 : f i ≠ 0) (hx : key i = x)
    (hbefore : ∀ j < i, f j ≠ 0 → key j ≠ x) : slotFind cap f key x = some (f i) := by
  unfold slotFind
  rw [List.find?_range_eq_some.2 ⟨by simp [h0, hx], List.mem_range.2 hi, fun j hj => ?_⟩]
  · rfl
  · by_contra hne
    simp only [Bool.not_eq_true', Bool.not_eq_false, Bool.and_eq_true, bne_iff_ne,
      beq_iff_eq] at hne
    exact hbefore j hj hne.1 hne.2

/-- Tables that hold the same objects under `x`, in the same slots. -/
theorem slotFind_congr {f' : Nat → Nat} {key' : Nat → κ}
    (h : ∀ j < cap, (f' j ≠ 0 ∧ key' j = x ↔ f j ≠ 0 ∧ key j = x) ∧
      (f' j ≠ 0 → key' j = x → f' j = f j)) :
    slotFind cap f' key' x = slotFind cap f key x := by
  by_cases hex : ∃ j, j < cap ∧ f j ≠ 0 ∧ key j = x
  · obtain ⟨hlt, h0, hx⟩ := Nat.find_spec hex
    have hbefore : ∀ j < Nat.find hex, f j ≠ 0 → key j ≠ x :=
      fun j hj h0 hx => Nat.find_min hex hj ⟨Nat.lt_trans hj hlt, h0, hx⟩
    obtain ⟨h0', hx'⟩ := (h _ hlt).1.2 ⟨h0, hx⟩
    rw [slotFind_of_first hlt h0 hx hbefore, slotFind_of_first hlt h0' hx' fun j hj hj0 hjx => ?_,
      (h _ hlt).2 h0' hx']
    obtain ⟨hj0', hjx'⟩ := (h j (Nat.lt_trans hj hlt)).1.1 ⟨hj0, hjx⟩
    exact hbefore j hj hj0' hjx'
  · rw [slotFind_of_none fun j hj h0 hx => hex ⟨j, hj, h0, hx⟩, slotFind_of_none fun j hj h0 hx => ?_]
    exact hex ⟨j, hj, (h j hj).1.1 ⟨h0, hx⟩⟩

end First

/-! ## Distinct keys -/

section SlotFind

variable [DecidableEq κ] {cap n : Nat} {f : Nat → Nat} {key : Nat → κ} {x : κ} {v : Nat}

theorem slotFind_eq_some (hk : Keyed f key) (hc : ∀ i, f i ≠ 0 → i < cap) :
    slotFind cap f key x = some v ↔ ∃ i, f i = v ∧ v ≠ 0 ∧ key i = x := by
  unfold slotFind
  rw [Option.map_eq_some_iff]
  constructor
  · rintro ⟨i, hi, rfl⟩
    have hp := List.find?_some hi
    simp only [Bool.and_eq_true, bne_iff_ne, beq_iff_eq] at hp
    exact ⟨i, rfl, hp.1, hp.2⟩
  · rintro ⟨i, rfl, h0, hx⟩
    refine ⟨i, ?_, rfl⟩
    rw [List.find?_range_eq_some]
    refine ⟨by simp [h0, hx], List.mem_range.2 (hc i h0), fun j hj => ?_⟩
    by_contra hne
    simp only [Bool.not_eq_true', Bool.not_eq_false, Bool.and_eq_true, bne_iff_ne,
      beq_iff_eq] at hne
    exact absurd (hk j i hne.1 h0 (hne.2.trans hx.symm)) (Nat.ne_of_lt hj)

theorem slotFind_eq_none (hk : Keyed f key) (hc : ∀ i, f i ≠ 0 → i < cap) :
    slotFind cap f key x = none ↔ ∀ i, f i ≠ 0 → key i ≠ x := by
  rw [Option.eq_none_iff_forall_ne_some]
  constructor
  · intro h i h0 hx
    exact h (f i) ((slotFind_eq_some hk hc).2 ⟨i, rfl, h0, hx⟩)
  · intro h v hv
    obtain ⟨i, rfl, h0, hx⟩ := (slotFind_eq_some hk hc).1 hv
    exact h i h0 hx

/-- Two maps that hold the same objects are equal. -/
theorem slotFind_ext {g : κ → Option Nat} (hk : Keyed f key) (hc : ∀ i, f i ≠ 0 → i < cap)
    (h : ∀ x v, g x = some v ↔ ∃ i, f i = v ∧ v ≠ 0 ∧ key i = x) : slotFind cap f key = g := by
  funext x
  apply Option.ext
  intro v
  rw [slotFind_eq_some hk hc, h]

/-- An empty table is the empty map. -/
theorem slotFind_empty (h : ∀ i, f i = 0) : slotFind cap f key = fun _ => none := by
  refine slotFind_ext (fun i _ hi => absurd (h i) hi) (fun i hi => absurd (h i) hi) fun x v => ?_
  constructor
  · intro hv; cases hv
  · rintro ⟨i, rfl, h0, -⟩
    exact absurd (h i) h0

end SlotFind

/-! ## Appending -/

section Append

variable {cap n v : Nat} {f f' : Nat → Nat} {key key' : Nat → κ}

theorem Keyed.append (hk : Keyed f key) (hf : f' = Function.update f n v)
    (hkey : ∀ i, i ≠ n → key' i = key i) (hnew : ∀ i, f i ≠ 0 → key i ≠ key' n) :
    Keyed f' key' := by
  have hold : ∀ i, i ≠ n → f' i ≠ 0 → f i ≠ 0 := by
    intro i hi h0
    rwa [hf, Function.update_of_ne hi] at h0
  intro i j hi hj hij
  by_cases hin : i = n
  · by_cases hjn : j = n
    · rw [hin, hjn]
    · rw [hin, hkey j hjn] at hij
      exact absurd hij.symm (hnew j (hold j hjn hj))
  · by_cases hjn : j = n
    · rw [hjn, hkey i hin] at hij
      exact absurd hij (hnew i (hold i hin hi))
    · rw [hkey i hin, hkey j hjn] at hij
      exact hk i j (hold i hin hi) (hold j hjn hj) hij

/-- **Appending inserts.** -/
theorem slotFind_append [DecidableEq κ] (hk : Keyed f key) (hc : Compact f n) (hn : n < cap)
    (hf : f' = Function.update f n v) (h0 : v ≠ 0) (hkey : ∀ i, i ≠ n → key' i = key i)
    (hnew : ∀ i, f i ≠ 0 → key i ≠ key' n) :
    slotFind cap f' key' = Function.update (slotFind cap f key) (key' n) (some v) := by
  have hcap := hc.lt_cap (Nat.le_of_lt hn)
  have hslot : ∀ i, f' i = if i = n then v else f i := by
    intro i
    rw [hf, Function.update_apply]
  refine slotFind_ext (hk.append hf hkey hnew) (fun i hi => ?_) fun x w => ?_
  · rw [hslot] at hi
    split at hi
    · omega
    · exact hcap i hi
  · rw [Function.update_apply]
    constructor
    · intro hw
      split at hw
      · rename_i hx
        cases hw
        exact ⟨n, by rw [hslot, if_pos rfl], h0, hx.symm⟩
      · obtain ⟨i, rfl, hi, hx⟩ := (slotFind_eq_some hk hcap).1 hw
        have hin : i ≠ n := by
          rintro rfl
          exact hi (hc.empty i (Nat.le_refl _))
        exact ⟨i, by rw [hslot, if_neg hin], hi, by rw [hkey i hin, hx]⟩
    · rintro ⟨i, hi, hw, rfl⟩
      rw [hslot] at hi
      split at hi
      · rename_i hin
        rw [hin, if_pos rfl, hi]
      · rename_i hin
        have hfi : f i ≠ 0 := by rw [hi]; exact hw
        rw [hkey i hin, if_neg (hnew i hfi)]
        exact (slotFind_eq_some hk hcap).2 ⟨i, hi, hw, rfl⟩

end Append

/-! ## Removing -/

section Drop

variable {cap n d : Nat} {f f' : Nat → Nat} {key key' : Nat → κ}

/-- The slot whose content stands in slot `j` once slot `d` was taken out. -/
def beforeDrop (d j : Nat) : Nat := if j < d then j else j + 1

theorem dropSlot_eq {α : Type} (g : Nat → α) (d j : Nat) :
    dropSlot g d j = g (beforeDrop d j) := by
  unfold dropSlot beforeDrop
  split <;> rfl

theorem beforeDrop_ne (d j : Nat) : beforeDrop d j ≠ d := by
  unfold beforeDrop
  split <;> omega

theorem beforeDrop_inj {i j : Nat} (h : beforeDrop d i = beforeDrop d j) : i = j := by
  unfold beforeDrop at h
  split at h <;> split at h <;> omega

theorem exists_beforeDrop {i : Nat} (h : i ≠ d) : ∃ j, beforeDrop d j = i := by
  refine ⟨if i < d then i else i - 1, ?_⟩
  unfold beforeDrop
  by_cases hi : i < d
  · simp [hi]
  · rw [if_neg hi, if_neg (by omega)]
    omega

theorem Keyed.drop (hk : Keyed f key) (hf : ∀ j, f' j = dropSlot f d j)
    (hkey : ∀ j, f' j ≠ 0 → key' j = dropSlot key d j) : Keyed f' key' := by
  intro i j hi hj hij
  rw [hkey i hi, hkey j hj, dropSlot_eq, dropSlot_eq] at hij
  rw [hf, dropSlot_eq] at hi hj
  exact beforeDrop_inj (hk _ _ hi hj hij)

/-- **Closing a gap deletes.** -/
theorem slotFind_drop [DecidableEq κ] (hk : Keyed f key) (hc : Compact f n) (hn : n ≤ cap)
    (hd : d < n) (hf : ∀ j, f' j = dropSlot f d j)
    (hkey : ∀ j, f' j ≠ 0 → key' j = dropSlot key d j) :
    slotFind cap f' key' = Function.update (slotFind cap f key) (key d) none := by
  have hcap := hc.lt_cap hn
  have hf' : f' = dropSlot f d := funext hf
  have hc' : Compact f' (n - 1) := hf' ▸ hc.drop hd
  refine slotFind_ext (hk.drop hf hkey) (fun i hi => ?_) fun x w => ?_
  · have := hc'.lt_iff.2 hi
    omega
  · rw [Function.update_apply]
    constructor
    · intro hw
      split at hw
      · cases hw
      · rename_i hx
        obtain ⟨i, rfl, hi, rfl⟩ := (slotFind_eq_some hk hcap).1 hw
        have hid : i ≠ d := by
          rintro rfl
          exact hx rfl
        obtain ⟨j, rfl⟩ := exists_beforeDrop hid
        have hfj : f' j = f (beforeDrop d j) := (hf j).trans (dropSlot_eq f d j)
        refine ⟨j, hfj, hi, ?_⟩
        rw [hkey j (by rw [hfj]; exact hi), dropSlot_eq]
    · rintro ⟨j, hj, hw, rfl⟩
      have hj0 : f' j ≠ 0 := by rw [hj]; exact hw
      rw [hkey j hj0, dropSlot_eq]
      rw [hf, dropSlot_eq] at hj hj0
      rw [if_neg]
      · exact (slotFind_eq_some hk hcap).2 ⟨_, hj, hw, rfl⟩
      · intro he
        exact beforeDrop_ne d j (hk _ d hj0 (hc.lt_iff.1 hd) he)

end Drop

/-! ## Renaming -/

section Rekey

variable {cap p : Nat} {f : Nat → Nat} {key key' : Nat → κ}

theorem Keyed.rekey (hk : Keyed f key) (hkey : ∀ i, i ≠ p → key' i = key i)
    (hnew : ∀ i, f i ≠ 0 → key i ≠ key' p) : Keyed f key' := by
  intro i j hi hj hij
  by_cases hip : i = p
  · by_cases hjp : j = p
    · rw [hip, hjp]
    · rw [hip, hkey j hjp] at hij
      exact absurd hij.symm (hnew j hj)
  · by_cases hjp : j = p
    · rw [hjp, hkey i hip] at hij
      exact absurd hij (hnew i hi)
    · rw [hkey i hip, hkey j hjp] at hij
      exact hk i j hi hj hij

/-- **A new key renames.** -/
theorem slotFind_rekey [DecidableEq κ] (hk : Keyed f key) (hc : ∀ i, f i ≠ 0 → i < cap) (hp : f p ≠ 0)
    (hkey : ∀ i, i ≠ p → key' i = key i) (hnew : ∀ i, f i ≠ 0 → key i ≠ key' p) :
    slotFind cap f key' = Function.update (Function.update (slotFind cap f key) (key p) none)
      (key' p) (some (f p)) := by
  refine slotFind_ext (hk.rekey hkey hnew) hc fun x w => ?_
  rw [Function.update_apply, Function.update_apply]
  constructor
  · intro hw
    split at hw
    · rename_i hx
      cases hw
      exact ⟨p, rfl, hp, hx.symm⟩
    · split at hw
      · cases hw
      · rename_i hx
        obtain ⟨i, rfl, hi, rfl⟩ := (slotFind_eq_some hk hc).1 hw
        have hip : i ≠ p := by
          rintro rfl
          exact hx rfl
        exact ⟨i, rfl, hi, hkey i hip⟩
  · rintro ⟨i, rfl, hi, rfl⟩
    by_cases hip : i = p
    · rw [hip, if_pos rfl]
    · rw [hkey i hip, if_neg (hnew i hi), if_neg]
      · exact (slotFind_eq_some hk hc).2 ⟨i, rfl, hi, rfl⟩
      · intro he
        exact hip (hk i p hi hp he)

end Rekey
