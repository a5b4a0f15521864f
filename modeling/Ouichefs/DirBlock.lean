import Ouichefs.Frame

/-!
# Directory blocks

What appending, renaming and removing an entry does to the slots of a directory block, and what
the scans of `inode.c` find in a compact one.  `memmove` followed by clearing the last used slot
is the removal of one slot from the table, also at the boundary cases slot 127 and a full block.
-/

set_option autoImplicit false

namespace Ouichefs

variable {b : Block} {i j n : Nat}

theorem slotInode_of_ge (b : Block) (h : 128 ≤ i) : slotInode b i = 0 :=
  (Page.word_eq_zero_iff _ _).2 fun x _ => b.get_of_ge (by omega)

theorem slotInode_lt (b : Block) (i : Nat) : slotInode b i < 4294967296 := Page.word_lt _ _

theorem lt_of_slotInode (h : slotInode b i ≠ 0) : i < 128 := by
  by_contra hge
  exact h (slotInode_of_ge b (by omega))

@[simp] theorem slotInode_zero (i : Nat) : slotInode Page.zero i = 0 := Page.word_zero _

theorem Clean.zero : Clean Page.zero := fun _ _ _ _ => Page.get_zero _

/-! ## Names -/

theorem strscpyBytes_length (name : List UInt8) : (strscpyBytes name 28).length ≤ 28 := by
  simp only [strscpyBytes, List.length_append, List.length_take, List.length_singleton]
  omega

/-- The name an entry gets: `strscpy` keeps at most 27 bytes. -/
def storedName (name : List UInt8) : List UInt8 := (cstr name).take 27

theorem mem_cstr_ne_zero {l : List UInt8} : ∀ c ∈ cstr l, c ≠ 0 := by
  intro c hc
  unfold cstr at hc
  induction l with
  | nil => cases hc
  | cons a l ih =>
      rw [List.takeWhile_cons] at hc
      split at hc
      · rename_i ha
        rcases List.mem_cons.1 hc with rfl | hc
        · simpa using ha
        · exact ih hc
      · cases hc

theorem cstr_append_zero {l rest : List UInt8} (h : ∀ c ∈ l, c ≠ 0) : cstr (l ++ 0 :: rest) = l := by
  unfold cstr
  rw [List.takeWhile_append_of_pos (by simpa using h)]
  simp

/-! ## Setting slots -/

theorem get_setSlotName (b : Block) (name : List UInt8) {x : Nat} (hi : i < 128) :
    (setSlotName b i name).get x =
      if 32 * i + 4 ≤ x ∧ x < 32 * i + 4 + (strscpyBytes name 28).length then
        (strscpyBytes name 28).getD (x - (32 * i + 4)) 0
      else b.get x := by
  have := strscpyBytes_length name
  exact Page.get_blit b (by omega) x

theorem slotInode_setSlotName (b : Block) (name : List UInt8) (hi : i < 128) (j : Nat) :
    slotInode (setSlotName b i name) j = slotInode b j := by
  have := strscpyBytes_length name
  exact Page.word_blit_of_disjoint b (by omega) (by omega)

theorem slotInode_setSlot (b : Block) (name : List UInt8) (hi : i < 128) {ino : Nat}
    (hino : ino < 4294967296) (j : Nat) :
    slotInode (setSlot b i ino name) j = if j = i then ino else slotInode b j := by
  unfold setSlot
  rw [slotInode_setSlotName _ _ hi]
  unfold slotInode
  split
  · rename_i hji
    rw [hji, Page.word_setWord b (by omega), Nat.mod_eq_of_lt hino]
  · exact Page.word_setWord_of_disjoint b (by omega) (by omega)

theorem slotName_setSlotName_other (b : Block) (name : List UInt8) (hi : i < 128) (hj : j ≠ i) :
    slotName (setSlotName b i name) j = slotName b j := by
  have := strscpyBytes_length name
  refine Page.bytes_congr fun x hx => ?_
  rw [get_setSlotName b name hi, if_neg (by omega)]

/-- The name read back from a slot. -/
theorem cstr_slotName_setSlotName (b : Block) (name : List UInt8) (hi : i < 128) :
    cstr (slotName (setSlotName b i name) i) = storedName name := by
  have hlen := strscpyBytes_length name
  have hsplit : slotName (setSlotName b i name) i = strscpyBytes name 28 ++
      b.bytes (32 * i + 4 + (strscpyBytes name 28).length) (28 - (strscpyBytes name 28).length) := by
    unfold slotName
    refine List.ext_getElem (by simp; omega) fun x h1 h2 => ?_
    have hx : x < 28 := by simpa using h1
    rw [Page.bytes_getElem, get_setSlotName b name hi]
    by_cases hin : x < (strscpyBytes name 28).length
    · rw [if_pos (by omega), List.getElem_append_left hin,
        show 32 * i + 4 + x - (32 * i + 4) = x by omega, List.getD_eq_getElem _ _ hin]
    · rw [if_neg (by omega), List.getElem_append_right (by omega), Page.bytes_getElem]
      congr 1
      omega
  rw [hsplit, strscpyBytes, List.append_assoc]
  exact cstr_append_zero fun c hc => mem_cstr_ne_zero c (List.mem_of_mem_take hc)

theorem slotName_setSlot_other (b : Block) (ino : Nat) (name : List UInt8) (hi : i < 128)
    (hj : j ≠ i) : slotName (setSlot b i ino name) j = slotName b j := by
  unfold setSlot
  rw [slotName_setSlotName_other _ _ hi hj]
  refine Page.bytes_congr fun x hx => ?_
  rw [Page.get_setWord b (by omega), if_neg (by omega)]

theorem cstr_slotName_setSlot (b : Block) (ino : Nat) (name : List UInt8) (hi : i < 128) :
    cstr (slotName (setSlot b i ino name) i) = storedName name := by
  unfold setSlot
  exact cstr_slotName_setSlotName _ _ hi

theorem Clean.setSlot (h : Clean b) {ino : Nat} (name : List UInt8) (hi : i < 128)
    (hino : ino < 4294967296) (h0 : ino ≠ 0) : Clean (setSlot b i ino name) := by
  intro j hj x hx
  have hlen := strscpyBytes_length name
  rw [slotInode_setSlot b name hi hino] at hj
  split at hj
  · exact absurd hj h0
  · rename_i hji
    unfold Ouichefs.setSlot
    rw [get_setSlotName _ _ hi, if_neg (by omega), Page.get_setWord b (by omega),
      if_neg (by omega)]
    exact h j hj x hx

theorem Clean.setSlotName (h : Clean b) (name : List UInt8) (hi : i < 128)
    (hs : slotInode b i ≠ 0) : Clean (setSlotName b i name) := by
  intro j hj x hx
  have hlen := strscpyBytes_length name
  rw [slotInode_setSlotName b name hi] at hj
  have hji : j ≠ i := by
    rintro rfl
    exact hs hj
  rw [get_setSlotName _ _ hi, if_neg (by omega)]
  exact h j hj x hx

/-! ## Removing a slot -/

section Remove

variable {f : Nat}

theorem get_removeSlot (b : Block) (hf : f < n) (hn : n ≤ 128) (x : Nat) :
    (removeSlot b f n).get x =
      if x < 32 * f then b.get x
      else if x < 32 * (n - 1) then b.get (x + 32)
      else if x < 32 * n then 0
      else b.get x := by
  unfold removeSlot
  simp only
  rw [Page.get_fill]
  by_cases h127 : f = 127
  · rw [if_neg (by omega : ¬f ≠ 127)]
    split
    · rw [if_neg (by omega), if_neg (by omega), if_pos (by omega)]
    · by_cases hx : x < 32 * f
      · rw [if_pos hx]
      · rw [if_neg hx, if_neg (by omega), if_neg (by omega)]
  · rw [if_pos h127]
    have hmove := @Page.get_move _ b (32 * f) (32 * (f + 1)) ((n - f - 1) * 32) (by omega) x
    by_cases hx : x < 32 * f
    · rw [if_pos hx, if_neg (by omega), hmove, if_neg (by omega)]
    · rw [if_neg hx]
      by_cases hx1 : x < 32 * (n - 1)
      · rw [if_pos hx1, if_neg (by omega), hmove, if_pos (by omega)]
        congr 1
        omega
      · rw [if_neg hx1]
        by_cases hx2 : x < 32 * n
        · rw [if_pos hx2, if_pos (by omega)]
        · rw [if_neg hx2, if_neg (by omega), hmove, if_neg (by omega)]

/-- On a clean compact block the bytes of slot `j` are those of the slot that moves there. -/
theorem get_removeSlot_slot (hc : Clean b) (hn : Compact (slotInode b) n) (hf : f < n)
    (hle : n ≤ 128) (j : Nat) {x : Nat} (hx : x < 32) :
    (removeSlot b f n).get (32 * j + x) = b.get (32 * (if j < f then j else j + 1) + x) := by
  rw [get_removeSlot b hf hle]
  by_cases hj : j < f
  · rw [if_pos (by omega), if_pos hj]
  · rw [if_neg (by omega), if_neg hj]
    by_cases hj1 : j < n - 1
    · rw [if_pos (by omega)]
      congr 1
      omega
    · rw [if_neg (by omega), hc (j + 1) (hn.empty (j + 1) (by omega)) x hx]
      split
      · rfl
      · exact hc j (hn.empty j (by omega)) x hx

theorem slotInode_removeSlot (hc : Clean b) (hn : Compact (slotInode b) n) (hf : f < n)
    (hle : n ≤ 128) (j : Nat) : slotInode (removeSlot b f n) j = dropSlot (slotInode b) f j := by
  have h := fun x => get_removeSlot_slot (x := x) hc hn hf hle j
  unfold dropSlot
  split
  · rename_i hj
    exact Page.word_congr fun x hx => by rw [h x (by omega), if_pos hj]
  · rename_i hj
    exact Page.word_congr fun x hx => by rw [h x (by omega), if_neg hj]

theorem slotName_removeSlot (hc : Clean b) (hn : Compact (slotInode b) n) (hf : f < n)
    (hle : n ≤ 128) (j : Nat) : slotName (removeSlot b f n) j = dropSlot (slotName b) f j := by
  have h := fun x => get_removeSlot_slot (x := x) hc hn hf hle j
  unfold dropSlot slotName
  split
  · rename_i hj
    refine Page.bytes_congr fun x hx => ?_
    have := h (4 + x) (by omega)
    rw [if_pos hj] at this
    rwa [Nat.add_assoc]
  · rename_i hj
    refine Page.bytes_congr fun x hx => ?_
    have := h (4 + x) (by omega)
    rw [if_neg hj] at this
    rwa [Nat.add_assoc, Nat.add_assoc]

theorem Clean.removeSlot (hc : Clean b) (hn : Compact (slotInode b) n) (hf : f < n)
    (hle : n ≤ 128) : Clean (removeSlot b f n) := by
  intro j hj x hx
  rw [slotInode_removeSlot hc hn hf hle] at hj
  rw [get_removeSlot_slot hc hn hf hle j hx]
  unfold dropSlot at hj
  split
  · rename_i hjf
    rw [if_pos hjf] at hj
    exact hc j hj x hx
  · rename_i hjf
    rw [if_neg hjf] at hj
    exact hc (j + 1) hj x hx

end Remove

/-! ## Scans -/

/-- The scan of `unlink` and `rename` finds the entry and the end of the used slots. -/
theorem scanSlots_spec {ino f : Nat} (hn : Compact (slotInode b) n) (hf : slotInode b f = ino)
    (h0 : ino ≠ 0) (huniq : ∀ j, slotInode b j = ino → j = f) :
    ∀ m i acc, i + m = 128 → i ≤ n →
      scanSlots b ino m i acc = (if i ≤ f then some f else acc, n) := by
  have hfn : f < n := hn.lt_iff.2 (by rw [hf]; exact h0)
  have hn128 : n ≤ 128 := by
    by_contra hgt
    exact hn.used 128 (by omega) (slotInode_of_ge b (Nat.le_refl _))
  intro m
  induction m with
  | zero =>
      intro i acc him hin
      have : i = n := by omega
      rw [scanSlots, if_neg (by omega), this]
  | succ m ih =>
      intro i acc him hin
      rw [scanSlots]
      by_cases hi : slotInode b i = ino
      · have : i = f := huniq i hi
        rw [if_pos hi, ih (i + 1) _ (by omega) (by omega), if_neg (by omega), if_pos (by omega), this]
      · rw [if_neg hi]
        have hif : i ≠ f := by
          rintro rfl
          exact hi hf
        by_cases hz : slotInode b i = 0
        · have : ¬i < n := fun hlt => hn.used i hlt hz
          rw [if_pos hz, if_neg (by omega)]
          congr 1
          omega
        · have : i < n := hn.lt_iff.2 hz
          rw [if_neg hz, ih (i + 1) _ (by omega) (by omega)]
          by_cases hle : i ≤ f
          · rw [if_pos (by omega), if_pos hle]
          · rw [if_neg (by omega), if_neg hle]

theorem firstFreeSlot_eq (hn : Compact (slotInode b) n) (hlt : n < 128) : firstFreeSlot b = n := by
  unfold firstFreeSlot
  have : (List.range 128).find? (fun i => slotInode b i == 0) = some n := by
    rw [List.find?_range_eq_some]
    refine ⟨by simp [hn.empty n (Nat.le_refl _)], List.mem_range.2 hlt, fun j hj => ?_⟩
    simpa using hn.used j hj
  rw [this]
  rfl

/-- Slot 127 tells whether a compact directory is full. -/
theorem slot127_iff (hn : Compact (slotInode b) n) (hle : n ≤ 128) :
    slotInode b 127 = 0 ↔ n < 128 := by
  constructor
  · intro h
    by_contra hge
    exact hn.used 127 (by omega) h
  · intro h
    exact hn.empty 127 (by omega)

end Ouichefs
