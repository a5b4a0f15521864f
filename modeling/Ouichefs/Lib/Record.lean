import Ouichefs.Lib.Page

/-!
# Records of 32-bit fields

A C structure stored in a page field by field: `putRecord` stores the values of a list of fields,
given by their offsets in the structure, into the structure at byte `base`.  If the fields do not
overlap, every one is read back, and nothing else changes.
-/

set_option autoImplicit false

namespace Page

variable {n : Nat}

/-- Store fields at their offsets from `base`, one after the other. -/
def putRecord (p : Page n) (base : Nat) : List (Nat × Nat) → Page n
  | [] => p
  | (off, v) :: fields => (p.setWord (base + off) v).putRecord base fields

/-- Two 32-bit fields do not overlap. -/
def Apart (off off' : Nat) : Prop := off + 4 ≤ off' ∨ off' + 4 ≤ off

instance (off off' : Nat) : Decidable (Apart off off') := inferInstanceAs (Decidable (_ ∨ _))

variable {base off i : Nat} {fields : List (Nat × Nat)}

/-- Bytes outside the fields do not change. -/
theorem get_putRecord (p : Page n) (hn : ∀ f ∈ fields, base + f.1 + 4 ≤ n)
    (hi : ∀ f ∈ fields, ¬(base + f.1 ≤ i ∧ i < base + f.1 + 4)) :
    (p.putRecord base fields).get i = p.get i := by
  induction fields generalizing p with
  | nil => rfl
  | cons f fields ih =>
      obtain ⟨hf, hfs⟩ := List.forall_mem_cons.1 hn
      obtain ⟨hif, his⟩ := List.forall_mem_cons.1 hi
      show ((p.setWord (base + f.1) f.2).putRecord base fields).get i = _
      rw [ih _ hfs his, get_setWord p hf, if_neg hif]

theorem word_putRecord_of_apart (p : Page n) (hn : ∀ f ∈ fields, base + f.1 + 4 ≤ n)
    (hd : ∀ f ∈ fields, Apart off f.1) :
    (p.putRecord base fields).word (base + off) = p.word (base + off) := by
  refine word_congr fun i hi => get_putRecord p hn fun f hf => ?_
  have := hd f hf
  unfold Apart at this
  omega

/-- **Every field is read back.** -/
theorem word_putRecord (p : Page n) {v : Nat} (hn : ∀ f ∈ fields, base + f.1 + 4 ≤ n)
    (hd : (fields.map Prod.fst).Pairwise Apart) (hm : (off, v) ∈ fields) :
    (p.putRecord base fields).word (base + off) = v % 4294967296 := by
  induction fields generalizing p with
  | nil => cases hm
  | cons f fields ih =>
      obtain ⟨hf, hfs⟩ := List.forall_mem_cons.1 hn
      obtain ⟨hhead, htail⟩ := List.pairwise_cons.1 hd
      show ((p.setWord (base + f.1) f.2).putRecord base fields).word (base + off) = _
      rcases List.mem_cons.1 hm with rfl | hm
      · rw [word_putRecord_of_apart _ hfs fun g hg => hhead _ (List.mem_map_of_mem hg),
          word_setWord p hf]
      · exact ih _ hfs htail hm

end Page
