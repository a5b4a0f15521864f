import Mathlib.Algebra.Ring.Nat
import Mathlib.Data.List.Basic
import Mathlib.Tactic.Common

/-!
# Fixed-size byte pages

A page of `n` bytes with the memory operations a C program applies to a buffer of that size:
`memset`, `memcpy`, `memmove` and loads and stores of little-endian 32-bit words.  Every
operation is described by one `get_…` lemma; an offset at or past the end reads as `0`.
-/

set_option autoImplicit false

/-- A page of `n` bytes. -/
structure Page (n : Nat) where
  data : Fin n → UInt8

namespace Page

variable {n : Nat}

/-- The byte at offset `i`. -/
def get (p : Page n) (i : Nat) : UInt8 := if h : i < n then p.data ⟨i, h⟩ else 0

/-- The page holding `f i` at offset `i`. -/
def ofFn (f : Nat → UInt8) : Page n := ⟨fun i => f i⟩

@[simp] theorem get_ofFn (f : Nat → UInt8) (i : Nat) :
    (ofFn f : Page n).get i = if i < n then f i else 0 := by
  unfold get ofFn
  split <;> rfl

theorem get_of_ge (p : Page n) {i : Nat} (h : n ≤ i) : p.get i = 0 := by
  simp [get, Nat.not_lt.2 h]

theorem ext_get {p q : Page n} (h : ∀ i < n, p.get i = q.get i) : p = q := by
  cases p with | mk f =>
  cases q with | mk g =>
  congr
  funext i
  simpa [get, i.isLt] using h i i.isLt

/-- The zero-filled page. -/
def zero : Page n := ofFn fun _ => 0

@[simp] theorem get_zero (i : Nat) : (zero : Page n).get i = 0 := by simp [zero]

/-! ## Block operations -/

/-- `memset(p + off, 0, len)`. -/
def fill (p : Page n) (off len : Nat) : Page n :=
  ofFn fun i => if off ≤ i ∧ i < off + len then 0 else p.get i

/-- `memcpy(p + off, l, length l)`. -/
def blit (p : Page n) (off : Nat) (l : List UInt8) : Page n :=
  ofFn fun i => if off ≤ i ∧ i < off + l.length then l.getD (i - off) 0 else p.get i

/-- `memmove(p + dst, p + src, len)`. -/
def move (p : Page n) (dst src len : Nat) : Page n :=
  ofFn fun i => if dst ≤ i ∧ i < dst + len then p.get (src + (i - dst)) else p.get i

/-- The `len` bytes from `off` on. -/
def bytes (p : Page n) (off len : Nat) : List UInt8 :=
  (List.range len).map fun i => p.get (off + i)

theorem get_fill (p : Page n) (off len i : Nat) :
    (p.fill off len).get i = if off ≤ i ∧ i < off + len then 0 else p.get i := by
  unfold fill
  rw [get_ofFn]
  by_cases hi : i < n
  · simp [hi]
  · simp [hi, p.get_of_ge (Nat.not_lt.1 hi)]

theorem get_blit (p : Page n) {off : Nat} {l : List UInt8} (h : off + l.length ≤ n) (i : Nat) :
    (p.blit off l).get i =
      if off ≤ i ∧ i < off + l.length then l.getD (i - off) 0 else p.get i := by
  unfold blit
  rw [get_ofFn]
  by_cases hi : i < n
  · simp [hi]
  · rw [if_neg hi, if_neg (by omega), p.get_of_ge (by omega)]

@[simp] theorem blit_nil (p : Page n) (off : Nat) : p.blit off [] = p := by
  refine ext_get fun i hi => ?_
  have hout : ¬(off ≤ i ∧ i < off + ([] : List UInt8).length) := by
    rw [List.length_nil]
    omega
  unfold blit
  rw [get_ofFn, if_pos hi, if_neg hout]

theorem get_move (p : Page n) {dst src len : Nat} (h : dst + len ≤ n) (i : Nat) :
    (p.move dst src len).get i =
      if dst ≤ i ∧ i < dst + len then p.get (src + (i - dst)) else p.get i := by
  unfold move
  rw [get_ofFn]
  by_cases hi : i < n
  · simp [hi]
  · rw [if_neg hi, if_neg (by omega), p.get_of_ge (by omega)]

@[simp] theorem bytes_length (p : Page n) (off len : Nat) : (p.bytes off len).length = len := by
  simp [bytes]

theorem bytes_getElem (p : Page n) {off len i : Nat} (h : i < (p.bytes off len).length) :
    (p.bytes off len)[i] = p.get (off + i) := by
  simp [bytes]

theorem bytes_getD (p : Page n) {off len i : Nat} (h : i < len) :
    (p.bytes off len).getD i 0 = p.get (off + i) := by
  simp [bytes, List.getD_eq_getElem?_getD, h]

/-- What was stored is read back. -/
theorem bytes_blit_self (p : Page n) {off : Nat} {l : List UInt8} (h : off + l.length ≤ n) :
    (p.blit off l).bytes off l.length = l := by
  refine List.ext_getElem (bytes_length _ _ _) fun i h1 h2 => ?_
  rw [bytes_getElem, get_blit p h, if_pos (by omega), Nat.add_sub_cancel_left]
  rw [List.getD_eq_getElem?_getD, List.getElem?_eq_getElem h2]
  rfl

theorem bytes_congr {p q : Page n} {off off' len : Nat}
    (h : ∀ i < len, p.get (off + i) = q.get (off' + i)) : p.bytes off len = q.bytes off' len := by
  unfold bytes
  exact List.map_congr_left fun i hi => h i (List.mem_range.1 hi)

/-! ## Little-endian 32-bit words -/

/-- The 32-bit word at byte offset `off`. -/
def word (p : Page n) (off : Nat) : Nat :=
  (p.get off).toNat + 256 * (p.get (off + 1)).toNat + 65536 * (p.get (off + 2)).toNat +
    16777216 * (p.get (off + 3)).toNat

/-- Store the low 32 bits of `v` at byte offset `off`. -/
def setWord (p : Page n) (off v : Nat) : Page n :=
  ofFn fun i =>
    if off ≤ i ∧ i < off + 4 then UInt8.ofNat (v / 256 ^ (i - off)) else p.get i

theorem get_setWord (p : Page n) {off v : Nat} (h : off + 4 ≤ n) (i : Nat) :
    (p.setWord off v).get i =
      if off ≤ i ∧ i < off + 4 then UInt8.ofNat (v / 256 ^ (i - off)) else p.get i := by
  unfold setWord
  rw [get_ofFn]
  by_cases hi : i < n
  · simp [hi]
  · rw [if_neg hi, if_neg (by omega), p.get_of_ge (by omega)]

theorem word_lt (p : Page n) (off : Nat) : p.word off < 4294967296 := by
  have h0 := (p.get off).toNat_lt
  have h1 := (p.get (off + 1)).toNat_lt
  have h2 := (p.get (off + 2)).toNat_lt
  have h3 := (p.get (off + 3)).toNat_lt
  unfold word
  omega

theorem word_congr {p q : Page n} {off off' : Nat}
    (h : ∀ i < 4, p.get (off + i) = q.get (off' + i)) : p.word off = q.word off' := by
  have h0 : p.get off = q.get off' := h 0 (by decide)
  unfold word
  rw [h0, h 1 (by decide), h 2 (by decide), h 3 (by decide)]

theorem word_eq_zero_iff (p : Page n) (off : Nat) :
    p.word off = 0 ↔ ∀ i < 4, p.get (off + i) = 0 := by
  constructor
  · intro h i hi
    unfold word at h
    have hi' : i = 0 ∨ i = 1 ∨ i = 2 ∨ i = 3 := by omega
    apply UInt8.toNat_inj.1
    rcases hi' with rfl | rfl | rfl | rfl
    · show (p.get off).toNat = 0
      omega
    · show (p.get (off + 1)).toNat = 0
      omega
    · show (p.get (off + 2)).toNat = 0
      omega
    · show (p.get (off + 3)).toNat = 0
      omega
  · intro h
    have h0 : p.get off = 0 := h 0 (by decide)
    unfold word
    rw [h0, h 1 (by decide), h 2 (by decide), h 3 (by decide)]
    rfl

@[simp] theorem word_zero (off : Nat) : (zero : Page n).word off = 0 :=
  (word_eq_zero_iff _ _).2 fun _ _ => get_zero _

theorem word_setWord (p : Page n) {off v : Nat} (h : off + 4 ≤ n) :
    (p.setWord off v).word off = v % 4294967296 := by
  have hb : ∀ i < 4, (p.setWord off v).get (off + i) = UInt8.ofNat (v / 256 ^ i) := by
    intro i hi
    rw [get_setWord p h, if_pos (by omega), Nat.add_sub_cancel_left]
  have h0 : (p.setWord off v).get off = UInt8.ofNat (v / 256 ^ 0) := hb 0 (by decide)
  unfold word
  rw [h0, hb 1 (by decide), hb 2 (by decide), hb 3 (by decide)]
  simp only [UInt8.toNat_ofNat', Nat.pow_zero, Nat.div_one]
  omega

theorem word_setWord_of_lt (p : Page n) {off v : Nat} (h : off + 4 ≤ n) (hv : v < 4294967296) :
    (p.setWord off v).word off = v := by
  rw [word_setWord p h, Nat.mod_eq_of_lt hv]

/-- Storing a word that is there already changes nothing. -/
theorem setWord_word (p : Page n) {off : Nat} (h : off + 4 ≤ n) :
    p.setWord off (p.word off) = p := by
  refine ext_get fun i _ => ?_
  rw [get_setWord p h]
  split
  · have h0 := (p.get off).toNat_lt
    have h1 := (p.get (off + 1)).toNat_lt
    have h2 := (p.get (off + 2)).toNat_lt
    have h3 := (p.get (off + 3)).toNat_lt
    have hi : i = off ∨ i = off + 1 ∨ i = off + 2 ∨ i = off + 3 := by omega
    apply UInt8.toNat_inj.1
    unfold word
    rcases hi with rfl | rfl | rfl | rfl
    · simp only [Nat.sub_self, Nat.pow_zero, Nat.div_one, UInt8.toNat_ofNat']
      omega
    all_goals simp only [Nat.add_sub_cancel_left, UInt8.toNat_ofNat']; omega
  · rfl

/-- A store changes no word that it does not overlap. -/
theorem word_setWord_of_disjoint (p : Page n) {off off' v : Nat} (h : off + 4 ≤ n)
    (hd : off' + 4 ≤ off ∨ off + 4 ≤ off') : (p.setWord off v).word off' = p.word off' :=
  word_congr fun i hi => by rw [get_setWord p h, if_neg (by omega)]

theorem word_fill_of_disjoint (p : Page n) {off len off' : Nat}
    (hd : off' + 4 ≤ off ∨ off + len ≤ off') : (p.fill off len).word off' = p.word off' :=
  word_congr fun i hi => by rw [get_fill, if_neg (by omega)]

theorem word_blit_of_disjoint (p : Page n) {off off' : Nat} {l : List UInt8}
    (h : off + l.length ≤ n) (hd : off' + 4 ≤ off ∨ off + l.length ≤ off') :
    (p.blit off l).word off' = p.word off' :=
  word_congr fun i hi => by rw [get_blit p h, if_neg (by omega)]

end Page
