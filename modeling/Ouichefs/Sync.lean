import Ouichefs.Super

/-!
# Synchronisation and mount

`ouichefs_sync_fs` followed by loading gives back the superblock: `copyToLoop` stores bit `x` of its
part of the bitmap at bit `x` of the block and `copyFromLoop` reads it from there, for both widths
of a `long`; the counters are stored and read at the same offsets; the loops visit the blocks of
their region only.  The one limit is the `int` product of the byte offset, which is negative from
block 524288 of a bitmap on.
-/

set_option autoImplicit false

namespace Ouichefs

/-! ## One block -/

/-- Bit `x` of a block that holds little-endian words. -/
def blockBit (b : Block) (x : Nat) : Bool := (b.word (4 * (x / 32))).testBit (x % 32)

section Copy

variable {long : LongSize} {src : Nat → Bool} {p : Nat}

theorem word_setDword (b : Block) {n : Nat} (v m : Nat) (hn : n < 512) :
    (setDword b (8 * n) v).word (4 * m) = if m = 2 * n then v % 4294967296
      else if m = 2 * n + 1 then v / 4294967296 % 4294967296 else b.word (4 * m) := by
  unfold setDword
  split
  · rename_i hm
    rw [hm, show 4 * (2 * n) = 8 * n by omega,
      Page.word_setWord_of_disjoint _ (by omega) (by omega), Page.word_setWord _ (by omega),
      Nat.mod_mod]
  · rename_i hm
    split
    · rename_i hm'
      rw [hm', show 4 * (2 * n + 1) = 8 * n + 4 by omega, Page.word_setWord _ (by omega)]
    · rename_i hm'
      rw [Page.word_setWord_of_disjoint _ (by omega) (by omega),
        Page.word_setWord_of_disjoint _ (by omega) (by omega)]

theorem blockBit_setDword (b : Block) {n : Nat} (v x : Nat) (hn : n < 512) :
    blockBit (setDword b (8 * n) v) x =
      if x / 64 = n then v.testBit (x % 64) else blockBit b x := by
  have hlo : ∀ t, (v % 4294967296).testBit t = (decide (t < 32) && v.testBit t) :=
    Nat.testBit_mod_two_pow v 32
  have hhi : ∀ t, (v / 4294967296 % 4294967296).testBit t =
      (decide (t < 32) && v.testBit (32 + t)) := by
    intro t
    rw [show (4294967296 : Nat) = 2 ^ 32 by decide, Nat.testBit_mod_two_pow,
      Nat.testBit_div_two_pow, Nat.add_comm]
  unfold blockBit
  rw [word_setDword _ _ _ hn]
  by_cases h0 : x / 32 = 2 * n
  · rw [if_pos h0, if_pos (by omega), hlo, show x % 64 = x % 32 by omega]
    simp only [show x % 32 < 32 by omega, decide_true, Bool.true_and]
  · rw [if_neg h0]
    by_cases h1 : x / 32 = 2 * n + 1
    · rw [if_pos h1, if_pos (by omega), hhi, show x % 64 = 32 + x % 32 by omega]
      simp only [show x % 32 < 32 by omega, decide_true, Bool.true_and]
    · rw [if_neg h1, if_neg (by omega)]

/-- Two 32-bit longs make the same 64-bit word as one 64-bit long. -/
theorem loadBits_pair (lo : Nat) :
    (loadBits src (lo + 32) 32 <<< 32) ||| loadBits src lo 32 = loadBits src lo 64 := by
  have hlt : loadBits src lo 32 < 2 ^ 32 := loadBits_lt 32 lo
  rw [Nat.shiftLeft_eq, Nat.mul_comm, ← Nat.two_pow_add_eq_or_of_lt hlt, Nat.add_comm]
  exact (loadBits_add 32 32 lo).symm

/-- **`copy_bitmap_to_le64`**, word by word. -/
theorem copyToLoop_word (dst : Block) : ∀ n ≤ 512, ∀ m,
    (copyToLoop long src p n dst).word (4 * m) =
      if m < 2 * n then loadBits src (p + 32 * m) 32 else dst.word (4 * m) := by
  intro n
  induction n with
  | zero => intro _ m; simp [copyToLoop]
  | succ n ih =>
      intro hn m
      have hval : copyToLoop long src p (n + 1) dst =
          setDword (copyToLoop long src p n dst) (8 * n) (loadBits src (p + 64 * n) 64) := by
        cases long with
        | bits64 => rfl
        | bits32 =>
            rw [← loadBits_pair, show p + 64 * n + 32 = p + 32 * (2 * n + 1) by omega,
              show p + 64 * n = p + 32 * (2 * n) by omega]
            rfl
      have hsplit : loadBits src (p + 64 * n) 64 = loadBits src (p + 64 * n) 32 +
          4294967296 * loadBits src (p + 64 * n + 32) 32 := loadBits_add 32 32 _
      have hlo : loadBits src (p + 64 * n) 32 < 4294967296 := loadBits_lt 32 _
      have hhi : loadBits src (p + 64 * n + 32) 32 < 4294967296 := loadBits_lt 32 _
      rw [hval, word_setDword _ _ _ (by omega), ih (by omega), hsplit]
      by_cases h0 : m = 2 * n
      · rw [if_pos h0, if_pos (by omega), h0, show p + 32 * (2 * n) = p + 64 * n by omega]
        omega
      · rw [if_neg h0]
        by_cases h1 : m = 2 * n + 1
        · rw [if_pos h1, if_pos (by omega), h1,
            show p + 32 * (2 * n + 1) = p + 64 * n + 32 by omega]
          omega
        · rw [if_neg h1]
          by_cases hm : m < 2 * n
          · rw [if_pos hm, if_pos (by omega)]
          · rw [if_neg hm, if_neg (by omega)]

theorem blockBit_copyTo (dst : Block) {x : Nat} (hx : x < 32768) :
    blockBit (copyToLoop long src p 512 dst) x = src (p + x) := by
  unfold blockBit
  rw [copyToLoop_word dst 512 (Nat.le_refl _), if_pos (by omega), testBit_loadBits,
    show p + 32 * (x / 32) + x % 32 = p + x by omega]
  simp only [show x % 32 < 32 by omega, decide_true, Bool.true_and]

/-- Storing the halves of a word is storing the word. -/
theorem storeBits_pair (dst : Nat → Bool) (lo v y : Nat) :
    storeBits (storeBits dst lo 32 (v % 4294967296)) (lo + 32) 32 (v / 4294967296) y =
      if lo ≤ y ∧ y < lo + 64 then v.testBit (y - lo) else dst y := by
  have hlo : ∀ t, (v % 4294967296).testBit t = (decide (t < 32) && v.testBit t) :=
    Nat.testBit_mod_two_pow v 32
  have hhi : ∀ t, (v / 4294967296).testBit t = v.testBit (32 + t) :=
    fun t => (Nat.testBit_div_two_pow (n := 32) v t).trans (by rw [Nat.add_comm])
  unfold storeBits
  rw [hlo, hhi]
  by_cases h1 : lo + 32 ≤ y ∧ y < lo + 32 + 32
  · rw [if_pos h1, if_pos (by omega), show 32 + (y - (lo + 32)) = y - lo by omega]
  · rw [if_neg h1]
    by_cases h0 : lo ≤ y ∧ y < lo + 32
    · rw [if_pos h0, if_pos (by omega)]
      simp only [show y - lo < 32 by omega, decide_true, Bool.true_and]
    · rw [if_neg h0, if_neg (by omega)]

theorem testBit_dword (b : Block) (off t : Nat) : (dword b off).testBit t =
    if t < 32 then (b.word off).testBit t else (b.word (off + 4)).testBit (t - 32) := by
  unfold dword
  rw [Nat.add_comm]
  exact Nat.testBit_two_pow_mul_add (i := 32) _ (b.word_lt off) t

/-- **`copy_bitmap_from_le64`**, bit by bit. -/
theorem copyFromLoop_bit (b : Block) (dst : Nat → Bool) : ∀ n ≤ 512, ∀ y,
    copyFromLoop long b p n dst y =
      if p ≤ y ∧ y < p + 64 * n then blockBit b (y - p) else dst y := by
  intro n
  induction n with
  | zero =>
      intro _ y
      rw [if_neg (by omega)]
      rfl
  | succ n ih =>
      intro hn y
      have hval : copyFromLoop long b p (n + 1) dst y =
          if p + 64 * n ≤ y ∧ y < p + 64 * n + 64 then
            (dword b (8 * n)).testBit (y - (p + 64 * n)) else copyFromLoop long b p n dst y := by
        cases long with
        | bits64 => rfl
        | bits32 =>
            rw [copyFromLoop, show p + 32 * (2 * n) = p + 64 * n by omega,
              show p + 32 * (2 * n + 1) = p + 64 * n + 32 by omega]
            exact storeBits_pair _ _ _ _
      rw [hval, ih (by omega)]
      by_cases hy : p + 64 * n ≤ y ∧ y < p + 64 * n + 64
      · rw [if_pos hy, if_pos (by omega), testBit_dword]
        unfold blockBit
        split
        · rename_i hlo
          rw [show (y - p) / 32 = 2 * n by omega, show (y - p) % 32 = y - (p + 64 * n) by omega,
            show 4 * (2 * n) = 8 * n by omega]
        · rename_i hhi
          rw [show (y - p) / 32 = 2 * n + 1 by omega,
            show (y - p) % 32 = y - (p + 64 * n) - 32 by omega,
            show 4 * (2 * n + 1) = 8 * n + 4 by omega]
      · rw [if_neg hy]
        by_cases hlow : p ≤ y ∧ y < p + 64 * n
        · rw [if_pos hlow, if_pos (by omega)]
        · rw [if_neg hlow, if_neg (by omega)]

end Copy

/-- The byte offset of block `i` is right as long as it fits an `int`. -/
theorem blockOffset_eq {i : Nat} (h : i < 524288) : blockOffset i = (4096 * i : Nat) := by
  unfold blockOffset
  rw [if_pos (by omega), Nat.mod_eq_of_lt (by omega)]

theorem blockOffset_neg : blockOffset 524288 < 0 := by decide

/-! ## The loops -/

section Loops

variable {long : LongSize} {bitmap : Nat → Bool} {bytes first : Nat}

theorem Device.sbBread_ok {d : Device} {idx : Nat} (hf : d.faults = []) (hlt : idx < d.size)
    (h31 : idx < 2147483648) : d.sbBread idx = (true, d) := by
  unfold Device.sbBread Device.answer
  rw [if_neg (by omega), hf]

theorem Device.block_setBlock (d : Device) (bno : Nat) (b : Block) (c : Nat) :
    (d.setBlock bno b).block c = if c = bno then b else d.block c :=
  Function.update_apply ..

/-- Writing a bitmap: block `i` of the region holds the bits of block `i`, other blocks are as
before. -/
theorem syncLoop_spec (hb : bytes ≤ 2147483648) : ∀ (n i : Nat) (d : Device), d.faults = [] →
    first + i + n < d.size → first + i + n < 2147483648 → 4096 * (i + n) ≤ bytes →
    ∃ d', syncLoop long bitmap bytes first n i d = .ok (0, d') ∧ d'.faults = [] ∧
      d'.size = d.size ∧
      (∀ j, i ≤ j → j < i + n → ∀ x < 32768,
        blockBit (d'.block (first + j + 1)) x = bitmap (32768 * j + x)) ∧
      ∀ b, (b ≤ first + i ∨ first + i + n < b) → d'.block b = d.block b := by
  intro n
  induction n with
  | zero =>
      intro i d hf _ _ _
      exact ⟨d, rfl, hf, rfl, fun j h1 h2 => by omega, fun b _ => rfl⟩
  | succ n ih =>
      intro i d hf hsize h31 hbytes
      have hidx : (first + i + 1) % 4294967296 = first + i + 1 := by omega
      unfold syncLoop
      simp only [hidx, Device.sbBread_ok hf (by omega : first + i + 1 < d.size) (by omega)]
      unfold copyBitmapToLe64
      rw [blockOffset_eq (by omega), if_pos (by omega)]
      simp only [Int.toNat_natCast]
      have hcopy : ∀ x < 32768, blockBit (copyToLoop long bitmap (8 * (4096 * i)) 512
          (d.block (first + i + 1))) x = bitmap (8 * (4096 * i) + x) :=
        fun x hx => blockBit_copyTo _ hx
      generalize copyToLoop long bitmap (8 * (4096 * i)) 512 (d.block (first + i + 1)) = nb at hcopy
      obtain ⟨d', hrun, hf', hsz, hbits, hsame⟩ := ih (i + 1) (d.setBlock (first + i + 1) nb) hf
        (by show first + (i + 1) + n < d.size; omega) (by omega) (by omega)
      refine ⟨d', hrun, hf', hsz, fun j h1 h2 x hx => ?_, fun b hb' => ?_⟩
      · by_cases hj : j = i
        · rw [hj, hsame _ (Or.inl (by omega)), Device.block_setBlock, if_pos rfl, hcopy x hx]
          congr 1
          omega
        · exact hbits j (by omega) (by omega) x hx
      · rw [hsame b (by omega), Device.block_setBlock, if_neg (by omega)]

/-- Past 2 GiB the offset is negative. -/
theorem syncLoop_crash : ∀ (n i : Nat) (d : Device), d.faults = [] → first + i + n < d.size →
    first + i + n < 2147483648 → 4096 * (i + n) ≤ bytes → i ≤ 524288 → 524288 < i + n →
    syncLoop long bitmap bytes first n i d = .error .outOfBounds := by
  intro n
  induction n with
  | zero => intro i d _ _ _ _ _ h; omega
  | succ n ih =>
      intro i d hf hsize h31 hbytes hi hn
      have hidx : (first + i + 1) % 4294967296 = first + i + 1 := by omega
      unfold syncLoop
      simp only [hidx, Device.sbBread_ok hf (by omega : first + i + 1 < d.size) (by omega)]
      unfold copyBitmapToLe64
      by_cases hlast : i = 524288
      · have hneg := blockOffset_neg
        rw [hlast, if_neg (by omega)]
      · rw [blockOffset_eq (by omega), if_pos (by omega)]
        exact ih (i + 1) _ hf (by show first + (i + 1) + n < d.size; omega) (by omega) (by omega)
          (by omega) (by omega)

/-- Reading a bitmap. -/
theorem loadLoop_spec (hb : bytes ≤ 2147483648) : ∀ (n i : Nat) (m : Nat → Bool) (d : Device),
    d.faults = [] → first + i + n < d.size → first + i + n < 2147483648 → 4096 * (i + n) ≤ bytes →
    ∃ m', loadLoop long bytes first n i m d = .ok (.ok m', d) ∧
      ∀ y, m' y = if 32768 * i ≤ y ∧ y < 32768 * (i + n) then
        blockBit (d.block (first + y / 32768 + 1)) (y % 32768) else m y := by
  intro n
  induction n with
  | zero =>
      intro i m d _ _ _ _
      exact ⟨m, rfl, fun y => by rw [if_neg (by omega)]⟩
  | succ n ih =>
      intro i m d hf hsize h31 hbytes
      have hidx : (first + i + 1) % 4294967296 = first + i + 1 := by omega
      unfold loadLoop
      simp only [hidx, Device.sbBread_ok hf (by omega : first + i + 1 < d.size) (by omega)]
      unfold copyBitmapFromLe64
      rw [blockOffset_eq (by omega), if_pos (by omega)]
      simp only [Int.toNat_natCast]
      obtain ⟨m', hrun, hbits⟩ := ih (i + 1)
        (copyFromLoop long (d.block (first + i + 1)) (8 * (4096 * i)) 512 m) d hf (by omega)
        (by omega) (by omega)
      refine ⟨m', hrun, fun y => ?_⟩
      rw [hbits, copyFromLoop_bit _ _ 512 (Nat.le_refl _)]
      by_cases hlater : 32768 * (i + 1) ≤ y ∧ y < 32768 * (i + 1 + n)
      · rw [if_pos hlater, if_pos (by omega)]
      · rw [if_neg hlater]
        by_cases hhere : 8 * (4096 * i) ≤ y ∧ y < 8 * (4096 * i) + 64 * 512
        · rw [if_pos hhere, if_pos (by omega), show y / 32768 = i by omega,
            show y - 8 * (4096 * i) = y % 32768 by omega]
        · rw [if_neg hhere, if_neg (by omega)]

end Loops

/-! ## The counters -/

/-- The counters are 32-bit numbers. -/
structure SbInfo.Fits (s : SbInfo) : Prop where
  nrBlocks : s.nrBlocks < 4294967296
  nrInodes : s.nrInodes < 4294967296
  nrIstoreBlocks : s.nrIstoreBlocks < 4294967296
  nrIfreeBlocks : s.nrIfreeBlocks < 4294967296
  nrBfreeBlocks : s.nrBfreeBlocks < 4294967296
  nrSlicedBlocks : s.nrSlicedBlocks < 4294967296
  nrFreeInodes : s.nrFreeInodes < 4294967296
  nrFreeBlocks : s.nrFreeBlocks < 4294967296
  nrUsedSlices : s.nrUsedSlices < 4294967296
  sFreeSlicedBlocks : s.sFreeSlicedBlocks < 4294967296

/-- The same ten counters. -/
structure SameCounters (s s' : SbInfo) : Prop where
  nrBlocks : s'.nrBlocks = s.nrBlocks
  nrInodes : s'.nrInodes = s.nrInodes
  nrIstoreBlocks : s'.nrIstoreBlocks = s.nrIstoreBlocks
  nrIfreeBlocks : s'.nrIfreeBlocks = s.nrIfreeBlocks
  nrBfreeBlocks : s'.nrBfreeBlocks = s.nrBfreeBlocks
  nrSlicedBlocks : s'.nrSlicedBlocks = s.nrSlicedBlocks
  nrFreeInodes : s'.nrFreeInodes = s.nrFreeInodes
  nrFreeBlocks : s'.nrFreeBlocks = s.nrFreeBlocks
  nrUsedSlices : s'.nrUsedSlices = s.nrUsedSlices
  sFreeSlicedBlocks : s'.sFreeSlicedBlocks = s.sFreeSlicedBlocks

section Counters

variable {s : SbInfo} (b : Block)

theorem encodeSb_magic : (encodeSb b s).word 0 = b.word 0 := by
  unfold encodeSb
  simp only
  repeat rw [Page.word_setWord_of_disjoint _ (by decide) (by decide)]

/-- Loading reads what was stored. -/
theorem decodeSb_encodeSb (h : s.Fits) : SameCounters s (decodeSb (encodeSb b s)) := by
  unfold decodeSb encodeSb
  constructor <;> simp only
  · repeat rw [Page.word_setWord_of_disjoint _ (by decide) (by decide)]
    exact Page.word_setWord_of_lt _ (by decide) h.nrBlocks
  · repeat rw [Page.word_setWord_of_disjoint _ (by decide) (by decide)]
    exact Page.word_setWord_of_lt _ (by decide) h.nrInodes
  · repeat rw [Page.word_setWord_of_disjoint _ (by decide) (by decide)]
    exact Page.word_setWord_of_lt _ (by decide) h.nrIstoreBlocks
  · repeat rw [Page.word_setWord_of_disjoint _ (by decide) (by decide)]
    exact Page.word_setWord_of_lt _ (by decide) h.nrIfreeBlocks
  · repeat rw [Page.word_setWord_of_disjoint _ (by decide) (by decide)]
    exact Page.word_setWord_of_lt _ (by decide) h.nrBfreeBlocks
  · exact Page.word_setWord_of_lt _ (by decide) h.nrSlicedBlocks
  · repeat rw [Page.word_setWord_of_disjoint _ (by decide) (by decide)]
    exact Page.word_setWord_of_lt _ (by decide) h.nrFreeInodes
  · repeat rw [Page.word_setWord_of_disjoint _ (by decide) (by decide)]
    exact Page.word_setWord_of_lt _ (by decide) h.nrFreeBlocks
  · repeat rw [Page.word_setWord_of_disjoint _ (by decide) (by decide)]
    exact Page.word_setWord_of_lt _ (by decide) h.nrUsedSlices
  · repeat rw [Page.word_setWord_of_disjoint _ (by decide) (by decide)]
    exact Page.word_setWord_of_lt _ (by decide) h.sFreeSlicedBlocks

end Counters

/-! ## Loading -/

/-- **The loading part of `ouichefs_fill_super`**, on an image whose block 0 holds the counters
`s`: bit `i` of a bitmap is bit `i % 32768` of block `i / 32768` of its region. -/
theorem fillSuperLoad_ok (long : LongSize) {s : SbInfo} {d : Device} (hf : d.faults = [])
    (hmagic : (d.block 0).word 0 = magic) (hc : SameCounters s (decodeSb (d.block 0)))
    (hsize : s.nrIstoreBlocks + s.nrIfreeBlocks + s.nrBfreeBlocks < d.size)
    (h31 : s.nrIstoreBlocks + s.nrIfreeBlocks + s.nrBfreeBlocks < 2147483648)
    (hi : s.nrIfreeBlocks ≤ 524288) (hb : s.nrBfreeBlocks ≤ 524288) :
    ∃ sbi, fillSuperLoad long d = .ok (.ok sbi, d) ∧ SameCounters s sbi.toSbInfo ∧
      sbi.ifreeBytes = s.nrIfreeBlocks * 4096 ∧ sbi.bfreeBytes = s.nrBfreeBlocks * 4096 ∧
      (∀ i < 32768 * s.nrIfreeBlocks, sbi.ifreeBitmap i =
        blockBit (d.block (s.nrIstoreBlocks + i / 32768 + 1)) (i % 32768)) ∧
      ∀ i < 32768 * s.nrBfreeBlocks, sbi.bfreeBitmap i =
        blockBit (d.block (s.nrIstoreBlocks + s.nrIfreeBlocks + i / 32768 + 1)) (i % 32768) := by
  obtain ⟨m₁, hrun₁, hbits₁⟩ := @loadLoop_spec long (s.nrIfreeBlocks * 4096 % 4294967296)
    s.nrIstoreBlocks (by omega) s.nrIfreeBlocks 0 (fun _ => false) d hf (by omega)
    (by omega) (by omega)
  obtain ⟨m₂, hrun₂, hbits₂⟩ := @loadLoop_spec long (s.nrBfreeBlocks * 4096 % 4294967296)
    (s.nrIstoreBlocks + s.nrIfreeBlocks) (by omega) s.nrBfreeBlocks 0 (fun _ => false) d hf
    (by omega) (by omega) (by omega)
  have halloc : d.kzalloc = (true, d) := by
    unfold Device.kzalloc Device.answer
    rw [hf]
  refine ⟨{ decodeSb (d.block 0) with
      ifreeBitmap := m₁, ifreeBytes := (decodeSb (d.block 0)).nrIfreeBlocks * 4096 % 4294967296,
      bfreeBitmap := m₂, bfreeBytes := (decodeSb (d.block 0)).nrBfreeBlocks * 4096 % 4294967296 },
    ?_, ⟨hc.nrBlocks, hc.nrInodes, hc.nrIstoreBlocks, hc.nrIfreeBlocks, hc.nrBfreeBlocks,
      hc.nrSlicedBlocks, hc.nrFreeInodes, hc.nrFreeBlocks, hc.nrUsedSlices, hc.sFreeSlicedBlocks⟩,
    ?_, ?_, fun i hlt => ?_, fun i hlt => ?_⟩
  · unfold fillSuperLoad loadBitmap
    rw [Device.sbBread_ok hf (by omega) (by decide)]
    simp only [hmagic, ne_eq, not_true_eq_false, if_false, halloc, hc.nrIstoreBlocks,
      hc.nrIfreeBlocks, hc.nrBfreeBlocks, hrun₁, hrun₂]
  · show (decodeSb (d.block 0)).nrIfreeBlocks * 4096 % 4294967296 = _
    rw [hc.nrIfreeBlocks]
    omega
  · show (decodeSb (d.block 0)).nrBfreeBlocks * 4096 % 4294967296 = _
    rw [hc.nrBfreeBlocks]
    omega
  · show m₁ i = _
    rw [hbits₁, if_pos (by omega)]
  · show m₂ i = _
    rw [hbits₂, if_pos (by omega)]

/-! ## The round trip -/

/-- A superblock that matches its device: the inode store and the two bitmaps follow block 0 and
end below `nr_blocks`, and the arrays in memory have the size of their regions. -/
structure SbMem.On (sbi : SbMem) (d : Device) : Prop where
  fits : sbi.toSbInfo.Fits
  regions : sbi.nrIstoreBlocks + sbi.nrIfreeBlocks + sbi.nrBfreeBlocks < sbi.nrBlocks
  blocks : sbi.nrBlocks < 2147483648
  ifreeBytes : sbi.ifreeBytes = sbi.nrIfreeBlocks * 4096
  bfreeBytes : sbi.bfreeBytes = sbi.nrBfreeBlocks * 4096
  magic : (d.block 0).word 0 = magic
  size : sbi.nrBlocks ≤ d.size
  faults : d.faults = []

/-- Synchronisation followed by loading gives the same superblock and touches neither the inode
store nor the data blocks. -/
def Restores (long : LongSize) (sbi : SbMem) (d : Device) : Prop :=
  ∃ d' sbi' d'', ouichefsSyncFs long sbi d = .ok (0, d') ∧
    fillSuperLoad long d' = .ok (.ok sbi', d'') ∧ SameCounters sbi.toSbInfo sbi'.toSbInfo ∧
    sbi'.ifreeBytes = sbi.ifreeBytes ∧ sbi'.bfreeBytes = sbi.bfreeBytes ∧
    (∀ i < 8 * sbi.ifreeBytes, sbi'.ifreeBitmap i = sbi.ifreeBitmap i) ∧
    (∀ i < 8 * sbi.bfreeBytes, sbi'.bfreeBitmap i = sbi.bfreeBitmap i) ∧
    ∀ b, (1 ≤ b ∧ b ≤ sbi.nrIstoreBlocks ∨
      sbi.nrIstoreBlocks + sbi.nrIfreeBlocks + sbi.nrBfreeBlocks < b) → d''.block b = d.block b

section RoundTrip

variable {sbi : SbMem} {d : Device}

theorem syncSbInfo_ok (h : sbi.On d) :
    syncSbInfo sbi d = (0, d.setBlock 0 (encodeSb (d.block 0) sbi.toSbInfo)) := by
  have hr := h.regions
  have hs := h.size
  unfold syncSbInfo
  rw [Device.sbBread_ok h.faults (by omega) (by decide)]

/-- What `ouichefs_sync_fs` leaves on the device. -/
structure Synced (sbi : SbMem) (d d' : Device) : Prop where
  faults : d'.faults = []
  size : d'.size = d.size
  sb : d'.block 0 = encodeSb (d.block 0) sbi.toSbInfo
  ifree : ∀ j < sbi.nrIfreeBlocks, ∀ x < 32768,
    blockBit (d'.block (sbi.nrIstoreBlocks + j + 1)) x = sbi.ifreeBitmap (32768 * j + x)
  bfree : ∀ j < sbi.nrBfreeBlocks, ∀ x < 32768,
    blockBit (d'.block (sbi.nrIstoreBlocks + sbi.nrIfreeBlocks + j + 1)) x =
      sbi.bfreeBitmap (32768 * j + x)
  same : ∀ b, (1 ≤ b ∧ b ≤ sbi.nrIstoreBlocks ∨
    sbi.nrIstoreBlocks + sbi.nrIfreeBlocks + sbi.nrBfreeBlocks < b) → d'.block b = d.block b

theorem ouichefsSyncFs_ok (long : LongSize) (h : sbi.On d) (hi : sbi.nrIfreeBlocks ≤ 524288)
    (hb : sbi.nrBfreeBlocks ≤ 524288) :
    ∃ d', ouichefsSyncFs long sbi d = .ok (0, d') ∧ Synced sbi d d' := by
  have hreg := h.regions
  have hblk := h.blocks
  have hsize := h.size
  have hib := h.ifreeBytes
  have hbb := h.bfreeBytes
  generalize hd₀ : d.setBlock 0 (encodeSb (d.block 0) sbi.toSbInfo) = d₀
  have hsz₀ : d₀.size = d.size := by rw [← hd₀]; rfl
  obtain ⟨d₁, hrun₁, hf₁, hsz₁, hbits₁, hsame₁⟩ := @syncLoop_spec long sbi.ifreeBitmap
    sbi.ifreeBytes sbi.nrIstoreBlocks (by omega) sbi.nrIfreeBlocks 0 d₀
    (by rw [← hd₀]; exact h.faults) (by omega) (by omega) (by omega)
  obtain ⟨d₂, hrun₂, hf₂, hsz₂, hbits₂, hsame₂⟩ := @syncLoop_spec long sbi.bfreeBitmap
    sbi.bfreeBytes (sbi.nrIstoreBlocks + sbi.nrIfreeBlocks) (by omega) sbi.nrBfreeBlocks 0 d₁
    hf₁ (by omega) (by omega) (by omega)
  refine ⟨d₂, ?_, ⟨hf₂, by rw [hsz₂, hsz₁, hsz₀], ?_, fun j hj x hx => ?_,
    fun j hj x hx => hbits₂ j (Nat.zero_le j) (by omega) x hx, fun b hb' => ?_⟩⟩
  · unfold ouichefsSyncFs syncIfree syncBfree
    rw [syncSbInfo_ok h, hd₀]
    simp only [ne_eq, not_true_eq_false, if_false, hrun₁, hrun₂]
  · rw [hsame₂ 0 (by omega), hsame₁ 0 (by omega), ← hd₀, Device.block_setBlock, if_pos rfl]
  · rw [hsame₂ _ (by omega)]
    exact hbits₁ j (Nat.zero_le j) (by omega) x hx
  · rw [hsame₂ b (by omega), hsame₁ b (by omega), ← hd₀, Device.block_setBlock,
      if_neg (by omega)]

/-- A bitmap of more than 524288 blocks is not written. -/
theorem ouichefsSyncFs_crash (long : LongSize) (h : sbi.On d)
    (hbig : 524288 < sbi.nrIfreeBlocks ∨ 524288 < sbi.nrBfreeBlocks) :
    ouichefsSyncFs long sbi d = .error .outOfBounds := by
  have hreg := h.regions
  have hblk := h.blocks
  have hsize := h.size
  have hib := h.ifreeBytes
  have hbb := h.bfreeBytes
  generalize hd₀ : d.setBlock 0 (encodeSb (d.block 0) sbi.toSbInfo) = d₀
  have hsz₀ : d₀.size = d.size := by rw [← hd₀]; rfl
  have hf₀ : d₀.faults = [] := by rw [← hd₀]; exact h.faults
  unfold ouichefsSyncFs syncIfree syncBfree
  rw [syncSbInfo_ok h, hd₀]
  simp only [ne_eq, not_true_eq_false, if_false]
  by_cases hi : 524288 < sbi.nrIfreeBlocks
  · rw [syncLoop_crash _ _ _ hf₀ (by omega) (by omega) (by omega) (by omega) (by omega)]
  · obtain ⟨d₁, hrun₁, hf₁, hsz₁, -⟩ := @syncLoop_spec long sbi.ifreeBitmap sbi.ifreeBytes
      sbi.nrIstoreBlocks (by omega) sbi.nrIfreeBlocks 0 d₀ hf₀ (by omega) (by omega) (by omega)
    rw [hrun₁]
    simp only [not_true_eq_false, if_false]
    rw [syncLoop_crash _ _ _ hf₁ (by omega) (by omega) (by omega) (by omega) (by omega)]

/-- Loading what was synchronised. -/
theorem fillSuperLoad_synced (long : LongSize) {d' : Device} (h : sbi.On d)
    (hi : sbi.nrIfreeBlocks ≤ 524288) (hb : sbi.nrBfreeBlocks ≤ 524288) (hs : Synced sbi d d') :
    ∃ sbi', fillSuperLoad long d' = .ok (.ok sbi', d') ∧
      SameCounters sbi.toSbInfo sbi'.toSbInfo ∧ sbi'.ifreeBytes = sbi.ifreeBytes ∧
      sbi'.bfreeBytes = sbi.bfreeBytes ∧
      (∀ i < 8 * sbi.ifreeBytes, sbi'.ifreeBitmap i = sbi.ifreeBitmap i) ∧
      ∀ i < 8 * sbi.bfreeBytes, sbi'.bfreeBitmap i = sbi.bfreeBitmap i := by
  have hreg := h.regions
  have hblk := h.blocks
  have hsize := h.size
  have hib := h.ifreeBytes
  have hbb := h.bfreeBytes
  have hsz := hs.size
  have hc := decodeSb_encodeSb (d.block 0) h.fits
  have hmagic : (d'.block 0).word 0 = magic := by
    rw [hs.sb, encodeSb_magic]
    exact h.magic
  rw [← hs.sb] at hc
  obtain ⟨sbi', hrun, hc', h1, h2, hifree, hbfree⟩ :=
    fillSuperLoad_ok long hs.faults hmagic hc (by omega) (by omega) hi hb
  refine ⟨sbi', hrun, hc', h1.trans hib.symm, h2.trans hbb.symm, fun i hlt => ?_, fun i hlt => ?_⟩
  · rw [hifree i (by omega), hs.ifree _ (by omega) _ (by omega)]
    congr 1
    omega
  · rw [hbfree i (by omega), hs.bfree _ (by omega) _ (by omega)]
    congr 1
    omega

/-- A superblock with the given sizes of the two bitmaps and one block of inodes. -/
def sbOfSizes (nrBlocks nrIfree nrBfree : Nat) : SbMem where
  nrBlocks := nrBlocks
  nrInodes := 51
  nrIstoreBlocks := 1
  nrIfreeBlocks := nrIfree
  nrBfreeBlocks := nrBfree
  nrSlicedBlocks := 0
  nrFreeInodes := 50
  nrFreeBlocks := 0
  nrUsedSlices := 0
  sFreeSlicedBlocks := 0
  ifreeBitmap i := decide (1 < i)
  bfreeBitmap _ := false
  ifreeBytes := nrIfree * 4096
  bfreeBytes := nrBfree * 4096

/-- A device whose block 0 carries the magic. -/
def magicDevice (size : Nat) : Device where
  size := size
  block _ := Page.zero.setWord 0 magic
  faults := []

theorem sbOfSizes_on {nrBlocks nrIfree nrBfree : Nat} (hr : 1 + nrIfree + nrBfree < nrBlocks)
    (hb : nrBlocks < 2147483648) :
    (sbOfSizes nrBlocks nrIfree nrBfree).On (magicDevice nrBlocks) where
  fits := by constructor <;> simp only [sbOfSizes] <;> omega
  regions := hr
  blocks := hb
  ifreeBytes := rfl
  bfreeBytes := rfl
  magic := Page.word_setWord _ (by decide)
  size := Nat.le_refl _
  faults := rfl

/-- **Synchronisation followed by mount restores the superblock** exactly when neither bitmap has
more than 524288 blocks. -/
theorem syncFs_restores (long : LongSize) (h : sbi.On d) :
    Restores long sbi d ↔ sbi.nrIfreeBlocks ≤ 524288 ∧ sbi.nrBfreeBlocks ≤ 524288 := by
  constructor
  · rintro ⟨d', -, -, hrun, -⟩
    by_contra hbig
    rw [ouichefsSyncFs_crash long h (by omega)] at hrun
    cases hrun
  · rintro ⟨hi, hb⟩
    obtain ⟨d', hrun, hs⟩ := ouichefsSyncFs_ok long h hi hb
    obtain ⟨sbi', hload, hc, h1, h2, h3, h4⟩ := fillSuperLoad_synced long h hi hb hs
    exact ⟨d', sbi', d', hrun, hload, hc, h1, h2, h3, h4, hs.same⟩

theorem syncFs_restores_eight_blocks :
    Restores .bits32 (sbOfSizes 8 1 1) (magicDevice 8) :=
  (syncFs_restores .bits32 (sbOfSizes_on (by decide) (by decide))).mpr ⟨by decide, by decide⟩

/-- Block 524288 of the inode bitmap is written from 2 GiB before the bitmap. -/
theorem syncFs_large_ifree :
    (sbOfSizes 1048576 524289 1).On (magicDevice 1048576) ∧
      ¬Restores .bits64 (sbOfSizes 1048576 524289 1) (magicDevice 1048576) := by
  have hon : (sbOfSizes 1048576 524289 1).On (magicDevice 1048576) :=
    sbOfSizes_on (by decide) (by decide)
  refine ⟨hon, ?_⟩
  rintro ⟨d', -, -, hrun, -⟩
  have hcrash := ouichefsSyncFs_crash .bits64 hon (Or.inl (by decide))
  rw [hcrash] at hrun
  cases hrun

end RoundTrip

end Ouichefs
