import Ouichefs.Lib.Loan
import Ouichefs.BigErrors
import Ouichefs.RewriteErrors

/-!
# Buffer references

`sb_bread` takes a reference to the buffer of a block and `brelse` gives it back.  Several error
paths release a buffer and then jump to `out`, which releases it again.

`KeepsRefs` says of a call that no answers of the environment make it give back a reference it does
not hold, or return with one.  `customReadIter_keepsRefs_iff` says exactly which reads do;
`delete_slice` always does.
-/

set_option autoImplicit false

namespace Ouichefs

/-- What an event does to the references. -/
def Event.refOp? : Event → Option (Nat × Bool)
  | .bread b => some (b, true)
  | .brelse b => some (b, false)
  | .noFreeBlock => none

/-- The operations on references so far. -/
def Kernel.refOps (k : Kernel) : List (Nat × Bool) := k.trace.filterMap Event.refOp?

/-- `k'` comes from `k` by operations that lead from the references `h` to `h'`. -/
def Refs (h : Multiset Nat) (k : Kernel) (h' : Multiset Nat) (k' : Kernel) : Prop :=
  ∃ l, k'.refOps = k.refOps ++ l ∧ Settles h l h'

/-- A call made with the references `h` returns with `h'`, if it returns. -/
def RefsTo {α : Type} (h : Multiset Nat) (k : Kernel) (h' : Multiset Nat) : Outcome α → Prop
  | .ok (_, k') => Refs h k h' k'
  | .error (_, k') => ∃ g, Refs h k g k'

/-- The call never gave back a reference it did not hold, and if it returned, all that it took. -/
def RefsKept {α : Type} (k : Kernel) (run : Outcome α) : Prop := RefsTo 0 k 0 run

/-- The kernel with the answers the environment is going to give. -/
def Kernel.answered (k : Kernel) (answers : List Answer) : Kernel := { k with faults := answers }

/-- The call keeps the references whatever the environment answers. -/
def KeepsRefs {α : Type} (call : Kernel → Outcome α) (k : Kernel) : Prop :=
  ∀ answers, RefsKept (k.answered answers) (call (k.answered answers))

/-! ## Rules -/

section Rules

variable {k k₁ k₂ : Kernel} {h h₁ h₂ : Multiset Nat}

@[simp] theorem Kernel.refOps_setInode (k : Kernel) (ino : Nat) (ci : Inode) :
    (k.setInode ino ci).refOps = k.refOps := rfl
@[simp] theorem Kernel.refOps_setBlock (k : Kernel) (b : Nat) (nb : Block) :
    (k.setBlock b nb).refOps = k.refOps := rfl
@[simp] theorem Kernel.refOps_setSbi (k : Kernel) (sbi : SbInfo) :
    (k.setSbi sbi).refOps = k.refOps := rfl
@[simp] theorem Kernel.refOps_answered (k : Kernel) (answers : List Answer) :
    (k.answered answers).refOps = k.refOps := rfl
@[simp] theorem Kernel.fs_answered (k : Kernel) (answers : List Answer) :
    (k.answered answers).fs = k.fs := rfl
@[simp] theorem Kernel.faults_answered (k : Kernel) (answers : List Answer) :
    (k.answered answers).faults = answers := rfl
@[simp] theorem Kernel.inode_answered (k : Kernel) (answers : List Answer) (ino : Nat) :
    (k.answered answers).inode ino = k.inode ino := rfl

@[simp] theorem Kernel.refOps_bread (k : Kernel) (b : Nat) :
    (k.log (.bread b)).refOps = k.refOps ++ [(b, true)] := by
  simp [Kernel.refOps, Event.refOp?]

@[simp] theorem Kernel.refOps_brelse (k : Kernel) (b : Nat) :
    (k.brelse b).refOps = k.refOps ++ [(b, false)] := by
  simp [Kernel.refOps, Event.refOp?]

@[simp] theorem Kernel.refOps_noFreeBlock (k : Kernel) :
    (k.log .noFreeBlock).refOps = k.refOps := by
  simp [Kernel.refOps, Event.refOp?]

@[simp] theorem Kernel.refOps_putBlock (k : Kernel) (b : Nat) :
    (k.putBlock b).refOps = k.refOps := rfl

theorem Kernel.refOps_sbBread (k : Kernel) (b : Nat) : (k.sbBread b).2.refOps =
    k.refOps ++ if (k.sbBread b).1 then [(b, true)] else [] := by
  unfold Kernel.sbBread
  split
  · simp
  · split
    · simp
    · show (k.log (.bread b)).refOps = _
      simp
    · simp [Kernel.refOps]

/-- What a successful read says. -/
theorem Kernel.sbBread_some {b : Nat} (hb : k.sbBread b = (true, k₁)) :
    b < k.fs.sbi.nrBlocks ∧ k₁.fs = k.fs ∧ (k.faults = [] → k₁.faults = []) := by
  unfold Kernel.sbBread at hb
  split at hb
  · cases hb
  · rename_i hlt
    split at hb
    · rename_i hf
      cases hb
      exact ⟨Nat.not_le.1 hlt, rfl, fun _ => hf⟩
    · rename_i hf
      cases hb
      exact ⟨Nat.not_le.1 hlt, rfl, fun h0 => by rw [h0] at hf; cases hf⟩
    · cases hb

/-- A read that is answered. -/
theorem Kernel.sbBread_success {b : Nat} {answers : List Answer} (hb : b < k.fs.sbi.nrBlocks)
    (hf : k.faults = .success :: answers) :
    k.sbBread b = (true, (k.log (.bread b)).answered answers) := by
  unfold Kernel.sbBread
  rw [if_neg (by omega), hf]
  rfl

theorem Kernel.kmalloc_success {answers : List Answer} (hf : k.faults = .success :: answers) :
    k.kmalloc = (true, k.answered answers) := by
  unfold Kernel.kmalloc
  rw [hf]
  rfl

theorem Kernel.copyFromIter_success {answers : List Answer} (data : List UInt8)
    (hf : k.faults = .success :: answers) :
    k.copyFromIter data.length data = (data, k.answered answers) := by
  unfold Kernel.copyFromIter
  rw [hf, List.take_length]
  rfl

/-- A copy of at least one byte that comes up short. -/
theorem Kernel.copyFromIter_cut {c n : Nat} (iter : List UInt8) {answers : List Answer}
    (hn : 0 < n) (hf : k.faults = .failure c :: answers) :
    ∃ copied, copied.length ≠ n ∧ k.copyFromIter n iter = (copied, k.answered answers) := by
  unfold Kernel.copyFromIter
  rw [hf]
  refine ⟨_, ?_, rfl⟩
  rw [List.length_take]
  omega

@[simp] theorem Kernel.refOps_getFreeBlock (k : Kernel) :
    k.getFreeBlock.2.refOps = k.refOps := by
  unfold Kernel.getFreeBlock
  simp only
  split
  · simp
  · rfl

/-- The environment was asked for something other than a buffer. -/
structure Kernel.Asks (k k' : Kernel) : Prop where
  fs : k'.fs = k.fs
  refOps : k'.refOps = k.refOps
  faults : k.faults = [] → k'.faults = []

theorem Kernel.kmalloc_asks (k : Kernel) : k.Asks k.kmalloc.2 := by
  unfold Kernel.kmalloc
  split
  · rename_i hf
    exact ⟨rfl, rfl, fun _ => hf⟩
  · rename_i hf
    exact ⟨rfl, rfl, fun h0 => by rw [h0] at hf; cases hf⟩
  · rename_i hf
    exact ⟨rfl, rfl, fun h0 => by rw [h0] at hf; cases hf⟩

theorem Kernel.copyFromIter_asks (k : Kernel) (n : Nat) (iter : List UInt8) :
    k.Asks (k.copyFromIter n iter).2 := by
  unfold Kernel.copyFromIter
  split
  · rename_i hf
    exact ⟨rfl, rfl, fun _ => hf⟩
  · rename_i hf
    exact ⟨rfl, rfl, fun h0 => by rw [h0] at hf; cases hf⟩
  · rename_i hf
    exact ⟨rfl, rfl, fun h0 => by rw [h0] at hf; cases hf⟩

theorem Refs.of_eq (hops : k₁.refOps = k.refOps) (h : Multiset Nat) : Refs h k h k₁ :=
  ⟨[], by simp [hops], .nil h⟩

theorem Refs.trans (h₀ : Refs h k h₁ k₁) (h₀' : Refs h₁ k₁ h₂ k₂) : Refs h k h₂ k₂ := by
  obtain ⟨l, hl, hs⟩ := h₀
  obtain ⟨l', hl', hs'⟩ := h₀'
  exact ⟨l ++ l', by rw [hl', hl, List.append_assoc], hs.trans hs'⟩

theorem Refs.frame (h₀ : Refs h k h₁ k₁) (g : Multiset Nat) : Refs (h + g) k (h₁ + g) k₁ := by
  obtain ⟨l, hl, hs⟩ := h₀
  exact ⟨l, hl, hs.frame g⟩

theorem Refs.bread {b : Nat} (hb : k.sbBread b = (true, k₁)) (h : Multiset Nat) :
    Refs h k (b ::ₘ h) k₁ := by
  have hops := Kernel.refOps_sbBread k b
  rw [hb] at hops
  exact ⟨_, hops, .take h b⟩

theorem Refs.unread {b : Nat} (hb : k.sbBread b = (false, k₁)) (h : Multiset Nat) :
    Refs h k h k₁ := by
  have hops := Kernel.refOps_sbBread k b
  rw [hb] at hops
  exact .of_eq (by simpa using hops) h

theorem Refs.brelse (k : Kernel) (b : Nat) (h : Multiset Nat) : Refs (b ::ₘ h) k h (k.brelse b) :=
  ⟨_, Kernel.refOps_brelse k b, .give h b⟩

/-- What came before a call. -/
theorem Refs.to {α : Type} {run : Outcome α} (h₀ : Refs h k h₁ k₁) (h₀' : RefsTo h₁ k₁ h₂ run) :
    RefsTo h k h₂ run := by
  match run, h₀' with
  | .ok (_, k'), h₀' => exact h₀.trans h₀'
  | .error (_, k'), ⟨g, h₀'⟩ => exact ⟨g, h₀.trans h₀'⟩

theorem RefsTo.frame {α : Type} {run : Outcome α} (h₀ : RefsTo h k h₁ run) (g : Multiset Nat) :
    RefsTo (h + g) k (h₁ + g) run := by
  match run, h₀ with
  | .ok (_, _), h₀ => exact Refs.frame h₀ g
  | .error (_, _), ⟨g', h₀⟩ => exact ⟨g' + g, h₀.frame g⟩

/-- A returned call whose operations are known. -/
theorem refsKept_ok {α : Type} {a : α} {l : List (Nat × Bool)} (hops : k₁.refOps = k.refOps ++ l) :
    RefsKept k (.ok (a, k₁)) ↔ Settles 0 l 0 := by
  constructor
  · rintro ⟨l', hl', hs⟩
    rw [hops, List.append_cancel_left_eq] at hl'
    rwa [hl']
  · exact fun hs => ⟨l, hops, hs⟩

theorem refsKept_value {α : Type} {run : Outcome α} {a : α} {l : List (Nat × Bool)}
    (hval : run.value? = some a) (hops : run.kernel.refOps = k.refOps ++ l) :
    RefsKept k run ↔ Settles 0 l 0 := by
  rw [Outcome.eq_ok hval]
  exact refsKept_ok hops

/-- One reference too many is given back. -/
theorem not_settles_twice (l : List (Nat × Bool)) (b : Nat) (hl : Settles 0 l 0) :
    ¬Settles 0 (l ++ [(b, false)]) 0 := by
  intro hs
  have hcount := (hl.rest hs).count_eq b
  simp at hcount

/-- The same inside a pair of operations on another buffer, or on the same one. -/
theorem not_settles_within (a b : Nat) :
    ¬Settles 0 ([(a, true), (b, true), (b, false), (b, false)] ++ [(a, false)]) 0 := by
  intro hs
  have hcount := hs.count_eq b
  by_cases hba : b = a
  · subst hba
    simp at hcount
  · simp [Ne.symm hba] at hcount

end Rules

/-! ## `delete_slice` -/

/-- The reference to the last block that was kept. -/
def heldPrev : Option Nat → Multiset Nat
  | none => 0
  | some p => {p}

theorem brelsePrev_refs (k : Kernel) (prev : Option Nat) (h : Multiset Nat) :
    Refs (heldPrev prev + h) k h (brelsePrev k prev) := by
  cases prev with
  | none =>
      rw [heldPrev, zero_add]
      exact .of_eq rfl h
  | some p => exact .brelse k p h

theorem brelsePrev_refs_all (k : Kernel) (prev : Option Nat) :
    Refs (heldPrev prev) k 0 (brelsePrev k prev) := by
  have hrel := brelsePrev_refs k prev 0
  rwa [add_zero] at hrel

/-- The walk of `delete_slice` holds its last kept block, and in the end nothing. -/
theorem pruneChain_refs : ∀ (fuel : Nat) (k : Kernel) (cur : Nat) (prev : Option Nat),
    RefsTo (heldPrev prev) k 0 (pruneChain fuel k cur prev) := by
  intro fuel
  induction fuel with
  | zero =>
      intro k cur prev
      cases cur with
      | zero => exact brelsePrev_refs_all k prev
      | succ cur => exact ⟨_, .of_eq rfl _⟩
  | succ fuel ih =>
      intro k cur prev
      cases cur with
      | zero => exact brelsePrev_refs_all k prev
      | succ cur =>
          rw [pruneChain]
          split
          · rename_i k₁ hb
            exact (Refs.unread hb _).trans (brelsePrev_refs_all k₁ prev)
          · rename_i k₁ hb
            simp only
            split
            · -- an emptied block is released before the walk goes on
              refine Refs.to ?_ (ih _ _ prev)
              refine (Refs.bread hb _).trans ?_
              refine Refs.trans ?_ (Refs.brelse _ (cur + 1) (heldPrev prev))
              cases prev <;> exact .of_eq rfl _
            · refine Refs.to ?_ (ih _ _ (some (cur + 1)))
              have hrel := brelsePrev_refs k₁ prev {cur + 1}
              rw [add_comm] at hrel
              exact (Refs.bread hb _).trans hrel

/-- **`delete_slice` returns the references it took**, whatever the environment answers. -/
theorem deleteSlice_refs (k : Kernel) (bno s n : Nat) : RefsTo 0 k 0 (deleteSlice k bno s n) := by
  cases (deleteSlice_exits k bno s n).1 rfl with
  | nothing hnone eq =>
      rw [eq]
      exact Refs.of_eq rfl 0
  | unread hb hn hread eq =>
      rw [eq]
      exact Refs.unread hread 0
  | walked hb hn hread eq =>
      rw [eq]
      refine Refs.to ?_ (pruneChain_refs _ _ _ none)
      refine (Refs.bread hread 0).trans ?_
      refine Refs.trans ?_ (Refs.brelse _ bno 0)
      exact .of_eq rfl _

/-! ## `custom_read_iter` -/

/-- A read of `n` bytes at `pos` through index block `idx` meets a block that can be read. -/
def Fs.ReadsBuffer (fs : Fs) (idx pos n : Nat) : Prop :=
  ∃ i < 1024, Touches pos n i ∧ (∀ j < i, Touches pos n j → indexPtr (fs.disk idx) j = 0) ∧
    indexPtr (fs.disk idx) i ≠ 0 ∧ indexPtr (fs.disk idx) i < fs.sbi.nrBlocks

section Read

variable {fs : Fs} {k : Kernel} {ino idx pos count n : Nat}

theorem touches_self (pos : Nat) (h : 0 < count) : Touches pos count (pos / 4096) := by
  unfold Touches
  omega

theorem touches_tail (hn : n = min count (4096 - pos % 4096)) (h : 0 < count) (i : Nat) :
    Touches (pos + n) (count - n) i ↔ Touches pos count i ∧ i ≠ pos / 4096 := by
  unfold Touches
  omega

/-- Behind a hole the read goes on. -/
theorem Fs.readsBuffer_hole (hn : n = min count (4096 - pos % 4096)) (h : 0 < count)
    (h0 : indexPtr (fs.disk idx) (pos / 4096) = 0) :
    fs.ReadsBuffer idx (pos + n) (count - n) ↔ fs.ReadsBuffer idx pos count := by
  unfold Fs.ReadsBuffer
  simp only [touches_tail hn h]
  constructor
  · rintro ⟨i, hi, ⟨ht, -⟩, hholes, hne, hlt⟩
    refine ⟨i, hi, ht, fun j hj htj => ?_, hne, hlt⟩
    by_cases hj0 : j = pos / 4096
    · rwa [hj0]
    · exact hholes j hj ⟨htj, hj0⟩
  · rintro ⟨i, hi, ht, hholes, hne, hlt⟩
    refine ⟨i, hi, ⟨ht, ?_⟩, fun j hj htj => hholes j hj htj.1, hne, hlt⟩
    rintro rfl
    exact hne h0

/-- A block behind the first pointer. -/
theorem Fs.readsBuffer_block (h : 0 < count) (h0 : indexPtr (fs.disk idx) (pos / 4096) ≠ 0) :
    fs.ReadsBuffer idx pos count ↔
      pos / 4096 < 1024 ∧ indexPtr (fs.disk idx) (pos / 4096) < fs.sbi.nrBlocks := by
  have hself := touches_self pos h
  constructor
  · rintro ⟨i, hi, ht, hholes, hne, hlt⟩
    have hle : pos / 4096 ≤ i := by
      unfold Touches at ht
      omega
    rcases Nat.lt_or_ge (pos / 4096) i with hlt' | hge
    · exact absurd (hholes _ hlt' hself) h0
    · obtain rfl : i = pos / 4096 := by omega
      exact ⟨hi, hlt⟩
  · rintro ⟨hi, hlt⟩
    refine ⟨_, hi, hself, fun j hj htj => ?_, h0, hlt⟩
    unfold Touches at htj
    omega

/-- A read that meets holes only, or a block that cannot be read. -/
theorem readBigLoop_refs_stop : ∀ (fuel : Nat) (k : Kernel) (pos count : Nat) (acc : List UInt8),
    ¬k.fs.ReadsBuffer idx pos count → RefsTo 0 k 0 (readBigLoop idx fuel k pos count acc) := by
  intro fuel
  induction fuel with
  | zero =>
      intro k pos count acc _
      cases count with
      | zero => exact Refs.of_eq rfl 0
      | succ count => exact ⟨0, .of_eq rfl 0⟩
  | succ fuel ih =>
      intro k pos count acc hno
      cases count with
      | zero => exact Refs.of_eq rfl 0
      | succ count =>
          rw [readBigLoop]
          simp only
          by_cases hbig : pos / 4096 ≥ 1024
          · rw [if_pos hbig]
            exact Refs.of_eq rfl 0
          rw [if_neg hbig]
          by_cases h0 : indexPtr (k.fs.disk idx) (pos / 4096) = 0
          · rw [← Fs.readsBuffer_hole rfl (Nat.succ_pos count) h0] at hno
            rw [if_pos h0]
            generalize hto : min (count + 1) (4096 - pos % 4096) = n at *
            have hops := (k.copyFromIter_asks n (List.replicate n 0)).refOps
            have hfs := (k.copyFromIter_asks n (List.replicate n 0)).fs
            generalize k.copyFromIter n (List.replicate n 0) = p at *
            obtain ⟨zeros, k₁⟩ := p
            simp only at hops hfs ⊢
            split
            · exact Refs.of_eq hops 0
            · exact Refs.to (.of_eq hops 0) (ih _ _ _ _ (by rwa [hfs]))
          · rw [Fs.readsBuffer_block (Nat.succ_pos count) h0] at hno
            have hge : k.fs.sbi.nrBlocks ≤ indexPtr (k.fs.disk idx) (pos / 4096) := by omega
            rw [if_neg h0]
            simp only [Kernel.sbBread, hge, if_true]
            exact Refs.of_eq rfl 0

/-- A read without failures. -/
theorem readBigLoop_refs_ok : ∀ (fuel : Nat) (k : Kernel) (pos count : Nat) (acc : List UInt8),
    k.faults = [] → RefsTo 0 k 0 (readBigLoop idx fuel k pos count acc) := by
  intro fuel
  induction fuel with
  | zero =>
      intro k pos count acc _
      cases count with
      | zero => exact Refs.of_eq rfl 0
      | succ count => exact ⟨0, .of_eq rfl 0⟩
  | succ fuel ih =>
      intro k pos count acc hf
      cases count with
      | zero => exact Refs.of_eq rfl 0
      | succ count =>
          rw [readBigLoop]
          simp only
          split
          · exact Refs.of_eq rfl 0
          split
          · simp only [Kernel.copyFromIter_ok hf, List.length_take, List.length_replicate,
              Nat.min_self, ne_eq, not_true_eq_false, if_false]
            exact ih k _ _ _ hf
          · split
            · rename_i hb
              exact Refs.unread hb 0
            · rename_i k₁ hb
              have hf₁ := (Kernel.sbBread_some hb).2.2 hf
              simp only [Kernel.copyFromIter_ok hf₁, List.length_take, Page.bytes_length,
                Nat.min_self, ne_eq, not_true_eq_false, if_false]
              apply Refs.to ((Refs.bread hb 0).trans (.brelse k₁ _ 0))
              exact ih _ _ _ _ hf₁

/-- A read that meets a block, whose copy then comes up short. -/
theorem readBigLoop_refs_cut : ∀ (fuel pos count : Nat), fs.ReadsBuffer idx pos count →
    count ≤ fuel → ∃ answers, ∀ (k : Kernel) (acc : List UInt8), k.fs = fs → k.faults = answers →
      ∃ e b k', readBigLoop idx fuel k pos count acc = .ok (.error e, k') ∧
        k'.refOps = k.refOps ++ [(b, true), (b, false), (b, false)] := by
  intro fuel
  induction fuel with
  | zero =>
      rintro pos count ⟨i, -, ht, -⟩ hle
      unfold Touches at ht
      omega
  | succ fuel ih =>
      intro pos count hyes hle
      obtain ⟨count, rfl⟩ : ∃ m, count = m + 1 := by
        obtain ⟨i, -, ht, -⟩ := hyes
        unfold Touches at ht
        exact ⟨count - 1, by omega⟩
      have hn : 0 < min (count + 1) (4096 - pos % 4096) := by
        have := Nat.mod_lt pos (show 0 < 4096 by decide)
        omega
      by_cases h0 : indexPtr (fs.disk idx) (pos / 4096) = 0
      · have hlt : ¬pos / 4096 ≥ 1024 := by
          obtain ⟨i, hi, ht, -⟩ := hyes
          unfold Touches at ht
          omega
        rw [← Fs.readsBuffer_hole rfl (Nat.succ_pos count) h0] at hyes
        obtain ⟨answers, hcut⟩ := ih _ _ hyes (by omega)
        refine ⟨.success :: answers, fun k acc hfs hf => ?_⟩
        generalize hto : min (count + 1) (4096 - pos % 4096) = n at *
        obtain ⟨e, b, k', hrun, hops⟩ :=
          hcut (k.answered answers) (acc ++ List.replicate n 0) hfs rfl
        have hcopy : k.copyFromIter n (List.replicate n 0) =
            (List.replicate n 0, k.answered answers) := by
          unfold Kernel.copyFromIter
          rw [hf, List.take_of_length_le (by simp)]
          rfl
        refine ⟨e, b, k', ?_, hops⟩
        rw [readBigLoop]
        simp only [hto, hlt, if_false, hfs, h0, if_true, hcopy, List.length_replicate, ne_eq,
          not_true_eq_false]
        exact hrun
      · obtain ⟨hlt, hb⟩ := (Fs.readsBuffer_block (Nat.succ_pos count) h0).1 hyes
        refine ⟨[.success, .failure 0], fun k acc hfs hf => ?_⟩
        subst hfs
        have hlt' : ¬pos / 4096 ≥ 1024 := by omega
        rw [readBigLoop]
        simp only [hlt', if_false, h0, Kernel.sbBread_success hb hf]
        generalize hk₁ : (k.log (.bread _)).answered [.failure 0] = k₁
        obtain ⟨copied, hcut, hcopy⟩ := @Kernel.copyFromIter_cut k₁ 0 _
          ((k₁.fs.disk (indexPtr (k.fs.disk idx) (pos / 4096))).bytes (pos % 4096)
            (min (count + 1) (4096 - pos % 4096))) [] hn (by rw [← hk₁]; rfl)
        simp only [hcopy, hcut, ne_eq, not_false_eq_true, if_true]
        refine ⟨_, indexPtr (k.fs.disk idx) (pos / 4096), _, rfl, ?_⟩
        rw [Kernel.refOps_brelse, Kernel.refOps_brelse, Kernel.refOps_answered, ← hk₁,
          Kernel.refOps_answered, Kernel.refOps_bread]
        simp

/-- A read copies out of a buffer. -/
def Fs.CopiesOut (fs : Fs) (ino pos count : Nat) : Prop :=
  let ci := fs.inode ino
  let n := min count (ci.iSize - pos)
  0 < n ∧ if isSmallFile ci then ci.getBno < fs.sbi.nrBlocks
    else ci.indexBlock ≠ 0 ∧ ci.indexBlock < fs.sbi.nrBlocks ∧ fs.ReadsBuffer ci.indexBlock pos n

/-- The size of a read, as `custom_read_iter` computes it. -/
theorem readSize_eq {iSize : Nat} (hpos : ¬pos ≥ iSize) :
    (if pos + count > iSize then iSize - pos else count) = min count (iSize - pos) := by
  split <;> omega

/-- A read keeps its references if its copy out of the slices succeeds and the loop keeps them. -/
theorem customReadIter_refs_of (hsmall : isSmallFile (k.inode ino) = true →
      0 < min count ((k.inode ino).iSize - pos) → k.fs.sbi.nrBlocks ≤ (k.inode ino).getBno ∨
        k.faults = [] ∧ (k.inode ino).getSlice ≠ 0)
    (hloop : isSmallFile (k.inode ino) ≠ true → 0 < min count ((k.inode ino).iSize - pos) →
      (k.inode ino).indexBlock ≠ 0 → ∀ n k₁, n = min count ((k.inode ino).iSize - pos) →
        k.sbBread (k.inode ino).indexBlock = (true, k₁) →
        RefsTo 0 k₁ 0 (readBigLoop (k.inode ino).indexBlock n k₁ pos n [])) :
    RefsTo 0 k 0 (customReadIter k ino pos count) := by
  unfold customReadIter
  simp only
  by_cases hend : pos ≥ (k.inode ino).iSize
  · rw [if_pos hend]
    exact Refs.of_eq rfl 0
  simp only [if_neg hend, readSize_eq hend]
  generalize min count ((k.inode ino).iSize - pos) = n at *
  by_cases h0 : n = 0
  · rw [if_pos h0]
    exact Refs.of_eq rfl 0
  rw [if_neg h0]
  by_cases hs : isSmallFile (k.inode ino) = true
  · rw [if_pos hs]
    split
    · rename_i hb
      exact Refs.unread hb 0
    · rename_i k₁ hb
      obtain ⟨hlt, -, hf⟩ := Kernel.sbBread_some hb
      obtain ⟨hf0, hslice⟩ := (hsmall hs (Nat.pos_of_ne_zero h0)).resolve_left (Nat.not_le.2 hlt)
      have hlt32 : (k.inode ino).getSlice < 32 := Nat.mod_lt _ (by decide)
      rw [if_neg (by omega), Kernel.copyFromIter_ok (hf hf0)]
      simp only [List.length_take, Page.bytes_length, Nat.min_self, ne_eq, not_true_eq_false,
        if_false]
      exact (Refs.bread hb 0).trans (.brelse k₁ _ 0)
  · rw [if_neg hs]
    by_cases hz : (k.inode ino).indexBlock = 0
    · rw [if_pos hz]
      exact Refs.of_eq rfl 0
    rw [if_neg hz]
    split
    · rename_i hb
      exact Refs.unread hb 0
    · rename_i k₁ hb
      have hmid := (hloop hs (Nat.pos_of_ne_zero h0) hz n k₁ rfl hb).frame
        {(k.inode ino).indexBlock}
      rw [zero_add] at hmid
      refine Refs.to (Refs.bread hb 0) ?_
      split
      · rename_i hrun
        rw [hrun] at hmid
        exact hmid
      · rename_i hrun
        rw [hrun] at hmid
        exact Refs.trans hmid (.brelse _ _ 0)
      · rename_i hrun
        rw [hrun] at hmid
        exact Refs.trans hmid (.brelse _ _ 0)

/-- A read that copies nothing out of a buffer. -/
theorem customReadIter_refs (hno : ¬k.fs.CopiesOut ino pos count) :
    RefsTo 0 k 0 (customReadIter k ino pos count) := by
  have hinode : k.fs.inode ino = k.inode ino := rfl
  unfold Fs.CopiesOut at hno
  simp only [hinode] at hno
  apply customReadIter_refs_of
  · intro hs hpos
    rw [if_pos hs] at hno
    exact Or.inl (by omega)
  · intro hs hpos hz n k₁ hn hb
    rw [if_neg hs, ← hn] at hno
    obtain ⟨hlt, hfs, -⟩ := Kernel.sbBread_some hb
    exact readBigLoop_refs_stop _ _ _ _ _ (by rw [hfs]; exact fun h => hno ⟨by omega, hz, hlt, h⟩)

/-- A read without failures. -/
theorem customReadIter_refs_ok (hf : k.faults = []) (hslice : isSmallFile (k.inode ino) = true →
      0 < (k.inode ino).iSize → (k.inode ino).getSlice ≠ 0) :
    RefsTo 0 k 0 (customReadIter k ino pos count) := by
  apply customReadIter_refs_of
  · intro hs hpos
    exact Or.inr ⟨hf, hslice hs (by omega)⟩
  · intro _ _ _ n k₁ _ hb
    exact readBigLoop_refs_ok _ _ _ _ _ ((Kernel.sbBread_some hb).2.2 hf)

/-- A read whose copy out of a buffer comes up short. -/
theorem customReadIter_refs_cut (hyes : fs.CopiesOut ino pos count) :
    ∃ answers, ∀ k : Kernel, k.fs = fs → k.faults = answers →
      ¬RefsKept k (customReadIter k ino pos count) := by
  obtain ⟨hpos, hyes⟩ := hyes
  have hend : ¬pos ≥ (fs.inode ino).iSize := by omega
  by_cases hs : isSmallFile (fs.inode ino) = true
  · rw [if_pos hs] at hyes
    refine ⟨[.success, .failure 0], fun k hfs hf hrun => ?_⟩
    subst hfs
    have hinode : k.fs.inode ino = k.inode ino := rfl
    simp only [hinode] at hend hpos hs hyes
    unfold customReadIter at hrun
    simp only [if_neg hend, readSize_eq hend] at hrun
    generalize min count ((k.inode ino).iSize - pos) = n at *
    rw [if_neg (by omega), if_pos hs, Kernel.sbBread_success hyes hf] at hrun
    simp only at hrun
    generalize (k.inode ino).getBno = b at *
    generalize hk₁ : (k.log (.bread b)).answered [.failure 0] = k₁ at hrun
    have hops : k₁.refOps = k.refOps ++ [(b, true)] := by
      rw [← hk₁]
      simp
    have hdouble : ∀ k₂ : Kernel, k₂.refOps = k₁.refOps → ((k₂.brelse b).brelse b).refOps =
        k.refOps ++ ([(b, true)] ++ [(b, false)] ++ [(b, false)]) := by
      intro k₂ hk₂
      rw [Kernel.refOps_brelse, Kernel.refOps_brelse, hk₂, hops]
      simp
    have hpair : Settles 0 ([(b, true)] ++ [(b, false)]) 0 := (Settles.nil 0).bracket b
    apply not_settles_twice _ _ hpair
    split at hrun
    · exact (refsKept_ok (hdouble _ rfl)).1 hrun
    · obtain ⟨copied, hcut, hcopy⟩ := @Kernel.copyFromIter_cut k₁ 0 n
        ((k₁.fs.disk b).bytes ((k.inode ino).getSlice * 128) n) [] hpos (by rw [← hk₁]; rfl)
      simp only [hcopy, hcut, ne_eq, not_false_eq_true, if_true] at hrun
      exact (refsKept_ok (hdouble (k₁.answered []) rfl)).1 hrun
  · rw [if_neg hs] at hyes
    obtain ⟨hz, hlt, hyes⟩ := hyes
    obtain ⟨answers, hcut⟩ := readBigLoop_refs_cut _ pos _ hyes (Nat.le_refl _)
    refine ⟨.success :: answers, fun k hfs hf hrun => ?_⟩
    subst hfs
    have hinode : k.fs.inode ino = k.inode ino := rfl
    simp only [hinode] at hend hpos hs hz hlt hyes hcut
    unfold customReadIter at hrun
    simp only [if_neg hend, readSize_eq hend] at hrun
    generalize min count ((k.inode ino).iSize - pos) = n at *
    rw [if_neg (by omega), if_neg hs, if_neg hz, Kernel.sbBread_success hlt hf] at hrun
    generalize (k.inode ino).indexBlock = idx at *
    obtain ⟨⟨ret, out⟩, b, k', hloop, hops⟩ :=
      hcut ((k.log (.bread idx)).answered answers) [] rfl rfl
    simp only [hloop] at hrun
    refine not_settles_within idx b ((refsKept_ok ?_).1 hrun)
    rw [Kernel.refOps_brelse, hops]
    simp

/-- **A read returns its references** whatever the environment answers iff it copies nothing out of
a buffer. -/
theorem customReadIter_keepsRefs_iff (k : Kernel) (ino pos count : Nat) :
    KeepsRefs (fun k => customReadIter k ino pos count) k ↔ ¬k.fs.CopiesOut ino pos count := by
  constructor
  · intro hkeep hyes
    obtain ⟨answers, hcut⟩ := customReadIter_refs_cut hyes
    exact hcut (k.answered answers) rfl rfl (hkeep answers)
  · intro hno answers
    exact customReadIter_refs hno

end Read

/-! ## `write_big_file` -/

/-- The data block that the loop uses for pointer `i`; 0 if none is free. -/
def Fs.dataBlock (fs : Fs) (idx i : Nat) : Nat :=
  if indexPtr (fs.disk idx) i = 0 then fs.sbi.getFreeBlock.1 else indexPtr (fs.disk idx) i

/-- The loop gets as far as copying into a buffer. -/
def Fs.ReachesBlock (fs : Fs) (idx pos : Nat) : Prop :=
  pos < 4194304 ∧ fs.dataBlock idx (pos / 4096) ≠ 0 ∧
    fs.dataBlock idx (pos / 4096) < fs.sbi.nrBlocks

section Big

variable {k k₁ k' : Kernel} {ino idx iSize pos fuel : Nat} {iocb : Kiocb} {data : List UInt8}

/-- The block for pointer `i`; no buffer is read and no answer used. -/
theorem getDataBlock_refs (k : Kernel) (idx i : Nat) :
    ∃ k₁, getDataBlock k idx i = (k.fs.dataBlock idx i, k₁) ∧ k₁.refOps = k.refOps ∧
      k₁.faults = k.faults ∧ k₁.fs.sbi.nrBlocks = k.fs.sbi.nrBlocks := by
  have hops := Kernel.refOps_getFreeBlock k
  have hquiet := (Quiet.getFreeBlock 0 k).geom.nrBlocks
  have hfaults := Kernel.faults_getFreeBlock k
  have hfst := Kernel.getFreeBlock_fst k
  unfold getDataBlock Fs.dataBlock
  by_cases h0 : indexPtr (k.fs.disk idx) i = 0
  · simp only [h0, if_true]
    rw [← hfst]
    generalize k.getFreeBlock = p at hops hquiet hfaults
    obtain ⟨b, k₁⟩ := p
    cases b with
    | zero => exact ⟨k₁, rfl, hops, hfaults, hquiet⟩
    | succ b => exact ⟨_, rfl, hops, hfaults, hquiet⟩
  · simp only [h0, if_false]
    exact ⟨k, rfl, rfl, rfl, rfl⟩

theorem getDataBlock_refs_of {i b : Nat} (h : getDataBlock k idx i = (b, k₁)) :
    k.fs.dataBlock idx i = b ∧ k₁.refOps = k.refOps ∧ k₁.faults = k.faults ∧
      k₁.fs.sbi.nrBlocks = k.fs.sbi.nrBlocks := by
  obtain ⟨k₂, hget, hrest⟩ := getDataBlock_refs k idx i
  rw [hget, Prod.mk.injEq] at h
  obtain ⟨hb, rfl⟩ := h
  exact ⟨hb, hrest⟩

theorem writeBigLoop_refs_nil (iSize idx fuel : Nat) (k : Kernel) (pos : Nat) :
    RefsTo 0 k 0 (writeBigLoop iSize idx fuel k pos []) := by
  cases fuel <;> exact Refs.of_eq rfl 0

/-- A loop that gets no buffer. -/
theorem writeBigLoop_refs_stop (hno : ¬k.fs.ReachesBlock idx pos) (hfuel : data.length ≤ fuel) :
    RefsTo 0 k 0 (writeBigLoop iSize idx fuel k pos data) := by
  cases data with
  | nil => exact writeBigLoop_refs_nil _ _ _ _ _
  | cons x xs =>
      obtain ⟨fuel, rfl⟩ : ∃ n, fuel = n + 1 := ⟨fuel - 1, by simp at hfuel; omega⟩
      -- a block that is read would be one the loop reaches
      have hout : ∀ b k₁ k₂, ¬pos / 4096 ≥ 1024 → getDataBlock k idx (pos / 4096) = (b + 1, k₁) →
          ¬k₁.sbBread (b + 1) = (true, k₂) := by
        intro b k₁ k₂ hpos hblock hread
        obtain ⟨hb, -, -, hblocks⟩ := getDataBlock_refs_of hblock
        have hlt := (Kernel.sbBread_some hread).1
        exact hno ⟨by omega, by omega, by omega⟩
      cases (writeBigLoop_exits iSize idx fuel k pos x xs).1 rfl with
      | tooBig hpos eq =>
          rw [eq]
          exact Refs.of_eq rfl 0
      | noBlock hpos hblock eq =>
          rw [eq]
          exact Refs.of_eq (getDataBlock_refs_of hblock).2.1 0
      | unread hpos hblock hread eq =>
          rw [eq]
          exact (Refs.of_eq (getDataBlock_refs_of hblock).2.1 0).trans (.unread hread 0)
      | fault hpos hblock hread hcopy hlen eq => exact absurd hread (hout _ _ _ hpos hblock)
      | copied hpos hblock hread hcopy hlen eq => exact absurd hread (hout _ _ _ hpos hblock)

/-- A loop without failures. -/
theorem writeBigLoop_refs_ok : ∀ (fuel : Nat) (k : Kernel) (pos : Nat) (data : List UInt8),
    k.faults = [] → RefsTo 0 k 0 (writeBigLoop iSize idx fuel k pos data) := by
  intro fuel
  induction fuel with
  | zero =>
      intro k pos data _
      cases data with
      | nil => exact writeBigLoop_refs_nil _ _ _ _ _
      | cons x xs => exact ⟨0, .of_eq rfl 0⟩
  | succ fuel ih =>
      intro k pos data hf
      cases data with
      | nil => exact writeBigLoop_refs_nil _ _ _ _ _
      | cons x xs =>
          cases (writeBigLoop_exits iSize idx fuel k pos x xs).1 rfl with
          | tooBig hpos eq =>
              rw [eq]
              exact Refs.of_eq rfl 0
          | noBlock hpos hblock eq =>
              rw [eq]
              exact Refs.of_eq (getDataBlock_refs_of hblock).2.1 0
          | unread hpos hblock hread eq =>
              rw [eq]
              exact (Refs.of_eq (getDataBlock_refs_of hblock).2.1 0).trans (.unread hread 0)
          | fault hpos hblock hread hcopy hlen eq =>
              obtain ⟨-, -, hfaults, -⟩ := getDataBlock_refs_of hblock
              have hf₂ := (Kernel.sbBread_some hread).2.2 (hfaults.trans hf)
              rw [Kernel.copyFromIter_ok (by exact hf₂)] at hcopy
              cases hcopy
              exact absurd (by simp) hlen
          | @copied b k₁ k₂ k₃ copied hpos hblock hread hcopy hlen eq =>
              obtain ⟨-, hops, hfaults, -⟩ := getDataBlock_refs_of hblock
              have hf₂ := (Kernel.sbBread_some hread).2.2 (hfaults.trans hf)
              rw [Kernel.copyFromIter_ok (by exact hf₂)] at hcopy
              cases hcopy
              rw [eq]
              apply Refs.to ((Refs.of_eq hops 0).trans ((Refs.bread hread 0).trans
                (Refs.trans (.of_eq rfl _) (.brelse _ (b + 1) 0))))
              exact ih _ _ _ hf₂

/-- A loop that gets a buffer, whose copy then comes up short. -/
theorem writeBigLoop_refs_cut (iSize : Nat) (hyes : k.fs.ReachesBlock idx pos) (hne : data ≠ [])
    (hfuel : data.length ≤ fuel) (hf : k.faults = [.success, .failure 0]) :
    ∃ e b k', writeBigLoop iSize idx fuel k pos data = .ok (.error e, k') ∧ e ≤ 0 ∧
      k'.refOps = k.refOps ++ [(b, true), (b, false), (b, false)] := by
  obtain ⟨x, xs, rfl⟩ := List.exists_cons_of_ne_nil hne
  obtain ⟨fuel, rfl⟩ : ∃ n, fuel = n + 1 := ⟨fuel - 1, by simp at hfuel; omega⟩
  obtain ⟨hpos, h0, hlt⟩ := hyes
  obtain ⟨k₁, hget, hops, hfaults, hblocks⟩ := getDataBlock_refs k idx (pos / 4096)
  obtain ⟨b, hb⟩ := Nat.exists_eq_succ_of_ne_zero h0
  rw [hb] at hget hlt
  have hn : 0 < min (x :: xs).length (4096 - pos % 4096) := by
    have := Nat.mod_lt pos (show 0 < 4096 by decide)
    simp only [List.length_cons]
    omega
  have hread := Kernel.sbBread_success (by rw [hblocks]; exact hlt) (hfaults.trans hf)
  generalize hk₂ : (k₁.log (.bread (b + 1))).answered [.failure 0] = k₂ at hread
  have hops₂ : k₂.refOps = k.refOps ++ [(b + 1, true)] := by
    rw [← hk₂]
    simp [hops]
  obtain ⟨copied, hcut, hcopy⟩ := @Kernel.copyFromIter_cut (k₂.setBlock (b + 1)
    (zeroGap (k₂.fs.disk (b + 1)) iSize pos (pos / 4096))) 0 _ (x :: xs) [] hn
    (by rw [← hk₂]; rfl)
  rw [(writeBigLoop_exits iSize idx fuel k pos x xs).2
    (.fault (by omega) hget hread hcopy hcut rfl)]
  exact ⟨_, b + 1, _, rfl, by decide, by simp [hops₂]⟩

/-- The index block of `write_big_file`, 0 if there is none, and the state it goes on with. -/
def Fs.withIndex (fs : Fs) (ino : Nat) : Nat × Fs :=
  if (fs.inode ino).indexBlock = 0 then (fs.sbi.getFreeBlock.1, fs.setSbi fs.sbi.getFreeBlock.2)
  else ((fs.inode ino).indexBlock, fs)

/-- The space check of `write_big_file`. -/
def Fs.HasSpace (fs : Fs) (iBlocks size : Nat) : Prop :=
  pred64 iBlocks < divRoundUp size 4096 % 4294967296 →
    sub32 (divRoundUp size 4096 % 4294967296) (pred64 iBlocks) ≤ fs.sbi.nrFreeBlocks

/-- A write of `n` bytes at `pos` gets as far as copying into a block of a big file. -/
def Fs.CopiesToBlock (fs : Fs) (ino pos size n : Nat) : Prop :=
  let idx := (fs.withIndex ino).1
  0 < n ∧ idx ≠ 0 ∧ idx < fs.sbi.nrBlocks ∧
    (fs.withIndex ino).2.HasSpace (fs.inode ino).iBlocks size ∧
    (fs.withIndex ino).2.ReachesBlock idx pos

theorem enoughBlocks_iff {size : Nat} :
    enoughBlocks k ino size = true ↔ k.fs.HasSpace (k.inode ino).iBlocks size := by
  unfold enoughBlocks Fs.HasSpace
  simp only
  split
  · rename_i hlt
    rw [decide_eq_true_iff]
    exact ⟨fun h _ => h, fun h => h hlt⟩
  · rename_i hlt
    exact iff_of_true rfl fun h => absurd h hlt

/-- What `write_big_file` does first. -/
theorem ensureIndexBlock_refs (k : Kernel) (ino : Nat) :
    ∃ k₁, ensureIndexBlock k ino = (decide ((k.fs.withIndex ino).1 ≠ 0), k₁) ∧
      k₁.refOps = k.refOps ∧ k₁.faults = k.faults ∧
      ((k.fs.withIndex ino).1 ≠ 0 → (k₁.inode ino).indexBlock = (k.fs.withIndex ino).1 ∧
        (k₁.inode ino).iBlocks = (k.inode ino).iBlocks ∧
        k₁.fs.sbi = (k.fs.withIndex ino).2.sbi ∧ k₁.fs.disk = k.fs.disk) := by
  have hinode : k.fs.inode ino = k.inode ino := rfl
  unfold Fs.withIndex
  rw [hinode]
  cases (ensureIndexBlock_exits k ino).1 rfl with
  | kept h0 eq =>
      rw [eq, if_neg h0]
      exact ⟨k, by simp [h0], rfl, rfl, fun _ => ⟨rfl, rfl, rfl, rfl⟩⟩
  | noBlock h0 hget eq =>
      rw [eq, if_pos h0]
      unfold Kernel.getFreeBlock at hget
      simp only at hget
      cases hb : k.fs.sbi.getFreeBlock.1 with
      | zero =>
          rw [hb] at hget
          cases hget
          exact ⟨_, rfl, by simp, rfl, fun h => absurd rfl h⟩
      | succ b =>
          rw [hb] at hget
          cases hget
  | new h0 hget eq =>
      rw [eq, if_pos h0]
      unfold Kernel.getFreeBlock at hget
      simp only at hget
      cases hb : k.fs.sbi.getFreeBlock.1 with
      | zero =>
          rw [hb] at hget
          cases hget
      | succ b =>
          rw [hb] at hget
          cases hget
          refine ⟨_, rfl, ?_, rfl, fun _ => ⟨?_, ?_, rfl, rfl⟩⟩
          · rfl
          · simp [Kernel.inode]
          · simp [Kernel.inode]

theorem Fs.reachesBlock_congr {fs fs' : Fs} (hd : fs'.disk = fs.disk) (hs : fs'.sbi = fs.sbi) :
    fs'.ReachesBlock idx pos ↔ fs.ReachesBlock idx pos := by
  unfold Fs.ReachesBlock Fs.dataBlock
  rw [hd, hs]

theorem Fs.nrBlocks_withIndex (fs : Fs) (ino : Nat) :
    (fs.withIndex ino).2.sbi.nrBlocks = fs.sbi.nrBlocks := by
  unfold Fs.withIndex SbInfo.getFreeBlock
  split
  · simp only
    split <;> rfl
  · rfl

theorem Fs.disk_withIndex (fs : Fs) (ino : Nat) : (fs.withIndex ino).2.disk = fs.disk := by
  unfold Fs.withIndex
  split <;> rfl

/-- `write_big_file` keeps its references if its loop does. -/
theorem writeBigFile_refs_of (hloop : ∀ k₁ k₂, ensureIndexBlock k ino = (true, k₁) →
      enoughBlocks k₁ ino
        (max (iocb.startPos (k.inode ino) + data.length) (k.inode ino).iSize) = true →
      k₁.sbBread (k₁.inode ino).indexBlock = (true, k₂) →
      RefsTo 0 k₂ 0 (writeBigLoop (k.inode ino).iSize (k₁.inode ino).indexBlock data.length k₂
        (iocb.startPos (k.inode ino)) data)) :
    RefsTo 0 k 0 (writeBigFile k ino iocb data) := by
  obtain ⟨k₁', hens, hops, -⟩ := ensureIndexBlock_refs k ino
  have hstart : ∀ {r k₁}, ensureIndexBlock k ino = (r, k₁) → Refs 0 k 0 k₁ := by
    intro r k₁ hindex
    rw [hens] at hindex
    cases hindex
    exact .of_eq hops 0
  -- the loop runs while the index block is held
  have hheld : ∀ {k₁ k₂}, ensureIndexBlock k ino = (true, k₁) → enoughBlocks k₁ ino
      (max (iocb.startPos (k.inode ino) + data.length) (k.inode ino).iSize) = true →
      k₁.sbBread (k₁.inode ino).indexBlock = (true, k₂) →
      RefsTo 0 k {(k₁.inode ino).indexBlock} (writeBigLoop (k.inode ino).iSize
        (k₁.inode ino).indexBlock data.length k₂ (iocb.startPos (k.inode ino)) data) := by
    intro k₁ k₂ hindex hspace hread
    have hmid := (hloop k₁ k₂ hindex hspace hread).frame {(k₁.inode ino).indexBlock}
    rw [zero_add] at hmid
    exact Refs.to ((hstart hindex).trans (.bread hread 0)) hmid
  cases (writeBigFile_exits k ino iocb data).1 rfl with
  | noIndex hindex eq =>
      rw [eq]
      exact hstart hindex
  | noSpace hindex hspace eq =>
      rw [eq]
      exact hstart hindex
  | unread hindex hspace hread eq =>
      rw [eq]
      exact (hstart hindex).trans (.unread hread 0)
  | stopped hindex hspace hread hrun eq =>
      have hmid := hheld hindex hspace hread
      rw [hrun] at hmid
      rw [eq]
      exact hmid
  | failed hindex hspace hread hrun eq =>
      have hmid := hheld hindex hspace hread
      rw [hrun] at hmid
      rw [eq]
      exact Refs.trans hmid (.brelse _ _ 0)
  | written hindex hspace hread hrun eq =>
      have hmid := hheld hindex hspace hread
      rw [hrun] at hmid
      rw [eq]
      exact Refs.trans (Refs.trans hmid (.of_eq rfl _)) (.brelse _ _ 0)

/-- `write_big_file` when it copies nothing into a buffer. -/
theorem writeBigFile_refs (hno : ¬k.fs.CopiesToBlock ino (iocb.startPos (k.inode ino))
      (max (iocb.startPos (k.inode ino) + data.length) (k.inode ino).iSize) data.length) :
    RefsTo 0 k 0 (writeBigFile k ino iocb data) := by
  apply writeBigFile_refs_of
  intro k₁ k₂ hens henough hb
  obtain ⟨k₁', hens', -, -, hrest⟩ := ensureIndexBlock_refs k ino
  rw [hens, Prod.mk.injEq] at hens'
  obtain ⟨hr, rfl⟩ := hens'
  have h0 : (k.fs.withIndex ino).1 ≠ 0 := of_decide_eq_true hr.symm
  obtain ⟨hidx, hblocks, hsbi, hdisk⟩ := hrest h0
  obtain ⟨hlt, hfs, -⟩ := Kernel.sbBread_some hb
  cases hdata : data with
  | nil => exact writeBigLoop_refs_nil _ _ _ _ _
  | cons x xs =>
      rw [← hdata]
      refine writeBigLoop_refs_stop (fun hyes => hno ⟨?_, h0, ?_, ?_, ?_⟩) (Nat.le_refl _)
      · simp [hdata]
      · rwa [hidx, hsbi, Fs.nrBlocks_withIndex] at hlt
      · rw [enoughBlocks_iff, hblocks] at henough
        unfold Fs.HasSpace at *
        rwa [hsbi] at henough
      · rw [hfs, hidx] at hyes
        exact (Fs.reachesBlock_congr (hdisk.trans (k.fs.disk_withIndex ino).symm) hsbi).1 hyes

/-- `write_big_file` without failures. -/
theorem writeBigFile_refs_ok (hf : k.faults = []) :
    RefsTo 0 k 0 (writeBigFile k ino iocb data) := by
  apply writeBigFile_refs_of
  intro k₁ k₂ hens _ hb
  obtain ⟨k₁', hens', -, hfaults, -⟩ := ensureIndexBlock_refs k ino
  rw [hens, Prod.mk.injEq] at hens'
  obtain ⟨-, rfl⟩ := hens'
  exact writeBigLoop_refs_ok _ _ _ _ ((Kernel.sbBread_some hb).2.2 (hfaults.trans hf))

/-- `write_big_file` when its first copy comes up short: the block is released twice. -/
theorem writeBigFile_refs_cut (iocb : Kiocb)
    (hyes : k.fs.CopiesToBlock ino (iocb.startPos (k.inode ino))
      (max (iocb.startPos (k.inode ino) + data.length) (k.inode ino).iSize) data.length)
    (hf : k.faults = [.success, .success, .failure 0]) :
    ∃ e idx b k', writeBigFile k ino iocb data = .ok ((e, iocb), k') ∧ e ≤ 0 ∧ k'.refOps =
      k.refOps ++ ([(idx, true), (b, true), (b, false), (b, false)] ++ [(idx, false)]) := by
  obtain ⟨hlen, h0, hlt, hspace, hreach⟩ := hyes
  obtain ⟨k₁, hens, hops, hfaults, hrest⟩ := ensureIndexBlock_refs k ino
  obtain ⟨hidx, hblocks, hsbi, hdisk⟩ := hrest h0
  have henough : enoughBlocks k₁ ino
      (max (iocb.startPos (k.inode ino) + data.length) (k.inode ino).iSize) = true := by
    rw [enoughBlocks_iff, hblocks]
    unfold Fs.HasSpace at *
    rwa [hsbi]
  generalize (k.fs.withIndex ino).1 = idx at *
  rw [← Fs.reachesBlock_congr (hdisk.trans (k.fs.disk_withIndex ino).symm) hsbi] at hreach
  rw [← Fs.nrBlocks_withIndex k.fs ino, ← hsbi] at hlt
  have hread := Kernel.sbBread_success hlt (hfaults.trans hf)
  obtain ⟨e, b, k', hloop, he, hops'⟩ := writeBigLoop_refs_cut
    (k := (k₁.log (.bread idx)).answered [.success, .failure 0]) (k.inode ino).iSize hreach
    (List.ne_nil_of_length_pos hlen) (Nat.le_refl _) rfl
  refine ⟨e, idx, b, k'.brelse idx, ?_, he, ?_⟩
  · rw [decide_eq_true h0] at hens
    subst hidx
    exact (writeBigFile_exits k ino iocb data).2 (.failed hens henough hread hloop rfl)
  · rw [Kernel.refOps_brelse, hops', Kernel.refOps_answered, Kernel.refOps_bread, hops]
    simp

theorem writeBigFile_not_kept (hyes : k.fs.CopiesToBlock ino (iocb.startPos (k.inode ino))
      (max (iocb.startPos (k.inode ino) + data.length) (k.inode ino).iSize) data.length)
    (hf : k.faults = [.success, .success, .failure 0]) :
    ¬RefsKept k (writeBigFile k ino iocb data) := by
  intro hkept
  obtain ⟨e, idx, b, k', hrun, -, hops⟩ := writeBigFile_refs_cut iocb hyes hf
  rw [hrun] at hkept
  exact not_settles_within idx b ((refsKept_ok hops).1 hkept)

end Big

end Ouichefs
