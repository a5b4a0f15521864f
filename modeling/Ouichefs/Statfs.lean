import Ouichefs.Allocator
import Ouichefs.NoLeak

/-!
# What `statfs` reports (`super.c`)

`ouichefs_statfs` copies the counters of the superblock.  A user takes them for promises: so many
blocks and so many inodes can still be had.  For blocks the promise is exact after every run, for
inodes it is one too high, because `mkfs` counts inode 0 as free.

* `SbInfo.drain_spec`: what requests in a row get out of a bitmap.
* `statfs_promises`: the report after any run.
-/

set_option autoImplicit false

namespace Ouichefs

open FreeMap

/-- The fields of `struct kstatfs` that are filled. -/
structure Kstatfs where
  fType : Nat
  fBsize : Nat
  fBlocks : Nat
  fBfree : Nat
  fBavail : Nat
  fFiles : Nat
  fFfree : Nat
  fNamelen : Nat
  deriving DecidableEq, Repr

/-- `ouichefs_statfs`. -/
def ouichefsStatfs (sbi : SbInfo) : Kstatfs :=
  { fType := magic
    fBsize := 4096
    fBlocks := sbi.nrBlocks
    fBfree := sbi.nrFreeBlocks
    fBavail := sbi.nrFreeBlocks
    fFiles := sbi.nrInodes
    fFfree := sbi.nrFreeInodes
    fNamelen := 28 }

/-! ## Requests in a row -/

/-- What `n` requests in a row hand out, until one fails. -/
def SbInfo.drain (r : Region) : Nat → SbInfo → List Nat
  | 0, _ => []
  | n + 1, sbi =>
    match sbi.get r with
    | (b, sbi) => if b = 0 then [] else b :: drain r n sbi

/-- Numbers of a bitmap that are free and not repeated. -/
structure HandedOut (sbi : SbInfo) (r : Region) (l : List Nat) : Prop where
  nodup : l.Nodup
  free : ∀ b ∈ l, b < sbi.size r ∧ sbi.freemap r b = true

/-- **Every free number is handed out once**, and then nothing. -/
theorem SbInfo.drain_spec (r : Region) : ∀ (n : Nat) (sbi : SbInfo), sbi.freemap r 0 = false →
    HandedOut sbi r (sbi.drain r n) ∧
      (sbi.drain r n).length = min n (countBits (sbi.freemap r) (sbi.size r)) := by
  intro n
  induction n with
  | zero => exact fun sbi _ => ⟨⟨List.nodup_nil, fun b hb => by cases hb⟩, by simp [drain]⟩
  | succ n ih =>
      intro sbi h0
      unfold drain
      rcases get_cases h0 with ⟨b, hpos, hb, hfree, -, heq⟩ | ⟨hnone, heq⟩
      · rw [heq]
        have hne : b ≠ 0 := by omega
        simp only [hne, if_false]
        obtain ⟨⟨hnodup, hin⟩, hlen⟩ := ih (sbi.withMap (Function.update (sbi.freemap r) b false)
          (sub32 (sbi.nrFree r) 1) r) (by
            rw [freemap_withMap_self, Function.update_of_ne (by omega)]
            exact h0)
        rw [freemap_withMap_self, size_withMap] at hlen
        have hcount := countBits_clear hb hfree
        have hother : ∀ c ∈ (sbi.withMap (Function.update (sbi.freemap r) b false)
            (sub32 (sbi.nrFree r) 1) r).drain r n,
            c ≠ b ∧ c < sbi.size r ∧ sbi.freemap r c = true := by
          intro c hc
          obtain ⟨hlt, hcf⟩ := hin c hc
          rw [size_withMap] at hlt
          rw [freemap_withMap_self, Function.update_apply] at hcf
          split at hcf
          · cases hcf
          · rename_i hcb
            exact ⟨hcb, hlt, hcf⟩
        refine ⟨⟨List.nodup_cons.2 ⟨fun hm => (hother b hm).1 rfl, hnodup⟩, fun c hc => ?_⟩, ?_⟩
        · rcases List.mem_cons.1 hc with rfl | hc
          · exact ⟨hb, hfree⟩
          · exact (hother c hc).2
        · rw [List.length_cons, hlen]
          omega
      · rw [heq]
        refine ⟨⟨List.nodup_nil, fun b hb => by cases hb⟩, ?_⟩
        rw [countBits_eq_zero_iff.2 hnone]
        rfl

/-! ## The report after a run -/

/-- What a report means for the superblock it was made from. -/
structure Promises (fs : Fs) (s : Kstatfs) : Prop where
  blocks : ∀ n, HandedOut fs.sbi .block (fs.sbi.drain .block n) ∧
    (fs.sbi.drain .block n).length = min n s.fBfree
  inodes : ∀ n, HandedOut fs.sbi .inode (fs.sbi.drain .inode n) ∧
    (fs.sbi.drain .inode n).length = min n (s.fFfree - 1)
  ffree_pos : 1 ≤ s.fFfree
  used : s.fBfree + ((Finset.range s.fBlocks).filter fun b => fs.sbi.bfreeBitmap b = false).card =
    s.fBlocks
  files : s.fFfree + ((Finset.range s.fFiles).filter fs.Live).card = s.fFiles

section Report

variable {k : Kernel} {chain : List Nat} {qs : List Request}

theorem FsInv.promises (h : FsInv k chain)
    (hfree : k.fs.sbi.nrFreeInodes = countBits k.fs.sbi.ifreeBitmap k.fs.sbi.nrInodes + 1) :
    Promises k.fs (ouichefsStatfs k.fs.sbi) where
  blocks n := by
    obtain ⟨hout, hlen⟩ := SbInfo.drain_spec .block n k.fs.sbi h.wf.toCore.bit0
    refine ⟨hout, ?_⟩
    rw [hlen]
    show min n (countBits k.fs.sbi.bfreeBitmap k.fs.sbi.nrBlocks) = min n k.fs.sbi.nrFreeBlocks
    rw [h.wf.sb.count]
  inodes n := by
    obtain ⟨hout, hlen⟩ := SbInfo.drain_spec .inode n k.fs.sbi h.wf.inodes.bit0
    refine ⟨hout, ?_⟩
    rw [hlen]
    show min n (countBits k.fs.sbi.ifreeBitmap k.fs.sbi.nrInodes) =
      min n (k.fs.sbi.nrFreeInodes - 1)
    rw [hfree, Nat.add_sub_cancel]
  ffree_pos := by
    show 1 ≤ k.fs.sbi.nrFreeInodes
    omega
  used := by
    have hcard := card_clear k.fs.sbi.bfreeBitmap k.fs.sbi.nrBlocks
    have hcount := h.wf.sb.count
    show k.fs.sbi.nrFreeBlocks + ((Finset.range k.fs.sbi.nrBlocks).filter fun b =>
      k.fs.sbi.bfreeBitmap b = false).card = k.fs.sbi.nrBlocks
    omega
  files := by
    have := (h.accounted hfree).inodes
    show k.fs.sbi.nrFreeInodes + _ = k.fs.sbi.nrInodes
    rw [Nat.add_comm]
    exact this

/-- **The report of `statfs` after every run**, unmounts included. -/
theorem statfs_promises (hf : k.faults = []) (h : Formatted k.fs) (hz : k.fs.Blank) (hd : Durable k.fs)
    (ha : Admissible Request.exec Request.Ok k qs) :
    ∃ k', runAll Request.exec k qs = .ok k' ∧ Promises k'.fs (ouichefsStatfs k'.fs.sbi) := by
  obtain ⟨k', chain', hrun, h', -, hk⟩ := (h.fsInv hf hz).requests hd ha
  exact ⟨k', hrun, h'.promises (hk.free h.freeInodes)⟩

theorem statfs_promises_leakRun :
    ∃ k', runAll Request.exec (magicImage 12 8) leakRun = .ok k' ∧
      Promises k'.fs (ouichefsStatfs k'.fs.sbi) :=
  statfs_promises rfl (magicImage_formatted (by decide) (by decide) (by decide) (by decide))
    (magicImage_blank (by decide))
    (magicImage_durable (by decide) (by decide) (by decide) (by decide)) leakRun_admissible

end Report

end Ouichefs
