import Ouichefs.BlockRuns
import Ouichefs.Read
import Ouichefs.WriteLaws

/-!
# A write, seen from the other files

What `custom_write_iter` keeps when only the storage part of the invariant is known: nothing is
assumed about directories, nor that an inode without storage counts no slices.  `FileWrite` says
that the storage invariant survives and that neither the inodes nor the storage of other files
change, so that their content does not either (`FileWrite.content`).  `Fs.WriteFits` leaves out the
writes that run out of room or that take the slices of a small file for an index block;
`customWriteIter_file` gives `FileWrite` for all others.
-/

set_option autoImplicit false

namespace Ouichefs

open FreeMap

/-- What a write to the file `f` keeps, successful or not. -/
structure FileWrite (fs fs' : Fs) (chain chain' : List Nat) (f : Nat) : Prop where
  core : Core fs' chain'
  geom : SameGeom fs.sbi fs'.sbi
  live : ∀ i, fs'.Live i ↔ fs.Live i
  inode : ∀ i, i ≠ f → fs'.inode i = fs.inode i
  small : ∀ i, i ≠ f → fs.Is i .small → fs'.smallBytes i = fs.smallBytes i
  disk : ∀ c, fs.Used c → c ∉ chain → (∀ r : Ref, r.By f → ¬Refers fs chain r c) →
    fs'.disk c = fs.disk c
  fresh : (fs'.inode f).kind = .fresh → fs'.inode f = fs.inode f
  stray : (fs'.inode f).kind = .stray → (fs'.inode f).iSize = 0

section Others

variable {fs fs' : Fs} {chain chain' : List Nat} {f i : Nat}

theorem FileWrite.refl (h : Core fs chain)
    (hs : (fs.inode f).kind = .stray → (fs.inode f).iSize = 0) : FileWrite fs fs chain chain f :=
  ⟨h, .refl _, fun _ => Iff.rfl, fun _ _ => rfl, fun _ _ _ => rfl, fun _ _ _ _ => rfl,
    fun _ => rfl, hs⟩

theorem Landed.fileWrite {k k' : Kernel} {content : List UInt8}
    (h : Landed k k' chain chain' f content) : FileWrite k.fs k'.fs chain chain' f := by
  refine ⟨h.core, h.owners.geom, h.owners.live, fun i hi => (h.kept i hi).inode,
    fun i hi => (h.kept i hi).bytes, fun c hc hn _ => h.outside c hc hn, fun hk => ?_,
    fun hk => ?_⟩
  · rw [h.small.2] at hk
    cases hk
  · rw [h.small.2] at hk
    cases hk

theorem BigSpared.fileWrite (h : BigSpared fs fs' chain f) (hc : Core fs chain)
    (hk : fs' = fs ∧ ((fs.inode f).kind = .stray → (fs.inode f).iSize = 0) ∨
      (fs'.inode f).kind = .big ∨ (fs'.inode f).kind = .stray ∧ (fs'.inode f).iSize = 0) :
    FileWrite fs fs' chain chain f := by
  refine ⟨h.core, h.geom, h.live, h.inode, fun i hi hs => ?_, fun c hu _ hn => h.disk c hu hn,
    fun hf => ?_, fun hs => ?_⟩
  · have hm := (hc.slices.file i hs).mem
    unfold Fs.smallBytes
    rw [h.inode i hi, h.disk _ (hc.chain_used hm) fun r hby hr => hc.by_notin_chain hby hr hm]
  · rcases hk with ⟨rfl, -⟩ | hb | ⟨hb, -⟩
    · rfl
    · rw [hb] at hf
      cases hf
    · rw [hb] at hf
      cases hf
  · rcases hk with ⟨rfl, hz⟩ | hb | ⟨-, hz⟩
    · exact hz hs
    · rw [hb] at hs
      cases hs
    · exact hz

/-- The content of a file depends on its inode, its slices, and its index and data blocks. -/
theorem Core.content_congr (h : Core fs chain) (hv : SameView (fs.inode i) (fs'.inode i))
    (hl : fs.Live i) (hs : fs.Is i .small → fs'.smallBytes i = fs.smallBytes i)
    (hd : fs.Is i .big → ∀ r c, Refers fs chain r c → r.By i → fs'.disk c = fs.disk c) :
    fs'.content i = fs.content i := by
  have hi := hl.is
  unfold Fs.content Fs.oldBytes
  rw [hv.kind]
  cases hk : (fs.inode i).kind with
  | small =>
      rw [hk] at hi
      simpa using hs hi
  | big =>
      rw [hk] at hi
      have hidx : fs'.indexOf i = fs.indexOf i := by
        unfold Fs.indexOf
        rw [hv.indexBlock]
        exact hd hi (.index i) _ ⟨Or.inr hi, rfl⟩ rfl
      simp only [if_true]
      unfold Fs.bigBytes
      rw [hv.iSize]
      refine List.map_congr_left fun x hx => ?_
      have hx' := List.mem_range.1 hx
      have hsz := (h.inodes.big i hi).1
      unfold Fs.bigByte
      rw [hidx]
      split
      · rfl
      · rename_i h0
        rw [hd hi (.data i ((0 + x) / 4096)) _ ⟨hi, by omega, rfl, h0⟩ rfl]
  | dir | fresh | stray => simp

/-- The block of a directory belongs to the content of no file. -/
theorem Core.content_setDir {d : Nat} {nb : Block} (h : Core fs chain) (hd : fs.Is d .dir)
    (hag : Agree (fs.setBlock (fs.inode d).indexBlock nb) fs') (hl : fs.Live i) :
    fs'.content i = fs.content i := by
  have hdisk : ∀ c, c ≠ (fs.inode d).indexBlock → fs'.disk c = fs.disk c := by
    intro c hc
    rw [hag.disk, Fs.disk_setBlock, if_neg hc]
  have hv : SameView (fs.inode i) (fs'.inode i) := hag.view i hl
  refine h.content_congr hv hl (fun hs => ?_) fun hb r c hr hby => hdisk c ?_
  · refine hv.smallBytes (hdisk _ fun he => ?_)
    exact (h.dir_block_alone hd).2.1 (he ▸ (h.slices.file i hs).mem)
  · rintro rfl
    have hrd := h.owned.inj hr (show Refers fs chain (.index d) _ from ⟨Or.inl hd, rfl⟩)
    rw [hrd] at hby
    rw [show d = i from hby] at hd
    cases hd.kind_unique hb

/-- The release of one file does not change the content of the others. -/
theorem Freed.content {X : Fs} (hfr : Freed fs X chain chain' f) (h : Core fs chain)
    (hdisk : fs'.disk = X.disk) (hl : fs.Live i) (hi : i ≠ f)
    (hv : SameView (fs.inode i) (fs'.inode i)) : fs'.content i = fs.content i := by
  refine h.content_congr hv hl (fun hs => ?_) fun _ r c hr hby => ?_
  · have hk := (hfr.kept i).bytes ((Fs.kill_is i _).2 ⟨hs, hi⟩)
    have hX : X.inode i = fs.inode i := (hfr.kept i).inode
    refine Eq.trans ?_ hk
    rw [← hX] at hv
    exact hv.smallBytes (by rw [hdisk])
  · rw [hdisk]
    refine hfr.outside c (h.by_notin_chain hby hr) fun r' hby' hr' => ?_
    have hrr := h.owned.inj hr hr'
    subst hrr
    cases r with
    | index j | data j _ => exact hi (hby.symm.trans hby')
    | header _ | sliced _ => exact hby

/-- **A write changes the content of no other file.** -/
theorem FileWrite.content (h : FileWrite fs fs' chain chain' f) (hc : Core fs chain)
    (hl : fs.Live i) (hi : i ≠ f) : fs'.content i = fs.content i := by
  refine hc.content_congr (.of_eq (h.inode i hi)) hl (h.small i hi) fun _ r c hr hby => ?_
  refine h.disk c (hc.owned.used hr) (hc.by_notin_chain hby hr) fun r' hby' hr' => ?_
  have := hc.owned.inj hr hr'
  subst this
  cases r with
  | index j | data j _ => exact hi (hby.symm.trans hby')
  | header _ | sliced _ => exact hby

/-- Directories keep their blocks. -/
theorem FileWrite.indexOf (h : FileWrite fs fs' chain chain' f) (hc : Core fs chain) {d : Nat}
    (hd : fs.Is d .dir) (hne : d ≠ f) : fs'.indexOf d = fs.indexOf d := by
  unfold Fs.indexOf
  rw [h.inode d hne]
  refine h.disk _ (hc.dir_used hd) (hc.dir_notin_chain (Or.inl hd)) fun r hby hr => ?_
  have hrd := hc.owned.inj (r := .index d) ⟨Or.inl hd, rfl⟩ hr
  rw [← hrd] at hby
  exact hne hby

end Others

/-! ## Writes past the end of the index block -/

section Past

variable {k : Kernel} {chain : List Nat} {f pos : Nat} {iocb : Kiocb} {data : List UInt8}

/-- Only the first `n` bytes are looked at. -/
theorem Kernel.copyFromIter_take (k : Kernel) {n m : Nat} (h : n ≤ m) (l : List UInt8) :
    k.copyFromIter n (l.take m) = k.copyFromIter n l := by
  unfold Kernel.copyFromIter
  have hmin : min n m = n := by omega
  have hmin' : ∀ c, min (min c (n - 1)) m = min c (n - 1) := fun c => by omega
  split <;> simp only [List.take_take, hmin, hmin']

/-- A loop over more bytes than the index block has room for copies those that fit and fails. -/
theorem writeBigLoop_cut (iSize idx : Nat) : ∀ (fuel m : Nat) (k : Kernel) (pos : Nat)
    (data : List UInt8), pos + m = 4194304 → m < data.length → data.length ≤ fuel →
    writeBigLoop iSize idx fuel k pos data =
      match writeBigLoop iSize idx fuel k pos (data.take m) with
      | .ok (.ok _, k') => .ok (.error (-EFBIG), k')
      | run => run := by
  intro fuel
  induction fuel with
  | zero => exact fun m k pos data _ hm hl => by omega
  | succ fuel ih =>
      intro m k pos data hpos hm hl
      cases data with
      | nil => exact absurd hm (Nat.not_lt_zero _)
      | cons x xs =>
          cases m with
          | zero =>
              have hge : pos / 4096 ≥ 1024 := by omega
              rw [writeBigLoop]
              simp only [hge, if_true, List.take_zero, writeBigLoop]
          | succ m =>
              have hlt : ¬pos / 4096 ≥ 1024 := by omega
              rw [List.length_cons] at hm hl
              have hlen : (x :: xs.take m).length = m + 1 := by
                rw [List.length_cons, List.length_take]
                omega
              -- the iteration ends at a block boundary, which lies within the part that fits
              have htw : min (x :: xs.take m).length (4096 - pos % 4096) =
                  min (x :: xs).length (4096 - pos % 4096) := by
                rw [hlen, List.length_cons]
                omega
              have hle : min (x :: xs).length (4096 - pos % 4096) ≤ m + 1 := by omega
              rw [List.take_succ_cons, writeBigLoop, writeBigLoop]
              simp only [hlt, if_false, htw]
              rw [show x :: xs.take m = (x :: xs).take (m + 1) from rfl]
              generalize hn : min (x :: xs).length (4096 - pos % 4096) = n at hle
              have hn0 : 0 < n := by
                rw [← hn, List.length_cons]
                omega
              obtain ⟨b, k₁⟩ := getDataBlock k idx (pos / 4096)
              cases b with
              | zero => rfl
              | succ b =>
                  simp only
                  obtain ⟨ok, k₂⟩ := k₁.sbBread (b + 1)
                  cases ok with
                  | false => rfl
                  | true =>
                      simp only [Kernel.copyFromIter_take _ hle]
                      generalize k₂.setBlock (b + 1) _ = k₃
                      obtain ⟨copied, k₄⟩ := k₃.copyFromIter n (x :: xs)
                      simp only
                      split
                      · rfl
                      · rw [List.drop_take]
                        refine ih _ _ _ _ (by omega) ?_ ?_
                        · rw [List.length_drop, List.length_cons]
                          omega
                        · rw [List.length_drop, List.length_cons]
                          omega

/-- Such a loop keeps the invariant. -/
theorem writeBigLoop_past {vi : Inode} (iSize : Nat) (hblk : vi.iBlocks = 1025)
    (hf : k.faults = []) (h : LoopInv f vi chain k.fs) (hne : data ≠ [])
    (hpast : 4194304 < pos + data.length) :
    ∃ e k', writeBigLoop iSize vi.indexBlock data.length k pos data = .ok (.error e, k') ∧
      LoopEff f vi chain k k' := by
  by_cases hpos : pos ≤ 4194304
  · have htake : (data.take (4194304 - pos)).length = 4194304 - pos := by
      rw [List.length_take]
      omega
    obtain ⟨r, k', hrun, heff, -⟩ := writeBigLoop_spec iSize (by omega) data.length k pos
      (data.take (4194304 - pos)) hf h (by rw [htake]; omega) (by rw [htake]; omega)
    rw [writeBigLoop_cut iSize vi.indexBlock data.length (4194304 - pos) k pos data (by omega)
      (by omega) (Nat.le_refl _), hrun]
    cases r with
    | ok p => exact ⟨_, k', rfl, heff⟩
    | error e => exact ⟨e, k', rfl, heff⟩
  · have hge : pos / 4096 ≥ 1024 := by omega
    refine ⟨-EFBIG, k, ?_, hf, rfl, h, .refl _ _ _, fun _ _ => id⟩
    cases data with
    | nil => exact absurd rfl hne
    | cons x xs =>
        exact (writeBigLoop_exits iSize vi.indexBlock xs.length k pos x xs).2 (.tooBig hge rfl)

/-- **A write past 4 MiB fails**, and what it wrote before belongs to the file. -/
theorem writeBigFile_past (hf : k.faults = []) (h : Core k.fs chain)
    (hino : k.fs.Unplaced f ∧ (k.inode f).numSlices = 0 ∨ k.fs.Is f .big)
    (hpos : iocb.startPos (k.inode f) = pos) (hne : data ≠ [])
    (hpast : 4194304 < pos + data.length) :
    ∃ r k', writeBigFile k f iocb data = .ok ((r, iocb), k') ∧ k'.faults = [] ∧
      BigSpared k.fs k'.fs chain f ∧ (k'.fs = k.fs ∨ (k'.inode f).kind = .big ∨
        (k'.inode f).kind = .stray ∧ (k'.inode f).iSize = 0) := by
  have hsz : (k.inode f).iSize ≤ 4194304 := by
    rcases hino with ⟨hk, -⟩ | hk
    · rw [show (k.inode f).iSize = 0 from hk.size]
      exact Nat.zero_le _
    · exact (h.inodes.big f hk).1
  -- from the state in which the file has an index block on, both cases are the same
  have hrest : ∀ (k₁ : Kernel) (idx : Nat), ensureIndexBlock k f = (true, k₁) →
      enoughBlocks k₁ f (max (pos + data.length) (k.inode f).iSize) = true → k₁.faults = [] →
      k₁.inode f = { k.inode f with indexBlock := idx } →
      Prepared k.fs k₁.fs chain f ((k.inode f).grown idx 4194304) →
      ((k₁.inode f).kind = .stray ∧ (k₁.inode f).iSize = 0 ∨ k.fs.Is f .big ∧ k₁ = k) →
      ∃ r k', writeBigFile k f iocb data = .ok ((r, iocb), k') ∧ k'.faults = [] ∧
        BigSpared k.fs k'.fs chain f ∧ (k'.fs = k.fs ∨ (k'.inode f).kind = .big ∨
          (k'.inode f).kind = .stray ∧ (k'.inode f).iSize = 0) := by
    intro k₁ idx hens henough hf₁ hci hp hk₁
    have hidx₁ : (k₁.inode f).indexBlock = idx := by rw [hci]
    have hlt : idx < k₁.fs.sbi.nrBlocks := by
      have hu := (hp.inv.core.big_used hp.inv.big).1
      rw [Fs.inode_setInode, if_pos rfl] at hu
      exact hu
    obtain ⟨e, k', hrun, heff⟩ := writeBigLoop_past (k.inode f).iSize
      (show ((k.inode f).grown idx 4194304).iBlocks = 1025 from rfl)
      (show (k₁.log (.bread idx)).faults = [] from hf₁) hp.inv hne hpast
    have hp' : Prepared k.fs (k₁.log (.bread idx)).fs chain f ((k.inode f).grown idx 4194304) := hp
    have hkind : (k₁.inode f).kind = .stray ∨ (k₁.inode f).kind = .big ∧
        (k₁.inode f).indexBlock = ((k.inode f).grown idx 4194304).indexBlock ∧
        (k₁.inode f).BigOk := by
      rcases hk₁ with ⟨hs, -⟩ | ⟨hb, rfl⟩
      · exact Or.inl hs
      · exact Or.inr ⟨hb.2, hidx₁, h.inodes.big f hb⟩
    obtain ⟨hsame, hspared⟩ := hp'.stopped heff
      (show (k₁.inode f).iMode = ((k.inode f).grown idx 4194304).iMode by rw [hci]; rfl) hkind
    refine ⟨e, k'.brelse idx, ?_, by simpa using heff.faults, hspared, Or.inr ?_⟩
    · subst hidx₁
      exact (writeBigFile_exits k f iocb data).2 (.failed hens (by rw [hpos]; exact henough)
        (Kernel.sbBread_ok hf₁ hlt) (by rw [hpos]; exact hrun) rfl)
    · show (k'.inode f).kind = .big ∨ (k'.inode f).kind = .stray ∧ (k'.inode f).iSize = 0
      rw [hsame]
      rcases hk₁ with hs | ⟨hb, rfl⟩
      · exact Or.inr hs
      · exact Or.inl hb.2
  rcases hino with ⟨hk, hn⟩ | hk
  · have hkind := Inode.kind_fresh.1 hk.fresh.2
    have h0 : (k.inode f).indexBlock = 0 := hkind.2.2
    have hb0 : (k.inode f).iBlocks = 0 := hkind.2.1
    rcases Kernel.getFreeBlock_cases h.bit0 h.sb.blocks_lt h.sb.count with
      ⟨b, hbp, hb, hfree, heq⟩ | ⟨hnone, heq⟩
    · generalize hk₁ : Kernel.setInode { k with fs := k.fs.allocBlock b } f
        { k.inode f with indexBlock := b } = k₁
      have hci : k₁.inode f = { k.inode f with indexBlock := b } := by
        rw [← hk₁]
        simp [Kernel.inode]
      refine hrest k₁ b ?_ ?_ (by rw [← hk₁]; exact hf) hci ?_ (Or.inl ⟨?_, ?_⟩)
      · obtain ⟨b, rfl⟩ := Nat.exists_eq_succ_of_ne_zero (Nat.pos_iff_ne_zero.1 hbp)
        exact (ensureIndexBlock_exits k f).2 (.new h0 heq (by rw [← hk₁]; rfl))
      · have hhuge : pred64 0 = 18446744073709551615 := by decide
        unfold enoughBlocks
        simp only [hci, hb0, hhuge]
        rw [if_neg (by omega)]
      · rw [← hk₁]
        exact .of_fresh h hk.fresh hb hfree (Nat.le_refl _)
      · rw [hci, Inode.kind_stray]
        exact ⟨hkind.1, hb0, Nat.pos_iff_ne_zero.1 hbp, hn⟩
      · rw [hci]
        exact hk.size
    · refine ⟨-ENOSPC, k.log .noFreeBlock, ?_, by simpa using hf, .refl h f, Or.inl rfl⟩
      exact (writeBigFile_exits k f iocb data).2
        (.noIndex ((ensureIndexBlock_exits k f).2 (.noBlock h0 heq rfl)) rfl)
  · have h0 : (k.inode f).indexBlock ≠ 0 := h.index_ne_zero (Or.inr hk)
    have hens := ensureIndexBlock_keeps h0
    by_cases henough : enoughBlocks k f (max (pos + data.length) (k.inode f).iSize) = true
    · exact hrest k (k.inode f).indexBlock hens henough hf rfl
        (.of_big h hk (Nat.le_refl _) hsz) (Or.inr ⟨hk, rfl⟩)
    · refine ⟨-ENOSPC, k, ?_, hf, .refl h f, Or.inl rfl⟩
      exact (writeBigFile_exits k f iocb data).2
        (.noSpace hens (by rw [hpos]; exact Bool.of_not_eq_true henough) rfl)

end Past

/-! ## Empty first writes -/

section Empty

variable {k : Kernel} {fs : Fs} {chain : List Nat} {f : Nat}

/-- A file without storage may become one with an index but no slices. -/
theorem Core.setStray {ci : Inode} (h : Core fs chain) (hl : fs.Live f)
    (hm : ci.iMode = (fs.inode f).iMode) (hs : ci.kind = .stray) :
    Core (fs.setInode f ci) chain := by
  refine h.setFile hl hm (by rw [hs]; decide) (fun hb => ?_) ?_
  · rw [hs] at hb
    cases hb
  · refine h.owned.mono (fun r a hr => ?_) fun _ _ _ => id
    by_cases hby : r.By f
    · rw [refers_setInode_self hl (by rw [hs]; decide) hby, hs] at hr
      cases hr.1
    · exact (refers_setInode_other hby a).1 hr

/-- An empty first write makes the inode point to slice `s` of block `b`. -/
theorem Fs.storeSmall_empty (fs : Fs) (f : Nat) (t : Timespec) (b s : Nat) :
    fs.storeSmall f t [] 0 b s = (fs.setSbi { fs.sbi with
      nrUsedSlices := add32 fs.sbi.nrUsedSlices (divRoundUp 0 128) }).setInode f
        { fs.inode f with
          numSlices := 0, iSize := 0, iMtime := t, iCtime := t,
          indexBlock := add32 (32 * b) s } := by
  have hmask : runMask 32 0 s = 0 := by
    unfold runMask
    simp
  have hall : sliceBitmap (fs.disk b) &&& ~~~runMask 32 0 s = sliceBitmap (fs.disk b) := by
    rw [hmask, show ~~~(0 : BitVec 32) = BitVec.allOnes 32 from rfl, BitVec.and_allOnes]
  have htake : fs.takeSlices b f 0 s = fs.setInode f { fs.inode f with numSlices := 0 } := by
    unfold Fs.takeSlices
    rw [hall, setSliceBitmap_self]
    unfold Fs.setBlock
    rw [Function.update_eq_self]
  unfold Fs.storeSmall
  rw [show divRoundUp (0 + ([] : List UInt8).length) 128 = 0 from rfl, htake]
  unfold Fs.fillSlices
  rw [Fs.inode_setInode, if_pos rfl]
  unfold Fs.setInode Fs.setSbi Fs.setBlock
  simp only [Page.blit_nil, Function.update_eq_self, Function.update_idem]
  rfl

/-- The storage stays as it is. -/
theorem Core.storeEmpty {t : Timespec} {b s : Nat} (h : Core fs chain) (hk : fs.Is f .fresh)
    (hb : b ∈ chain) (hs : 1 ≤ s) (hs' : s ≤ 31) :
    FileWrite fs (fs.storeSmall f t [] 0 b s) chain chain f := by
  obtain ⟨hm, hb0, -⟩ := Inode.kind_fresh.1 hk.2
  have hidx : add32 (32 * b) s = 32 * b + s := by
    have := (h.chain_used hb).1
    have := h.sb.blocks_le trivial
    unfold add32
    omega
  rw [Fs.storeSmall_empty, hidx]
  generalize hci : ({ fs.inode f with
    numSlices := 0, iSize := 0, iMtime := t, iCtime := t, indexBlock := 32 * b + s } : Inode) = ci
  have hstray : ci.kind = .stray := by
    rw [← hci, Inode.kind_stray]
    exact ⟨hm, hb0, show 32 * b + s ≠ 0 by omega, rfl⟩
  have hag : Agree fs (fs.setSbi { fs.sbi with
      nrUsedSlices := add32 fs.sbi.nrUsedSlices (divRoundUp 0 128) }) :=
    ⟨rfl, ⟨rfl, rfl, rfl, rfl, rfl⟩, rfl, rfl, rfl, rfl, rfl, fun _ _ => id, fun _ _ => .refl _⟩
  refine ⟨(hag.core h).setStray hk.1 (by rw [← hci]; rfl) hstray, ⟨rfl, rfl, rfl, rfl, rfl⟩,
    fun _ => Iff.rfl, fun i hi => ?_, fun i hi _ => ?_, fun _ _ _ _ => rfl, fun hf => ?_,
    fun _ => ?_⟩
  · rw [Fs.inode_setInode, if_neg hi]
    rfl
  · unfold Fs.smallBytes
    rw [Fs.inode_setInode, if_neg hi]
    rfl
  · rw [Fs.inode_setInode, if_pos rfl, hstray] at hf
    cases hf
  · rw [Fs.inode_setInode, if_pos rfl, ← hci]

/-- A write after the chain has grown. -/
theorem FileWrite.grow {fs' : Fs} {chain' : List Nat} {b : Nat} (h : Core fs chain)
    (hfree : fs.sbi.bfreeBitmap b = true)
    (hw : FileWrite (fs.growChain chain.getLast? b) fs' (chain ++ [b]) chain' f) :
    FileWrite fs fs' chain chain' f := by
  have hown := h.grow_owners hfree
  have hinode : (fs.growChain chain.getLast? b).inode = fs.inode := by
    funext i
    simp [Fs.inode, Fs.growChain_icache]
  refine ⟨hw.core, hown.geom.trans hw.geom, fun i => (hw.live i).trans (hown.live i),
    fun i hi => (hw.inode i hi).trans (congrFun hinode i), fun i hi hs => ?_, fun c hu hc hn => ?_,
    fun hk => (hw.fresh hk).trans (congrFun hinode f), hw.stray⟩
  · have hs' : (fs.growChain chain.getLast? b).Is i .small :=
      ⟨(hown.live i).2 hs.1, by rw [hinode]; exact hs.2⟩
    exact (hw.small i hi hs').trans ((h.grow_kept hfree i).bytes hs)
  · have hcb : c ≠ b := by
      rintro rfl
      rw [hu.2] at hfree
      cases hfree
    have hu' : (fs.growChain chain.getLast? b).Used c := by
      unfold Fs.Used
      rw [Fs.growChain_sbi]
      exact ⟨hu.1, (Function.update_of_ne hcb _ _).trans hu.2⟩
    rw [hw.disk c hu' (by simp [hc, hcb]) fun r hby hr => ?_, h.growChain_disk hfree, if_neg hcb,
      if_neg fun hl => hc (List.mem_of_getLast? hl.symm)]
    have hr' : Refers fs (chain ++ [b]) r c := (hown.refers _ r c).1 hr
    cases r with
    | header _ | sliced _ => exact hby
    | index i => exact hn (.index i) hby hr'
    | data i j => exact hn (.data i j) hby hr'

/-- **An empty first write changes nothing but the inode**, unless the chain is empty and cannot
grow. -/
theorem writeSmallFile_empty {iocb : Kiocb} (hf : k.faults = []) (h : Core k.fs chain)
    (hino : k.fs.Unplaced f) (hpos : iocb.startPos (k.inode f) = 0) (hroom : ¬k.fs.NoRoom chain 0) :
    ∃ io k' chain', writeSmallFile k f iocb [] = .ok ((0, io), k') ∧ k'.faults = [] ∧
      FileWrite k.fs k'.fs chain chain' f := by
  have hidx := (Inode.kind_fresh.1 hino.fresh.2).2.2
  rw [writeSmallFile_new _ _ hidx]
  have hspec : StoreCases k chain f iocb [] 0 (writeSmallFileNew k f iocb []) :=
    writeSmallFileNew_spec hf h.chainOk hino.size hpos (by decide)
  cases hspec with
  | found b s t k' hb hs heq hf' _ hfs =>
      refine ⟨_, k', chain, heq, hf', ?_⟩
      have h1 : s ≤ 1 := by
        by_contra hlt
        exact hs.least 1 (Nat.le_refl 1) (by omega) fun j h1 h2 => absurd h2 (Nat.not_lt.2 h1)
      rw [hfs]
      exact h.storeEmpty hino.fresh hb hs.pos (by omega)
  | grown b t k' _ hb hlt hfree heq hf' _ hfs =>
      refine ⟨_, k', chain ++ [b], heq, hf', .grow h hfree ?_⟩
      have hown := h.grow_owners hfree
      have hk : (k.fs.growChain chain.getLast? b).Is f .fresh := by
        refine ⟨(hown.live f).2 hino.fresh.1, ?_⟩
        rw [show (k.fs.growChain chain.getLast? b).inode f = k.fs.inode f by
          simp [Fs.inode, Fs.growChain_icache]]
        exact hino.fresh.2
      rw [hfs]
      exact (h.grow hb hlt hfree).storeEmpty hk (by simp) (Nat.le_refl 1) (by decide)
  | full hnone hfull => exact absurd ⟨hnone, hfull⟩ hroom

end Empty

/-! ## Conversions -/

/-- The pair of block and slice of a small file is taken for the number of its index block; where
there is no such block the conversion changes nothing. -/
theorem convertSmallToBig_outside {k : Kernel} {chain : List Nat} {f : Nat} (iocb : Kiocb)
    (data : List UInt8) (hf : k.faults = []) (h : Core k.fs chain) (hs : k.fs.Is f .small)
    (hidx : k.fs.sbi.nrBlocks ≤ (k.inode f).indexBlock) :
    ∃ io k', convertSmallToBig k f iocb data = .ok ((- EIO, io), k') ∧ k'.faults = [] ∧
      k'.fs = k.fs := by
  obtain ⟨-, hb0, h0, -⟩ := Inode.kind_small.1 hs.2
  obtain ⟨-, -, hread⟩ := rewriteSmallFile_eq hf h hs
  have hcopy : ((k.log (.bread (k.inode f).getBno)).brelse (k.inode f).getBno).copyFromIter
      data.length data = (data, (k.log (.bread (k.inode f).getBno)).brelse (k.inode f).getBno) := by
    rw [Kernel.copyFromIter_ok (by exact hf), List.take_length]
  rw [(convertSmallToBig_exits k f iocb data).2 (.combined hread (Kernel.kmalloc_ok (by exact hf))
    hcopy rfl (Kernel.kmalloc_ok (by exact hf)) rfl)]
  generalize hk₁ : Kernel.setInode _ f { k.inode f with iSize := 0 } = k₁
  generalize combinedBuf _ _ data = buf
  have hci : k₁.inode f = { k.inode f with iSize := 0 } := by
    rw [← hk₁]
    simp [Kernel.inode]
  have hf₁ : k₁.faults = [] := by
    rw [← hk₁]
    exact hf
  have hfs₁ : k₁.fs = k.fs.setInode f { k.inode f with iSize := 0 } := by
    rw [← hk₁]
    rfl
  have henough : ∀ n, enoughBlocks k₁ f n = true := by
    intro n
    have hbig : pred64 0 = 18446744073709551615 := by decide
    unfold enoughBlocks
    rw [hci]
    simp only [show (k.inode f).iBlocks = 0 from hb0, hbig]
    rw [if_neg (by omega)]
  have hrun : writeBigFile k₁ f ⟨0, false⟩ buf = .ok ((- EIO, ⟨0, false⟩), k₁) := by
    have hout : k₁.sbBread (k₁.inode f).indexBlock = (false, k₁) := by
      unfold Kernel.sbBread
      rw [hci, if_pos (by rw [hfs₁]; exact hidx)]
    have hens : ensureIndexBlock k₁ f = (true, k₁) :=
      ensureIndexBlock_keeps (by rw [hci]; exact h0)
    exact (writeBigFile_exits k₁ f ⟨0, false⟩ buf).2 (.unread hens (henough _) hout rfl)
  rw [(finishConversion_exits ..).2 (.restored hrun (by decide) rfl)]
  refine ⟨_, _, rfl, hf₁, ?_⟩
  refine Eq.trans ?_ (Fs.setInode_self (h.inodes.cached f hs.1))
  rw [Kernel.fs_setInode, hci, hfs₁]
  unfold Fs.setInode
  rw [Function.update_idem]
  rfl

/-! ## All writes that fit -/

/-- The chain of sliced blocks or the free blocks provide `n` slices. -/
def Fs.HasRoom (fs : Fs) (n : Nat) : Prop :=
  ∀ chain, IsLinked fs.next fs.sbi.sFreeSlicedBlocks chain → ¬fs.NoRoom chain n

/-- A free block is room enough. -/
theorem Fs.HasRoom.of_free {fs : Fs} {b : Nat} (hb : b < fs.sbi.nrBlocks)
    (hfree : fs.sbi.bfreeBitmap b = true) (n : Nat) : fs.HasRoom n := by
  intro chain _ hno
  rw [hno.2 b hb] at hfree
  cases hfree

/-- A write to a file with inode `ci` that finds no index block for a small file it should turn into
a big one, keeps a small file within 31 slices and finds room for them.  A write of no bytes must
not be past 4 MiB.  The inode of an unlinked file still counts its slices; its first write as a big
file must not run out of blocks. -/
def Fs.WriteFits (fs : Fs) (ci : Inode) (iocb : Kiocb) (data : List UInt8) : Prop :=
  let short := willBeSmall (max (iocb.kiPos + data.length) ci.iSize) = true
  let size := max (iocb.startPos ci + data.length) ci.iSize
  match ci.kind with
  | .dir => False
  | .big => data ≠ [] ∨ size ≤ 4194304
  | .stray => short
  | .small => ¬short ∧ fs.sbi.nrBlocks ≤ ci.indexBlock ∨ short ∧ size ≤ 3968 ∧
    (ci.numSlices = divRoundUp size 128 ∨ fs.HasRoom (divRoundUp size 128))
  | .fresh => short ∧ fs.HasRoom (divRoundUp size 128) ∨
    ¬short ∧ (data ≠ [] ∧ ci.numSlices = 0 ∨
      size ≤ 4194304 ∧ (ci.numSlices = 0 ∨ divRoundUp size 4096 < fs.sbi.nrFreeBlocks))

section Fits

variable {k : Kernel} {chain : List Nat} {f : Nat} {iocb : Kiocb} {data : List UInt8}

/-- What a write to `f` is shown to do: it returns and keeps the storage. -/
def WritesFile (k : Kernel) (chain : List Nat) (f : Nat) (run : Outcome (Int × Kiocb)) : Prop :=
  ∃ r io k' chain', run = .ok ((r, io), k') ∧ k'.faults = [] ∧ FileWrite k.fs k'.fs chain chain' f

theorem writeBigFile_file {size : Nat} (hf : k.faults = []) (h : Core k.fs chain)
    (hino : k.fs.Unplaced f ∨ k.fs.Is f .big)
    (hsz : max (iocb.startPos (k.inode f) + data.length) (k.inode f).iSize = size)
    (hslices : k.fs.Is f .big ∨ (k.inode f).numSlices = 0 ∨
      divRoundUp size 4096 < k.fs.sbi.nrFreeBlocks) (hsize : size ≤ 4194304) :
    WritesFile k chain f (writeBigFile k f iocb data) := by
  have hstray : (k.fs.inode f).kind ≠ .stray := by
    rcases hino with hk | hk
    · rw [hk.fresh.2]
      decide
    · rw [hk.2]
      decide
  rcases writeBigFile_core iocb data hf h hino rfl hsz hsize with
    ⟨k', hrun, hw⟩ | ⟨k', hrun, hs⟩
  · exact ⟨_, _, k', chain, hrun, hw.faults, hw.spared.fileWrite h (Or.inr (Or.inl hw.big.2))⟩
  · have hlack := hs.lack
    obtain ⟨hspared, hkind⟩ := hs.spared (by
      rcases hslices with hb | hn | hfree
      · exact Or.inl hb.2
      · exact Or.inr hn
      · omega)
    exact ⟨_, _, k', chain, hrun, hs.faults, hspared.fileWrite h
      (hkind.imp_left fun he => ⟨he, fun hk => absurd hk hstray⟩)⟩

/-- **A write that fits keeps the storage and the content of all other files.** -/
theorem customWriteIter_file (hf : k.faults = []) (h : Core k.fs chain) (hl : k.fs.Live f)
    (hsize : (k.inode f).kind = .fresh ∨ (k.inode f).kind = .stray → (k.inode f).iSize = 0)
    (hfit : k.fs.WriteFits (k.inode f) iocb data) :
    WritesFile k chain f (customWriteIter k f iocb data) := by
  have hroom : ∀ n, k.fs.HasRoom n → ¬k.fs.NoRoom chain n := fun n hr => hr chain h.isChain
  unfold Fs.WriteFits at hfit
  have hk := hl.is
  cases hkind : (k.inode f).kind with
  | dir =>
      rw [hkind] at hfit
      exact hfit.elim
  | stray =>
      rw [hkind] at hfit
      refine ⟨_, _, k, chain, customWriteIter_stray hkind (by simpa [willBeSmall] using hfit), hf,
        .refl h fun _ => hsize (Or.inr hkind)⟩
  | big =>
      rw [hkind] at hfit
      have hbig : k.fs.Is f .big := ⟨hl, hkind⟩
      rw [customWriteIter_big h hbig]
      by_cases hle : max (iocb.startPos (k.inode f) + data.length) (k.inode f).iSize ≤ 4194304
      · exact writeBigFile_file hf h (Or.inr hbig) rfl (Or.inl hbig) hle
      · have hs4 := (h.inodes.big f hbig).1
        have hs4' : (k.inode f).iSize ≤ 4194304 := hs4
        obtain ⟨r, k', hrun, hf', hspared, hk'⟩ := writeBigFile_past hf h (Or.inr hbig) rfl
          (hfit.resolve_right hle)
          (show 4194304 < iocb.startPos (k.inode f) + data.length by omega)
        refine ⟨r, iocb, k', chain, hrun, hf', hspared.fileWrite h (hk'.imp_left fun he =>
          ⟨he, fun hs => ?_⟩)⟩
        rw [show (k.fs.inode f).kind = .big from hkind] at hs
        cases hs
  | small =>
      rw [hkind] at hfit
      have hsmall : k.fs.Is f .small := ⟨hl, hkind⟩
      rcases hfit with ⟨hlong, hidx⟩ | ⟨hshort, hle, hfit⟩
      · rw [customWriteIter_convert hsmall (Nat.lt_of_not_le (by simpa [willBeSmall] using hlong))]
        obtain ⟨io, k', hrun, hf', hfs⟩ := convertSmallToBig_outside iocb data hf h hsmall hidx
        refine ⟨_, io, k', chain, hrun, hf', ?_⟩
        rw [hfs]
        refine .refl h fun hs => ?_
        rw [show (k.fs.inode f).kind = .small from hkind] at hs
        cases hs
      rw [customWriteIter_small (Or.inr hsmall) (by simpa [willBeSmall] using hshort)]
      rcases writeSmallFile_again hf h hsmall rfl
          (show iocb.startPos (k.inode f) + data.length ≤ 3968 by omega) with
        ⟨k', chain', io, hrun, hw⟩ | ⟨hne, hno, -⟩
      · exact ⟨_, io, k', chain', hrun, hw.faults, hw.fileWrite⟩
      · exact absurd hno (hroom _ (hfit.resolve_left hne))
  | fresh =>
      rw [hkind] at hfit
      have hz := hsize (Or.inl hkind)
      have hnew : k.fs.Unplaced f := ⟨⟨hl, hkind⟩, hz⟩
      have hle : iocb.startPos (k.inode f) ≤ iocb.kiPos := by
        unfold Kiocb.startPos
        split
        · omega
        · exact Nat.le_refl _
      rw [hz, Nat.max_zero, Nat.max_zero] at hfit
      rcases hfit with ⟨hshort, hfit⟩ | ⟨hlong, hfit⟩
      · have hshort : iocb.kiPos + data.length ≤ 3968 := by simpa [willBeSmall] using hshort
        rw [customWriteIter_small (Or.inl hnew.fresh) (by rw [hz]; omega)]
        by_cases h0 : iocb.startPos (k.inode f) + data.length = 0
        · obtain rfl : data = [] := List.length_eq_zero_iff.1 (by omega)
          obtain ⟨io, k', chain', hrun, hf', hw⟩ := writeSmallFile_empty hf h hnew (by omega)
            (by rw [h0] at hfit; exact hroom _ hfit)
          exact ⟨_, io, k', chain', hrun, hf', hw⟩
        · rcases writeSmallFile_first hf h hnew rfl (Nat.pos_of_ne_zero h0) (by omega) with
            ⟨k', chain', hrun, hw⟩ | ⟨hno, -⟩
          · exact ⟨_, _, k', chain', hrun, hw.faults, hw.fileWrite⟩
          · exact absurd hno (hroom _ hfit)
      · have hlong : 3968 < iocb.kiPos + data.length := by simpa [willBeSmall] using hlong
        rw [customWriteIter_firstBig hnew.fresh (by rw [hz]; omega)]
        by_cases h4 : iocb.startPos (k.inode f) + data.length ≤ 4194304
        · refine writeBigFile_file hf h (Or.inl hnew) (by rw [hz, Nat.max_zero]) (Or.inr ?_) h4
          rcases hfit with ⟨-, hn⟩ | ⟨-, hn⟩
          · exact Or.inl hn
          · exact hn
        · obtain ⟨hne, hn⟩ := hfit.resolve_right fun hx => h4 hx.1
          obtain ⟨r, k', hrun, hf', hspared, hk'⟩ := writeBigFile_past hf h
            (Or.inl ⟨hnew, hn⟩) rfl hne
            (show 4194304 < iocb.startPos (k.inode f) + data.length by omega)
          refine ⟨r, iocb, k', chain, hrun, hf', hspared.fileWrite h (hk'.imp_left fun he =>
            ⟨he, fun hs => ?_⟩)⟩
          rw [show (k.fs.inode f).kind = .fresh from hkind] at hs
          cases hs

end Fits

end Ouichefs
