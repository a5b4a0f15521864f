import Ouichefs.Listing
import Ouichefs.NoLeak

/-!
# Listing a directory at rest

While nothing changes a directory, the calls of `ouichefs_iterate` deliver it piece by piece,
whatever the sizes of the buffers: `.`, `..` and then the slots.  What they deliver is the map of
the directory in the tree that the file system shows.

* `ouichefsIterate_at`: one call from a cursor.
* `readdir_run`: the calls one after another.
* `listing_exact`: after any run the listing is the directory of the tree.
-/

set_option autoImplicit false

namespace Ouichefs

variable {Z : Prop}

/-- `.` and `..`, as they are emitted. -/
def dots (dir parent : Nat) : List Dirent := [([46], dir), ([46, 46], parent)]

/-- The first `n` slots, as they are emitted. -/
def dirents (b : Block) (n : Nat) : List Dirent := (List.range n).map (dirent b)

@[simp] theorem dots_length (dir parent : Nat) : (dots dir parent).length = 2 := rfl

@[simp] theorem dirents_length (b : Block) (n : Nat) : (dirents b n).length = n := by
  simp [dirents]

/-! ## One call -/

section Call

variable {k : Kernel} {b : Block} {n dir : Nat}

/-- A window of the slots. -/
theorem dirents_window (b : Block) (n i r : Nat) :
    ((List.range (min r (n - i))).map fun t => dirent b (i + t)) =
      ((dirents b n).drop i).take r := by
  apply List.ext_getElem
  · simp
  · intro t ht ht'
    simp [dirents]

/-- `.` and `..` are the first two entries. -/
theorem dirEmitDots_at (p r dir parent : Nat) :
    dirEmitDots ⟨p, r, []⟩ dir parent =
      (decide (2 - p ≤ r),
        ⟨p + min r (2 - p), r - (2 - p), ((dots dir parent).drop p).take r⟩) := by
  unfold dirEmitDots dirEmit dots
  rcases p with _ | _ | p
  · rcases r with _ | _ | r
    · rfl
    · rfl
    · simp
  · rcases r with _ | r
    · rfl
    · simp
  · simp

/-- A window of the listing. -/
theorem window_append (l : List Dirent) (p r dir parent : Nat) :
    ((dots dir parent ++ l).drop p).take r =
      ((dots dir parent).drop p).take r ++ (l.drop (p - 2)).take (r - (2 - p)) := by
  rw [List.drop_append, List.take_append, List.length_drop, dots_length]

/-- **One call** delivers the window of the listing that fits the buffer, and moves the cursor
past it. -/
theorem ouichefsIterate_at {chain : List Nat} {p : Nat} (hf : k.faults = [])
    (h : WF k.fs chain Z) (hd : k.fs.Is dir .dir)
    (hc : Compact (slotInode (k.fs.indexOf dir)) n) (hle : n ≤ 128) (hp : p ≤ n + 2)
    (parent r : Nat) :
    ∃ ctx k', ouichefsIterate k dir parent ⟨p, r, []⟩ = .ok ((0, ctx), k') ∧
      k'.fs = k.fs ∧ k'.faults = [] ∧ ctx.pos = p + min r (n + 2 - p) ∧
      ctx.emitted = ((dots dir parent ++ dirents (k.fs.indexOf dir) n).drop p).take r := by
  have hmode : sIsDir (k.inode dir).iMode = true := Inode.kind_dir.1 hd.2
  have hdb : (k.inode dir).indexBlock < k.fs.sbi.nrBlocks := (h.toCore.dir_used hd).1
  have hblk : k.fs.disk (k.inode dir).indexBlock = k.fs.indexOf dir := rfl
  have h130 : ¬p > 130 := by omega
  unfold ouichefsIterate
  rw [if_neg (by simp [hmode]), if_neg h130, dirEmitDots_at]
  rw [window_append]
  by_cases hr : 2 - p ≤ r
  · simp only [hr, decide_true, Kernel.sbBread_ok hf hdb, Kernel.fs_log, hblk]
    rw [iterateLoop_spec hc _ _ _ (by omega)]
    have hcur : p + min r (2 - p) - 2 = p - 2 := by omega
    refine ⟨_, _, rfl, rfl, by simpa using hf, ?_, ?_⟩
    · show p + min r (2 - p) + min (r - (2 - p)) (n - (p + min r (2 - p) - 2)) = _
      omega
    · simp only [hcur, dirents_window]
  · -- the buffer is full before the first slot
    have hnone : r - (2 - p) = 0 := by omega
    simp only [hr, decide_false, hnone, List.take_zero, List.append_nil]
    exact ⟨_, k, rfl, rfl, hf, by show _ + min r (2 - p) = _; omega, rfl⟩

end Call

/-! ## The calls one after another -/

/-- The first `done` entries of the listing have been emitted. -/
structure Delivered (k : Kernel) (dir parent n : Nat) (s : ListState) (done : Nat) : Prop where
  faults : s.kernel.faults = []
  fs : s.kernel.fs = k.fs
  pos : s.pos = min done (n + 2)
  emitted : s.emitted = (dots dir parent ++ dirents (k.fs.indexOf dir) n).take done

section Calls

variable {k : Kernel} {n dir parent done : Nat} {chain : List Nat} {s : ListState}

/-- The next window follows what is there. -/
theorem take_window (l : List Dirent) (done r : Nat) :
    l.take done ++ (l.drop (min done l.length)).take r = l.take (done + r) := by
  rw [List.take_add]
  congr 2
  by_cases hle : done ≤ l.length
  · rw [Nat.min_eq_left hle]
  · rw [Nat.min_eq_right (by omega), List.drop_length, List.drop_eq_nil_of_le (by omega)]

theorem Delivered.iterate (hs : Delivered k dir parent n s done) (h : WF k.fs chain Z)
    (hd : k.fs.Is dir .dir) (hc : Compact (slotInode (k.fs.indexOf dir)) n) (hle : n ≤ 128)
    (r : Nat) : ∃ s', s.exec dir parent (.iterate r) = .ok (0, s') ∧
      Delivered k dir parent n s' (done + r) := by
  have hpos := hs.pos
  obtain ⟨ctx, k', hrun, hfs, hf, hcur, hem⟩ := ouichefsIterate_at (p := s.pos) hs.faults
    (hs.fs ▸ h) (hs.fs ▸ hd) (hs.fs ▸ hc) hle (by omega) parent r
  refine ⟨⟨k', ctx.pos, s.emitted ++ ctx.emitted⟩, ?_, hf, hfs.trans hs.fs, ?_, ?_⟩
  · unfold ListState.exec
    simp only [hrun]
  · show ctx.pos = _
    omega
  · have hlen : (dots dir parent ++ dirents (k.fs.indexOf dir) n).length = n + 2 := by
      rw [List.length_append, dots_length, dirents_length, Nat.add_comm]
    show s.emitted ++ ctx.emitted = _
    rw [hs.emitted, hem, hs.fs, hpos, ← hlen]
    exact take_window _ done r

/-- **The calls one after another** deliver as much of the listing as their buffers take
together. -/
theorem Delivered.run (h : WF k.fs chain Z) (hd : k.fs.Is dir .dir)
    (hc : Compact (slotInode (k.fs.indexOf dir)) n) (hle : n ≤ 128) (rooms : List Nat) :
    ∀ {s : ListState} {done : Nat}, Delivered k dir parent n s done →
      ∃ s', runAll (ListState.exec dir parent) s (rooms.map .iterate) = .ok s' ∧
        Delivered k dir parent n s' (done + rooms.sum) := by
  induction rooms with
  | nil => exact fun hs => ⟨_, rfl, hs⟩
  | cons r rooms ih =>
      intro s done hs
      obtain ⟨s₁, hrun, hs₁⟩ := hs.iterate h hd hc hle r
      obtain ⟨s', hrest, hs'⟩ := ih hs₁
      refine ⟨s', ?_, by rwa [List.sum_cons, ← Nat.add_assoc]⟩
      rw [List.map_cons]
      unfold runAll
      rw [hrun]
      exact hrest

end Calls

/-! ## The directory of the tree -/

/-- The list has the entries of the map, each once. -/
structure Lists (l : List Dirent) (m : List UInt8 → Option Nat) : Prop where
  nodup : (l.map fun e => cstr e.1).Nodup
  mem : ∀ name ino, (∃ e ∈ l, cstr e.1 = name ∧ e.2 = ino) ↔ m name = some ino

section Directory

variable {k : Kernel} {chain : List Nat} {dir n : Nat} {qs : List Request}

/-- The slots are the entries of the map. -/
theorem dirents_lists (h : WF k.fs chain Z) (hn : NameInv k.fs) (hd : k.fs.Is dir .dir)
    (hc : Compact (slotInode (k.fs.indexOf dir)) n) :
    Lists (dirents (k.fs.indexOf dir) n) (blockMap (k.fs.indexOf dir)) where
  nodup := by
    unfold dirents
    rw [List.map_map]
    refine List.Nodup.map_on ?_ List.nodup_range
    intro i hi j hj hij
    exact hn dir hd i j (hc.used i (List.mem_range.1 hi)) (hc.used j (List.mem_range.1 hj)) hij
  mem name ino := by
    rw [blockMap_some h hn hd]
    unfold dirents
    simp only [List.mem_map, List.mem_range, exists_exists_and_eq_and]
    constructor
    · rintro ⟨i, hi, hname, hino⟩
      exact ⟨i, hino, hino ▸ hc.used i hi, hname⟩
    · rintro ⟨i, hino, h0, hname⟩
      exact ⟨i, hc.lt_iff.2 (hino ▸ h0), hname, hino⟩

/-- **After any run, unmounts included, the listing is the directory of the tree** that the file
system shows: `.`, `..` and every entry once, in an order that does not depend on the buffers. -/
theorem listing_exact (hf : k.faults = []) (h : Formatted k.fs) (hz : k.fs.Blank) (hd : Durable k.fs)
    (ha : Admissible Request.exec Request.Ok k qs) :
    ∃ k' t, runAll Request.exec k qs = .ok k' ∧ Shows k' t ∧
      ∀ d m, t.dirs d = some m → ∃ l, Lists l m ∧ ∀ (parent : Nat) (rooms : List Nat), ∃ s',
        runAll (ListState.exec d parent) ⟨k', 0, []⟩ (rooms.map .iterate) = .ok s' ∧
        s'.kernel.fs = k'.fs ∧ s'.emitted = (dots d parent ++ l).take rooms.sum := by
  obtain ⟨k', chain, hrun, hinv, -, -⟩ := (h.fsInv hf hz).requests hd ha
  refine ⟨k', k'.fs.tree, hrun, hinv.shows, fun d m hm => ?_⟩
  have hdir : k'.fs.Is d .dir := by
    by_contra hno
    have : k'.fs.names d = some m := hm
    rw [Fs.names_notDir hno] at this
    cases this
  have hmap : blockMap (k'.fs.indexOf d) = m := by
    have : k'.fs.names d = some m := hm
    rw [Fs.names_dir hdir] at this
    exact Option.some.inj this
  obtain ⟨n, hle, hc⟩ := hinv.wf.dirs.tree.compact d hdir
  refine ⟨dirents (k'.fs.indexOf d) n, hmap ▸ dirents_lists hinv.wf hinv.names hdir hc,
    fun parent rooms => ?_⟩
  have hstart : Delivered k' d parent n ⟨k', 0, []⟩ 0 :=
    ⟨hinv.faults, rfl, (Nat.zero_min _).symm, rfl⟩
  obtain ⟨s', hrest, hs'⟩ := hstart.run hinv.wf hdir hc hle rooms
  exact ⟨s', hrest, hs'.fs, by simpa using hs'.emitted⟩

theorem listing_exact_remountRun : ∃ k' t,
    runAll Request.exec (magicImage 12 8) remountRun = .ok k' ∧ Shows k' t ∧
      ∀ d m, t.dirs d = some m → ∃ l, Lists l m ∧ ∀ (parent : Nat) (rooms : List Nat), ∃ s',
        runAll (ListState.exec d parent) ⟨k', 0, []⟩ (rooms.map .iterate) = .ok s' ∧
        s'.kernel.fs = k'.fs ∧ s'.emitted = (dots d parent ++ l).take rooms.sum :=
  listing_exact rfl (magicImage_formatted (by decide) (by decide) (by decide) (by decide))
    (magicImage_blank (by decide))
    (magicImage_durable (by decide) (by decide) (by decide) (by decide)) remountRun_admissible

end Directory

end Ouichefs
