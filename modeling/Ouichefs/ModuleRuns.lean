import Ouichefs.Mount

/-!
# The module (`fs.c`, `sysfs.c`, `ioctl.c`)

`ouichefs_init`, mounts and unmounts of any partitions in any order, and `ouichefs_exit`.

* The VFS holds the module while a partition is mounted, and mounts only while the file system is
  registered.
* `unregister_chrdev` of a device that was not registered does nothing.

Main results:

* `ModuleInv.step`: every event keeps what is held in step with what was taken.
* `module_run`: so do all runs, exactly when `ouichefs_register_sysfs` never fails.
-/

set_option autoImplicit false

namespace Ouichefs

/-! ## The model -/

/-- The module: what was registered and freed so far, whether it is loaded and has its character
device, and the super blocks of the mounted partitions. -/
structure KernelModule where
  ops : List (Res × Bool)
  loaded : Bool
  chrdev : Bool
  mounted : List Mount

namespace KernelModule

def take (s : KernelModule) (r : Res) : KernelModule := { s with ops := s.ops ++ [(r, true)] }

def give (s : KernelModule) (r : Res) : KernelModule := { s with ops := s.ops ++ [(r, false)] }

/-- `ouichefs_init`, with the answers of `kobject_create_and_add`, `kmem_cache_create`,
`register_filesystem` and `register_chrdev`. -/
def ouichefsInit (sysfs cache : Bool) (registered : Int) (chr : Bool)
    (s : KernelModule) : Int × KernelModule :=
  if sysfs = false then (-ENOMEM, s)
  else
    let s := s.take .sysfsRoot
    if cache = false then (-ENOMEM, s.give .sysfsRoot)
    else
      let s := s.take .inodeCache
      if registered ≠ 0 then (registered, (s.give .inodeCache).give .sysfsRoot)
      else
        let s := s.take .fileSystem
        let s := if chr then s.take .chrdev else s
        (0, { s with loaded := true, chrdev := chr })

def ouichefsExit (s : KernelModule) : KernelModule :=
  let s := if s.chrdev then s.give .chrdev else s
  let s := ((s.give .fileSystem).give .inodeCache).give .sysfsRoot
  { s with loaded := false, chrdev := false }

end KernelModule

inductive ModuleEv where
  | init (sysfs cache : Bool) (registered : Int) (chr : Bool)
  | mount (id : Nat) (long : LongSize) (dev : Device)
  | umount (id : Nat)
  | exit

/-- A super block that `ouichefs_fill_super` has not seen yet. -/
def Mount.fresh (id : Nat) (dev : Device) : Mount := ⟨id, dev, false, false, []⟩

def KernelModule.exec (s : KernelModule) : ModuleEv → Except Crash (Int × KernelModule)
  | .init sysfs cache registered chr => .ok (s.ouichefsInit sysfs cache registered chr)
  | .mount id long dev =>
    match (Mount.fresh id dev).mountBdev long with
    | .error e => .error e
    | .ok (ret, m) => .ok (ret,
        { s with
          ops := s.ops ++ m.ops
          mounted := if ret = 0 then { m with ops := [] } :: s.mounted else s.mounted })
  | .umount id =>
    match s.mounted.find? fun m => m.id == id with
    | none => .ok (-EINVAL, s)
    | some m => .ok (0,
        { s with
          ops := s.ops ++ m.killSb.ops, mounted := s.mounted.eraseP fun m => m.id == id })
  | .exit => .ok (0, s.ouichefsExit)

/-- A module that was never loaded. -/
def KernelModule.unloaded : KernelModule := ⟨[], false, false, []⟩

/-- What the kernel lets happen. -/
def ModuleEv.Allowed (s : KernelModule) : ModuleEv → Prop
  | .init .. => s.loaded = false
  | .mount id _ _ => s.loaded = true ∧ ∀ m ∈ s.mounted, m.id ≠ id
  | .umount id => ∃ m ∈ s.mounted, m.id = id
  | .exit => s.loaded = true ∧ s.mounted = []

/-- A mount whose `ouichefs_register_sysfs` fails. -/
def ModuleEv.RegisterFails : ModuleEv → Bool
  | .mount id long dev => (Mount.fresh id dev).RegisterFails long
  | _ => false

instance (s : KernelModule) : (ev : ModuleEv) → Decidable (ev.Allowed s)
  | .init .. => inferInstanceAs (Decidable (_ = _))
  | .mount .. => inferInstanceAs (Decidable (_ ∧ _))
  | .umount _ => inferInstanceAs (Decidable (∃ m ∈ _, _))
  | .exit => inferInstanceAs (Decidable (_ ∧ s.mounted = []))

/-! ## What is held -/

/-- What the mounted partitions need. -/
def mountsHeld : List Mount → Multiset Res
  | [] => 0
  | m :: ms => mountHeld m.id + mountsHeld ms

/-- What the module needs for itself. -/
def moduleHeld (loaded chrdev : Bool) : Multiset Res :=
  (if chrdev then Multiset.cons .chrdev else id)
    (if loaded then .fileSystem ::ₘ .inodeCache ::ₘ .sysfsRoot ::ₘ 0 else 0)

/-- What the module and the mounted partitions need. -/
def KernelModule.held (s : KernelModule) : Multiset Res :=
  moduleHeld s.loaded s.chrdev + mountsHeld s.mounted

/-- Nothing else is held, and nothing was freed that was not. -/
structure ModuleInv (s : KernelModule) : Prop where
  settles : Settles 0 s.ops s.held
  mounted : ∀ m ∈ s.mounted, m.sRoot = true ∧ m.sFsInfo = true ∧ m.ops = []
  loaded : s.loaded = false → s.chrdev = false ∧ s.mounted = []

section Steps

variable {s s' : KernelModule} {ret : Int}

theorem mem_mountsHeld {id : Nat} {r : SbRes} {ms : List Mount}
    (h : Res.sb id r ∈ mountsHeld ms) : ∃ m ∈ ms, m.id = id := by
  induction ms with
  | nil => simp [mountsHeld] at h
  | cons m ms ih =>
      rcases Multiset.mem_add.1 h with h | h
      · refine ⟨m, List.mem_cons_self .., ?_⟩
        have hall : ∀ r' ∈ mountHeld m.id, ∃ x, r' = Res.sb m.id x := by
          simp [mountHeld, rootHeld, loadedHeld]
        obtain ⟨x, hx⟩ := hall _ h
        cases hx
        rfl
      · obtain ⟨m', hm', hid⟩ := ih h
        exact ⟨m', List.mem_cons_of_mem m hm', hid⟩

theorem sb_not_mem_moduleHeld (id : Nat) (r : SbRes) (loaded chrdev : Bool) :
    Res.sb id r ∉ moduleHeld loaded chrdev := by
  cases loaded <;> cases chrdev <;> simp [moduleHeld]

theorem mountsHeld_erase {id : Nat} {m : Mount} {ms : List Mount}
    (h : ms.find? (fun m => m.id == id) = some m) :
    mountsHeld ms = mountHeld m.id + mountsHeld (ms.eraseP fun m => m.id == id) := by
  induction ms with
  | nil => cases h
  | cons m' ms ih =>
      by_cases hid : m'.id = id
      · have : m' = m := by simpa [hid] using h
        subst this
        simp [mountsHeld, hid]
      · rw [List.find?_cons_of_neg (by simpa using hid)] at h
        rw [List.eraseP_cons_of_neg (by simpa using hid), mountsHeld, mountsHeld, ih h,
          add_left_comm]

/-- Without mounted partitions. -/
theorem KernelModule.held_of_unmounted (hm : s.mounted = []) :
    s.held = moduleHeld s.loaded s.chrdev := by
  unfold KernelModule.held
  rw [hm, mountsHeld, add_zero]

/-- Steps of the module itself, made while nothing is mounted. -/
theorem ModuleInv.of_leads (h : ModuleInv s) (hm : s.mounted = []) (hm' : s'.mounted = [])
    (hc : s'.loaded = false → s'.chrdev = false)
    (hl : Leads (moduleHeld s.loaded s.chrdev) s.ops (moduleHeld s'.loaded s'.chrdev) s'.ops) :
    ModuleInv s' := by
  refine ⟨?_, hm' ▸ fun m hmem => absurd hmem List.not_mem_nil, fun hl' => ⟨hc hl', hm'⟩⟩
  have hs := h.settles
  rw [KernelModule.held_of_unmounted hm] at hs
  rw [KernelModule.held_of_unmounted hm']
  exact Leads.settles hs hl

/-- **`ouichefs_init`** registers everything or leaves nothing. -/
theorem ModuleInv.init (h : ModuleInv s) (hl : s.loaded = false) (sysfs cache : Bool)
    (registered : Int) (chr : Bool) :
    ModuleInv (s.ouichefsInit sysfs cache registered chr).2 := by
  obtain ⟨hchr, hmt⟩ := h.loaded hl
  have hstart : moduleHeld s.loaded s.chrdev = 0 := by
    rw [hl, hchr]
    rfl
  have h₁ := Leads.take 0 s.ops Res.sysfsRoot
  have h₂ := h₁.trans (.take _ _ Res.inodeCache)
  have h₃ := h₂.trans (.take _ _ Res.fileSystem)
  unfold KernelModule.ouichefsInit
  split
  · exact h
  · split
    · refine h.of_leads hmt hmt (fun _ => hchr) ?_
      show Leads (moduleHeld s.loaded s.chrdev) s.ops (moduleHeld s.loaded s.chrdev) _
      rw [hstart]
      exact h₁.trans (.give 0 _ _)
    · simp only
      split
      · refine h.of_leads hmt hmt (fun _ => hchr) ?_
        show Leads (moduleHeld s.loaded s.chrdev) s.ops (moduleHeld s.loaded s.chrdev) _
        rw [hstart]
        exact (h₂.trans (.give _ _ _)).trans (.give 0 _ _)
      · cases chr with
        | false => exact h.of_leads hmt hmt (fun hc => by cases hc) (hstart ▸ h₃)
        | true =>
            exact h.of_leads hmt hmt (fun hc => by cases hc)
              (hstart ▸ h₃.trans (.take _ _ Res.chrdev))

/-- **`ouichefs_exit`** frees what `ouichefs_init` registered. -/
theorem ModuleInv.exit (h : ModuleInv s) (hl : s.loaded = true) (hm : s.mounted = []) :
    ModuleInv s.ouichefsExit := by
  have hfree : ∀ p, Leads (.fileSystem ::ₘ .inodeCache ::ₘ .sysfsRoot ::ₘ 0) p 0
      (((p ++ [(Res.fileSystem, false)]) ++ [(Res.inodeCache, false)]) ++
        [(Res.sysfsRoot, false)]) :=
    fun p => ((Leads.give _ p _).trans (.give _ _ _)).trans (.give 0 _ _)
  unfold KernelModule.ouichefsExit
  cases hc : s.chrdev with
  | false =>
      refine h.of_leads hm hm (fun _ => rfl) ?_
      rw [hl, hc]
      exact hfree s.ops
  | true =>
      refine h.of_leads hm hm (fun _ => rfl) ?_
      rw [hl, hc]
      exact (Leads.give _ s.ops _).trans (hfree _)

/-- Operations for one partition, whatever else is held. -/
theorem ModuleInv.extend {g : Multiset Res} {l : List (Res × Bool)} (h : ModuleInv s)
    {h₀ h₁ : Multiset Res} (hl : Settles h₀ l h₁) (hheld : s.held = h₀ + g) :
    Settles 0 (s.ops ++ l) (h₁ + g) :=
  h.settles.trans (hheld ▸ hl.frame g)

/-- **A mount** that does not fail at the last step. -/
theorem ModuleInv.mount {id : Nat} {long : LongSize} {dev : Device} (h : ModuleInv s)
    (hl : s.loaded = true) (hok : (Mount.fresh id dev).RegisterFails long = false)
    (hrun : s.exec (.mount id long dev) = .ok (ret, s')) : ModuleInv s' := by
  simp only [KernelModule.exec] at hrun
  split at hrun
  · cases hrun
  · rename_i ret' m hmount
    cases hrun
    unfold Mount.mountBdev at hmount
    split at hmount
    · cases hmount
    · rename_i ret'' m' hfill
      rcases fillSuper_moves hok hfill with ⟨rfl, hr, hi, hm⟩ | ⟨hneg, hr, hm⟩
      · rw [if_neg (by simp)] at hmount
        cases hmount
        obtain ⟨l, hops, hset⟩ := hm.leads
        have hops : m.ops = l := hops
        refine ⟨?_, ?_, fun hf => ?_⟩
        · have hnew := h.extend hset (zero_add s.held).symm
          have hheld : mountHeld (Mount.fresh id dev).id + s.held = moduleHeld s.loaded s.chrdev +
              mountsHeld ({ m with ops := [] } :: s.mounted) := by
            rw [mountsHeld, KernelModule.held, add_left_comm]
            exact congrArg _ (congrArg (mountHeld · + _) hm.id.symm)
          rw [← hops, hheld] at hnew
          exact hnew
        · intro m₁ hm₁
          rcases List.mem_cons.1 hm₁ with rfl | hm₁
          · exact ⟨hr, hi, rfl⟩
          · exact h.mounted m₁ hm₁
        · have : s.loaded = false := hf
          rw [hl] at this
          cases this
      · rw [if_pos (by omega)] at hmount
        cases hmount
        have hkill : m'.killSb = m' := by
          unfold Mount.killSb
          rw [hr]
          rfl
        obtain ⟨l, hops, hset⟩ := hm.leads
        have hops : m'.ops = l := hops
        rw [hkill, if_neg (by omega)]
        refine ⟨?_, h.mounted, h.loaded⟩
        have hnew := h.extend hset (zero_add s.held).symm
        rw [zero_add, ← hops] at hnew
        exact hnew

/-- **An unmount.** -/
theorem ModuleInv.umount {id : Nat} (h : ModuleInv s)
    (hrun : s.exec (.umount id) = .ok (ret, s')) : ModuleInv s' := by
  simp only [KernelModule.exec] at hrun
  split at hrun
  · cases hrun
    exact h
  · rename_i m hfind
    cases hrun
    obtain ⟨hr, hi, hops⟩ := h.mounted m (List.mem_of_find?_eq_some hfind)
    obtain ⟨l, hl, hset⟩ := (killSb_moves hr hi).leads
    rw [hops, List.nil_append] at hl
    refine ⟨?_, fun m' hm' => h.mounted m' (List.mem_of_mem_eraseP hm'), fun hf => ?_⟩
    · have hnew := h.extend hset (g := moduleHeld s.loaded s.chrdev +
        mountsHeld (s.mounted.eraseP fun m => m.id == id)) (by
          rw [KernelModule.held, mountsHeld_erase hfind, add_left_comm])
      rw [zero_add, ← hl] at hnew
      exact hnew
    · obtain ⟨hc, hm⟩ := h.loaded hf
      rw [hm] at hfind
      cases hfind

/-- A mount that fails at the last step frees the root a second time. -/
theorem ModuleInv.registerFails {id : Nat} {long : LongSize} {dev : Device} (h : ModuleInv s)
    (hnew : ∀ m ∈ s.mounted, m.id ≠ id)
    (hfail : (Mount.fresh id dev).RegisterFails long = true)
    (hrun : s.exec (.mount id long dev) = .ok (ret, s')) (l' : List (Res × Bool))
    (h' : Multiset Res) : ¬Settles 0 (s'.ops ++ l') h' := by
  obtain ⟨m, hfill, hr, hi, hm⟩ := fillSuper_registerFails hfail
  simp only [KernelModule.exec, Mount.mountBdev, hfill, ne_eq, neg_eq_zero] at hrun
  rw [if_pos (by decide)] at hrun
  cases hrun
  obtain ⟨l, hops, hset⟩ := hm.leads
  have hops : m.ops = l := hops
  obtain ⟨rest, hkill⟩ : ∃ rest, m.killSb.ops = l ++ (.sb id .rootDentry, false) :: rest := by
    have hid : m.id = id := hm.id
    unfold Mount.killSb Mount.putSuper
    rw [if_pos hr, if_pos (show ((m.give .rootDentry).give .rootInode).sFsInfo = true from hi),
      ← hops, ← hid]
    exact ⟨[(.sb m.id .rootInode, false), (.sb m.id .kobject, false),
      (.sb m.id .ifreeBitmap, false), (.sb m.id .bfreeBitmap, false), (.sb m.id .sbInfo, false)], by simp [Mount.give]⟩
  have hnone : Res.sb id .rootDentry ∉ ({.sb id .kobject} : Multiset Res) + s.held := by
    intro hmem
    rcases Multiset.mem_add.1 hmem with hmem | hmem
    · simp at hmem
    · unfold KernelModule.held at hmem
      rcases Multiset.mem_add.1 hmem with hmem | hmem
      · exact sb_not_mem_moduleHeld _ _ _ _ hmem
      · obtain ⟨m', hm', hid⟩ := mem_mountsHeld hmem
        exact hnew m' hm' hid
  have hbad := (h.extend hset (zero_add s.held).symm).not_give hnone (rest ++ l') h'
  intro hs
  apply hbad
  have hshape : (s.ops ++ m.killSb.ops) ++ l' =
      (s.ops ++ l) ++ (Res.sb id .rootDentry, false) :: (rest ++ l') := by
    rw [hkill]
    simp
  rw [← hshape]
  exact hs

/-- Operations are only added. -/
theorem KernelModule.exec_ops {ev : ModuleEv} (hrun : s.exec ev = .ok (ret, s')) :
    s.ops <+: s'.ops := by
  have hstep : ∀ (s : KernelModule) (r : Res) (b : Bool), s.ops <+: s.ops ++ [(r, b)] :=
    fun s r b => List.prefix_append _ _
  cases ev with
  | init sysfs cache registered chr =>
      rw [← show (s.ouichefsInit sysfs cache registered chr).2 = s' from
        congrArg Prod.snd (Except.ok.inj hrun)]
      unfold KernelModule.ouichefsInit
      split
      · exact List.prefix_rfl
      · split
        · exact (hstep s _ _).trans (hstep (s.take .sysfsRoot) _ _)
        · simp only
          have htwo := (hstep s .sysfsRoot true).trans (hstep (s.take .sysfsRoot) .inodeCache true)
          split
          · exact (htwo.trans (List.prefix_append _ _)).trans (List.prefix_append _ _)
          · have hthree := htwo.trans
              (hstep ((s.take .sysfsRoot).take .inodeCache) .fileSystem true)
            split
            · exact hthree.trans (List.prefix_append _ _)
            · exact hthree
  | mount id long dev =>
      simp only [KernelModule.exec] at hrun
      split at hrun
      · cases hrun
      · cases hrun
        exact List.prefix_append _ _
  | umount id =>
      simp only [KernelModule.exec] at hrun
      split at hrun
      · cases hrun
        exact List.prefix_rfl
      · cases hrun
        exact List.prefix_append _ _
  | exit =>
      cases hrun
      have hfree : ∀ s : KernelModule, s.ops <+:
          (((s.give .fileSystem).give .inodeCache).give .sysfsRoot).ops := fun s =>
        ((hstep s _ _).trans (List.prefix_append _ _)).trans (List.prefix_append _ _)
      unfold KernelModule.ouichefsExit
      cases s.chrdev with
      | false => exact hfree s
      | true => exact (hstep s _ _).trans (hfree (s.give .chrdev))

/-- **One event.** -/
theorem ModuleInv.step {ev : ModuleEv} (h : ModuleInv s) (hev : ev.Allowed s)
    (hok : ev.RegisterFails = false) (hrun : s.exec ev = .ok (ret, s')) : ModuleInv s' := by
  cases ev with
  | init sysfs cache registered chr =>
      rw [← show (s.ouichefsInit sysfs cache registered chr).2 = s' from
        congrArg Prod.snd (Except.ok.inj hrun)]
      exact h.init hev sysfs cache registered chr
  | mount id long dev => exact h.mount hev.1 hok hrun
  | umount id => exact h.umount hrun
  | exit =>
      cases hrun
      exact h.exit hev.1 hev.2

end Steps

/-! ## Runs -/

section Runs

variable {evs : List ModuleEv} {s s' : KernelModule}

theorem KernelModule.run_ops : ∀ (evs : List ModuleEv) {s s' : KernelModule},
    runAll KernelModule.exec s evs = .ok s' → s.ops <+: s'.ops := by
  intro evs
  induction evs with
  | nil =>
      intro s s' hrun
      cases hrun
      exact List.prefix_rfl
  | cons ev evs ih =>
      intro s s' hrun
      unfold runAll at hrun
      split at hrun
      · cases hrun
      · rename_i r s₁ he
        exact (KernelModule.exec_ops he).trans (ih hrun)

/-- Without a failing `ouichefs_register_sysfs` the invariant holds all the time; the first one
that fails ends it for good. -/
theorem ModuleInv.run : ∀ (evs : List ModuleEv) {s s' : KernelModule}, ModuleInv s →
    Admissible KernelModule.exec (fun s ev => ev.Allowed s) s evs →
    runAll KernelModule.exec s evs = .ok s' →
    ((∀ ev ∈ evs, ev.RegisterFails = false) → ModuleInv s') ∧
      ((∃ ev ∈ evs, ev.RegisterFails = true) → ∀ h, ¬Settles 0 s'.ops h) := by
  intro evs
  induction evs with
  | nil =>
      intro s s' h _ hrun
      cases hrun
      exact ⟨fun _ => h, fun ⟨ev, hev, _⟩ => absurd hev List.not_mem_nil⟩
  | cons ev evs ih =>
      intro s s' h ha hrun
      unfold runAll at hrun
      split at hrun
      · cases hrun
      · rename_i r s₁ he
        by_cases hok : ev.RegisterFails = false
        · obtain ⟨hgood, hbad⟩ := ih (h.step ha.1 hok he) (ha.2 r s₁ he) hrun
          refine ⟨fun hall => hgood fun ev' hev' => hall ev' (List.mem_cons_of_mem ev hev'), ?_⟩
          rintro ⟨ev', hev', hfail⟩
          rcases List.mem_cons.1 hev' with rfl | hev'
          · rw [hok] at hfail
            cases hfail
          · exact hbad ⟨ev', hev', hfail⟩
        · have hfail : ev.RegisterFails = true := by simpa using hok
          refine ⟨fun hall => absurd (hall ev (List.mem_cons_self ..)) hok, fun _ h' => ?_⟩
          obtain ⟨l, hl⟩ := KernelModule.run_ops evs hrun
          cases ev with
          | mount id long dev =>
              rw [← hl]
              exact h.registerFails ha.1.2 hfail he l h'
          | init | umount | exit => cases hfail

/-- **The module gives back what it takes.**  In a run of loading, mounts and unmounts of any
partitions and unloading, in which anything may fail, nothing is freed that is not held, and at the
end nothing is held but what the module and the mounted partitions need, exactly when
`ouichefs_register_sysfs` never fails. -/
theorem module_run (ha : Admissible KernelModule.exec (fun s ev => ev.Allowed s)
      KernelModule.unloaded evs)
    (hrun : runAll KernelModule.exec KernelModule.unloaded evs = .ok s') :
    (Settles 0 s'.ops s'.held ↔ ∀ ev ∈ evs, ev.RegisterFails = false) ∧
      ((∃ h, Settles 0 s'.ops h) ↔ Settles 0 s'.ops s'.held) := by
  have h₀ : ModuleInv KernelModule.unloaded :=
    ⟨.nil 0, fun m hm => absurd hm List.not_mem_nil, fun _ => ⟨rfl, rfl⟩⟩
  obtain ⟨hgood, hbad⟩ := ModuleInv.run evs h₀ ha hrun
  have hiff : ∀ h, Settles 0 s'.ops h → ∀ ev ∈ evs, ev.RegisterFails = false := by
    intro h hs ev hev
    by_contra hfail
    exact hbad ⟨ev, hev, by simpa using hfail⟩ h hs
  exact ⟨⟨hiff _, fun hall => (hgood hall).settles⟩,
    ⟨fun ⟨h, hs⟩ => (hgood (hiff h hs)).settles, fun hs => ⟨_, hs⟩⟩⟩

/-- A device with a superblock and nothing else. -/
def sbDevice (answers : List Answer) : Device :=
  ⟨100, Function.update (fun _ => Page.zero) 0
    (((((Page.zero.setWord 0 magic).setWord 4 100).setWord 8 100).setWord 12 2).setWord 16 1),
    answers⟩

/-- Two partitions are mounted at the same time, and one mount fails. -/
def moduleEvs : List ModuleEv :=
  [.init true true 0 true, .mount 1 .bits64 (sbDevice []),
    .mount 2 .bits64 (sbDevice [.success, .success, .failure 0]), .mount 2 .bits32 (sbDevice []),
    .umount 1, .umount 2, .exit]

theorem module_run_moduleEvs : ∃ s' : KernelModule,
    runAll KernelModule.exec KernelModule.unloaded moduleEvs = .ok s' ∧ Settles 0 s'.ops 0 := by
  have hend : (runAll KernelModule.exec KernelModule.unloaded moduleEvs).toOption.map
      (fun s => (s.loaded, s.chrdev, s.mounted.length)) = some (false, false, 0) := by
    decide +kernel
  cases hrun : runAll KernelModule.exec KernelModule.unloaded moduleEvs with
  | error e =>
      rw [hrun] at hend
      cases hend
  | ok s' =>
      rw [hrun] at hend
      have hend : (s'.loaded, s'.chrdev, s'.mounted.length) = (false, false, 0) :=
        Option.some.inj hend
      simp only [Prod.mk.injEq, List.length_eq_zero_iff] at hend
      have hheld : s'.held = 0 := by
        rw [KernelModule.held_of_unmounted hend.2.2, hend.1, hend.2.1]
        rfl
      obtain ⟨hset, -⟩ := @module_run moduleEvs s' (by decide +kernel) hrun
      exact ⟨s', rfl, hheld ▸ hset.2 (by decide +kernel)⟩

end Runs

end Ouichefs
