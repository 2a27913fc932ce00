import Portalocker.Foundation.Arbiter
import Portalocker.Foundation.Crash
import Portalocker.Utils.Capacity
import Portalocker.Utils.Exclusion
set_option autoImplicit false
set_option linter.unusedSectionVars false

/-!
# Lock files when processes crash

An instance may die at any moment with its process: the system closes its files, and no
code of the instance runs any more.  What `TemporaryFileLock` and `PidFileLock` are for is
an arbiter that grants every lock path to one instance at a time; this module shows that
they refine it, with crashes, failures and interrupts anywhere.
-/

namespace Portalocker

open Posix Interleaving Interleaving.Machine World Contract

variable {ι : Type} [DecidableEq ι]

/-! ## What a crash leaves -/

/-- The process of an instance dies, and the instance with it.  The file names stay. -/
@[simps toFs fh inner acquired dropped confirmed held creator seen answer sections]
def World.crash (p : ι) (w : World ι) : World ι :=
  { w with
    toFs := w.toFs.abandon p
    fh := Function.update w.fh p none
    inner := Function.update w.inner p false
    acquired := Function.update w.acquired p false
    acquireCount := Function.update w.acquireCount p 0
    confirmed := fun h => w.confirmed h && h.owner ≠ p
    held := Function.update w.held p false }

section Crash

variable {cfg : Config ι} {w : World ι} {p q : ι}

theorem World.Wf.crash (hw : w.Wf) : (w.crash p).Wf := by
  have hkept : ∀ {q h}, (w.crash p).fh q = some h → w.fh q = some h := by
    intro q h hq
    by_cases hqp : q = p
    · simp [hqp] at hq
    · simpa [Function.update_of_ne hqp] using hq
  exact ⟨hw.fs.abandon, fun hq => hw.fh_owner (hkept hq), fun hq => hw.fh_serial (hkept hq),
    fun hq => hw.fh_dropped (hkept hq), hw.dropped_serial⟩

/-- A crash disturbs nobody else. -/
theorem undisturbed_of_crash (hq : q ≠ p) : Undisturbed q w (w.crash p) where
  fh := by simp [Function.update_of_ne hq]
  inner := by simp [Function.update_of_ne hq]
  acquired := by simp [Function.update_of_ne hq]
  acquireCount := by simp [World.crash, Function.update_of_ne hq]
  held := by simp [Function.update_of_ne hq]
  answer := rfl
  serial := rfl
  seen := fun _ hr => hr
  handle := by
    intro h ho _
    have hne : h.owner ≠ p := by rwa [ho]
    exact ⟨.abandon hne, rfl, by simp [hne], fun _ => rfl⟩

/-- The others own what they owned. -/
theorem Ownership.crash (hi : Ownership cfg w) : Ownership cfg (w.crash p) := by
  have hconf : ∀ {h}, (w.crash p).confirmed h = true → w.confirmed h = true ∧ h.owner ≠ p := by
    intro h hc
    simpa using hc
  refine ⟨?_, ?_, fun hc => hi.own_path (hconf hc).1, ?_, ?_, ?_⟩
  · intro q h hq
    by_cases hqp : q = p
    · simp [hqp] at hq
    · exact hi.path (by simpa [Function.update_of_ne hqp] using hq)
  · intro h hc
    obtain ⟨hnames, hlock⟩ := hi.owns (hconf hc).1
    exact ⟨hnames, by simpa [(hconf hc).2] using hlock⟩
  · intro h hc hd
    have hcur := hi.current (hconf hc).1 hd
    simpa [Function.update_of_ne (hconf hc).2] using hcur
  · intro h hpath
    have hempty := hi.buffer hpath
    simp [hempty]
  · intro h hl
    simp only [crash_toFs, Fs.abandon_lock] at hl ⊢
    split at hl
    · exact absurd rfl hl
    · rw [if_neg ‹_›]
      exact hi.exclusive hl

/-- So do those that nothing has failed: a crash leaves no pid file of a
`TemporaryFileLock`. -/
theorem Tidy.crash (hpid : ∀ q, (cfg.object q).pidPath = none) (hw : w.Wf) (ht : Tidy cfg w) :
    Tidy cfg (w.crash p) := by
  have hverified : ∀ {q h}, q ≠ p → w.Verified q h → (w.crash p).Verified q h := by
    rintro q h hq ⟨hfh, hconf⟩
    have hne : h.owner ≠ p := by rwa [hw.fh_owner hfh]
    exact ⟨by simpa [Function.update_of_ne hq] using hfh, by simp [hconf, hne]⟩
  refine ⟨fun hd hmem => ht.dropped hd (List.mem_filter.1 hmem).1, ?_, ht.lock_names,
    fun hmem => ht.lock_opened (List.mem_filter.1 hmem).1, ?_, ht.content, ?_, ht.answer⟩
  · intro q hq
    have hqp : q ≠ p := fun heq => by simp [heq] at hq
    obtain ⟨h, hv⟩ := ht.held (by simpa [Function.update_of_ne hqp] using hq)
    exact ⟨h, hverified hqp hv⟩
  · intro q path k hq
    rw [hpid q] at hq
    cases hq
  · intro q h r hv
    have hqp : q ≠ p := by
      intro heq
      have hfh := hv.1
      simp [heq] at hfh
    have hfh : w.fh q = some h := by simpa [Function.update_of_ne hqp] using hv.1
    have hconf : w.confirmed h = true := by
      have := hv.2
      simp only [crash_confirmed, Bool.and_eq_true] at this
      exact this.1
    exact ht.seen r ⟨hfh, hconf⟩

/-- The contract of lock files survives crashes; in runs where nothing else fails, that of
`TemporaryFileLock`s does. -/
theorem ownership_survives {hcfg : Separated cfg} {clean : Prop} {g : Guard (machine cfg)}
    (hclean : clean → ∀ q, (cfg.object q).pidPath = none) :
    (ownershipContract cfg hcfg clean g).toDiscipline.Survives World.crash where
  inv := fun hw => ⟨hw.1.crash, hw.2.1.crash, fun hc => (hw.2.2 hc).crash (hclean hc) hw.1⟩
  rely := fun {p w} hw q hq => by
    refine ⟨undisturbed_of_crash hq, fun hc => ⟨?_, fun _ _ _ _ _ => rfl⟩⟩
    intro h path _ _ _ hpath
    rw [hclean hc q] at hpath
    cases hpath

end Crash

/-- The machine of all instances, which may crash. -/
abbrev crashable (cfg : Config ι) : Machine ι := (machine cfg).crashing World.crash

/-! ## Lock files refine a mutex -/

/-- The instances whose current handle has passed the inode comparison while it was
locked. -/
def holders (w : World ι) : Set ι := {p | w.verified p = true}

/-- One instance at a time for each lock path. -/
def lockPaths (cfg : Config ι) : Arbiter ι := .mutex fun p => (cfg.object p).lockPath

section Holders

variable {cfg : Config ι} {w w' : World ι} {p q : ι}

theorem mem_holders : p ∈ holders w ↔ ∃ h, w.Verified p h := by
  simp only [holders, World.verified, Set.mem_ofPred_eq, Option.any_eq_true]
  rfl

/-- What leaves an instance undisturbed leaves it its lock, and gives it none. -/
theorem holders_of_undisturbed (hw : w.Wf) (hu : Undisturbed q w w') :
    q ∈ holders w' ↔ q ∈ holders w := by
  rw [mem_holders, mem_holders]
  constructor
  · rintro ⟨h, hfh, hconf⟩
    rw [hu.fh] at hfh
    have hsame := (hu.handle h (hw.fh_owner hfh) (hw.fh_dropped hfh)).confirmed
    exact ⟨h, hfh, hsame ▸ hconf⟩
  · rintro ⟨h, hv⟩
    exact ⟨h, verified_stable hw hu hv⟩

theorem Ownership.admits (hw : w.Wf) (hi : Ownership cfg w) :
    (lockPaths cfg).admits (holders w) := by
  intro p hp q hq hpath
  obtain ⟨g, hg⟩ := mem_holders.1 hp
  obtain ⟨h, hh⟩ := mem_holders.1 hq
  exact hi.unique hw hg hh hpath

theorem Pristine.holders (h : Pristine w) : holders w = ∅ := by
  apply Set.eq_empty_of_forall_notMem
  intro p hp
  obtain ⟨k, hfh, -⟩ := mem_holders.1 hp
  simp [h.fh p] at hfh

/-- Where a contract is kept, crashes included, an instance gets or loses its lock by its own
transitions only. -/
theorem holders_own {g : Guard (machine cfg)} {K : Contract cfg g}
    {hK : K.toDiscipline.Survives World.crash}
    {s s' : (crashable cfg).State}
    {l : (crashable cfg).Label} (hs : (K.toDiscipline.crashing hK).Holds s)
    (hn : next s l = some s') (hq : l.client crashOf ≠ some q) :
    q ∈ Portalocker.holders s'.world.1 ↔ q ∈ Portalocker.holders s.world.1 := by
  have hw : World.Wf s.world.1 := hs.1.1
  cases l with
  | call p c =>
      obtain ⟨-, rfl⟩ := next_call hn
      rfl
  | op p choice =>
      have hqp : q ≠ p := fun heq => hq (congrArg some heq.symm)
      obtain ⟨c, o, k, r, hthread, hperform, -⟩ := next_op hn
      obtain ⟨hlive, hperform, -⟩ := perform_crashing hperform
      have hpre := (hs.permitted hthread).resolve_left (by simp [hlive])
      exact holders_of_undisturbed hw
        (undisturbed_of_change hw hpre.1 (Config.performOp_change hperform) hqp)
  | event e =>
      rcases event_crashing (next_event hn).1 with ⟨e', -, he, -⟩ | ⟨p, rfl, heq, -⟩
      · exact holders_of_undisturbed hw (undisturbed_of_finalize he q)
      · have hqp : q ≠ p := fun h => hq (congrArg some h.symm)
        rw [heq]
        exact holders_of_undisturbed hw (undisturbed_of_crash hqp)

end Holders

section Refinement

/-- No instance has done anything. -/
def NoneUsed (cfg : Config ι) (W : (crashable cfg).World) : Prop := Pristine (W.1 : World ι)

/-- The holders among the instances; who has crashed has nothing. -/
def holding (cfg : Config ι) (W : (crashable cfg).World) : Set ι := holders (W.1 : World ι)

variable {cfg : Config ι} (hcfg : Separated cfg)
include hcfg

/-- The contract holds in every run with crashes. -/
theorem crashes_hold {s : (crashable cfg).State}
    (hs : Reach (NoneUsed cfg) ((settledReleases cfg).crashing World.crash) s) :
    ((ownershipContract cfg hcfg False (settledReleases cfg)).toDiscipline.crashing
      (ownership_survives False.elim)).Holds s := by
  have hverified := ownership_verified (g := settledReleases cfg) hcfg False.elim
    (fun _ _ _ hg hc _ => hg hc) (fun _ _ _ _ _ _ => False.elim)
  refine (hverified.crashing (ownership_survives False.elim)).sound ?_ hs
  intro W h0
  have h0 : Pristine W.1 := h0
  exact ⟨⟨h0.wf, h0.ownership, False.elim⟩, fun _ => Or.inr False.elim⟩

/-- Lock files refine the arbiter of lock paths. -/
theorem lockPaths_refines : Refines (lockPaths cfg) crashOf (holding cfg) (NoneUsed cfg)
    ((settledReleases cfg).crashing World.crash) where
  start := fun _ h0 => Pristine.holders h0
  admits := fun hs => Ownership.admits (crashes_hold hcfg hs).1.1 (crashes_hold hcfg hs).1.2.1
  own := fun hs _ hn _ hq => holders_own (crashes_hold hcfg hs) hn hq

/-- `TemporaryFileLock`s and `PidFileLock`s, whatever fails, is interrupted or crashes: what
can be seen of a run is a history of grants and revocations in which every lock path has one
holder at a time, a path is granted again only after its holder has given it up or crashed,
and nobody else takes it away.  A holder has the lock on the inode that its path names. -/
theorem lock_files_refine_mutex {s : (crashable cfg).State}
    (hs : Reach (NoneUsed cfg) ((settledReleases cfg).crashing World.crash) s) :
    (∃ history, Observed crashOf (holding cfg) (NoneUsed cfg)
      ((settledReleases cfg).crashing World.crash) history s) ∧
    (∀ history, Observed crashOf (holding cfg) (NoneUsed cfg)
        ((settledReleases cfg).crashing World.crash) history s →
      (lockPaths cfg).Legal history (holding cfg s.world) ∧
      ∀ after between before p q,
        history = after ++ .grant q :: (between ++ .grant p :: before) →
        (cfg.object p).lockPath = (cfg.object q).lockPath → .revoke p ∈ between) ∧
    ∀ p ∈ holding cfg s.world, ∃ h path, World.fh s.world.1 p = some h ∧
      (cfg.object p).lockPath = some path ∧ Fs.Owns (World.toFs s.world.1) path h := by
  have hrefines := lockPaths_refines hcfg
  refine ⟨hrefines.observed hs, fun history hobserved => ?_, fun p hp => ?_⟩
  · have hlegal := hrefines.legal hobserved
    refine ⟨hlegal, ?_⟩
    rintro after between before p q rfl hpath
    exact hlegal.alternates hpath
  · obtain ⟨h, hv⟩ := mem_holders.1 hp
    have hi : Ownership cfg s.world.1 := (crashes_hold hcfg hs).1.2.1
    exact ⟨h, h.path, hv.1, hi.path hv.1, hi.owns hv.2⟩

end Refinement

/-- One instance acquires the path and crashes; then the other one finds the file that has
been left, and locks it. -/
def twoTemporary.survives : List (crashable twoTemporary).Label :=
  .call true .enter :: List.replicate 9 (.op true {}) ++ .event (.inr true) ::
    .call false .enter :: List.replicate 9 (.op false {})

/-- The path is granted to the survivor. -/
theorem lock_files_refine_mutex_run :
    ∃ s, run twoTemporary.survives ⟨(World.empty, fun _ => false), fun _ => none⟩ = some s ∧
      Fs.names (World.toFs s.world.1) ['f'] = some 0 ∧ false ∈ holding twoTemporary s.world ∧
      ∃ history, Observed crashOf (holding twoTemporary) (NoneUsed twoTemporary)
        ((settledReleases twoTemporary).crashing World.crash) history s ∧
        (lockPaths twoTemporary).Legal history (holding twoTemporary s.world) := by
  have hobserve : (run twoTemporary.survives ⟨(World.empty, fun _ => false), fun _ => none⟩).map
      (fun s => (Fs.names (World.toFs s.world.1) ['f'], World.verified s.world.1 false)) =
      some (some 0, true) := by rfl
  obtain ⟨s, hrun, hs⟩ := Option.map_eq_some_iff.1 hobserve
  obtain ⟨hnames, hverified⟩ := Prod.mk.inj hs
  have hreach : Reach (NoneUsed twoTemporary)
      ((settledReleases twoTemporary).crashing World.crash) s := by
    refine (Reach.start empty_pristine).append hrun ?_
    intro l hl t
    simp only [twoTemporary.survives, List.mem_append, List.mem_cons, List.mem_replicate] at hl
    rcases hl with (rfl | ⟨-, rfl⟩) | rfl | rfl | ⟨-, rfl⟩
    · exact fun hc => hc.elim
    · exact fun _ _ _ _ => trivial
    · trivial
    · exact fun hc => hc.elim
    · exact fun _ _ _ _ => trivial
  obtain ⟨⟨history, hobserved⟩, hlegal, -⟩ :=
    lock_files_refine_mutex twoTemporary_all.separated hreach
  exact ⟨s, hrun, hnames, hverified, history, hobserved, (hlegal history hobserved).1⟩

/-! ## Semaphores -/

/-- The instances that have the OS lock on a slot. -/
def slotHolders (w : World ι) : Set ι := {q | HasSlot w q}

section Slots

variable {cfg : Config ι} {sem : BoundedSemaphore} {w w' : World ι} {p q : ι}

/-- A crash only takes locks away. -/
theorem lock_crash (w : World ι) (h : Handle ι Path) :
    (w.crash p).lock h = none ∨ (w.crash p).lock h = w.lock h := by
  by_cases ho : h.owner = p
  · exact Or.inl (by simp [ho])
  · exact Or.inr (by simp [ho])

theorem SlotsInv.crash (hi : SlotsInv sem w) : SlotsInv sem (w.crash p) :=
  hi.fewer (fun hmem => (List.mem_filter.1 hmem).1) rfl rfl (fun h => (lock_crash w h).symm) rfl

/-- The contract of semaphores survives crashes. -/
theorem slots_survive {g : Guard (machine cfg)} :
    (slotsContract cfg sem g).toDiscipline.Survives World.crash where
  inv := fun hw => ⟨hw.1.crash, hw.2.crash⟩
  rely := fun {_ w} _ _ hq => ⟨undisturbed_of_crash hq, fun h _ hl => (lock_crash w h).elim
    (fun hnone => hnone) fun heq => heq.trans hl⟩

theorem SlotsInv.admits (hw : w.Wf) (hi : SlotsInv sem w) :
    (Arbiter.semaphore sem.maximum).admits (slotHolders w) := by
  apply le_of_not_gt
  intro hmore
  obtain ⟨t, hsub, ht⟩ := Set.exists_subset_encard_eq (Order.add_one_le_of_lt hmore)
  have hfinite : t.Finite := Set.finite_of_encard_eq_coe (k := sem.maximum + 1) (by exact_mod_cast ht)
  have hlength : hfinite.toFinset.toList.length = sem.maximum + 1 := by
    rw [Finset.length_toList, ← Nat.cast_inj (R := ℕ∞), ← Set.encard_coe_eq_coe_finsetCard,
      hfinite.coe_toFinset, ht]
    rfl
  have hcapacity := hi.capacity hw hfinite.toFinset.nodup_toList fun q hq =>
    hsub (hfinite.mem_toFinset.1 (Finset.mem_toList.1 hq))
  omega

/-- Each holder has one slot only. -/
theorem SlotsInv.heldSlots_lt (hi : SlotsInv sem w)
    (hfree : (slotHolders w).encard < sem.maximum) : (heldSlots sem w).ncard < sem.maximum := by
  have hhandle : ∀ n : heldSlots sem w, ∃ h, w.lock h ≠ none ∧ h.path = sem.getFilename n :=
    fun n => n.2.2
  choose handle hlock hpath using hhandle
  let owner : heldSlots sem w → slotHolders w := fun n => ⟨(handle n).owner, handle n, rfl, hlock n⟩
  have hinjective : Function.Injective owner := by
    intro m n howner
    have heq := hi.single (hlock m) (hlock n) (congrArg Subtype.val howner)
    apply Subtype.ext
    apply getFilename_injective sem
    rw [← hpath m, ← hpath n, heq]
  have hle : (heldSlots sem w).encard ≤ (slotHolders w).encard :=
    Function.Embedding.encard_le ⟨owner, hinjective⟩
  have hlt := hle.trans_lt hfree
  rw [← (Set.finite_of_encard_le_coe hlt.le).cast_ncard_eq] at hlt
  exact_mod_cast hlt

/-- An instance gets or loses its slot by its own transitions only. -/
theorem slotHolders_own {g : Guard (machine cfg)} {s s' : (crashable cfg).State}
    {l : (crashable cfg).Label}
    (hs : ((slotsContract cfg sem g).toDiscipline.crashing slots_survive).Holds s)
    (hn : next s l = some s') (hq : l.client crashOf ≠ some q) :
    q ∈ slotHolders s'.world.1 ↔ q ∈ slotHolders s.world.1 := by
  obtain ⟨hw, hi⟩ : World.Wf s.world.1 ∧ SlotsInv sem s.world.1 := hs.1
  have hiff : (∀ h : Handle ι Path, h.owner = q →
      Fs.lock (World.toFs s'.world.1) h = Fs.lock (World.toFs s.world.1) h) →
      (q ∈ slotHolders s'.world.1 ↔ q ∈ slotHolders s.world.1) := by
    intro hsame
    constructor
    · rintro ⟨h, ho, hl⟩
      exact ⟨h, ho, hsame h ho ▸ hl⟩
    · rintro ⟨h, ho, hl⟩
      exact ⟨h, ho, (hsame h ho).symm ▸ hl⟩
  apply hiff
  intro h ho
  cases l with
  | call p c =>
      obtain ⟨-, rfl⟩ := next_call hn
      rfl
  | op p choice =>
      have hne : h.owner ≠ p := fun heq => hq (congrArg some (heq.symm.trans ho))
      obtain ⟨c, o, k, r, hthread, hperform, -⟩ := next_op hn
      obtain ⟨hlive, hperform, -⟩ := perform_crashing hperform
      have hpre := (hs.permitted hthread).resolve_left (by simp [hlive])
      exact (untouched_of_change hw hpre.1 (Config.performOp_change hperform) hne).file.lock
  | event e =>
      rcases event_crashing (next_event hn).1 with ⟨e', -, he, -⟩ | ⟨p, rfl, heq, -⟩
      · -- a dropped handle has no lock to lose
        obtain ⟨-, hd, heq⟩ := Config.finalize_cases he
        rw [heq]
        simp only [discard_toFs, Fs.discard_lock, Function.update_apply]
        split
        · rename_i hh
          rw [hh, hi.dropped hd]
        · rfl
      · have hne : h.owner ≠ p := fun h' => hq (congrArg some (h'.symm.trans ho))
        rw [heq]
        exact if_neg hne

/-- No instance has done anything, and there are finitely many files. -/
def NoneClaimed (cfg : Config ι) (W : (crashable cfg).World) : Prop := Unclaimed (W.1 : World ι)

/-- The instances with a slot; who has crashed has none. -/
def slotHolding (cfg : Config ι) (W : (crashable cfg).World) : Set ι := slotHolders (W.1 : World ι)

theorem slots_hold_crashing (hcfg : SharedSlots cfg sem) (hquiet : AttributesQuiet cfg)
    {s : (crashable cfg).State}
    (hs : Reach (NoneClaimed cfg) (Guard.free (crashable cfg)) s) :
    ((slotsContract cfg sem (Guard.free (machine cfg))).toDiscipline.crashing
      slots_survive).Holds s := by
  refine ((slots_verified hcfg hquiet).crashing slots_survive).sound ?_ hs
  intro W h0
  have h0 : Unclaimed (W.1 : World ι) := h0
  exact ⟨⟨h0.wf, h0.slotsInv sem⟩, fun p => Or.inr
    ⟨fun k _ _ => h0.unlocked k, fun _ => h0.fh p, fun _ => h0.inner p⟩⟩

/-- Semaphores refine the arbiter that counts. -/
theorem slots_refine (hcfg : SharedSlots cfg sem) (hquiet : AttributesQuiet cfg) :
    Refines (Arbiter.semaphore sem.maximum) crashOf (slotHolding cfg) (NoneClaimed cfg)
      (Guard.free (crashable cfg)) where
  start := by
    intro W h0
    apply Set.eq_empty_of_forall_notMem
    rintro q ⟨h, -, hlock⟩
    exact hlock (Unclaimed.unlocked h0 h)
  admits := fun hs => by
    obtain ⟨hw, hi⟩ := (slots_hold_crashing hcfg hquiet hs).1
    exact SlotsInv.admits hw hi
  own := fun hs _ hn _ hq => slotHolders_own (slots_hold_crashing hcfg hquiet hs) hn hq

/-- Semaphores whose processes crash: what can be seen of a run is a history of grants and
revocations with at most `maximum` holders at a time; and while fewer have a slot, an idle
instance that has none and is left alone gets one, whoever has crashed with one. -/
theorem semaphore_survives_crashes (hcfg : SharedSlots cfg sem) (hquiet : AttributesQuiet cfg)
    {s : (crashable cfg).State}
    (hs : Reach (NoneClaimed cfg) (Guard.free (crashable cfg)) s) :
    (∃ history, Observed crashOf (slotHolding cfg) (NoneClaimed cfg)
      (Guard.free (crashable cfg)) history s) ∧
    (∀ history, Observed crashOf (slotHolding cfg) (NoneClaimed cfg)
        (Guard.free (crashable cfg)) history s →
      (Arbiter.semaphore sem.maximum).Legal history (slotHolding cfg s.world)) ∧
    ∀ p timeout checkInterval b, s.world.2 p = false → s.thread p = none →
      World.held s.world.1 p = false → (slotHolding cfg s.world).encard < sem.maximum →
      (∃ ls s', OnlyOps p (fun choice => Choice.fault choice = none) ls ∧ s'.thread p = none ∧
        run (.call p (Call.acquire timeout checkInterval b) :: ls) s = some s') ∧
      ∀ ls s', OnlyOps p (fun choice => Choice.fault choice = none) ls → s'.thread p = none →
        run (.call p (Call.acquire timeout checkInterval b) :: ls) s = some s' →
        p ∈ slotHolding cfg s'.world ∧ TookLowest sem p s.world.1 s'.world.1 := by
  have hrefines := slots_refine hcfg hquiet
  refine ⟨hrefines.observed hs, fun history hobserved => hrefines.legal hobserved, ?_⟩
  intro p timeout checkInterval b hlive hthread hheld hfree
  have hhold := slots_hold_crashing hcfg hquiet hs
  obtain ⟨hw, hi⟩ : World.Wf s.world.1 ∧ SlotsInv sem s.world.1 := hhold.1
  have hrest : SlotAtRest p s.world.1 := (hhold.idle hthread).resolve_left (by simp [hlive])
  have hsafe := (acquire_safe hcfg hw hi hrest hheld (hi.heldSlots_lt hfree)
    timeout checkInterval b).after_crashes World.crash hlive
  refine ⟨?_, fun ls s' hops hdone hrun => ?_⟩
  · obtain ⟨ls, s', hops, hrun, hdone, -⟩ := hsafe.call_completes ⟨⟨hw, hi⟩, hlive⟩ hthread
    exact ⟨ls, s', hops, hdone, hrun⟩
  · have htook : TookLowest sem p s.world.1 s'.world.1 :=
      hsafe.call_ends ⟨⟨hw, hi⟩, hlive⟩ hops hrun hdone
    have hw' : World.Wf s'.world.1 := (slots_hold_crashing hcfg hquiet (hs.run hrun)).1.1
    refine ⟨?_, htook⟩
    obtain ⟨-, n, h, -, -, -, hfh, -, hlock⟩ := htook
    exact ⟨h, hw'.fh_owner hfh, by simp [hlock]⟩

end Slots

/-- One instance takes the first slot and crashes. -/
def twoSlots.crashes : List (crashable twoSlots).Label :=
  .call true (.acquire none none none) :: List.replicate 8 (.op true {}) ++ [.event (.inr true)]

/-- The slot is free again: the other instance gets it. -/
theorem semaphore_survives_crashes_run :
    ∃ s s' ls, run twoSlots.crashes ⟨(World.empty, fun _ => false), fun _ => none⟩ = some s ∧
      s.world.2 true = true ∧ run (.call false (Call.acquire none none none) :: ls) s = some s' ∧
      ∃ h, World.fh s'.world.1 false = some h ∧ h.path = "d/s.00.lock".toList ∧
        Fs.lock (World.toFs s'.world.1) h = some .exclusive := by
  let sem : BoundedSemaphore := { maximum := 2, name := ['s'], directory := ['d'] }
  have hcfg : SharedSlots twoSlots sem := fun _ => ⟨sem, rfl, rfl, rfl, rfl⟩
  have hquiet : AttributesQuiet twoSlots := fun _ _ _ h => by simp [twoSlots] at h
  have hobserve : (run twoSlots.crashes ⟨(World.empty, fun _ => false), fun _ => none⟩).map (fun s =>
      (Fs.opened (World.toFs s.world.1), s.world.2 true, s.world.2 false,
        World.held s.world.1 false, (s.thread false).map Prod.fst)) =
      some ([], true, false, false, none) := by rfl
  obtain ⟨s, hrun, hs⟩ := Option.map_eq_some_iff.1 hobserve
  obtain ⟨hopened, hs⟩ := Prod.mk.inj hs
  obtain ⟨hcrashed, hs⟩ := Prod.mk.inj hs
  obtain ⟨hlive, hs⟩ := Prod.mk.inj hs
  obtain ⟨hheld, hthread⟩ := Prod.mk.inj hs
  have hreach : Reach (NoneClaimed twoSlots) (Guard.free (crashable twoSlots)) s :=
    (Reach.start empty_unclaimed).run hrun
  have hw : World.Wf s.world.1 := (slots_hold_crashing hcfg hquiet hreach).1.1
  have hunlocked : ∀ h, Fs.lock (World.toFs s.world.1) h = none := fun h =>
    hw.fs.lock_open (by simp [hopened])
  have hnobody : slotHolding twoSlots s.world = ∅ := by
    apply Set.eq_empty_of_forall_notMem
    rintro q ⟨h, -, hlock⟩
    exact hlock (hunlocked h)
  have hfree : (slotHolding twoSlots s.world).encard < sem.maximum := by
    rw [hnobody, Set.encard_empty]
    decide
  obtain ⟨-, -, hacquires⟩ := semaphore_survives_crashes hcfg hquiet hreach
  obtain ⟨⟨ls, s', hops, hdone, hacquire⟩, htakes⟩ := hacquires false none none none hlive
    (Option.map_eq_none_iff.1 hthread) hheld hfree
  obtain ⟨-, -, n, h, -, -, hbelow, hfh, hpath, hlock⟩ := htakes ls s' hops hdone hacquire
  have hn : n = 0 := by
    apply Nat.eq_zero_of_not_pos
    intro hpos
    obtain ⟨-, k, hlocked, -⟩ := hbelow 0 hpos
    exact hlocked (hunlocked k)
  exact ⟨s, s', ls, hrun, hcrashed, hacquire, h, hfh, hpath.trans (by rw [hn]; rfl), hlock⟩

end Portalocker
