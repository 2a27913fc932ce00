import Portalocker.Utils.Litter
set_option autoImplicit false
set_option linter.unusedSectionVars false

/-!
# Shared and exclusive temporary lock files

`TemporaryFileLock` takes any flags, and each instance unlinks the path when it
releases.  Shared holders have one inode together, so the first of them to
release takes the name away from the others: from then on they hold locks on an
inode that nobody else can find, and the next instance gets one of its own.

The contract says what is left.  As long as no instance unlinks the path while
the handle of another has passed the inode comparison, every holder is locked on
the inode the path names, and an exclusive one is alone.
-/

namespace Portalocker

open Posix Interleaving Interleaving.Machine World Contract

variable {ι : Type} [DecidableEq ι]

/-- The kind of lock the instance takes. -/
def lockMode (cfg : Config ι) (p : ι) : Option LockMode :=
  match cfg.object p with
  | .temporaryFileLock self => self.flags.mode
  | _ => none

/-- All instances are `TemporaryFileLock`s on `path`, with the flags
`EXCLUSIVE | NON_BLOCKING` or `SHARED | NON_BLOCKING`. -/
def AllSharing (cfg : Config ι) (path : Path) : Prop :=
  ∀ p, ∃ self : TemporaryFileLock, cfg.object p = .temporaryFileLock self ∧
    self.filename = path ∧ (self.flags = .lockMethod ∨ self.flags = ⟨false, true, true⟩)

/-- No instance unlinks a path while another's handle on it has passed the inode
comparison and is still locked. -/
def soleUnlinks (cfg : Config ι) : Guard (machine cfg) where
  call := fun _ _ _ => True
  op := fun p _ (o : Op ι) (w : World ι) => ∀ path, o = .unlink path →
    ∀ h, w.confirmed h = true → h.path = path → h.owner = p

/-! ## The contract -/

/-- A confirmed handle is locked on the inode that its path names, and whoever holds
the lock has one. -/
structure Sharing (cfg : Config ι) (w : World ι) : Prop where
  path : ∀ {p h}, w.fh p = some h → (cfg.object p).lockPath = some h.path
  mode : ∀ {h m}, w.lock h = some m → lockMode cfg h.owner = some m
  owns : ∀ {h}, w.confirmed h = true → w.names h.path = some h.ino ∧ w.lock h ≠ none
  held : ∀ {p}, w.held p = true → ∃ h, w.Verified p h

/-- What an instance owes the others, besides the guard. -/
def sharingPre (cfg : Config ι) (p : ι) (w : World ι) : Op ι → Prop
  | .setFh v => (∀ h, w.fh p = some h → v = some h ∨ w.confirmed h = false) ∧
      ∀ h, v = some h → (cfg.object p).lockPath = some h.path
  | .discardLock => False
  | .flock _ flags => flags.mode = lockMode cfg p
  | .unlock h | .close h => w.confirmed h = false
  | .unlink path => (cfg.object p).lockPath = some path
  | .acquired => ∃ h, w.Verified p h
  | _ => True

/-- Between calls an instance stores nothing, or the handle it holds the lock by. -/
def Resting (p : ι) (w : World ι) : Prop :=
  w.fh p = none ∨ ∃ h, w.Verified p h ∧ w.held p = true

section Steps

variable {cfg : Config ι} {w w' : World ι} {p : ι} {g h : Handle ι Path} {o : Op ι}

/-- Where nothing is confirmed that was not, and a confirmed handle keeps its lock and
its name. -/
theorem Sharing.transfer (hi : Sharing cfg w) (hfh : w'.fh = w.fh)
    (hmode : ∀ {h m}, w'.lock h = some m → lockMode cfg h.owner = some m)
    (howns : ∀ {h}, w.confirmed h = true → w'.names h.path = some h.ino ∧ w'.lock h ≠ none)
    (hconf : w'.confirmed = w.confirmed) (hheld : w'.held = w.held) : Sharing cfg w' := by
  constructor
  · rw [hfh]
    exact hi.path
  · exact hmode
  · rw [hconf]
    exact howns
  · intro q hq
    rw [hheld] at hq
    obtain ⟨h, hv⟩ := hi.held hq
    exact ⟨h, by rw [hfh]; exact hv.1, by rw [hconf]; exact hv.2⟩

/-- Giving up the lock of a handle that is not confirmed. -/
theorem Sharing.unlock (hi : Sharing cfg w) (hg : w.confirmed g = false)
    (hfh : w'.fh = w.fh) (hnames : w'.names = w.names)
    (hlock : w'.lock = Function.update w.lock g none)
    (hconf : w'.confirmed = Function.update w.confirmed g false) (hheld : w'.held = w.held) :
    Sharing cfg w' := by
  have hsame : w'.confirmed = w.confirmed := by
    rw [hconf, ← hg]
    exact Function.update_eq_self g w.confirmed
  refine hi.transfer hfh ?_ ?_ hsame hheld
  · intro h m hl
    rw [hlock] at hl
    by_cases hne : h = g
    · simp [hne] at hl
    · exact hi.mode (by simpa [Function.update_of_ne hne] using hl)
  · intro h hc
    have hne : h ≠ g := fun heq => by simp [heq, hg] at hc
    rw [hnames, hlock, Function.update_of_ne hne]
    exact hi.owns hc

/-- One permitted operation that meets the guard. -/
theorem Sharing.change (hw : w.Wf) (hi : Sharing cfg w) (hown : Own p w o)
    (hpre : sharingPre cfg p w o)
    (hsole : ∀ path, o = .unlink path → ∀ h, w.confirmed h = true → h.path = path → h.owner = p)
    (hc : Change cfg p w o w') : Sharing cfg w' := by
  cases hc with
  | same | setAcquiredLock | setAcquireCount | drop | openAt | seek | flush | truncate | write
    | readPidCalled | readPidReturns => exact ⟨hi.path, hi.mode, hi.owns, hi.held⟩
  | openEmptied path i hn => exact absurd rfl hown
  | discardLock => exact hpre.elim
  | setInnerLock b =>
      refine ⟨hi.path, hi.mode, hi.owns, fun {q} hq => ?_⟩
      cases b with
      | true => exact hi.held hq
      | false =>
          by_cases hqp : q = p
          · simp [hqp] at hq
          · exact hi.held (by simpa [Function.update_of_ne hqp] using hq)
  | setFh v =>
      refine ⟨fun {q h} hq => ?_, hi.mode, hi.owns, fun {q} hq => ?_⟩
      · by_cases hqp : q = p
        · subst hqp
          exact hpre.2 h (by simpa using hq)
        · exact hi.path (by simpa [Function.update_of_ne hqp] using hq)
      · obtain ⟨h, hfh, hconf⟩ := hi.held hq
        refine ⟨h, ?_, hconf⟩
        by_cases hqp : q = p
        · subst hqp
          rcases hpre.1 h hfh with rfl | hfalse
          · simp
          · exact absurd (hfalse.symm.trans hconf) (by simp)
        · simpa [Function.update_of_ne hqp] using hfh
  | create path kind i hn hfresh hkind =>
      refine ⟨hi.path, hi.mode, fun {h} hconf => ?_, hi.held⟩
      obtain ⟨hnames, hlock⟩ := hi.owns hconf
      have hne : h.path ≠ path := fun heq => by
        rw [heq, hn] at hnames
        cases hnames
      exact ⟨by simpa [Function.update_of_ne hne] using hnames, hlock⟩
  | lock g flags mode hm ho hconflict =>
      refine hi.transfer rfl ?_ ?_ rfl rfl
      · intro h m hl
        by_cases hne : h = g
        · subst hne
          obtain rfl : mode = m := by simpa using hl
          rw [show h.owner = p from hown, ← hm]
          exact hpre.symm
        · exact hi.mode (by simpa [Function.update_of_ne hne] using hl)
      · intro h hconf
        refine ⟨(hi.owns hconf).1, ?_⟩
        by_cases hne : h = g
        · simp [hne]
        · simpa [Function.update_of_ne hne] using (hi.owns hconf).2
  | unlock g ho => exact hi.unlock hpre rfl rfl rfl rfl rfl
  | close g ho content hcontent => exact hi.unlock hpre rfl rfl rfl rfl rfl
  | compare path i hn =>
      refine ⟨hi.path, hi.mode, fun {h} hconf => ?_, fun {q} hq => ?_⟩
      · simp only [compare_confirmed, Bool.or_eq_true, decide_eq_true_eq] at hconf
        rcases hconf with hconf | ⟨-, rfl, rfl, hl⟩
        · exact hi.owns hconf
        · exact ⟨hn, hl⟩
      · obtain ⟨h, hfh, hconf⟩ := hi.held hq
        exact ⟨h, hfh, by simp [hconf]⟩
  | unlink path i hn =>
      -- whoever else is confirmed, its path is another one
      have hpath : (cfg.object p).lockPath = some path := hpre
      have hkept : ∀ {h : Handle ι Path}, w.confirmed h = true →
          ¬ (h.owner = p ∧ h.path = path) → h.path ≠ path := fun hconf hne heq =>
        hne ⟨hsole path rfl _ hconf heq, heq⟩
      refine ⟨hi.path, hi.mode, fun {h} hconf => ?_, fun {q} hq => ?_⟩
      · simp only [unlink_confirmed, Bool.and_eq_true, Bool.not_eq_true', Bool.and_eq_false_iff,
          decide_eq_false_iff_not] at hconf
        have hne := hkept hconf.1 fun h => hconf.2.elim (· h.1) (· h.2)
        exact ⟨by simpa [Function.update_of_ne hne] using (hi.owns hconf.1).1, (hi.owns hconf.1).2⟩
      · simp only [unlink_held, hpath, decide_true, if_true] at hq
        have hqp : q ≠ p := fun heq => by simp [heq] at hq
        obtain ⟨h, hfh, hconf⟩ := hi.held (by simpa [Function.update_of_ne hqp] using hq)
        exact ⟨h, hfh, by simp [hconf, hw.fh_owner hfh, hqp]⟩
  | acquired =>
      refine ⟨hi.path, hi.mode, hi.owns, fun {q} hq => ?_⟩
      by_cases hqp : q = p
      · subst hqp
        exact hpre
      · exact hi.held (by simpa [Function.update_of_ne hqp] using hq)

/-- Finalizing a dropped file object takes no confirmed handle of a holder away. -/
theorem Sharing.finalize {e : Finalize ι} (hw : w.Wf) (hi : Sharing cfg w)
    (he : Config.finalize e w = some w') : Sharing cfg w' := by
  obtain ⟨-, hd, rfl⟩ := Config.finalize_cases he
  refine ⟨hi.path, fun {h m} hl => ?_, fun {h} hc => ?_, fun {q} hq => ?_⟩
  · by_cases hne : h = e.handle
    · simp [hne] at hl
    · exact hi.mode (by simpa [Function.update_of_ne hne] using hl)
  · have hne : h ≠ e.handle := fun heq => by simp [heq] at hc
    simpa [Function.update_of_ne hne] using
      hi.owns (by simpa [Function.update_of_ne hne] using hc)
  · obtain ⟨h, hfh, hconf⟩ := hi.held hq
    have hne : h ≠ e.handle := fun heq => by
      have := hw.fh_dropped hfh
      rw [heq, hd] at this
      cases this
    exact ⟨h, hfh, by simpa [Function.update_of_ne hne] using hconf⟩

end Steps

/-- The contract of `TemporaryFileLock`s with shared and exclusive flags. -/
def sharingContract (cfg : Config ι) : Contract cfg (soleUnlinks cfg) where
  inv := Sharing cfg
  rely _ _ _ := True
  pre p _ := sharingPre cfg p
  idle := Resting
  rely_refl _ _ := trivial
  rely_trans := fun _ _ _ => trivial
  inv_change := fun hw hi hown hpre hg hc => hi.change hw hown hpre hg hc
  rely_change := fun _ _ _ _ _ _ _ _ => trivial
  inv_finalize := fun hw hi he => hi.finalize hw he
  rely_finalize := fun _ _ _ _ => trivial
  idle_stable := by
    rintro p w w' hw - - hu - (hnone | ⟨h, hv, hheld⟩)
    · exact Or.inl (hu.fh.trans hnone)
    · exact Or.inr ⟨h, verified_stable hw hu hv, hu.held.trans hheld⟩

/-! ## Single operations -/

section Triples

variable {cfg : Config ι} {path : Path} {p : ι} {c : Call} {m : LockMode}

/-- A triple under this contract. -/
abbrev SharingTriple (cfg : Config ι) (p : ι) (c : Call) {α : Type} (P : World ι → Prop)
    (x : Py ι α) (Q : α → World ι → Prop) (E : Exc → World ι → Prop) : Prop :=
  (sharingContract cfg).Triple p c P x Q E

/-- A new handle that has not been compared. -/
def Untested (p : ι) (path : Path) (h : Handle ι Path) (w : World ι) : Prop :=
  Fresh p path h w ∧ w.confirmed h = false

/-- The same, locked. -/
def Unverified (p : ι) (path : Path) (m : LockMode) (h : Handle ι Path) (w : World ι) : Prop :=
  Untested p path h w ∧ LockIs p h (some m) w

/-- The stored handle is locked. -/
def Occupied (p : ι) (m : LockMode) (h : Handle ι Path) (w : World ι) : Prop :=
  w.fh p = some h ∧ LockIs p h (some m) w

/-- A new handle has been closed, and nothing is stored. -/
def Withdrawn (p : ι) (h : Handle ι Path) (w : World ι) : Prop := w.fh p = none ∧ Closed p h w

instance stable_resting : ((sharingContract cfg).ctx p c).Stable (Resting p) :=
  inferInstanceAs (Context.Stable _ ((sharingContract cfg).idle p))

instance stable_untested (h : Handle ι Path) :
    ((sharingContract cfg).ctx p c).Stable (Untested p path h) :=
  stable_of fun _ _ _ hu _ ⟨hs, hconf⟩ =>
    ⟨⟨hu.fh.trans hs.1, hs.2.1.keep hu, hs.2.2.1, hu.serial ▸ hs.2.2.2⟩,
      (hu.handle h hs.2.1.1 hs.2.1.2.1).confirmed.trans hconf⟩

instance stable_unverified (h : Handle ι Path) :
    ((sharingContract cfg).ctx p c).Stable (Unverified p path m h) :=
  inferInstanceAs (Context.Stable _ fun _ => _ ∧ _)

instance stable_occupied (h : Handle ι Path) :
    ((sharingContract cfg).ctx p c).Stable (Occupied p m h) :=
  inferInstanceAs (Context.Stable _ fun _ => _ ∧ _)

instance stable_withdrawn (h : Handle ι Path) :
    ((sharingContract cfg).ctx p c).Stable (Withdrawn p h) :=
  inferInstanceAs (Context.Stable _ fun _ => _ ∧ _)

instance stable_compares (h : Handle ι Path) (b : Bool) :
    ((sharingContract cfg).ctx p c).Stable (Compared p h b) := by
  cases b
  · exact stable_unconfirmed h
  · exact stable_verified h

variable (hfaultless : Faultless cfg) {E : Exc → World ι → Prop}
  [∀ e, ((sharingContract cfg).ctx p c).Stable (E e)]
include hfaultless

/-- Opening the lock file. -/
theorem openLock_sharing :
    SharingTriple cfg p c (fun w => w.fh p = none) (perform (.openFile path .append))
      (Untested p path) E := by
  refine faultless_rule hfaultless (fun _ _ _ _ => ⟨by simp [Own], trivial⟩) ?_
  intro w choice r w' hw hi hfh hact
  have huntested : ∀ i (w₁ : World ι), w₁.serial = w.serial → w₁.dropped = w.dropped →
      w₁.fh = w.fh → w₁.confirmed = w.confirmed →
      Untested p path (w₁.handle p path i) (w₁.openAt p path i) := by
    intro i w₁ hserial hdropped hfh₁ hconf
    have hsame : w₁.handle p path i = w.handle p path i := by simp [Fs.handle, hserial]
    have hundropped : w.dropped (w.handle p path i) = false :=
      Bool.eq_false_iff.2 fun hd => absurd (hw.dropped_serial hd) (by simp)
    -- a confirmed handle is locked, and so it is open
    have hunconfirmed : w.confirmed (w.handle p path i) = false := by
      refine Bool.eq_false_iff.2 fun h => ?_
      exact (hi.owns h).2 (hw.fs.lock_open hw.fs.handle_not_mem)
    refine ⟨⟨by rw [openAt_fh, hfh₁, hfh], ⟨rfl, ?_, by simp⟩, rfl, by simp⟩, ?_⟩
    · rw [openAt_dropped, hdropped, hsame]
      exact hundropped
    · rw [openAt_confirmed, hconf, hsame]
      exact hunconfirmed
  simp only [Config.act] at hact
  split at hact
  · simp only [Option.some.injEq, Prod.mk.injEq] at hact
    obtain ⟨rfl, rfl⟩ := hact
    exact huntested _ w rfl rfl rfl rfl
  · simp only [Option.ite_none_right_eq_some, Option.some.injEq, Prod.mk.injEq] at hact
    obtain ⟨-, rfl, rfl⟩ := hact
    exact huntested _ _ rfl rfl rfl rfl

/-- The lock call of an instance with the flags `flags`. -/
theorem flock_sharing {flags : LockFlags} (hmode : flags.mode = some m)
    (hobject : lockMode cfg p = some m) (h : Handle ι Path) :
    SharingTriple cfg p c (Untested p path h) (perform (.flock h flags))
      (fun _ => Unverified p path m h) (fun e w => e = .osError .EAGAIN ∧ Untested p path h w) := by
  refine faultless_rule hfaultless
    (fun w _ _ hs => ⟨hs.1.2.1.1, hmode.trans hobject.symm⟩) ?_
  intro w choice r w' _ _ hs hact
  obtain ⟨ho, hd, hopen⟩ := hs.1.2.1
  simp only [Config.act, Config.onOpen, if_pos hopen, hmode] at hact
  split at hact
  · simp only [Option.ite_none_right_eq_some, Option.some.injEq, Prod.mk.injEq] at hact
    obtain ⟨-, rfl, rfl⟩ := hact
    exact ⟨rfl, hs⟩
  · simp only [Option.some.injEq, Prod.mk.injEq] at hact
    obtain ⟨rfl, rfl⟩ := hact
    exact ⟨hs, ho, hd, by simp⟩

/-- Closing a handle that has been refused. -/
theorem closeUntested_sharing (h : Handle ι Path) :
    SharingTriple cfg p c (Untested p path h) (perform (.close h)) (fun _ => Withdrawn p h) E := by
  refine faultless_rule hfaultless (fun w _ _ hs => ⟨hs.1.2.1.1, hs.2⟩) ?_
  intro w choice r w' _ _ hs hact
  obtain ⟨ho, hd, hopen⟩ := hs.1.2.1
  simp only [Config.act, if_pos hopen, Option.some.injEq, Prod.mk.injEq] at hact
  obtain ⟨rfl, rfl⟩ := hact
  exact ⟨hs.1.1, ho, hd, hs.1.2.2.2, by simp⟩

/-- Emptying the file once it is locked. -/
theorem prepareFh_sharing (self : Lock) (h : Handle ι Path) :
    SharingTriple cfg p c (Unverified p path m h) (self.prepareFh h)
      (fun _ => Unverified p path m h) E := by
  have hstep : ∀ {o : Op ι}, o = .seek h ∨ o = .truncate h →
      SharingTriple cfg p c (Unverified p path m h) (perform o) (fun _ => Unverified p path m h)
        E := by
    intro o ho
    rcases ho with rfl | rfl
    all_goals
      refine faultless_rule hfaultless (fun w _ _ hs => ⟨hs.2.1, trivial⟩) ?_
      intro w choice r w' _ _ hs hact
      simp only [Config.act, Config.onOpen, if_pos hs.1.1.2.1.2.2, Option.some.injEq,
        Prod.mk.injEq] at hact
      obtain ⟨rfl, rfl⟩ := hact
      exact hs
  unfold Lock.prepareFh
  split
  · exact Hoare.bind (hstep (Or.inl rfl)) fun _ => hstep (Or.inr rfl)
  · exact Hoare.pure fun _ _ hs => hs

theorem setFh_sharing (hpath : (cfg.object p).lockPath = some path) (h : Handle ι Path) :
    SharingTriple cfg p c (Unverified p path m h) (perform (.setFh (some h)))
      (fun _ => Occupied p m h) E := by
  refine faultless_rule hfaultless ?_ ?_
  · rintro w - - ⟨⟨⟨hfh, ⟨ho, hd, hopen⟩, hname, -⟩, -⟩, -⟩
    refine ⟨fun k hk => ?_, fun k hk => by simp [hfh] at hk, fun k hk => ?_⟩
    · exact Option.some.inj hk ▸ ⟨ho, hopen, hd⟩
    · rw [← Option.some.inj hk, hname]
      exact hpath
  · rintro w choice r w' - - ⟨-, hlock⟩ hact
    simp only [Config.act, Option.some.injEq, Prod.mk.injEq] at hact
    obtain ⟨rfl, rfl⟩ := hact
    exact ⟨by simp, hlock⟩

theorem drop_sharing (h : Handle ι Path) :
    SharingTriple cfg p c (Withdrawn p h) (perform (.drop h)) (fun _ w => w.fh p = none) E := by
  refine faultless_rule hfaultless ?_ ?_
  · rintro w - - ⟨hfh, ho, -, hserial, -⟩
    exact ⟨⟨ho, hserial, by simp [hfh]⟩, trivial⟩
  · rintro w choice r w' - - ⟨hfh, -⟩ hact
    simp only [Config.act, Option.some.injEq, Prod.mk.injEq] at hact
    obtain ⟨rfl, rfl⟩ := hact
    exact hfh

theorem fstat_sharing (h : Handle ι Path) :
    SharingTriple cfg p c (Occupied p m h) (perform (.fstat h))
      (fun i w => i = h.ino ∧ Occupied p m h w) E := by
  refine faultless_rule hfaultless (fun w _ _ _ => ⟨trivial, trivial⟩) ?_
  intro w choice r w' hw _ hs hact
  have hopen := hw.fs.opened_of_lock hs.2.2.2
  simp only [Config.act, Config.onOpen, if_pos hopen, Option.some.injEq, Prod.mk.injEq] at hact
  obtain ⟨rfl, rfl⟩ := hact
  exact ⟨rfl, hs⟩

/-- `os.stat` of the path confirms the stored handle, or shows that it is not. -/
theorem stat_sharing (hpath : (cfg.object p).lockPath = some path) (h : Handle ι Path) :
    SharingTriple cfg p c (Occupied p m h) (perform (.stat path))
      (fun i => Compared p h (h.ino == i))
      (fun e w => e = .osError .ENOENT ∧ Compared p h false w) := by
  refine faultless_rule hfaultless (fun w _ _ _ => ⟨trivial, trivial⟩) ?_
  rintro w choice r w' - hi ⟨hfh, hlock⟩ hact
  have hname : h.path = path := Option.some.inj ((hi.path hfh).symm.trans hpath)
  have hunconfirmed : w.names path ≠ some h.ino → w.confirmed h = false := fun hne =>
    Bool.eq_false_iff.2 fun hconf => hne (hname ▸ (hi.owns hconf).1)
  simp only [Config.act] at hact
  split at hact
  · rename_i i hn
    simp only [Option.some.injEq, Prod.mk.injEq] at hact
    obtain ⟨rfl, rfl⟩ := hact
    change Compared p h (h.ino == i) (w.compare p path i)
    by_cases hino : h.ino = i
    · have hmatch : w.Matches p path i h := ⟨hfh, hname, hino, by simp [hlock.2.2]⟩
      rw [beq_iff_eq.2 hino]
      exact ⟨hfh, by simp [hmatch]⟩
    · have hconf := hunconfirmed fun heq => hino (Option.some.inj (hn.symm.trans heq)).symm
      have hmatch : ¬ w.Matches p path i h := fun hm => hino hm.2.2.1
      rw [beq_eq_false_iff_ne.2 hino]
      exact ⟨hfh, by simp [hmatch, hconf]⟩
  · rename_i hn
    simp only [Option.some.injEq, Prod.mk.injEq] at hact
    obtain ⟨rfl, rfl⟩ := hact
    exact ⟨rfl, hfh, hunconfirmed (by simp [hn])⟩

/-- `acquire` is about to return. -/
theorem acquired_sharing (h : Handle ι Path) :
    SharingTriple cfg p c (fun w => w.Verified p h) (perform .acquired) (fun _ => Resting p) E := by
  refine faultless_rule hfaultless (fun w _ _ hs => ⟨trivial, h, hs⟩) ?_
  intro w choice r w' _ _ hs hact
  simp only [Config.act, Option.some.injEq, Prod.mk.injEq] at hact
  obtain ⟨rfl, rfl⟩ := hact
  exact Or.inr ⟨h, hs, Function.update_self ..⟩

/-- `os.unlink` of the path by an instance that holds the lock. -/
theorem unlinkIfPresent_sharing (hpath : (cfg.object p).lockPath = some path)
    (h : Handle ι Path) :
    SharingTriple cfg p c (fun w => w.Verified p h) (unlinkIfPresent path)
      (fun _ => Unconfirmed p h) (fun _ _ => False) := by
  refine Hoare.suppress (F := fun _ _ => False)
    (faultless_rule hfaultless (fun w _ _ _ => ⟨trivial, hpath⟩) ?_) (fun _ _ _ _ hf => hf.elim)
    fun _ _ _ _ hf => hf
  rintro w choice r w' hw hi ⟨hfh, hconf⟩ hact
  have hname : h.path = path := Option.some.inj ((hi.path hfh).symm.trans hpath)
  have hn : w.names path = some h.ino := hname ▸ (hi.owns hconf).1
  simp only [Config.act, hn, Option.some.injEq, Prod.mk.injEq] at hact
  obtain ⟨rfl, rfl⟩ := hact
  exact ⟨hfh, by simp [hname, hw.fh_owner hfh]⟩

/-! ## The code -/

section Code

variable {self : Lock}

/-- `acquire` with a handle it has just opened. -/
theorem acquireOpened_sharing (hmode : self.flags.mode = some m)
    (hobject : lockMode cfg p = some m) (hpath : (cfg.object p).lockPath = some path)
    (timeout checkInterval : Rat) (b : Bool) (h : Handle ι Path) :
    SharingTriple cfg p c (Untested p path h) (self.acquireOpened timeout checkInterval b h)
      (Occupied p m) (fun _ w => w.fh p = none) := by
  refine acquireOpened_rule (N := Untested p path h) (L := Unverified p path m h)
    (T := fun e w => e.isException = true ∧ Untested p path h w) (G := fun _ => Withdrawn p h)
    (D := fun _ => Withdrawn p h) ?_ ?_ (fun _ _ _ _ _ hs => hs) ?_ (fun _ _ _ _ ht => ht.2)
    (fun _ _ => pause_faultless hfaultless (Or.inl ⟨_, rfl⟩) fun _ => trivial)
    (fun _ _ _ => pause_faultless hfaultless (Or.inr ⟨_, _, rfl⟩) fun _ => trivial)
    (prepareFh_sharing hfaultless self h) (setFh_sharing hfaultless hpath h)
    fun _ => drop_sharing hfaultless h
  · refine posixLock_flags_rule (flock_sharing hfaultless hmode hobject h) ?_ fun _ _ hs => ⟨rfl,
      hs⟩
    rintro e w - ⟨rfl, hs⟩
    exact ⟨rfl, hs⟩
  · exact fun e => (closeUntested_sharing hfaultless h).of_pre fun _ _ hs => hs.2
  · exact fun e w _ he hs => absurd (he.symm.trans hs.1) (by simp)

/-- Reading the handle between two calls. -/
theorem current_sharing :
    SharingTriple cfg p c (Resting p) (perform .fh)
      (fun v => (v.elim (fun w => w.fh p = none) fun h w => w.Verified p h : World ι → Prop)) E := by
  refine (fh_faultless hfaultless fun _ => trivial).of_post ?_
  rintro v w - ⟨rfl, hnone | ⟨h, hv, -⟩⟩
  · rw [hnone]
    exact hnone
  · rw [hv.1]
    exact hv

/-- `Lock.acquire`. -/
theorem lockAcquire_sharing (hflags : self.flags.mode = some m) (hobject : lockMode cfg p = some m)
    (hmode : openKind self.mode = some .append)
    (hpath : (cfg.object p).lockPath = some self.filename) (timeout checkInterval : Option Rat)
    (b : Option Bool) :
    SharingTriple cfg p c (Resting p) (self.acquire timeout checkInterval b) (Occupied p m)
      (fun _ w => w.fh p = none) := by
  refine lockAcquire_rule (Z := fun w => w.fh p = none) (N := Untested p self.filename) hmode ?_
    (openLock_sharing hfaultless)
    fun h => acquireOpened_sharing hfaultless hflags hobject hpath _ _ _ h
  refine (current_sharing hfaultless).of_post ?_
  rintro (_ | h) w hw hs
  · exact hs
  · -- the lock of a confirmed handle is of the instance's own kind
    obtain ⟨m', hm'⟩ := Option.ne_none_iff_exists'.1 (hw.2.owns hs.2).2
    have hown := hw.2.mode hm'
    rw [hw.1.fh_owner hs.1, hobject] at hown
    exact ⟨hs.1, hw.1.fh_owner hs.1, hw.1.fh_dropped hs.1, hm'.trans hown.symm⟩

/-- `Lock.release` of a handle that is not confirmed. -/
theorem lockRelease_sharing (hself : self.raiseOnReleaseError = false) (h : Handle ι Path) :
    SharingTriple cfg p c (Unconfirmed p h) self.release (fun _ w => w.fh p = none) E := by
  refine release_rule (C := (sharingContract cfg).ctx p c) (I := fun _ => False)
    (Z := fun w => w.fh p = none) (R := Unconfirmed p)
    (U := Unconfirmed p) (V := Unconfirmed p) ?_ ?_ ?_ ?_
    (fun h => absurd (hself.symm.trans h) (by simp)) fun _ _ _ hf => hf.elim
  · refine (fh_faultless hfaultless fun _ => trivial).of_post ?_
    rintro v w - ⟨hfh, hs⟩
    obtain rfl : some h = v := hs.1.symm.trans hfh
    exact hs
  · intro k
    refine faultless_rule hfaultless (fun w hw _ hs => ⟨hw.fh_owner hs.1, hs.2⟩) ?_
    intro w choice r w' _ _ hs hact
    simp only [Config.act] at hact
    rcases Config.onOpen_cases hact with ⟨-, hact⟩ | ⟨rfl, rfl⟩
    · simp only [Option.some.injEq, Prod.mk.injEq] at hact
      obtain ⟨rfl, rfl⟩ := hact
      exact ⟨hs.1, by simp⟩
    · exact hs
  · intro k
    refine faultless_rule hfaultless (fun w hw _ hs => ⟨hw.fh_owner hs.1, hs.2⟩) ?_
    intro w choice r w' _ _ hs hact
    simp only [Config.act] at hact
    split at hact
    · simp only [Option.some.injEq, Prod.mk.injEq] at hact
      obtain ⟨rfl, rfl⟩ := hact
      exact ⟨hs.1, by simp⟩
    · simp only [Option.some.injEq, Prod.mk.injEq] at hact
      obtain ⟨rfl, rfl⟩ := hact
      exact hs
  · intro k
    refine faultless_rule hfaultless ?_ ?_
    · rintro w - - ⟨hfh, hconf⟩
      refine ⟨fun l hl => by simp at hl, fun l hl => Or.inr ?_, fun l hl => by simp at hl⟩
      obtain rfl : k = l := Option.some.inj (hfh.symm.trans hl)
      exact hconf
    · intro w choice r w' _ _ _ hact
      simp only [Config.act, Option.some.injEq, Prod.mk.injEq] at hact
      obtain ⟨rfl, rfl⟩ := hact
      exact Function.update_self ..

end Code

section Calls

variable {self : TemporaryFileLock} (hflags : self.flags.mode = some m)
  (hobject : cfg.object p = .temporaryFileLock self)
include hflags hobject

theorem TemporaryFileLock.acquire_sharing (timeout checkInterval : Option Rat) (b : Option Bool) :
    SharingTriple cfg p c (Resting p) (self.acquire timeout checkInterval b)
      (fun _ => Resting p) (fun _ => Resting p) := by
  have hpath : (cfg.object p).lockPath = some self.toLock.filename := by rw [hobject]; rfl
  have hmode : lockMode cfg p = some m := by rw [lockMode, hobject]; exact hflags
  have hverified : SharingTriple cfg p c (Resting p)
      (TemporaryFileLock.acquireVerified self.toLock self.toLock.filename timeout checkInterval b)
      (fun h w => w.Verified p h) (fun _ w => w.fh p = none) :=
    acquireVerified_rule (Z := fun w => w.fh p = none) (M := Compared p)
      (lockAcquire_sharing hfaultless hflags hmode rfl hpath timeout checkInterval b)
      (fun h => fhMatchesPath_rule (S := Occupied p m) (fstat_sharing hfaultless h)
        (stat_sharing hfaultless hpath h))
      (fun h => lockRelease_sharing hfaultless rfl h) (fun _ _ hs => Or.inl hs) (fun _ _ hs => hs)
      (fun _ => pause_faultless hfaultless (Or.inl ⟨_, rfl⟩) fun _ => trivial)
      fun _ _ => pause_faultless hfaultless (Or.inr ⟨_, _, rfl⟩) fun _ => trivial
  refine Hoare.bind (hverified.conseq (fun _ _ hs => hs) (fun _ _ _ hs => hs)
    fun _ _ _ hs => Or.inl hs) fun h => ?_
  exact Hoare.bind (acquired_sharing hfaultless h) fun _ => Hoare.pure fun _ _ hs => hs

omit hflags in
theorem TemporaryFileLock.release_sharing :
    SharingTriple cfg p c (Resting p) self.release (fun _ => Resting p) (fun _ => Resting p) := by
  have hpath : (cfg.object p).lockPath = some self.filename := by rw [hobject]; rfl
  have hrelease : SharingTriple cfg p c (Resting p) self.release (fun _ w => w.fh p = none)
      (fun _ => Resting p) := by
    refine temporaryRelease_rule (C := (sharingContract cfg).ctx p c) (Z := fun w => w.fh p = none)
      (U := Unconfirmed p) (F := fun _ _ => False) (current_sharing hfaultless)
      (fun h => unlinkIfPresent_sharing hfaultless hpath h)
      (fun h => lockRelease_sharing hfaultless rfl h) fun e => ?_
    exact Hoare.of_false fun _ _ hf => hf
  exact hrelease.of_post fun _ _ _ hs => Or.inl hs

end Calls

end Triples

/-! ## Whole runs -/

/-- An instance that holds its lock exclusively is the only one that holds. -/
def ExclusiveAlone (cfg : Config ι) (w : World ι) : Prop :=
  ∀ p q, lockMode cfg p = some .exclusive → w.held p = true → w.held q = true → p = q

section Runs

variable {cfg : Config ι} {path : Path}

theorem AllSharing.lockPath (hcfg : AllSharing cfg path) (p : ι) :
    (cfg.object p).lockPath = some path := by
  obtain ⟨self, hobject, hname, -⟩ := hcfg p
  rw [hobject, ← hname]
  rfl

/-- Every call keeps the contract. -/
theorem sharing_verified (hcfg : AllSharing cfg path) (hfaultless : Faultless cfg) :
    (sharingContract cfg).toDiscipline.Verified := by
  intro p (c : Call) w hw hidle _
  have hstable : ((sharingContract cfg).ctx p c).Stable (Resting p) := inferInstance
  obtain ⟨self, hobject, -, hflags⟩ := hcfg p
  obtain ⟨m, hm⟩ : ∃ m, self.flags.mode = some m := by
    rcases hflags with hflags | hflags <;> rw [hflags]
    · exact ⟨_, rfl⟩
    · exact ⟨_, rfl⟩
  simp only [machine, hobject]
  cases c with
  | acquire timeout checkInterval failWhenLocked =>
      exact Hoare.toCall hstable
        (TemporaryFileLock.acquire_sharing hfaultless hm hobject _ _ _) hw hidle
  | enter =>
      exact Hoare.toCall hstable
        (TemporaryFileLock.acquire_sharing hfaultless hm hobject _ _ _) hw hidle
  | release | exit =>
      exact Hoare.toCall hstable (TemporaryFileLock.release_sharing hfaultless hobject) hw hidle
  | readPid | write | flush => exact fun w' hw' hr => hstable.keep hw hw' hr hidle

/-- In every run that meets the condition the contract is kept. -/
theorem sharing_reachable (hcfg : AllSharing cfg path) (hfaultless : Faultless cfg)
    {s : (machine cfg).State} (hs : Reach Pristine (soleUnlinks cfg) s) :
    (files s).Wf ∧ Sharing cfg (files s) := by
  have hholds : (sharingContract cfg).toDiscipline.Holds s := by
    refine (sharing_verified hcfg hfaultless).sound (fun w h0 => ⟨⟨h0.wf, ?_⟩, ?_⟩) hs
    · refine ⟨fun hk => by simp [h0.fh] at hk, fun {h m} hl => ?_, fun hc => ?_, fun hq => ?_⟩
      · simpa [h0.opened] using h0.wf.fs.opened_of_lock hl
      · simp [h0.confirmed] at hc
      · simp [h0.held] at hq
    · exact fun p => Or.inl (h0.fh p)
  exact hholds.1

/-- In every run in which no instance unlinks the path while the handle of another has
passed the inode comparison, an exclusive holder is alone. -/
theorem exclusive_holder_alone (hcfg : AllSharing cfg path) (hfaultless : Faultless cfg)
    {s : (machine cfg).State} (hs : Reach Pristine (soleUnlinks cfg) s) :
    ExclusiveAlone cfg (files s) := by
  obtain ⟨hw, hi⟩ := sharing_reachable hcfg hfaultless hs
  intro p q hmode hp hq
  obtain ⟨h, hfh, hconf⟩ := hi.held hp
  obtain ⟨k, hfk, hconfk⟩ := hi.held hq
  obtain ⟨hnames, hlock⟩ := hi.owns hconf
  obtain ⟨hnamesk, hlockk⟩ := hi.owns hconfk
  -- both handles are on the inode that the one path names
  have hpath : h.path = k.path := by
    have := (hi.path hfh).symm.trans ((hcfg.lockPath p).trans ((hcfg.lockPath q).symm.trans
      (hi.path hfk)))
    exact Option.some.inj this
  have hino : k.ino = h.ino := Option.some.inj (hnamesk.symm.trans (hpath ▸ hnames))
  have hexclusive : (files s).lock h = some .exclusive := by
    obtain ⟨m, hm⟩ := Option.ne_none_iff_exists'.1 hlock
    have hown := hi.mode hm
    rw [hw.fh_owner hfh, hmode] at hown
    rw [hm, ← hown]
  have hsame : k = h := hw.fs.lock_exclusive hino hexclusive hlockk
  rw [← hw.fh_owner hfh, ← hw.fh_owner hfk, hsame]

end Runs

/-- Two readers and a writer. -/
inductive SharedParty
  | first
  | second
  | writer
  deriving DecidableEq

/-- Both readers take a shared lock, the writer an exclusive one. -/
def sharedPair : Config SharedParty where
  object
    | .writer => .temporaryFileLock { filename := ['f'] }
    | _ => .temporaryFileLock { filename := ['f'], flags := ⟨false, true, true⟩ }
  mayRaise _ _ _ := false

theorem sharedPair_all : AllSharing sharedPair ['f'] := by
  intro p
  cases p
  · exact ⟨_, rfl, rfl, Or.inr rfl⟩
  · exact ⟨_, rfl, rfl, Or.inr rfl⟩
  · exact ⟨_, rfl, rfl, Or.inl rfl⟩

/-- Both readers acquire, the first releases, and the writer acquires. -/
def sharedPair.split : List (machine sharedPair).Label :=
  .call .first .enter :: List.replicate 9 (.op .first {}) ++
    .call .second .enter :: List.replicate 9 (.op .second {}) ++
    .call .first .release :: List.replicate 6 (.op .first {}) ++
    .call .writer .enter :: List.replicate 9 (.op .writer { ino := 1 })

/-- The first reader acquires and releases, then the writer acquires, and the second reader
is refused. -/
def sharedPair.inTurn : List (machine sharedPair).Label :=
  .call .first .enter :: List.replicate 9 (.op .first {}) ++
    .call .first .release :: List.replicate 6 (.op .first {}) ++
    .call .writer .enter :: List.replicate 9 (.op .writer { ino := 1 }) ++
    .call .second .enter :: List.replicate 5 (.op .second {})

/-- A path is unlinked only while no other instance has a confirmed handle on it. -/
def sharedPair.alone (p : SharedParty) (o : Op SharedParty) (w : World SharedParty) : Bool :=
  match o with
  | .unlink path =>
      w.opened.all fun h => !(w.confirmed h && decide (h.path = path)) || decide (h.owner = p)
  | _ => true

/-- A run that meets the condition and unlinks the path: the writer is the only holder. -/
theorem exclusive_holder_alone_run :
    ∃ s, runChecked (M := machine sharedPair) sharedPair.alone sharedPair.inTurn
        ⟨World.empty, fun _ => none⟩ = some s ∧
      (files s).held .writer = true ∧ ∀ q, (files s).held q = true → .writer = q := by
  have hobserve : (runChecked (M := machine sharedPair) sharedPair.alone
      sharedPair.inTurn ⟨World.empty, fun _ => none⟩).map
      (fun s => (files s).held .writer) = some true := by rfl
  obtain ⟨s, hrun, hheld⟩ := Option.map_eq_some_iff.1 hobserve
  have hreach : Reach Pristine (soleUnlinks sharedPair) s := by
    refine Reach.checked_reachable (fun _ _ _ => trivial) ?_ (.start empty_pristine) hrun
    rintro p c o s hs hcheck path rfl h hconf hpath
    obtain ⟨hw, hi⟩ := sharing_reachable sharedPair_all (fun _ _ _ => rfl) hs
    obtain ⟨m, hm⟩ := Option.ne_none_iff_exists'.1 (hi.owns hconf).2
    have halone := List.all_eq_true.1 hcheck h (hw.fs.opened_of_lock hm)
    have hconf : (s.world : World SharedParty).confirmed h = true := hconf
    simpa [hconf, hpath] using halone
  have halone := exclusive_holder_alone sharedPair_all (fun _ _ _ => rfl) hreach
  exact ⟨s, hrun, hheld, fun q hq => halone .writer q rfl hheld hq⟩

/-- Without the condition: the first reader's release takes the path away from the
second, and the writer acquires next to it. -/
theorem shared_release_splits :
    AllSharing sharedPair ['f'] ∧ Faultless sharedPair ∧
    ¬ ∀ s : (machine sharedPair).State, Reach Pristine (Guard.free (machine sharedPair)) s →
      (∀ p, s.thread p = none) → ExclusiveAlone sharedPair (files s) := by
  refine ⟨sharedPair_all, fun _ _ _ => rfl, fun hclaim => ?_⟩
  have hobserve : (run sharedPair.split
      (⟨World.empty, fun _ => none⟩ : (machine sharedPair).State)).map (fun s =>
        ((s.thread .first).isNone && (s.thread .second).isNone && (s.thread .writer).isNone,
          (files s).held .second && (files s).held .writer)) = some (true, true) := by rfl
  obtain ⟨s, hrun, hs⟩ := Option.map_eq_some_iff.1 hobserve
  obtain ⟨hdone, hheld⟩ := Prod.mk.inj hs
  simp only [Bool.and_eq_true, Option.isNone_iff_eq_none] at hdone hheld
  have hidle : ∀ p, s.thread p = none := fun p => by
    cases p
    · exact hdone.1.1
    · exact hdone.1.2
    · exact hdone.2
  have halone := hclaim s ((Reach.start empty_pristine).run hrun) hidle
  have hsame := halone .writer .second rfl hheld.2 hheld.1
  cases hsame

end Portalocker
