import Portalocker.Utils.Contention
import Portalocker.Utils.Exclusion
set_option autoImplicit false
set_option linter.unusedSectionVars false

/-!
# Acquiring what is already held

`Lock.acquire` looks at the stored handle first, and so a `Lock` or a
`TemporaryFileLock` that is acquired again keeps its lock, whatever else the call runs
into; the release that follows removes the file, if it is a temporary one, before it lets
go of it.  A `PidFileLock` overwrites its inner lock instead: its lock is gone when the
overwritten object is finalized, and can be released by nobody while it is not.
-/

namespace Portalocker

open Posix Interleaving Interleaving.Machine World Contract

variable {ι : Type} [DecidableEq ι]

/-- The instance is a `TemporaryFileLock`. -/
def IsTemporary (cfg : Config ι) (p : ι) : Prop :=
  ∃ self : TemporaryFileLock, cfg.object p = .temporaryFileLock self

/-- The instance's current handle is locked and, if the file is a temporary one, has
passed the inode comparison. -/
def Holding (cfg : Config ι) (p : ι) (h : Handle ι Path) (m : LockMode) (w : World ι) : Prop :=
  w.fh p = some h ∧ w.lock h = some m ∧ (IsTemporary cfg p → w.confirmed h = true)

/-- `os.fstat` and `os.stat` find the files that are there. -/
def StatsSee (cfg : Config ι) : Prop :=
  ∀ c (o : Op ι), ((∃ h, o = .fstat h) ∨ ∃ path, o = .stat path) →
    cfg.mayRaise c o (.osError .ENOENT) = false

/-- Nothing fails in a `release`. -/
def ReleaseSucceeds (cfg : Config ι) : Prop := ∀ o e, cfg.mayRaise .release o e = false

/-! ## The call that acquires again -/

/-- The operations with which an instance looks at what it has. -/
def Looks : Op ι → Prop
  | .fh | .fstat _ | .stat _ | .acquired => True
  | _ => False

section Holding

variable {cfg : Config ι} {p : ι} {h : Handle ι Path} {m : LockMode} {w w' : World ι} {o : Op ι}

theorem Holding.kept (hw : w.Wf) (hu : Undisturbed p w w') (hh : Holding cfg p h m w) :
    Holding cfg p h m w' := by
  obtain ⟨hfh, hlock, hconf⟩ := hh
  have hsame := hu.handle h (hw.fh_owner hfh) (hw.fh_dropped hfh)
  exact ⟨hu.fh.trans hfh, hsame.file.lock.trans hlock, fun ht => hsame.confirmed.trans (hconf ht)⟩

/-- Looking changes nothing, except that a handle may be confirmed. -/
theorem Holding.looks (hh : Holding cfg p h m w) (ho : Looks o) (hc : Change cfg p w o w') :
    Holding cfg p h m w' := by
  obtain ⟨hfh, hlock, hconf⟩ := hh
  cases hc with
  | same | acquired => exact ⟨hfh, hlock, hconf⟩
  | compare path i hn =>
      refine ⟨hfh, hlock, fun ht => ?_⟩
      simp [hconf ht]
  | _ => exact ho.elim

end Holding

section Calls

variable {cfg : Config ι} {g : Guard (machine cfg)} (K : Contract cfg g) {p : ι} {c : Call}

/-- The promise of a call that acquires what is already held. -/
def holdingInvariant (p : ι) (c : Call) (h : Handle ι Path) (m : LockMode) :
    CallInvariant K.toDiscipline p c where
  holds := Holding cfg p h m
  may _ o := Looks o
  stable := fun hw _ hr hh => hh.kept hw.1 hr.1
  keep := fun _ hh _ ho _ hperform => hh.looks ho (Config.performOp_change hperform)

variable {K} {h : Handle ι Path} {m : LockMode}

/-- A triple about code of that call. -/
abbrev HeldTriple (K : Contract cfg g) (p : ι) (c : Call) (h : Handle ι Path) (m : LockMode)
    {α : Type} (P : World ι → Prop) (x : Py ι α) (Q : α → World ι → Prop) : Prop :=
  Hoare (promiseCtx (holdingInvariant K p c h m)) P x Q fun _ _ => True

/-- `Lock.acquire` returns the handle there is. -/
theorem acquire_held (hfh : ∀ w, K.pre p c w .fh) (self : Lock)
    (timeout checkInterval : Option Rat) (b : Option Bool) :
    HeldTriple K p c h m (fun _ => True) (self.acquire timeout checkInterval b)
      fun k _ => k = h := by
  have hstored : HeldTriple K p c h m (fun _ => True) (perform .fh) fun v _ => v = some h := by
    refine promise_rule (fun w _ _ _ _ => ⟨⟨trivial, hfh w⟩, trivial⟩) ?_ fun _ _ _ _ _ => trivial
    intro w choice r w' _ _ hh _ hact
    simp only [Config.act, Option.some.injEq, Prod.mk.injEq] at hact
    obtain ⟨rfl, -⟩ := hact
    exact hh.1
  refine Hoare.bind hstored fun v => ?_
  cases v with
  | none => exact Hoare.of_false fun _ _ hv => by cases hv
  | some k => exact Hoare.pure fun _ _ hv => Option.some.inj hv

variable (hlook : ∀ w o, Looks o → K.pre p c w o) (hstat : StatsSee cfg)
  (hnames : ∀ w, w.Wf → K.inv w → Holding cfg p h m w → w.names h.path = some h.ino)
include hlook hstat hnames

/-- `_fh_matches_path` finds the handle on the inode its path names. -/
theorem fhMatchesPath_held :
    HeldTriple K p c h m (fun _ => True) (fhMatchesPath h h.path) fun b _ => b = true := by
  have hraised : ∀ {o : Op ι} {w : World ι} {e : Exc},
      ((∃ k, o = .fstat k) ∨ ∃ path, o = .stat path) → cfg.mayRaise c o e = true →
      e.isFileNotFound = false := by
    intro o w e ho he
    refine decide_eq_false fun heq => ?_
    simp [heq, hstat c o ho] at he
  have hfstat : Hoare (promiseCtx (holdingInvariant K p c h m)) (fun _ => True)
      (perform (.fstat h)) (fun i _ => i = h.ino) fun e _ => e.isFileNotFound = false := by
    refine promise_rule (fun w _ _ _ _ => ⟨⟨trivial, hlook w _ trivial⟩, trivial⟩) ?_
      fun w e _ _ he => hraised (w := w) (Or.inl ⟨h, rfl⟩) he
    intro w choice r w' _ _ _ _ hact
    simp only [Config.act] at hact
    rcases Config.onOpen_cases hact with ⟨-, hact⟩ | ⟨rfl, -⟩
    · simp only [Option.some.injEq, Prod.mk.injEq] at hact
      obtain ⟨rfl, -⟩ := hact
      rfl
    · rfl
  have hpath : Hoare (promiseCtx (holdingInvariant K p c h m)) (fun _ => True)
      (perform (.stat h.path)) (fun i _ => i = h.ino) fun e _ => e.isFileNotFound = false := by
    refine promise_rule (fun w _ _ _ _ => ⟨⟨trivial, hlook w _ trivial⟩, trivial⟩) ?_
      fun w e _ _ he => hraised (w := w) (Or.inr ⟨h.path, rfl⟩) he
    intro w choice r w' hw hi hh _ hact
    simp only [Config.act, hnames w hw hi hh, Option.some.injEq, Prod.mk.injEq] at hact
    obtain ⟨rfl, -⟩ := hact
    rfl
  refine Hoare.tryCatch (F := fun e _ => e.isFileNotFound = false) ?_ fun e => ?_
  · refine Hoare.bind hfstat fun i => Hoare.of_const fun hi => ?_
    refine Hoare.bind hpath fun j => Hoare.of_const fun hj => ?_
    exact Hoare.pure fun _ _ _ => by simp [hi, hj]
  · cases he : e.isFileNotFound with
    | true => exact Hoare.of_false fun _ _ h => by cases h
    | false => exact Hoare.throw fun _ _ _ => trivial

/-- `_acquire_verified` returns the handle there is. -/
theorem acquireVerified_held (self : Lock) (timeout checkInterval : Option Rat)
    (b : Option Bool) :
    HeldTriple K p c h m (fun _ => True)
      (TemporaryFileLock.acquireVerified self h.path timeout checkInterval b)
      fun k _ => k = h := by
  refine Hoare.bind (timeoutGenerator_rule (I := fun _ => True) (Q := fun k _ => k = h)
    (F := fun _ _ => False) ?_ (fun _ _ _ h => h.elim) (fun _ => Hoare.of_false fun _ _ h => h)
    fun _ _ => Hoare.of_false fun _ _ h => h) fun outcome => ?_
  · refine Hoare.bind (acquire_held (fun w => hlook w _ trivial) self timeout checkInterval b)
      fun k => Hoare.of_const fun hk => ?_
    subst hk
    refine Hoare.bind (fhMatchesPath_held hlook hstat hnames) fun matching => ?_
    cases matching with
    | true => exact Hoare.pure fun _ _ _ => rfl
    | false => exact Hoare.of_false fun _ _ h => by cases h
  · cases outcome with
    | ok k => exact Hoare.pure fun _ _ hk => hk
    | error e => exact Hoare.of_false fun _ _ h => h

/-- `TemporaryFileLock.acquire` returns the handle there is. -/
theorem TemporaryFileLock.acquire_held {self : TemporaryFileLock} (hself : self.filename = h.path)
    (timeout checkInterval : Option Rat) (b : Option Bool) :
    HeldTriple K p c h m (fun _ => True) (self.acquire timeout checkInterval b)
      fun _ _ => True := by
  unfold TemporaryFileLock.acquire
  rw [hself]
  refine Hoare.bind (acquireVerified_held hlook hstat hnames _ timeout checkInterval b) fun k => ?_
  refine Hoare.bind (R := fun _ _ => True) ?_ fun _ => Hoare.pure fun _ _ _ => trivial
  refine promise_rule (fun w _ _ _ _ => ⟨⟨trivial, hlook w _ trivial⟩, trivial⟩) ?_
    fun _ _ _ _ _ => trivial
  intro w choice r w' _ _ _ _ hact
  simp only [Config.act, Option.some.injEq, Prod.mk.injEq] at hact
  obtain ⟨rfl, -⟩ := hact
  trivial

end Calls

/-! ## The release that follows -/

/-- If the file is a temporary one, it has no name any more. -/
def Removed (cfg : Config ι) (p : ι) (h : Handle ι Path) (w : World ι) : Prop :=
  IsTemporary cfg p → w.toFs.Stale h

/-- The instance's current handle is open, and its file is removed. -/
def Removable (cfg : Config ι) (p : ι) (h : Handle ι Path) (w : World ι) : Prop :=
  w.fh p = some h ∧ Opened p h w ∧ Removed cfg p h w

/-- Nothing is left of the handle. -/
def LetGo (p : ι) (h : Handle ι Path) (w : World ι) : Prop := w.fh p = none ∧ Closed p h w

/-- The handle is unlocked and closed when its file is removed, and is not left to the
environment. -/
def MayRelease (cfg : Config ι) (p : ι) (h : Handle ι Path) (w : World ι) : Op ι → Prop
  | .discardLock | .drop _ => False
  | .unlock k | .close k => k = h → Removed cfg p h w
  | _ => True

section Release

variable {cfg : Config ι} {g : Guard (machine cfg)} (K : Contract cfg g) {p : ι} {c : Call}

/-- The promise of the call that releases it. -/
def releaseInvariant (p : ι) (c : Call) (h : Handle ι Path) :
    CallInvariant K.toDiscipline p c where
  holds w := h.owner = p ∧ w.dropped h = false
  may := MayRelease cfg p h
  stable := fun _ _ hr hh => ⟨hh.1, (hr.1.handle _ hh.1 hh.2).dropped.trans hh.2⟩
  keep := by
    intro w o choice r w' _ hh _ hmay _ hperform
    have hc := Config.performOp_change hperform
    refine ⟨hh.1, ?_⟩
    cases hc with
    | discardLock | drop k => exact hmay.elim
    | _ => exact hh.2

variable {K} {h : Handle ι Path}

instance stable_removable : (K.ctx p c).Stable (Removable cfg p h) :=
  stable_of fun _ _ _ hu _ hs => ⟨hu.fh.trans hs.1, hs.2.1.keep hu, fun ht =>
    (hu.handle h hs.2.1.1 hs.2.1.2.1).file.stale hs.2.1.2.2 (hs.2.2 ht)⟩

instance stable_letGo : (K.ctx p c).Stable (LetGo p h) :=
  inferInstanceAs (Context.Stable _ fun _ => _ ∧ _)

/-- What the contract asks of the operations of `Lock.release`. -/
structure Releasable (K : Contract cfg g) (p : ι) (c : Call) (h : Handle ι Path) : Prop where
  fh : ∀ w, K.pre p c w .fh
  unlock : ∀ w, K.pre p c w (.unlock h)
  close : ∀ w, w.Wf → K.inv w → w.fh p = some h → K.pre p c w (.close h)
  forget : ∀ w, w.Wf → K.inv w → w.fh p = some h → h ∉ w.opened → K.pre p c w (.setFh none)

/-- A triple about code of that call. -/
abbrev ReleaseTriple (K : Contract cfg g) (p : ι) (c : Call) (h : Handle ι Path) {α : Type}
    (P : World ι → Prop) (x : Py ι α) (Q : World ι → Prop) (E : Exc → World ι → Prop) : Prop :=
  Hoare (promiseCtx (releaseInvariant K p c h)) P x (fun _ => Q) E

variable (hquiet : ∀ o e, cfg.mayRaise c o e = false)
include hquiet

/-- An operation of a release raises nothing of its own. -/
theorem quiet_rule {o : Op ι} {P : World ι → Prop} {Q : Val o → World ι → Prop}
    {E : Exc → World ι → Prop} [(promiseCtx (releaseInvariant K p c h)).Stable P]
    [∀ v, (promiseCtx (releaseInvariant K p c h)).Stable (Q v)]
    [∀ e, (promiseCtx (releaseInvariant K p c h)).Stable (E e)]
    (hpre : ∀ w, w.Wf → K.inv w → P w →
      (Own p w o ∧ K.pre p c w o) ∧ MayRelease cfg p h w o)
    (hact : ∀ w choice r w', w.Wf → K.inv w → P w → cfg.act choice p w o = some (r, w') →
      Ends Q E r w') :
    Hoare (promiseCtx (releaseInvariant K p c h)) P (perform o) Q E :=
  promise_rule (fun w hw hi _ => hpre w hw hi)
    (fun w choice r w' hw hi _ => hact w choice r w' hw hi)
    fun w e _ _ he => by simp [hquiet o e] at he

theorem unlock_held (hK : Releasable K p c h) {E : Exc → World ι → Prop}
    [∀ e, (promiseCtx (releaseInvariant K p c h)).Stable (E e)] :
    ReleaseTriple K p c h (Removable cfg p h) (perform (.unlock h)) (Removable cfg p h) E := by
  refine quiet_rule hquiet ?_ ?_
  · exact fun w _ _ hs => ⟨⟨hs.2.1.1, hK.unlock w⟩, fun _ => hs.2.2⟩
  · intro w choice r w' _ _ hs hact
    simp only [Config.act, Config.onOpen, if_pos hs.2.1.2.2, Option.some.injEq,
      Prod.mk.injEq] at hact
    obtain ⟨rfl, rfl⟩ := hact
    exact hs

theorem close_held (hK : Releasable K p c h) {E : Exc → World ι → Prop}
    [∀ e, (promiseCtx (releaseInvariant K p c h)).Stable (E e)] :
    ReleaseTriple K p c h (Removable cfg p h) (perform (.close h))
      (fun w => w.fh p = some h ∧ Closed p h w) E := by
  refine quiet_rule hquiet ?_ ?_
  · exact fun w hw hi hs =>
      ⟨⟨hs.2.1.1, hK.close w hw hi hs.1⟩, fun _ => hs.2.2⟩
  · intro w choice r w' hw _ hs hact
    simp only [Config.act, if_pos hs.2.1.2.2, Option.some.injEq, Prod.mk.injEq] at hact
    obtain ⟨rfl, rfl⟩ := hact
    exact ⟨hs.1, hs.2.1.1, hs.2.1.2.1, hw.fh_serial hs.1, by simp⟩

theorem forget_held (hK : Releasable K p c h) {E : Exc → World ι → Prop}
    [∀ e, (promiseCtx (releaseInvariant K p c h)).Stable (E e)] :
    ReleaseTriple K p c h (fun w => w.fh p = some h ∧ Closed p h w) (perform (.setFh none))
      (LetGo p h) E := by
  refine quiet_rule hquiet ?_ ?_
  · exact fun w hw hi hs =>
      ⟨⟨fun k hk => (by cases hk), hK.forget w hw hi hs.1 hs.2.2.2.2⟩, trivial⟩
  · intro w choice r w' _ _ hs hact
    simp only [Config.act, Option.some.injEq, Prod.mk.injEq] at hact
    obtain ⟨rfl, rfl⟩ := hact
    exact ⟨Function.update_self .., hs.2⟩

/-- `Lock.release` of a handle whose file is removed. -/
theorem release_held (hK : Releasable K p c h) (self : Lock) :
    ReleaseTriple K p c h (Removable cfg p h) self.release (LetGo p h) fun _ => LetGo p h := by
  have hfh : Hoare (promiseCtx (releaseInvariant K p c h)) (Removable cfg p h) (perform .fh)
      (fun v w => v = some h ∧ Removable cfg p h w) fun _ => LetGo p h := by
    refine quiet_rule hquiet (fun w _ _ _ => ⟨⟨trivial, hK.fh w⟩, trivial⟩) ?_
    intro w choice r w' _ _ hs hact
    simp only [Config.act, Option.some.injEq, Prod.mk.injEq] at hact
    obtain ⟨rfl, rfl⟩ := hact
    exact ⟨hs.1, hs⟩
  refine release_rule (I := fun _ => True) (Z := LetGo p h)
    (R := fun k w => k = h ∧ Removable cfg p h w) (U := fun k w => k = h ∧ Removable cfg p h w)
    (V := fun k w => k = h ∧ w.fh p = some h ∧ Closed p h w) (hfh.of_post ?_) (fun k => ?_)
    (fun k => ?_) (fun k => ?_) (fun _ _ => trivial) fun _ _ _ _ hz => hz
  · rintro v w - ⟨rfl, hs⟩
    exact ⟨rfl, hs⟩
  · refine Hoare.of_fact fun hk => ?_
    subst hk
    exact (unlock_held hquiet hK).of_post fun _ _ _ hs => ⟨rfl, hs⟩
  · refine Hoare.of_fact fun hk => ?_
    subst hk
    exact (close_held hquiet hK).of_post fun _ _ _ hs => ⟨rfl, hs⟩
  · refine Hoare.of_fact fun hk => ?_
    subst hk
    exact forget_held hquiet hK

/-- `TemporaryFileLock.release`: the file is removed before the handle is let go. -/
theorem TemporaryFileLock.release_held {m : LockMode} {self : TemporaryFileLock} (hself : self.filename = h.path) (hK : Releasable K p c h)
    (hunlink : ∀ w, w.Wf → K.inv w → Holding cfg p h m w →
      K.pre p c w (.unlink h.path) ∧ w.names h.path = some h.ino) :
    ReleaseTriple K p c h (Holding cfg p h m) self.release (LetGo p h) fun _ => LetGo p h := by
  have hstable : (K.ctx p c).Stable (Holding cfg p h m) :=
    stable_of fun hw _ _ hu _ hs => hs.kept hw hu
  have hremove : ReleaseTriple K p c h (Holding cfg p h m) (unlinkIfPresent h.path)
      (Removable cfg p h) fun _ _ => False := by
    refine Hoare.suppress (F := fun _ _ => False) (quiet_rule hquiet ?_ ?_)
      (fun _ _ _ _ h => h.elim) fun _ _ _ _ h => h
    · exact fun w hw hi hs => ⟨⟨trivial, (hunlink w hw hi hs).1⟩, trivial⟩
    · intro w choice r w' hw hi hs hact
      have hname := (hunlink w hw hi hs).2
      simp only [Config.act, hname, Option.some.injEq, Prod.mk.injEq] at hact
      obtain ⟨rfl, rfl⟩ := hact
      refine ⟨hs.1, ⟨hw.fh_owner hs.1, hw.fh_dropped hs.1, hw.fs.opened_of_lock hs.2.1⟩, fun _ => ?_⟩
      exact if_pos hname
  have hfh : Hoare (promiseCtx (releaseInvariant K p c h)) (Holding cfg p h m) (perform .fh)
      (fun v w => v = some h ∧ Holding cfg p h m w) fun _ => LetGo p h := by
    refine quiet_rule hquiet (fun w _ _ _ => ⟨⟨trivial, hK.fh w⟩, trivial⟩) ?_
    intro w choice r w' _ _ hs hact
    simp only [Config.act, Option.some.injEq, Prod.mk.injEq] at hact
    obtain ⟨rfl, rfl⟩ := hact
    exact ⟨hs.1, hs⟩
  unfold TemporaryFileLock.release
  rw [hself]
  refine Hoare.bind hfh fun v => Hoare.of_fact fun hv => ?_
  subst hv
  refine Hoare.bind (R := fun _ => LetGo p h) ?_ fun _ => Hoare.pure fun _ _ hs => hs
  exact Hoare.withFinally (R := fun _ => Removable cfg p h) (F := fun _ _ => False) hremove
    (fun _ => Portalocker.release_held hquiet hK self.toLock) fun _ => Hoare.of_false fun _ _ h => h

end Release

/-! ## From a second acquisition to the release -/

section Runs

variable {cfg : Config ι} {g : Guard (machine cfg)} {K : Contract cfg g} {p : ι} {c : Call}
  {h : Handle ι Path} {m : LockMode} {s s₁ s₂ s₃ : (machine cfg).State}

/-- Unlocking and closing are the operations that drop a lock. -/
theorem lock_dropped {w w' : World ι} {o : Op ι} (hc : Change cfg p w o w')
    (hlock : w.lock h ≠ none) (hgone : w'.lock h = none) : o = .unlock h ∨ o = .close h := by
  cases hc with
  | unlock k ho =>
      by_cases hk : h = k
      · exact Or.inl (hk ▸ rfl)
      · exact absurd (by simpa [Function.update_of_ne hk] using hgone) hlock
  | close k ho content hcontent =>
      by_cases hk : h = k
      · exact Or.inr (hk ▸ rfl)
      · exact absurd (by simpa [Function.update_of_ne hk] using hgone) hlock
  | lock k flags mode hm ho hfree =>
      by_cases hk : h = k
      · simp [hk] at hgone
      · exact absurd (by simpa [Function.update_of_ne hk] using hgone) hlock
  | _ => exact absurd hgone hlock

/-- Only the instance itself takes the lock of a handle it has not dropped. -/
theorem lock_drops {l : (machine cfg).Label} (hhold : K.toDiscipline.Holds s)
    (hown : h.owner = p ∧ (files s).dropped h = false) (hn : next s l = some s₁)
    (hlock : (files s).lock h ≠ none) (hgone : (files s₁).lock h = none) :
    ∃ c o k, s.thread p = some (c, .op o k) ∧ (o = .unlock h ∨ o = .close h) := by
  have hundisturbed : Undisturbed p (files s) (files s₁) → False := fun hu =>
    hlock ((hu.handle h hown.1 hown.2).file.lock.symm.trans hgone)
  cases l with
  | call q c' =>
      obtain ⟨-, rfl⟩ := next_call hn
      exact absurd hgone hlock
  | op q choice =>
      obtain ⟨c', o, k, r, hthread, hperform, -⟩ := next_op hn
      have hc : Change cfg q (files s) o (files s₁) := Config.performOp_change hperform
      obtain ⟨hown', -⟩ := hhold.permitted hthread
      by_cases hq : p = q
      · subst hq
        exact ⟨c', o, k, hthread, lock_dropped hc hlock hgone⟩
      · exact (hundisturbed (undisturbed_of_change hhold.1.1 hown' hc hq)).elim
  | event e =>
      obtain ⟨he, -⟩ := next_event hn
      exact (hundisturbed (undisturbed_of_finalize he p)).elim

/-- A `release` in which nothing fails drops the lock in no step before the file is
removed, if it is a temporary one, and has dropped it when the call is over. -/
def ReleasedOnce (g : Guard (machine cfg)) (p : ι) (h : Handle ι Path)
    (s₁ : (machine cfg).State) : Prop :=
  ReleaseSucceeds cfg → ∀ s₂, During g p Call.release s₁ s₂ →
    (∀ l s₃, next s₂ l = some s₃ → (files s₂).lock h ≠ none → (files s₃).lock h = none →
      Removed cfg p h (files s₂)) ∧
    (s₂.thread p = none → (files s₂).fh p = none ∧ h ∉ (files s₂).opened ∧
      (files s₂).lock h = none)

/-- What a call that acquires again and the release that follows it do, if they keep
their promises. -/
theorem kept_until_released (hK : K.toDiscipline.Verified) (hhold : K.toDiscipline.Holds s)
    (hholds : Holding cfg p h m (files s))
    (hacquire : (promiseCtx (holdingInvariant K p c h m)).Safe ((cfg.object p).call c)
      (fun _ _ => True) (files s))
    (hrelease : ReleaseSucceeds cfg → ∀ w, w.Wf → K.inv w → Holding cfg p h m w →
      (promiseCtx (releaseInvariant K p .release h)).Safe ((cfg.object p).call .release)
        (fun _ => LetGo p h) w) (hcall : During g p c s s₁) :
    Holding cfg p h m (files s₁) ∧ ReleasedOnce g p h s₁ := by
  have hheld := CallInvariant.during (J := holdingInvariant K p c h m) hK hhold hholds hacquire
    hcall
  have hholds₁ : Holding cfg p h m (files s₁) := hheld.2.1
  refine ⟨hholds₁, fun hsucceeds s₂ hreleased => ?_⟩
  have hw := hheld.1.1
  have hend := CallInvariant.during (J := releaseInvariant K p .release h) hK hheld.1
    ⟨hw.1.fh_owner hholds₁.1, hw.1.fh_dropped hholds₁.1⟩
    (hrelease hsucceeds _ hw.1 hw.2 hholds₁) hreleased
  refine ⟨fun l s₃ hn hlock hgone => ?_, fun hthread => ?_⟩
  · obtain ⟨c', o, k, hthread, ho⟩ := lock_drops hend.1 hend.2.1 hn hlock hgone
    have hmay : MayRelease cfg p h (files s₂) o := hend.may hthread
    rcases ho with rfl | rfl <;> exact hmay rfl
  · obtain ⟨hfh, -, -, -, hclosed⟩ := hend.ended hthread
    exact ⟨hfh, hclosed, hend.1.1.1.fs.lock_open hclosed⟩

/-- Releases of lock files find settled instances. -/
def settledLockFiles (cfg : Config ι) : Guard (machine cfg) where
  call := fun p (c : Call) (w : World ι) =>
    (∀ self, cfg.object p ≠ .lock self) → Releases cfg p w c → Settled cfg p w
  op := fun _ _ _ _ => True

/-- A `Lock` that is acquired again. -/
theorem lock_kept (hcfg : AllLocks cfg)
    (hs : Reach Pristine (settledLockFiles cfg) s) (hholds : Holding cfg p h m (files s))
    (hacquires : c.acquires = true) (hcall : During (settledLockFiles cfg) p c s s₁) :
    Holding cfg p h m (files s₁) ∧ ReleasedOnce (settledLockFiles cfg) p h s₁ := by
  obtain ⟨self, hobject⟩ := hcfg p
  have hstart : ∀ w : World ι, Pristine w →
      (contentContract cfg (settledLockFiles cfg)).toDiscipline.inv w ∧ ∀ _ : ι, True := by
    intro w h0
    have hclosed : ∀ h, h ∉ w.opened := by simp [h0.opened]
    refine ⟨⟨h0.wf, fun h _ => h0.wf.fs.buffer_open (hclosed h), fun h m self hm => ?_⟩,
      fun _ => trivial⟩
    exact absurd (h0.wf.fs.opened_of_lock hm) (hclosed h)
  have hhold := (content_verified hcfg).sound hstart hs
  have hnot : ¬ IsTemporary cfg p := by
    rintro ⟨self', hobject'⟩
    rw [hobject] at hobject'
    cases hobject'
  refine kept_until_released (content_verified hcfg) hhold hholds ?_ (fun hsucceeds w hw hi hh => ?_)
    hcall
  · have hagain : ∀ timeout checkInterval b,
        (promiseCtx (holdingInvariant (contentContract cfg (settledLockFiles cfg)) p c h m)).Safe
          (self.acquire timeout checkInterval b).toCall (fun _ _ => True) (files s) := fun _ _ _ =>
      Hoare.toCall inferInstance ((acquire_held (fun _ => trivial) self _ _ _).of_post
        fun _ _ _ _ => trivial) ⟨hhold.1, hholds⟩ trivial
    rw [hobject]
    cases c with
    | acquire timeout checkInterval b => exact hagain _ _ _
    | enter => exact hagain _ _ _
    | release | exit | readPid | write bytes | flush => cases hacquires
  · have hreleasable : Releasable (contentContract cfg (settledLockFiles cfg)) p .release h :=
      ⟨fun _ => trivial, fun _ => trivial, fun _ _ _ _ hc => (by cases hc), fun _ _ _ _ _ => trivial⟩
    rw [hobject]
    refine Hoare.toCall inferInstance (release_held hsucceeds hreleasable self) ⟨⟨hw, hi⟩, ?_⟩ ?_
    · exact ⟨hw.fh_owner hh.1, hw.fh_dropped hh.1⟩
    · exact ⟨hh.1, ⟨hw.fh_owner hh.1, hw.fh_dropped hh.1, hw.fs.opened_of_lock hh.2.1⟩,
        fun ht => absurd ht hnot⟩

/-- A `TemporaryFileLock` that is acquired again. -/
theorem temporary_kept (hcfg : Separated cfg) (hstats : StatsSee cfg)
    (hs : Reach Pristine (settledLockFiles cfg) s) (hpid : (cfg.object p).pidPath = none)
    (hholds : Holding cfg p h m (files s)) (hacquires : c.acquires = true)
    (hcall : During (settledLockFiles cfg) p c s s₁) :
    Holding cfg p h m (files s₁) ∧ ReleasedOnce (settledLockFiles cfg) p h s₁ := by
  have hsettled : ∀ p c w, (settledLockFiles cfg).call p c w → Releases cfg p w c →
      ¬ False → Settled cfg p w := by
    intro q c w hg hreleases _
    refine hg (fun self hobject => ?_) hreleases
    rcases hcfg.object q with ⟨self', hobject', -⟩ | ⟨self', hobject'⟩ <;>
      (rw [hobject] at hobject'; cases hobject')
  have hverified := ownership_verified (g := settledLockFiles cfg) hcfg (fun h : False => h.elim)
    hsettled fun _ _ _ _ _ _ hclean => hclean.elim
  have hhold : (ownershipContract cfg hcfg False (settledLockFiles cfg)).toDiscipline.Holds s :=
    ownership_holds False hcfg False.elim hsettled (fun _ _ _ _ _ _ hclean => hclean.elim)
      (fun w h0 => ⟨h0, False.elim⟩) hs
  obtain ⟨self, hobject, -⟩ | ⟨self, hobject⟩ := hcfg.object p
  swap
  · rw [hobject] at hpid
    cases hpid
  have htemporary : IsTemporary cfg p := ⟨self, hobject⟩
  have hpath : ∀ w, Ownership cfg w → Holding cfg p h m w → self.filename = h.path := by
    intro w hi hh
    have hown := hi.path hh.1
    rw [hobject] at hown
    exact Option.some.inj hown
  have hself : self.filename = h.path := hpath _ hhold.1.2.1 hholds
  have hlockPath : (cfg.object p).lockPath = some h.path := by
    rw [hobject, ← hself]
    rfl
  have hnames : ∀ w : World ι, Ownership cfg w → Holding cfg p h m w →
      w.names h.path = some h.ino := fun w hi hh => (hi.owns (hh.2.2 htemporary)).1
  refine kept_until_released hverified hhold hholds ?_ (fun hsucceeds w hw hi hh => ?_) hcall
  · have hlooks : ∀ w o, Looks o →
        (ownershipContract cfg hcfg False (settledLockFiles cfg)).pre p c w o := by
      intro w o ho
      cases o with
      | fh | fstat k | stat path | acquired => exact ⟨trivial, False.elim, fun _ => trivial⟩
      | _ => exact ho.elim
    have hagain : ∀ timeout checkInterval b, (promiseCtx (holdingInvariant
        (ownershipContract cfg hcfg False (settledLockFiles cfg)) p c h m)).Safe
          (self.acquire timeout checkInterval b).toCall (fun _ _ => True) (files s) := fun _ _ _ =>
      Hoare.toCall inferInstance (TemporaryFileLock.acquire_held hlooks hstats
        (fun w _ hi hh => hnames w hi.1 hh) hself _ _ _) ⟨hhold.1, hholds⟩ trivial
    rw [hobject]
    cases c with
    | acquire timeout checkInterval b => exact hagain _ _ _
    | enter => exact hagain _ _ _
    | release | exit | readPid | write bytes | flush => cases hacquires
  · have hbuffer : ∀ w : World ι, w.Wf → Ownership cfg w → w.fh p = some h → w.buffer h = [] := by
      intro w hw hi hfh
      exact hi.buffer (by rw [hw.fh_owner hfh]; exact hlockPath)
    have hreleasable : Releasable (ownershipContract cfg hcfg False (settledLockFiles cfg)) p
        .release h := by
      refine ⟨fun _ => ⟨trivial, False.elim, fun _ => trivial⟩,
        fun _ => ⟨trivial, False.elim, fun _ => trivial⟩,
        fun w hw hi hfh => ⟨trivial, False.elim, fun _ => hbuffer w hw hi.1 hfh⟩,
        fun w hw hi hfh hclosed => ⟨⟨fun k hk => Or.inr ?_, fun k hk => (by cases hk)⟩, False.elim,
          fun _ => trivial⟩⟩
      obtain rfl : h = k := Option.some.inj (hfh.symm.trans hk)
      refine Bool.eq_false_iff.2 fun hconf => ?_
      have hlock := (hi.1.owns hconf).2
      rw [hw.fs.lock_open hclosed] at hlock
      cases hlock
    rw [hobject]
    refine Hoare.toCall inferInstance (TemporaryFileLock.release_held (m := m) hsucceeds hself
      hreleasable fun w hw hi hh => ⟨⟨⟨⟨h, hh.1, hh.2.2 htemporary⟩, Or.inl hlockPath⟩,
        False.elim, fun _ => trivial⟩, hnames w hi.1 hh⟩) ⟨⟨hw, hi⟩, ?_⟩ hh
    exact ⟨hw.fh_owner hh.1, hw.fh_dropped hh.1⟩

/-- A `Lock` or a `TemporaryFileLock` that holds and is acquired again keeps its handle
and its lock, from the call to its next one, and a single `release` then lets go of it.
What else can fail may fail.  `TemporaryFileLock`s may share their paths with
`PidFileLock`s, and releases of lock files find settled instances. -/
theorem reacquired_lock_is_kept
    (hcfg : AllLocks cfg ∨ Separated cfg ∧ StatsSee cfg)
    (hs : Reach Pristine (settledLockFiles cfg) s) (hpid : (cfg.object p).pidPath = none)
    (hholds : Holding cfg p h m (files s)) (hacquires : c.acquires = true)
    (hcall : During (settledLockFiles cfg) p c s s₁) :
    Holding cfg p h m (files s₁) ∧ ReleasedOnce (settledLockFiles cfg) p h s₁ := by
  rcases hcfg with hlocks | ⟨hseparated, hstats⟩
  · exact lock_kept hlocks hs hholds hacquires hcall
  · exact temporary_kept hseparated hstats hs hpid hholds hacquires hcall

end Runs

/-- The steps that the guard allows whatever the state. -/
theorem settledLockFiles_allows {l : (machine twoTemporary).Label}
    (h : (∃ p choice, l = .op p choice) ∨ ∃ p c, l = .call p c ∧ Call.acquires c = true)
    (t : (machine twoTemporary).State) : (settledLockFiles twoTemporary).Allows t l := by
  rcases h with ⟨p, choice, rfl⟩ | ⟨p, c, rfl, hc⟩
  · exact fun _ _ _ _ => trivial
  · intro _ hreleases
    cases c <;> first | exact hreleases.elim | cases hc

/-- One instance has acquired the path. -/
def twoTemporary.holds : List (machine twoTemporary).Label :=
  .call true .enter :: List.replicate 9 (.op true {})

/-- All is idle and no file exists. -/
def twoTemporary.start : (machine twoTemporary).State := ⟨World.empty, fun _ => none⟩

/-- The other contends in the middle of four steps. -/
def twoTemporary.contention : List (machine twoTemporary).Label :=
  List.replicate 2 (.op true {}) ++
    .call false (.acquire none none (some false)) :: List.replicate 3 (.op false {}) ++
    List.replicate 2 (.op true {})

/-- It acquires again in these steps. -/
def twoTemporary.again : List (machine twoTemporary).Label :=
  .call true (.acquire none none none) :: twoTemporary.contention

/-- It releases. -/
def twoTemporary.releases : List (machine twoTemporary).Label :=
  .call true .release :: List.replicate 6 (.op true {})

/-- The lock is kept by the second acquisition and gone after one release. -/
theorem reacquired_lock_is_kept_run :
    ∃ s s₁ s₂ h, run twoTemporary.holds twoTemporary.start = some s ∧
      run twoTemporary.again s = some s₁ ∧ run twoTemporary.releases s₁ = some s₂ ∧
      (files s₁).fh true = some h ∧ (files s₁).lock h = some .exclusive ∧
      (files s₂).names ['f'] = none ∧ (files s₂).lock h = none := by
  have hobserve : (run twoTemporary.holds twoTemporary.start).bind (fun s =>
      (run twoTemporary.again s).bind fun s₁ =>
        (run twoTemporary.releases s₁).map fun s₂ =>
          (((files s).fh true).map fun h => ((files s).lock h, (files s).confirmed h),
            (s₂.thread true).map Prod.fst, (files s₂).names ['f'])) =
      some (some (some .exclusive, true), none, none) := by rfl
  obtain ⟨s, hfirst, hrest⟩ := Option.bind_eq_some_iff.1 hobserve
  obtain ⟨s₁, hagain, hrest⟩ := Option.bind_eq_some_iff.1 hrest
  obtain ⟨s₂, hrelease, hs⟩ := Option.map_eq_some_iff.1 hrest
  obtain ⟨hhandle, hs⟩ := Prod.mk.inj hs
  obtain ⟨hthread, hnames⟩ := Prod.mk.inj hs
  obtain ⟨h, hfh, hh⟩ := Option.map_eq_some_iff.1 hhandle
  obtain ⟨hlock, hconf⟩ := Prod.mk.inj hh
  have hreach : Reach Pristine (settledLockFiles twoTemporary) s := by
    refine (Reach.start empty_pristine).append hfirst fun l hl => settledLockFiles_allows ?_
    simp only [twoTemporary.holds, List.mem_cons, List.mem_replicate] at hl
    rcases hl with rfl | ⟨-, rfl⟩
    · exact Or.inr ⟨_, _, rfl, rfl⟩
    · exact Or.inl ⟨_, _, rfl⟩
  have hcall : During (settledLockFiles twoTemporary) true (.acquire none none none) s s₁ := by
    refine During.run (settledLockFiles_allows (Or.inr ⟨_, _, rfl, rfl⟩) s) hagain fun l hl => ?_
    have hcases : (∃ q choice, l = .op q choice) ∨
        l = .call false (.acquire none none (some false)) := by
      simp only [twoTemporary.contention, List.mem_append, List.mem_cons,
        List.mem_replicate] at hl
      rcases hl with (⟨-, rfl⟩ | rfl | ⟨-, rfl⟩) | ⟨-, rfl⟩
      · exact Or.inl ⟨_, _, rfl⟩
      · exact Or.inr rfl
      · exact Or.inl ⟨_, _, rfl⟩
      · exact Or.inl ⟨_, _, rfl⟩
    rcases hcases with ⟨q, choice, rfl⟩ | rfl
    · exact ⟨fun _ hc => (by cases hc), settledLockFiles_allows (Or.inl ⟨_, _, rfl⟩)⟩
    · exact ⟨fun _ hc => (by cases hc), settledLockFiles_allows (Or.inr ⟨_, _, rfl, rfl⟩)⟩
  obtain ⟨hkept, hreleased⟩ := reacquired_lock_is_kept (m := .exclusive)
    (Or.inr ⟨twoTemporary_all.separated, fun _ _ _ => rfl⟩) hreach rfl ⟨hfh, hlock, fun _ => hconf⟩
    rfl hcall
  have hend : During (settledLockFiles twoTemporary) true .release s₁ s₂ := by
    refine During.run (fun _ _ => Or.inr ⟨h, hkept.1, hkept.2.2 ⟨_, rfl⟩⟩) hrelease fun l hl => ?_
    obtain ⟨-, rfl⟩ := List.mem_replicate.1 hl
    exact ⟨fun _ hc => (by cases hc), settledLockFiles_allows (Or.inl ⟨_, _, rfl⟩)⟩
  obtain ⟨-, -, hgone⟩ := (hreleased (fun _ _ => rfl) s₂ hend).2 (Option.map_eq_none_iff.1 hthread)
  exact ⟨s, s₁, s₂, h, hfirst, hagain, hrelease, hkept.1, hkept.2.1, hnames, hgone⟩

/-! ## `PidFileLock` -/

/-- The handle of the holder's sidecar. -/
def twoPids.sidecar : Handle Bool Path := ⟨true, 0, "f.lock".toList, 1⟩

/-- All is idle and no file exists. -/
def twoPids.start : (machine twoPids).State := ⟨World.empty, fun _ => none⟩

/-- The holder acquires again, and its overwritten inner lock is finalized at once. -/
def twoPids.overwrites : List (machine twoPids).Label :=
  [.call true (.acquire none none none), .op true {}, .event ⟨twoPids.sidecar⟩]

/-- The holder acquires again, and its overwritten inner lock is not finalized. -/
def twoPids.blocksItself : List (machine twoPids).Label :=
  .call true (.acquire none none none) :: List.replicate 10 (.op true {})

/-- It releases. -/
def twoPids.releases : List (machine twoPids).Label := [.call true .release, .op true {}]

/-- A `PidFileLock` that holds and is acquired again loses its lock when the overwritten
inner lock is finalized at once; when it is not, the call raises, the release that
follows does nothing, and the lock and both files stay. -/
theorem reacquired_pid_file_lock_is_lost :
    ∃ (s : (machine twoPids).State) (h : Handle Bool Path),
      Reach Pristine (Guard.free _) s ∧ s.thread true = none ∧ (files s).Verified true h ∧
      (files s).lock h = some .exclusive ∧
      (∃ s₁, During (Guard.free _) true (Call.acquire none none none) s s₁ ∧
        (files s₁).lock h = none) ∧
      ∃ s₁ s₂, During (Guard.free _) true (Call.acquire none none none) s s₁ ∧
        During (Guard.free _) true Call.release s₁ s₂ ∧ s₂.thread true = none ∧
        (files s₂).lock h = some .exclusive ∧ (files s₂).names ['f'] ≠ none ∧
        (files s₂).names "f.lock".toList ≠ none := by
  have hobserve : (run twoPids.publish twoPids.start).bind (fun s =>
      (run twoPids.overwrites s).bind fun s₁ =>
        (run twoPids.blocksItself s).bind fun s₁' =>
          (run twoPids.releases s₁').map fun s₂ =>
            (((s.thread true).map Prod.fst, (files s).fh true, (files s).confirmed twoPids.sidecar,
              (files s).lock twoPids.sidecar), (files s₁).lock twoPids.sidecar,
              (s₂.thread true).map Prod.fst, (files s₂).lock twoPids.sidecar,
              (files s₂).names ['f'], (files s₂).names "f.lock".toList)) =
      some ((none, some twoPids.sidecar, true, some .exclusive), none, none, some .exclusive,
        some 2, some 1) := by rfl
  obtain ⟨s, hpublish, hrest⟩ := Option.bind_eq_some_iff.1 hobserve
  obtain ⟨s₁, hoverwrites, hrest⟩ := Option.bind_eq_some_iff.1 hrest
  obtain ⟨s₁', hblocks, hrest⟩ := Option.bind_eq_some_iff.1 hrest
  obtain ⟨s₂, hreleases, hs⟩ := Option.map_eq_some_iff.1 hrest
  obtain ⟨hholds, hs⟩ := Prod.mk.inj hs
  obtain ⟨hidle, hholds⟩ := Prod.mk.inj hholds
  obtain ⟨hfh, hholds⟩ := Prod.mk.inj hholds
  obtain ⟨hconf, hlock⟩ := Prod.mk.inj hholds
  obtain ⟨hlost, hs⟩ := Prod.mk.inj hs
  obtain ⟨hended, hs⟩ := Prod.mk.inj hs
  obtain ⟨hkept, hs⟩ := Prod.mk.inj hs
  obtain ⟨hpid, hsidecar⟩ := Prod.mk.inj hs
  have hfree : ∀ (l : (machine twoPids).Label) (t : (machine twoPids).State),
      (Guard.free (machine twoPids)).Allows t l := fun l t => Guard.free_allows t l
  refine ⟨s, twoPids.sidecar, (Reach.start empty_pristine).run hpublish,
    Option.map_eq_none_iff.1 hidle, ⟨hfh, hconf⟩, hlock, ⟨s₁, ?_, hlost⟩, s₁', s₂, ?_, ?_,
    Option.map_eq_none_iff.1 hended, hkept, fun hnone => ?_, fun hnone => ?_⟩
  · refine During.run (hfree _ s) hoverwrites fun l hl => ⟨fun c hc => ?_, hfree l⟩
    subst hc
    simp at hl
  · refine During.run (hfree _ s) hblocks fun l hl => ⟨fun c hc => ?_, hfree l⟩
    obtain ⟨-, rfl⟩ := List.mem_replicate.1 hl
    cases hc
  · refine During.run (hfree _ s₁') hreleases fun l hl => ⟨fun c hc => ?_, hfree l⟩
    obtain rfl := List.mem_singleton.1 hl
    cases hc
  · cases hpid.symm.trans hnone
  · cases hsidecar.symm.trans hnone

end Portalocker
