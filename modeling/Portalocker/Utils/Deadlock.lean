import Portalocker.Foundation.Stuck
import Portalocker.Utils.Waiting
set_option autoImplicit false
set_option linter.unusedSectionVars false

/-!
# No deadlock

The code of all lock classes keeps the contract of `Utils/Waiting.lean`, whatever its
operations raise.  So a client that is stuck waits for a lock of somebody who is not.
-/

namespace Portalocker

open Posix Interleaving Interleaving.Machine World Contract

variable {ι : Type} [DecidableEq ι]

namespace Waiting

section Code

variable {cfg : Config ι} {g : Guard (machine cfg)} {p : ι} {c : Call}

/-! ## `Lock` -/

theorem stands_of_eq {w : World ι} {v : Option (Handle ι Path)} {n : Nat}
    (hs : Stands p v none n w) : Rest p w := by
  have hweak := hs.weaken v
  exact hweak.rest

/-- The same after every exception. -/
theorem caught_same {A : World ι → Prop} {e : Exc} {w : World ι} (h : A w) :
    Caught A (fun _ => A) e w := by
  unfold Caught
  split
  · exact h
  · exact h

theorem close_caught {h : Handle ι Path} {u : Option (Handle ι Path)}
    (hu : ∀ k, none ≠ some k → k = h ∨ u ≠ some k) :
    WaitTriple cfg g p c (Has p h u) (perform (.close h))
      (fun _ => Stands p none none (h.serial + 1))
      fun _ => Stands p none none (h.serial + 1) := by
  intro w hw hs
  exact close_waits hs.2.1 hu w hw hs.1

theorem fits_innerLock {self : PidFileLock} {timeout checkInterval : Option Rat}
    {failWhenLocked : Bool} (hobject : cfg.object p = .pidFileLock self) :
    Fits (cfg.object p) (self.innerLock timeout checkInterval failWhenLocked) := by
  rw [hobject]
  exact ⟨fun _ hp => Option.some.inj hp, rfl⟩

theorem fits_slotLock {sem : BoundedSemaphore} {path : Path}
    (hobject : cfg.object p = .boundedSemaphore sem) :
    Fits (cfg.object p) (BoundedSemaphore.slotLock path) := by
  rw [hobject]
  refine ⟨fun path hp => ?_, rfl⟩
  cases hp

variable (hquiet : DropsQuiet cfg)
include hquiet

/-- `acquire` with a file it has just opened: the file is stored, or given up. -/
theorem acquireOpened_waits (self : Lock) (timeout checkInterval : Rat) (failWhenLocked : Bool)
    {h : Handle ι Path} (ho : h.owner = p) (hfits : Fits (cfg.object p) self)
    (hpath : h.path = self.filename) :
    WaitTriple cfg g p c (Has p h none) (self.acquireOpened timeout checkInterval failWhenLocked h)
      (fun h => Stands p (some h) (some h) 0) fun _ => Stands p none none 0 := by
  have hhas : ∀ {w : World ι}, Has p h none w → Stands p none (some h) (h.serial + 1) w :=
    fun hs => hs.1.weaken _
  have hpause : ∀ {o : Op ι}, Calm p o →
      WaitTriple cfg g p c (Has p h none) (perform o) (fun _ => Has p h none)
        fun _ => Stands p none (some h) (h.serial + 1) := fun ho =>
    (calm_code (.call ho) Has.calmly).conseq (fun _ _ hs => hs) (fun _ _ _ hs => hs)
      fun _ _ _ hs => hhas hs
  refine acquireOpened_rule (N := Has p h none) (L := Has p h (some h))
    (T := fun _ => Has p h none) (G := fun _ => Stands p none none (h.serial + 1))
    (D := fun _ => Stands p none (some h) (h.serial + 1))
    (posixLock_flags_rule (flock_waits h hfits.2) (fun _ _ _ hs => hs) fun _ _ hs => hs)
    (fun _ => (close_caught (gone_of_eq h)).conseq (fun _ _ hs => ⟨hhas hs, hs.2⟩)
      (fun _ _ _ hs => hs) fun e _ _ hs => ?_)
    (fun _ _ _ _ _ hs => hs.weaken _) (fun _ _ _ _ hs => hhas hs) (fun _ _ _ _ hs => hs)
    (fun _ _ => hpause trivial) (fun _ _ _ => hpause trivial) ?_ ?_ fun _ => ?_
  · unfold Caught
    split
    · exact hs
    · exact hs.weaken _
  · have hwithin : Code.Within (Calm p) (self.prepareFh h) := by
      unfold Lock.prepareFh
      exact .ite (.step ho fun _ => .call ho) (.pure _)
    exact (calm_code hwithin Has.calmly).conseq (fun _ _ hs => hs) (fun _ _ _ hs => hs)
      fun _ _ _ hs => hs.1
  · exact (setFh_waits h fun path hp => hpath.trans (hfits.1 path hp)).conseq (fun _ _ hs => hs)
      (fun _ _ _ hs => hs) fun _ _ _ hs => hs.1
  · exact (drop_waits hquiet ho (Nat.lt_succ_self _) (by simp) (gone_of_eq h)).conseq
      (fun _ _ hs => hs) (fun _ _ _ hs => ⟨hs.1, hs.2.1, Nat.zero_le _⟩) fun _ _ _ hs => hs

/-- `Lock.acquire`. -/
theorem lockAcquire_waits (self : Lock) (hfits : Fits (cfg.object p) self)
    (timeout checkInterval : Option Rat) (failWhenLocked : Option Bool) :
    WaitTriple cfg g p c (Rest p) (self.acquire timeout checkInterval failWhenLocked)
      (fun h => Stands p (some h) (some h) 0) fun _ => Rest p := by
  refine Hoare.bind fh_waits fun v => ?_
  cases v with
  | some h => exact Hoare.pure fun _ _ hs => hs
  | none =>
      dsimp only
      unfold Lock.getFh
      split
      · rename_i kind hkind
        have hopen : WaitTriple cfg g p c (Stands p none none 0)
            (perform (.openFile self.filename kind)) (fun h w =>
              (none ≠ some h ∧ h.path = self.filename) ∧ Stands p none none (h.serial + 1) w ∧
                Opened p h w) fun _ => Stands p none none 0 :=
          openFile_waits fun heq => openKind_ne_write self.mode_w (heq ▸ hkind)
        refine Hoare.bind (hopen.conseq (fun _ _ hs => hs) (fun _ _ _ hs => hs)
          fun _ _ _ hs => hs.rest) fun h => Hoare.of_fact fun hnew => ?_
        intro w hw hs
        exact ((acquireOpened_waits hquiet self _ _ _ hs.2.1 hfits hnew.2).conseq (fun _ _ hs => hs)
          (fun _ _ _ hs => hs) fun _ _ _ hs => hs.rest) w hw hs
      · exact Hoare.bind (Hoare.throw (Q := fun _ _ => False) fun _ _ hs => hs.rest) fun _ =>
          Hoare.of_false fun _ _ hs => hs

omit hquiet in
/-- `Lock.release`. -/
theorem lockRelease_waits (self : Lock) :
    WaitTriple cfg g p c (Rest p) self.release (fun _ => Stands p none none 0)
      fun _ => Rest p := by
  refine release_rule (Z := Stands p none none 0)
    (R := fun h w => h.owner = p ∧ Stands p (some h) (some h) 0 w)
    (U := fun h w => h.owner = p ∧ Stands p (some h) (some h) 0 w)
    (V := fun h => Stands p (some h) none 0) (I := fun _ => True) ?_ ?_ ?_ ?_
    (fun _ _ => trivial) fun _ _ _ _ hs => hs.rest
  · refine Hoare.of_post fh_waits fun v w hw hs => ?_
    cases v with
    | none => exact hs
    | some h => exact ⟨World.Wf.fh_owner hw.1 hs.1, hs⟩
  · intro h
    refine Hoare.of_fact fun ho => (unlock_waits ho).conseq (fun _ _ hs => hs)
      (fun _ _ _ hs => ⟨ho, hs⟩) fun e _ _ hs => ?_
    unfold Caught
    split
    · exact ⟨ho, hs⟩
    · exact ⟨trivial, ho, hs⟩
  · intro h
    refine Hoare.of_fact fun ho => (close_waits ho (gone_of_eq h)).conseq (fun _ _ hs => hs)
      (fun _ _ _ hs => hs) fun e _ _ hs => ?_
    unfold Caught
    split
    · exact hs
    · exact stands_of_eq hs
  · exact fun h => forget_waits.conseq (fun _ _ hs => hs) (fun _ _ _ hs => hs)
      fun _ _ _ hs => stands_of_eq hs

omit hquiet in
/-- Calm code with the file that is stored, if one is. -/
theorem stored_waits {x : Option (Handle ι Path) → Py ι Unit} (hnone : x none = pure ())
    (hx : ∀ h : Handle ι Path, h.owner = p → Code.Within (Calm p) (x (some h))) :
    WaitTriple cfg g p c (Rest p) (perform .fh >>= x) (fun _ => Rest p) fun _ => Rest p := by
  refine Hoare.bind fh_waits fun v => ?_
  cases v with
  | none =>
      rw [hnone]
      exact Hoare.pure fun _ _ hs => hs.rest
  | some h =>
      intro w hw hs
      have ho : h.owner = p := World.Wf.fh_owner hw.1 hs.1
      exact ((calm_stands (hx h ho)).conseq (fun _ _ hs => hs) (fun _ _ _ hs => hs.rest)
        fun _ _ _ hs => hs.rest) w hw hs

omit hquiet in
theorem lockWrite_waits (self : Lock) (bytes : List UInt8) :
    WaitTriple cfg g p c (Rest p) (self.write bytes) (fun _ => Rest p) fun _ => Rest p :=
  stored_waits rfl fun _ ho => .call ho

omit hquiet in
theorem lockFlush_waits :
    WaitTriple cfg g p c (Rest p) Lock.flush (fun _ => Rest p) fun _ => Rest p :=
  stored_waits rfl fun _ ho => .call ho

/-! ## `RLock` -/

theorem rLockAcquire_waits (self : RLock) (hfits : Fits (cfg.object p) self.toLock)
    (timeout checkInterval : Option Rat) (failWhenLocked : Option Bool) :
    WaitTriple cfg g p c (Rest p) (self.acquire timeout checkInterval failWhenLocked)
      (fun _ => Rest p) fun _ => Rest p := by
  have htake : WaitTriple cfg g p c (Rest p) (self.takeFh timeout checkInterval failWhenLocked)
      (fun _ => Rest p) fun _ => Rest p := by
    refine Hoare.bind (calm_rest (.call trivial)) fun count => ?_
    split
    · refine Hoare.bind fh_waits fun v => ?_
      cases v with
      | none => exact Hoare.throw fun _ _ hs => hs.rest
      | some h => exact Hoare.pure fun _ _ hs => hs.rest
    · exact (lockAcquire_waits hquiet self.toLock hfits _ _ _).of_post fun _ _ _ hs => hs.rest
  refine Hoare.bind htake fun h => Hoare.bind (calm_rest (.call trivial)) fun count => ?_
  exact Hoare.bind (calm_rest (.call trivial)) fun _ => Hoare.pure fun _ _ hs => hs

omit hquiet in
theorem rLockRelease_waits (self : RLock) :
    WaitTriple cfg g p c (Rest p) self.release (fun _ => Rest p) fun _ => Rest p := by
  have hlast : WaitTriple cfg g p c (Rest p) self.releaseLast (fun _ => Rest p)
      fun _ => Rest p := by
    refine Hoare.bind (calm_rest (.call trivial)) fun count => ?_
    split
    · exact (lockRelease_waits self.toLock).of_post fun _ _ _ hs => hs.rest
    · exact Hoare.pure fun _ _ hs => hs
  refine Hoare.bind (calm_rest (.call trivial)) fun count => ?_
  split
  · exact Hoare.throw fun _ _ hs => hs
  · exact Hoare.bind hlast fun _ => calm_rest (.step trivial fun _ => .call trivial)

/-! ## `TemporaryFileLock` -/

omit hquiet in
theorem unlinkIfPresent_calm (path : Path) :
    Code.Within (Calm p) (unlinkIfPresent path : Py ι Unit) :=
  .suppress (.call trivial)

/-- `_acquire_verified`, for any lock object. -/
theorem acquireVerified_waits (self : Lock) (hfits : Fits (cfg.object p) self) (filename : Path)
    (timeout checkInterval : Option Rat) (failWhenLocked : Option Bool) :
    WaitTriple cfg g p c (Rest p)
      (TemporaryFileLock.acquireVerified self filename timeout checkInterval failWhenLocked)
      (fun h => Stands p (some h) (some h) 0) fun _ => Rest p := by
  have hmatch : ∀ h : Handle ι Path, Code.Within (Calm p) (fhMatchesPath h filename) := fun h =>
    .tryCatch (.step trivial fun _ => .step trivial fun _ => .pure _) fun e =>
      .ite (.pure _) (.throw _)
  refine acquireVerified_rule (Z := Stands p none none 0)
    (M := fun h _ => Stands p (some h) (some h) 0)
    (lockAcquire_waits hquiet self hfits timeout checkInterval failWhenLocked)
    (fun h => (calm_stands (hmatch h)).conseq (fun _ _ hs => hs) (fun _ _ _ hs => hs)
      fun _ _ _ hs => hs.rest)
    (fun h => (lockRelease_waits self).of_pre fun _ _ hs => hs.rest) (fun _ _ hs => hs.rest)
    (fun _ _ hs => hs.rest) (fun _ => ?_) fun _ _ => ?_
  · exact Hoare.conseq (calm_stands (.call trivial)) (fun _ _ hs => hs) (fun _ _ _ hs => hs)
      fun _ _ _ hs => hs.rest
  · exact Hoare.conseq (calm_stands (.call trivial)) (fun _ _ hs => hs) (fun _ _ _ hs => hs)
      fun _ _ _ hs => hs.rest

theorem temporaryAcquire_waits (self : TemporaryFileLock)
    (hfits : Fits (cfg.object p) self.toLock) (timeout checkInterval : Option Rat)
    (failWhenLocked : Option Bool) :
    WaitTriple cfg g p c (Rest p) (self.acquire timeout checkInterval failWhenLocked)
      (fun _ => Rest p) fun _ => Rest p := by
  refine Hoare.bind (acquireVerified_waits hquiet self.toLock hfits self.filename _ _ _) fun h => ?_
  exact Hoare.of_pre (calm_rest (.step trivial fun _ => .pure _)) fun _ _ hs => hs.rest

omit hquiet in
theorem temporaryRelease_waits (self : TemporaryFileLock) :
    WaitTriple cfg g p c (Rest p) self.release (fun _ => Rest p) fun _ => Rest p := by
  have hrelease : WaitTriple cfg g p c (Rest p) self.toLock.release (fun _ => Rest p)
      fun _ => Rest p :=
    (lockRelease_waits self.toLock).of_post fun _ _ _ hs => hs.rest
  refine temporaryRelease_rule (Z := Rest p) (S := fun _ => Rest p) (U := fun _ => Rest p)
    (F := fun _ => Rest p) (fh_waits.of_post fun v _ _ hs => ?_)
    (fun _ => calm_rest (unlinkIfPresent_calm _)) (fun _ => hrelease) fun _ => hrelease
  cases v with
  | none => exact hs.rest
  | some h => exact hs.rest

/-! ## `PidFileLock` -/

omit hquiet in
/-- The content of the pid file is replaced. -/
theorem storePid_calm (self : PidFileLock) {q : Handle ι Path} (ho : q.owner = p) :
    Code.Within (Calm p) (self.storePid q) :=
  .step ho fun _ => .step ho fun _ => .step ho fun _ => .call ho

/-- `_write_pid`: its file is closed and given up. -/
theorem writePid_waits (self : PidFileLock) {v : Option (Handle ι Path)} :
    WaitTriple cfg g p c (Stands p v v 0) self.writePid (fun _ => Stands p v v 0)
      fun _ => Stands p v v 0 := by
  have hopen : WaitTriple cfg g p c (Stands p v v 0)
      (perform (.openFile self.filename .append)) (fun q w => v ≠ some q ∧
        Stands p v v (q.serial + 1) w ∧ Opened p q w) fun _ => Stands p v v 0 :=
    (openFile_waits (by simp)).of_post fun _ _ _ hs => ⟨hs.1.1, hs.2⟩
  refine Hoare.bind hopen fun q => Hoare.of_fact fun hq => ?_
  intro w hw hs
  have ho : q.owner = p := hs.2.1
  have hclose : WaitTriple cfg g p c (Stands p v v (q.serial + 1)) (perform (.close q))
      (fun _ => Stands p v v (q.serial + 1)) fun _ => Stands p v v (q.serial + 1) :=
    close_waits ho fun k hk => Or.inr hk
  have hstore : WaitTriple cfg g p c (Stands p v v (q.serial + 1)) (do
      self.storePid q
      tryCatch (perform (.fsync q)) fun e =>
        if e = .osError .EINVAL ∨ e = .osError .ENOTSUP then return () else throw e)
      (fun _ => Stands p v v (q.serial + 1)) fun _ => Stands p v v (q.serial + 1) :=
    calm_stands (.bind (storePid_calm self ho) fun _ =>
      .tryCatch (.call trivial) fun e => .ite (.pure _) (.throw _))
  have hfewer : ∀ {w : World ι}, Stands p v v (q.serial + 1) w → Stands p v v 0 w :=
    fun hs => ⟨hs.1, hs.2.1, Nat.zero_le _⟩
  have hdrop : WaitTriple cfg g p c (Stands p v v (q.serial + 1)) (perform (.drop q))
      (fun _ => Stands p v v (q.serial + 1)) fun _ => Stands p v v 0 :=
    drop_waits hquiet ho (Nat.lt_succ_self _) hq fun k hk => Or.inr hk
  refine Hoare.onRaise (F := fun _ => Stands p v v (q.serial + 1)) (Hoare.bind
    (Hoare.tryCatch hstore fun e => ?_) fun _ => hclose.of_post fun _ _ _ hs => hfewer hs)
    (fun e => hdrop.of_post fun _ _ _ hs => hfewer hs) w hw hs.1
  split
  · exact Hoare.bind (suppress_rule (hclose.conseq (fun _ _ hs => hs) (fun _ _ _ hs => hs)
      fun e _ _ hs => caught_same hs)) fun _ => Hoare.throw fun _ _ hs => hs
  · exact Hoare.throw fun _ _ hs => hs

omit hquiet in
/-- The fallback close of a rollback. -/
theorem closeLeftHandle_waits :
    WaitTriple cfg g p c (Rest p) PidFileLock.closeLeftHandle (fun _ => Rest p)
      fun _ => Rest p := by
  refine Hoare.bind fh_waits fun v => ?_
  cases v with
  | none => exact Hoare.pure fun _ _ hs => hs.rest
  | some h =>
      dsimp only
      intro w hw hs
      have ho : h.owner = p := World.Wf.fh_owner hw.1 hs.1
      have hclose : WaitTriple cfg g p c (Stands p (some h) (some h) 0) (perform (.close h))
          (fun _ => Stands p (some h) none 0) fun _ => Stands p (some h) none 0 :=
        close_waits ho (gone_of_eq h)
      have hforget : WaitTriple cfg g p c (Stands p (some h) none 0) (perform (.setFh none))
          (fun _ => Rest p) fun _ => Rest p :=
        forget_waits.conseq (fun _ _ hs => hs) (fun _ _ _ hs => hs.rest)
          fun _ _ _ hs => stands_of_eq hs
      refine Hoare.bind (R := fun _ => Rest p) (Q := fun _ => Rest p)
        (Hoare.withFinally (R := fun _ => Stands p (some h) none 0)
          (F := fun _ => Stands p (some h) none 0) ?_ (fun _ => hforget) fun _ => hforget)
        (fun _ => Hoare.pure fun _ _ hs => hs) w hw hs
      exact suppress_rule (hclose.conseq (fun _ _ hs => hs) (fun _ _ _ hs => hs)
        fun e _ _ hs => caught_same hs)

omit hquiet in
theorem rollback_waits (inner : Lock) :
    WaitTriple cfg g p c (Rest p) (PidFileLock.rollbackFailedAcquire inner) (fun _ => Rest p)
      fun _ => Rest p := by
  refine Hoare.bind (R := fun _ => Rest p) (suppress_rule ((lockRelease_waits inner).conseq
    (fun _ _ hs => hs) (fun _ _ _ hs => hs.rest) fun e _ _ hs => caught_same hs)) fun _ => ?_
  exact Hoare.bind closeLeftHandle_waits fun _ =>
    calm_rest (.step trivial fun _ => .call trivial)

theorem acquireSidecar_waits (self : PidFileLock) (hobject : cfg.object p = .pidFileLock self)
    (timeout checkInterval : Option Rat) (failWhenLocked : Bool) :
    WaitTriple cfg g p c (Rest p) (self.acquireSidecar timeout checkInterval failWhenLocked)
      (fun h => Stands p (some h) (some h) 0) fun _ => Rest p := by
  refine Hoare.tryCatch (acquireVerified_waits hquiet _ (fits_innerLock hobject) _ _ _ _)
    fun e => ?_
  split
  · exact Hoare.bind (calm_rest (.call trivial)) fun _ => Hoare.throw fun _ _ hs => hs
  · exact Hoare.throw fun _ _ hs => hs

/-- `PidFileLock.acquire` around the acquisition of the sidecar, which is another one on
Windows. -/
def pidAcquireWith (self : PidFileLock) (inner : Lock) (sidecar : Py ι (Handle ι Path)) :
    Py ι (Handle ι Path) :=
  Code.onRaise (do
    perform .discardLock
    perform (.setInnerLock true)
    let _ ← sidecar
    tryCatch self.writePid fun e =>
      if e.isException then do
        PidFileLock.rollbackFailedAcquire inner
        throw e
      else throw e
    perform (.setAcquiredLock true)
    match ← perform .fh with
    | none => throw .assertionError
    | some h =>
        perform .acquired
        return h) (do
    if ← perform .innerLock then return () else perform .discardLock)

theorem pidAcquireWith_waits (self : PidFileLock) (inner : Lock)
    {sidecar : Py ι (Handle ι Path)}
    (hsidecar : WaitTriple cfg g p c (Rest p) sidecar (fun h => Stands p (some h) (some h) 0)
      fun _ => Rest p) :
    WaitTriple cfg g p c (Rest p) (pidAcquireWith self inner sidecar)
      (fun _ => Rest p) fun _ => Rest p := by
  have hexit : WaitTriple cfg g p c (Rest p)
      (do if ← perform .innerLock then return () else perform .discardLock)
      (fun _ => Rest p) fun _ => Rest p := by
    refine Hoare.bind (calm_rest (.call trivial)) fun b => ?_
    split
    · exact Hoare.pure fun _ _ hs => hs
    · exact discardLock_waits.of_post fun _ _ _ hs => hs.rest
  refine Hoare.onRaise (F := fun _ => Rest p) ?_ fun _ => hexit
  refine Hoare.bind (discardLock_waits.of_post fun _ _ _ hs => hs.rest) fun _ =>
    Hoare.bind (calm_rest (.call trivial)) fun _ => ?_
  refine Hoare.bind hsidecar fun h => ?_
  refine Hoare.bind (R := fun _ => Rest p) (Hoare.tryCatch (F := fun _ => Rest p)
    ((writePid_waits hquiet self).conseq (fun _ _ hs => hs) (fun _ _ _ hs => hs.rest)
      fun _ _ _ hs => hs.rest) fun e => ?_) fun _ => ?_
  · split
    · exact Hoare.bind (rollback_waits _) fun _ => Hoare.throw fun _ _ hs => hs
    · exact Hoare.throw fun _ _ hs => hs
  · refine Hoare.bind (calm_rest (.call trivial)) fun _ => Hoare.bind fh_waits fun v => ?_
    cases v with
    | none => exact Hoare.throw fun _ _ hs => hs.rest
    | some h =>
        exact Hoare.of_pre (calm_rest (.step trivial fun _ => .pure _)) fun _ _ hs => hs.rest

/-- `PidFileLock.acquire`. -/
theorem pidAcquire_waits (self : PidFileLock) (hobject : cfg.object p = .pidFileLock self)
    (timeout checkInterval : Option Rat) (failWhenLocked : Option Bool) :
    WaitTriple cfg g p c (Rest p) (self.acquire timeout checkInterval failWhenLocked)
      (fun _ => Rest p) fun _ => Rest p :=
  pidAcquireWith_waits hquiet self _ (acquireSidecar_waits hquiet self hobject _ _ _)

omit hquiet in
/-- `PidFileLock.release`. -/
theorem pidRelease_waits (self : PidFileLock) :
    WaitTriple cfg g p c (Rest p) self.release (fun _ => Rest p) fun _ => Rest p := by
  have hcleanup : WaitTriple cfg g p c (Rest p) (do
      perform (.setInnerLock false)
      Code.suppress Exc.isException self.heldLock.release)
      (fun _ => Rest p) fun _ => Rest p := by
    refine Hoare.bind (calm_rest (.call trivial)) fun _ => suppress_rule
      ((lockRelease_waits self.heldLock).conseq (fun _ _ hs => hs) (fun _ _ _ hs => hs.rest)
        fun e _ _ hs => caught_same hs)
  refine Hoare.bind (calm_rest (.call trivial)) fun b => ?_
  split
  · refine Hoare.bind (R := fun _ => Rest p) (Hoare.withFinally (R := fun _ => Rest p)
      (F := fun _ => Rest p) (calm_rest (.bind (unlinkIfPresent_calm _) fun _ =>
        unlinkIfPresent_calm _)) (fun _ => hcleanup) fun _ => hcleanup) fun _ =>
          Hoare.pure fun _ _ hs => hs
  · exact Hoare.pure fun _ _ hs => hs

omit hquiet in
/-- `read_pid`: a file that is only read. -/
theorem readPid_waits (self : PidFileLock) :
    WaitTriple cfg g p c (Rest p) self.readPid (fun _ => Rest p) fun _ => Rest p := by
  have hread : ∀ f : Handle ι Path, f.owner = p → ∀ v : Option (Handle ι Path),
      WaitTriple cfg g p c (Stands p v v 0)
        (Code.withFinally (perform (.read f)) (perform (.close f))) (fun _ => Rest p)
        fun _ => Rest p := by
    intro f ho v
    have hclose : WaitTriple cfg g p c (Stands p v v 0) (perform (.close f))
        (fun _ => Rest p) fun _ => Rest p :=
      (close_waits ho fun k hk => Or.inr hk).conseq (fun _ _ hs => hs) (fun _ _ _ hs => hs.rest)
        fun _ _ _ hs => hs.rest
    exact Hoare.withFinally (R := fun _ => Stands p v v 0) (F := fun _ => Stands p v v 0)
      (calm_stands (.call trivial)) (fun _ => hclose) fun _ => hclose
  refine Hoare.bind (calm_rest (.call trivial)) fun _ => Hoare.bind (R := fun _ => Rest p)
    (Hoare.tryCatch (F := fun _ => Rest p) (Hoare.bind (calm_rest (.call trivial)) fun b => ?_)
      fun e => ?_) fun answer => calm_rest (.step trivial fun _ => .pure _)
  · split
    · intro w hw hs
      refine Hoare.bind ((openFile_waits (by simp)).conseq (fun _ _ hs => hs) (fun _ _ _ hs => hs)
        fun _ _ _ hs => hs.rest) (fun f => Hoare.of_fact fun _ => ?_) w hw hs.stands
      intro w hw hs
      refine Hoare.bind (R := fun _ => Rest p) (hread f hs.2.1 _) (fun answer => ?_) w hw
        ⟨hs.1.1, hs.1.2.1, Nat.zero_le _⟩
      exact Hoare.pure fun _ _ hs => hs
    · exact Hoare.pure fun _ _ hs => hs
  · split
    · exact Hoare.pure fun _ _ hs => hs
    · exact Hoare.throw fun _ _ hs => hs

theorem enter_waits (self : PidFileLock) (hobject : cfg.object p = .pidFileLock self) :
    WaitTriple cfg g p c (Rest p) self.enter (fun _ => Rest p) fun _ => Rest p := by
  refine Hoare.tryCatch (Hoare.bind (pidAcquire_waits hquiet self hobject _ _ _) fun _ =>
    Hoare.pure fun _ _ hs => hs) fun e => ?_
  split
  · exact readPid_waits self
  · exact Hoare.throw fun _ _ hs => hs

omit hquiet in
theorem exit_waits (self : PidFileLock) :
    WaitTriple cfg g p c (Rest p) self.exit (fun _ => Rest p) fun _ => Rest p := by
  refine Hoare.bind (calm_rest (.call trivial)) fun b => ?_
  split
  · exact Hoare.bind (pidRelease_waits self) fun _ => calm_rest (.call trivial)
  · exact Hoare.pure fun _ _ hs => hs

/-! ## `BoundedSemaphore` -/

theorem tryLock_waits {sem : BoundedSemaphore} (hobject : cfg.object p = .boundedSemaphore sem)
    (paths : List Path) :
    WaitTriple cfg g p c (Rest p) (BoundedSemaphore.tryLock paths) (fun _ => Rest p)
      fun _ => Rest p := by
  induction paths with
  | nil => exact Hoare.pure fun _ _ hs => hs
  | cons path rest ih =>
      have hslot : WaitTriple cfg g p c (Rest p) (BoundedSemaphore.trySlot path) (fun _ => Rest p)
          fun _ => Rest p := by
        refine Hoare.tryCatch (Hoare.bind (lockAcquire_waits hquiet _ (fits_slotLock hobject) _ _ _)
          fun _ => Hoare.pure fun _ _ hs => hs.rest) fun e => ?_
        split
        · exact Hoare.pure fun _ _ hs => hs
        · split
          · exact Hoare.bind (calm_rest (.call trivial)) fun _ => Hoare.throw fun _ _ hs => hs
          · exact Hoare.throw fun _ _ hs => hs
      refine Hoare.bind (discardLock_waits.of_post fun _ _ _ hs => hs.rest) fun _ =>
        Hoare.bind hslot fun b => ?_
      split
      · exact calm_rest (.step trivial fun _ => .pure _)
      · exact ih

theorem semaphoreAcquire_waits (self : BoundedSemaphore)
    (hobject : cfg.object p = .boundedSemaphore self) (timeout checkInterval : Option Rat)
    (failWhenLocked : Option Bool) :
    WaitTriple cfg g p c (Rest p) (self.acquire timeout checkInterval failWhenLocked)
      (fun _ => Rest p) fun _ => Rest p := by
  refine Hoare.bind (calm_rest (.call trivial)) fun b => ?_
  split
  · exact Hoare.throw fun _ _ hs => hs
  · refine Hoare.bind (R := Ends (fun _ => Rest p) fun _ => Rest p) (timeoutGenerator_rule
      (Hoare.bind (tryLock_waits hquiet hobject _) fun taken => ?_) (fun _ _ _ hs => hs)
      (fun _ => calm_rest (.call trivial)) fun _ _ => calm_rest (.call trivial)) fun outcome => ?_
    · cases taken with
      | true => exact Hoare.pure fun _ _ hs => hs
      | false => exact Hoare.pure fun _ _ hs => hs
    · cases outcome with
      | ok _ => exact calm_rest (.step trivial fun _ => .pure _)
      | error e =>
          dsimp only
          split
          · exact Hoare.throw fun _ _ hs => hs
          · exact Hoare.pure fun _ _ hs => hs

omit hquiet in
theorem semaphoreRelease_waits :
    WaitTriple cfg g p c (Rest p) BoundedSemaphore.release (fun _ => Rest p) fun _ => Rest p := by
  refine Hoare.bind (calm_rest (.call trivial)) fun b => ?_
  split
  · exact Hoare.bind (lockRelease_waits _) fun _ =>
      Hoare.of_pre (calm_rest (.call trivial)) fun _ _ hs => hs.rest
  · exact Hoare.pure fun _ _ hs => hs

end Code

/-! ## All calls -/

/-- Every instance of every class keeps the contract, whatever its operations raise. -/
theorem waiting_verified {cfg : Config ι} {g : Guard (machine cfg)} (hquiet : DropsQuiet cfg) :
    (waitingContract cfg g).toDiscipline.Verified := by
  intro p (c : Call) w hw (hidle : Rest p w) _
  have hstable : ((waitingContract cfg g).ctx p c).Stable (Rest p) := inferInstance
  have hcall : ∀ {α : Type} {x : Py ι α}, WaitTriple cfg g p c (Rest p) x (fun _ => Rest p)
      (fun _ => Rest p) → ((waitingContract cfg g).ctx p c).Safe x.toCall (fun _ => Rest p) w :=
    fun h => Hoare.toCall hstable h hw hidle
  have hnothing : ((waitingContract cfg g).ctx p c).Safe (.ret ()) (fun _ => Rest p) w :=
    fun w' hw' hr => hstable.keep hw hw' hr hidle
  have hacquire : ∀ (self : Lock) timeout checkInterval b, cfg.object p = .lock self →
      WaitTriple cfg g p c (Rest p) (self.acquire timeout checkInterval b) (fun _ => Rest p)
        fun _ => Rest p := by
    intro self timeout checkInterval b hobject
    have hfits : Fits (cfg.object p) self := by
      rw [hobject]
      exact ⟨fun _ hp => Option.some.inj hp, rfl⟩
    exact (lockAcquire_waits hquiet self hfits _ _ _).of_post fun _ _ _ hs => hs.rest
  have hrelease : ∀ self : Lock, WaitTriple cfg g p c (Rest p) self.release (fun _ => Rest p)
      fun _ => Rest p :=
    fun self => (lockRelease_waits self).of_post fun _ _ _ hs => hs.rest
  cases hobject : cfg.object p with
  | lock self =>
      simp only [machine, hobject]
      cases c with
      | acquire timeout checkInterval b => exact hcall (hacquire self _ _ _ hobject)
      | enter => exact hcall (hacquire self _ _ _ hobject)
      | release | exit => exact hcall (hrelease self)
      | write bytes => exact hcall (lockWrite_waits self bytes)
      | flush => exact hcall lockFlush_waits
      | readPid => exact hnothing
  | rLock self =>
      have hfits : Fits (cfg.object p) self.toLock := by
        rw [hobject]
        exact ⟨fun _ hp => Option.some.inj hp, rfl⟩
      simp only [machine, hobject]
      cases c with
      | acquire timeout checkInterval b => exact hcall (rLockAcquire_waits hquiet self hfits _ _ _)
      | enter => exact hcall (rLockAcquire_waits hquiet self hfits _ _ _)
      | release | exit => exact hcall (rLockRelease_waits self)
      | write bytes => exact hcall (lockWrite_waits self.toLock bytes)
      | flush => exact hcall lockFlush_waits
      | readPid => exact hnothing
  | temporaryFileLock self =>
      have hfits : Fits (cfg.object p) self.toLock := by
        rw [hobject]
        exact ⟨fun _ hp => Option.some.inj hp, rfl⟩
      simp only [machine, hobject]
      cases c with
      | acquire timeout checkInterval b =>
          exact hcall (temporaryAcquire_waits hquiet self hfits _ _ _)
      | enter => exact hcall (temporaryAcquire_waits hquiet self hfits _ _ _)
      | release | exit => exact hcall (temporaryRelease_waits self)
      | write | flush | readPid => exact hnothing
  | pidFileLock self =>
      simp only [machine, hobject]
      cases c with
      | acquire timeout checkInterval b => exact hcall (pidAcquire_waits hquiet self hobject _ _ _)
      | enter => exact hcall (enter_waits hquiet self hobject)
      | release => exact hcall (pidRelease_waits self)
      | exit => exact hcall (exit_waits self)
      | readPid => exact hcall (readPid_waits self)
      | write | flush => exact hnothing
  | boundedSemaphore self =>
      simp only [machine, hobject]
      cases c with
      | acquire timeout checkInterval b =>
          exact hcall (semaphoreAcquire_waits hquiet self hobject _ _ _)
      | enter => exact hcall (semaphoreAcquire_waits hquiet self hobject _ _ _)
      | release | exit => exact hcall semaphoreRelease_waits
      | write | flush | readPid => exact hnothing

/-! ## Whoever is stuck -/

section Stuck

variable {cfg : Config ι} {p : ι} {w : World ι}

/-- Only a system call that waits for a lock waits. -/
theorem flock_of_waits {c : Call} {o : Op ι} (hfresh : ∃ bound, ∀ i, bound ≤ i → w.links i = none)
    (h : (machine cfg).Waits p c w o) :
    ∃ f flags mode, o = .flock f flags ∧ flags.mode = some mode ∧ flags.nonBlocking = false ∧
      w.Conflicts f mode := by
  obtain ⟨bound, hbound⟩ := hfresh
  obtain ⟨i, hi⟩ := Infinite.exists_notMem_finset
    (Finset.range bound ∪ (w.opened.map Handle.ino).toFinset)
  simp only [Finset.mem_union, Finset.mem_range, List.mem_toFinset, List.mem_map, not_or, not_lt,
    not_exists, not_and] at hi
  have hnew : w.Fresh i := ⟨hbound i hi.1, hi.2⟩
  have hact : cfg.act { ino := i } p w o = none := h { ino := i }
  cases o with
  | flock f flags =>
      simp only [Config.act, Config.onOpen] at hact
      split at hact
      · split at hact
        · cases hact
        · rename_i mode hmode
          split at hact
          · split at hact
            · cases hact
            · rename_i hconflicts hblocking
              exact ⟨f, flags, mode, rfl, hmode, Bool.eq_false_iff.2 hblocking, hconflicts⟩
          · cases hact
      · cases hact
  | openFile path kind =>
      simp only [Config.act] at hact
      split at hact
      · split at hact <;> cases hact
      · split at hact
        · cases hact
        · rw [if_pos hnew] at hact
          cases hact
  | unlock f | seek f | truncate f | flush f | fsync f | read f | fstat f | write f =>
      simp only [Config.act, Config.onOpen] at hact
      split at hact
      · simp at hact
      · cases hact
  | close f =>
      simp only [Config.act] at hact
      split at hact <;> cases hact
  | stat path | unlink path =>
      simp only [Config.act] at hact
      split at hact <;> cases hact
  | attempts timeout => simp [Config.act] at hact
  | _ => cases hact

/-- And that it does while the lock conflicts, unless something may interrupt it. -/
theorem waits_of_conflicts {c : Call} {f : Handle ι Path} {flags : LockFlags} {mode : LockMode}
    (hopen : f ∈ w.opened) (hmode : flags.mode = some mode) (hblocking : flags.nonBlocking = false)
    (hconflicts : w.Conflicts f mode) (hquiet : ∀ e, cfg.mayRaise c (.flock f flags) e = false) :
    (machine cfg).Waits p c w (.flock f flags) := by
  intro choice
  change cfg.performOp choice p c w (.flock f flags) = none
  unfold Config.performOp
  split
  · simp [Config.act, Config.onOpen, hopen, hmode, hconflicts, hblocking]
  · simp [hquiet]

/-- What holds in every run, whatever fails. -/
theorem waiting_holds (hquiet : DropsQuiet cfg) {s : (machine cfg).State}
    (hs : Reach Unclaimed (Guard.free (machine cfg)) s) :
    (waitingContract cfg (Guard.free (machine cfg))).toDiscipline.Holds s :=
  (waiting_verified hquiet).sound
    (fun _ h0 => ⟨⟨h0.wf, h0.fresh, Unclaimed.faithful h0⟩, fun _ k _ _ _ => h0.unlocked k⟩) hs

/-- A client that is stuck has no lock that it has not given up. -/
theorem stuck_waits (hquiet : DropsQuiet cfg) {s : (machine cfg).State}
    (hs : Reach Unclaimed (Guard.free (machine cfg)) s) (hstuck : Stuck s p) :
    LocksOnly p none (files s) ∧
    ∃ c f flags mode k, s.thread p = some (c, .op (.flock f flags) k) ∧
      flags.mode = some mode ∧ flags.nonBlocking = false ∧ (files s).Conflicts f mode := by
  have hhold := waiting_holds hquiet hs
  obtain ⟨c, o, k, hthread, hwaits⟩ := (stuck_iff hs).1 hstuck
  obtain ⟨f, flags, mode, rfl, hflock⟩ := flock_of_waits hhold.1.2.1 hwaits
  exact ⟨(hhold.permitted hthread).2.1, c, f, flags, mode, k, hthread, hflock⟩

/-- No deadlock.  A client that is stuck has no lock itself, except one it has given up, and
is held up in the system call by locked files on the same inode; and each of these has been
given up and can be finalized, or belongs to another client, which stores it between two
calls or can go on in the middle of one. -/
theorem no_deadlock (hquiet : DropsQuiet cfg) {s : (machine cfg).State}
    (hs : Reach Unclaimed (Guard.free (machine cfg)) s) (hstuck : Stuck s p) :
    LocksOnly p none (files s) ∧
    ∃ c f flags mode k, s.thread p = some (c, .op (.flock f flags) k) ∧
      flags.mode = some mode ∧ flags.nonBlocking = false ∧ (files s).Conflicts f mode ∧
      ∀ h, h ≠ f → h.ino = f.ino → (files s).lock h ≠ none →
        (∃ s', next s (.event (Finalize.mk h)) = some s') ∨
        (h.owner ≠ p ∧ s.thread h.owner = none ∧ (files s).fh h.owner = some h) ∨
        (h.owner ≠ p ∧ ∃ choice s', next s (.op h.owner choice) = some s') := by
  have hhold := waiting_holds hquiet hs
  have hw : World.Wf (files s) := hhold.1.1
  obtain ⟨honly, c, f, flags, mode, k, hthread, hmode, hblocking, hconflicts⟩ :=
    stuck_waits hquiet hs hstuck
  refine ⟨honly, c, f, flags, mode, k, hthread, hmode, hblocking, hconflicts, ?_⟩
  intro h _ _ hlock
  obtain ⟨m, hm⟩ := Option.ne_none_iff_exists'.1 hlock
  have hopen := hw.fs.opened_of_lock hm
  cases hdropped : (files s).dropped h with
  | true =>
      refine Or.inl ?_
      simp [next, machine, Config.finalize, hopen, hdropped]
  | false =>
      have hother : h.owner ≠ p := fun ho => hlock (honly h ho hdropped (by simp))
      refine Or.inr ?_
      rcases idle_or_stuck_or_steps s h.owner with hidle | hstuck' | hsteps
      · have hrest : Rest h.owner (files s) := hhold.idle hidle
        have hstored := Classical.byContradiction fun hne => hlock (hrest h rfl hdropped hne)
        exact Or.inl ⟨hother, hidle, hstored⟩
      · exact absurd ((stuck_waits hquiet hs hstuck').1 h rfl hdropped (by simp)) hlock
      · exact Or.inr ⟨hother, hsteps⟩

end Stuck

/-- Two `Lock`s on one file that wait for each other; nothing fails. -/
def twoBlocking : Config Bool where
  object _ := .lock { filename := ['f'], flags := ⟨true, false, false⟩ }
  mayRaise _ _ _ := false

/-- One of them acquires, and then the other one tries to. -/
def twoBlocking.labels : List (machine twoBlocking).Label :=
  .call true (.acquire none none none) :: List.replicate 4 (.op true {}) ++
    .call false (.acquire none none none) :: List.replicate 2 (.op false {})

/-- The file a client is about to lock. -/
def twoBlocking.locking : (machine twoBlocking).Thread → Option (Handle Bool Path × LockFlags)
  | some (_, .op (.flock f flags) _) => some (f, flags)
  | _ => none

theorem twoBlocking.locking_eq_some {t : (machine twoBlocking).Thread} {f : Handle Bool Path}
    {flags : LockFlags} (h : twoBlocking.locking t = some (f, flags)) :
    ∃ c k, t = some (c, .op (.flock f flags) k) := by
  unfold twoBlocking.locking at h
  split at h
  · obtain ⟨rfl, rfl⟩ := Prod.mk.inj (Option.some.inj h)
    exact ⟨_, _, rfl⟩
  · cases h

/-- The second one is stuck, and the first one, which has the lock, is idle. -/
theorem no_deadlock_run :
    ∃ s, run twoBlocking.labels ⟨World.empty, fun _ => none⟩ = some s ∧ Stuck s false ∧
      ∃ h, h.owner = true ∧ s.thread true = none ∧ (files s).fh true = some h ∧
        (files s).lock h ≠ none := by
  have hobserve : (run twoBlocking.labels ⟨World.empty, fun _ => none⟩).bind (fun s =>
      (twoBlocking.locking (s.thread false)).map fun locking => (locking,
        decide (locking.1 ∈ (files s).opened), decide ((files s).Conflicts locking.1 .exclusive),
        (s.thread true).map Prod.fst, (files s).opened.map (files s).dropped)) =
      some ((⟨false, 0, ['f'], 0⟩, ⟨true, false, false⟩), true, true, none, [false, false]) := by
    rfl
  obtain ⟨s, hrun, hrest⟩ := Option.bind_eq_some_iff.1 hobserve
  obtain ⟨⟨f, flags⟩, hlocking, hs⟩ := Option.map_eq_some_iff.1 hrest
  obtain ⟨hlocking', hs⟩ := Prod.mk.inj hs
  obtain ⟨hopen, hs⟩ := Prod.mk.inj hs
  obtain ⟨hconflicts, hs⟩ := Prod.mk.inj hs
  obtain ⟨hidle, hdropped⟩ := Prod.mk.inj hs
  obtain ⟨rfl, rfl⟩ := Prod.mk.inj hlocking'
  obtain ⟨c, k, hthread⟩ := twoBlocking.locking_eq_some hlocking
  have hreach := (Reach.start (g := Guard.free (machine twoBlocking)) empty_unclaimed).run hrun
  have hwaits : (machine twoBlocking).Waits false c (files s)
      (.flock ⟨false, 0, ['f'], 0⟩ ⟨true, false, false⟩) :=
    waits_of_conflicts (of_decide_eq_true hopen) rfl rfl
      (of_decide_eq_true hconflicts) fun _ => rfl
  have hstuck : Stuck s false := (stuck_iff hreach).2 ⟨c, _, k, hthread, hwaits⟩
  obtain ⟨-, c', f', flags', mode, k', hthread', -, -, ⟨h, hmem, hne, hino, m, hm, -⟩, hholders⟩ :=
    no_deadlock (fun _ _ _ => rfl) hreach hstuck
  have hlocked : (files s).lock h ≠ none := by
    rw [Option.mem_def.1 hm]
    exact Option.some_ne_none m
  have hkept : (files s).dropped h = false := by
    have hin : (files s).dropped h ∈ (files s).opened.map (files s).dropped :=
      List.mem_map_of_mem hmem
    rw [hdropped] at hin
    simpa using hin
  have hidle' : s.thread true = none := Option.map_eq_none_iff.1 hidle
  rcases hholders h hne hino hlocked with ⟨s', hevent⟩ | ⟨hother, -, hfh⟩ | ⟨hother, _, s', hstep⟩
  · obtain ⟨-, hd, -⟩ := Config.finalize_cases (next_event hevent).1
    exact absurd (hkept.symm.trans hd) (by simp)
  · have howner : h.owner = true := by simpa using hother
    exact ⟨s, hrun, hstuck, h, howner, hidle', howner ▸ hfh, hlocked⟩
  · have howner : h.owner = true := by simpa using hother
    obtain ⟨_, _, _, _, hthread, -⟩ := next_op hstep
    rw [howner, hidle'] at hthread
    cases hthread

end Waiting

end Portalocker
