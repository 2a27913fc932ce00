import Portalocker.Foundation.History
import Portalocker.Utils.Attempts
import Portalocker.Utils.Exclusion
set_option autoImplicit false
set_option linter.unusedSectionVars false

/-!
# `TemporaryFileLock` and `PidFileLock` on Windows

The branches `os.name == 'nt'` of `utils.py`, and the file system below them: a file that
is open cannot be unlinked.  So `release` lets go of its lock first and removes the files
afterwards.  Everything else is the code of `Utils/PidFileLock.lean`; a lock somebody else
has is refused by the Windows lockers (`Windows/Lockers.lean`) and by the POSIX one alike.
-/

namespace Portalocker.Nt

open Posix Interleaving

variable {ι : Type}

/-- `_acquire_verified`: a locked file cannot be swapped, so the first handle is the
answer. -/
def acquireVerified (lock : Lock) (timeout checkInterval : Option Rat)
    (failWhenLocked : Option Bool) : Py ι (Handle ι Path) := do
  match ← timeoutGenerator (timeout.getD lock.timeout) (checkInterval.getD lock.checkInterval) (do
    let h ← lock.acquire timeout checkInterval failWhenLocked
    return .ok h) with
  | .ok h => return h
  | .error e => throw e

/-! ## `TemporaryFileLock` -/

/-- `except PermissionError` catches it. -/
def isPermissionError (e : Exc) : Bool :=
  e = .osError .EACCES ∨ e = .osError (.other 1)

/-- The loop around `os.unlink`: attempt `i` of `remaining` more, after each of which a
scanner that has the file open gets some time to close it. -/
def unlinkRetrying (path : Path) : Nat → Nat → Py ι Unit
  | 0, _ => return ()
  | remaining + 1, i =>
      tryCatch (perform (.unlink path)) fun e =>
        if isPermissionError e then do
          perform (.sleep i (1 / 20))
          unlinkRetrying path remaining (i + 1)
        else if e.isFileNotFound then return ()
        else throw e

/-- `TemporaryFileLock.acquire`. -/
def TemporaryFileLock.acquire (self : TemporaryFileLock) (timeout checkInterval : Option Rat)
    (failWhenLocked : Option Bool) : Py ι (Handle ι Path) := do
  let h ← acquireVerified self.toLock timeout checkInterval failWhenLocked
  perform .acquired
  return h

/-- `TemporaryFileLock.release`: unlock and close, then unlink. -/
def TemporaryFileLock.release (self : TemporaryFileLock) : Py ι Unit := do
  match ← perform .fh with
  | none => return ()
  | some _ => do
      self.toLock.release
      if ← perform (.pathExists self.filename) then unlinkRetrying self.filename 5 0
      else return ()

/-! ## `PidFileLock` -/

/-- The sidecar part of `acquire`. -/
def PidFileLock.acquireSidecar (self : PidFileLock) (timeout checkInterval : Option Rat)
    (failWhenLocked : Bool) : Py ι (Handle ι Path) :=
  tryCatch (acquireVerified (self.innerLock timeout checkInterval failWhenLocked)
      timeout checkInterval (some failWhenLocked)) fun e =>
    if e.isException then do
      perform (.setInnerLock false)
      throw (if e = .lockException then .alreadyLocked else e)
    else throw e

/-- `PidFileLock.acquire`. -/
def PidFileLock.acquire (self : PidFileLock) (timeout checkInterval : Option Rat)
    (failWhenLocked : Option Bool) : Py ι (Handle ι Path) := do
  let failWhenLocked := failWhenLocked.getD self.failWhenLocked
  Code.onRaise (do
    perform .discardLock
    perform (.setInnerLock true)
    let _ ← PidFileLock.acquireSidecar self timeout checkInterval failWhenLocked
    tryCatch self.writePid fun e =>
      if e.isException then do
        PidFileLock.rollbackFailedAcquire (self.innerLock timeout checkInterval failWhenLocked)
        throw e
      else throw e
    perform (.setAcquiredLock true)
    match ← perform .fh with
    | none => throw .assertionError
    | some h =>
        perform .acquired
        return h) (do
    if ← perform .innerLock then return () else perform .discardLock)

/-- The part of `release` that follows the unlock: both files are removed, whatever
becomes of either. -/
def PidFileLock.removeFiles (self : PidFileLock) : Py ι Unit := do
  Code.suppress Exc.isException (perform (.unlink self.filename))
  Code.suppress Exc.isException (do
    if ← perform (.pathExists self.lockfile) then perform (.unlink self.lockfile) else return ())

/-- `PidFileLock.release`: unlock and close the sidecar, then remove both files. -/
def PidFileLock.release (self : PidFileLock) : Py ι Unit := do
  if ← perform .innerLock then do
    perform (.setInnerLock false)
    Code.suppress Exc.isException self.heldLock.release
    PidFileLock.removeFiles self
  else return ()

/-- `PidFileLock.__enter__`. -/
def PidFileLock.enter (self : PidFileLock) : Py ι (Option Int) :=
  tryCatch (do
    let _ ← PidFileLock.acquire self none none none
    return none) fun e =>
      if e = .alreadyLocked then self.readPid else throw e

/-- `PidFileLock.__exit__`. -/
def PidFileLock.exit (self : PidFileLock) : Py ι Unit := do
  if ← perform .acquiredLock then do
    PidFileLock.release self
    perform (.setAcquiredLock false)
  else return ()

/-- The code of a call; the other lock classes have no code of their own for Windows. -/
def call : Instance → Call → Program (Op ι) (fun o => Except Exc (Val o)) Unit
  | .temporaryFileLock self, .acquire timeout checkInterval failWhenLocked =>
      (TemporaryFileLock.acquire self timeout checkInterval failWhenLocked).toCall
  | .temporaryFileLock self, .enter => (TemporaryFileLock.acquire self none none none).toCall
  | .temporaryFileLock self, .release => (TemporaryFileLock.release self).toCall
  | .temporaryFileLock self, .exit => (TemporaryFileLock.release self).toCall
  | .pidFileLock self, .acquire timeout checkInterval failWhenLocked =>
      (PidFileLock.acquire self timeout checkInterval failWhenLocked).toCall
  | .pidFileLock self, .enter => (PidFileLock.enter self).toCall
  | .pidFileLock self, .release => (PidFileLock.release self).toCall
  | .pidFileLock self, .exit => (PidFileLock.exit self).toCall
  | object, c => object.call c

/-! ## The file system -/

section Machine

variable [DecidableEq ι]

/-- The file at the path is open. -/
def InUse (w : World ι) (path : Path) : Prop :=
  ∃ h ∈ w.opened, w.names path = some h.ino

instance (w : World ι) (path : Path) : Decidable (InUse w path) :=
  inferInstanceAs (Decidable (∃ h ∈ w.opened, w.names path = some h.ino))

/-- The effect of an operation: a file that is open cannot be unlinked. -/
def act (cfg : Config ι) (choice : Choice) (p : ι) (w : World ι) :
    (o : Op ι) → Option (Except Exc (Val o) × World ι)
  | .unlink path =>
      if InUse w path then some (.error (.osError .EACCES), w)
      else cfg.act choice p w (.unlink path)
  | o => cfg.act choice p w o

/-- Perform an operation: it takes effect or raises an exception that the
configuration allows there. -/
def performOp (cfg : Config ι) (choice : Choice) (p : ι) (c : Call) (w : World ι) (o : Op ι) :
    Option (Except Exc (Val o) × World ι) :=
  match choice.fault with
  | none => act cfg choice p w o
  | some e => if cfg.mayRaise c o e then some (.error e, Config.afterFault w o) else none

/-- Any number of instances on one file system. -/
def machine (cfg : Config ι) : Machine ι where
  World := World ι
  Op := Op ι
  Res := fun o => Except Exc (Val o)
  Call := Call
  Choice := Choice
  Event := Finalize ι
  perform := fun choice p c w o => performOp cfg choice p c w o
  event := Config.finalize
  body := fun p c => call (cfg.object p) c

section Operations

variable {cfg : Config ι} {choice : Choice} {p : ι} {c : Call} {w w' : World ι} {o : Op ι}
  {r : Except Exc (Val o)}

/-- Windows only refuses some unlinks. -/
theorem act_cases (h : act cfg choice p w o = some (r, w')) :
    (cfg.act choice p w o = some (r, w') ∧ ∀ path, o = .unlink path → ¬ InUse w path) ∨
      ∃ path, o = .unlink path ∧ InUse w path ∧ r = .error (.osError .EACCES) ∧ w' = w := by
  cases o with
  | unlink path =>
      simp only [act] at h
      split at h
      · simp only [Option.some.injEq, Prod.mk.injEq] at h
        exact Or.inr ⟨path, rfl, ‹_›, h.1.symm, h.2.symm⟩
      · refine Or.inl ⟨h, fun path' heq => ?_⟩
        obtain rfl := Op.unlink.inj heq
        assumption
  | _ => exact Or.inl ⟨h, fun _ heq => by cases heq⟩

/-- An operation takes effect or raises what the configuration allows. -/
theorem performOp_cases (h : performOp cfg choice p c w o = some (r, w')) :
    act cfg choice p w o = some (r, w') ∨
      ∃ e, cfg.mayRaise c o e = true ∧ r = .error e ∧ w' = Config.afterFault w o := by
  unfold performOp at h
  cases hf : choice.fault with
  | none => exact Or.inl (by simpa [hf] using h)
  | some e =>
      simp only [hf, Option.ite_none_right_eq_some, Option.some.injEq, Prod.mk.injEq] at h
      exact Or.inr ⟨e, h.1, h.2.1.symm, h.2.2.symm⟩

/-- Every operation changes the world in one of the ways it can on POSIX. -/
theorem act_change (h : act cfg choice p w o = some (r, w')) : Change cfg p w o w' := by
  rcases act_cases h with ⟨h, -⟩ | ⟨path, rfl, -, -, rfl⟩
  · exact Config.act_change h
  · exact .same _

theorem performOp_change (h : performOp cfg choice p c w o = some (r, w')) :
    Change cfg p w o w' := by
  rcases performOp_cases h with h | ⟨e, -, -, rfl⟩
  · exact act_change h
  · exact Config.afterFault_change w o

/-- What an operation raises without a fault is no interrupt. -/
theorem act_isException {e : Exc} (h : act cfg choice p w o = some (.error e, w')) :
    e.isException = true := by
  rcases act_cases h with ⟨h, -⟩ | ⟨path, rfl, -, heq, -⟩
  · exact Config.act_isException h
  · exact Except.error.inj heq ▸ rfl

/-- A name goes only when no handle on its file is open. -/
theorem unlink_unused {path : Path} {r : Except Exc (Val (.unlink path : Op ι))}
    (h : performOp cfg choice p c w (.unlink path) = some (r, w')) :
    w' = w ∨ (r = .ok () ∧ ¬ InUse w path) := by
  rcases performOp_cases h with h | ⟨e, -, -, rfl⟩
  · rcases act_cases h with ⟨h, hunused⟩ | ⟨-, -, -, -, rfl⟩
    · simp only [Config.act] at h
      split at h
      · simp only [Option.some.injEq, Prod.mk.injEq] at h
        exact Or.inr ⟨h.1.symm, hunused path rfl⟩
      · simp only [Option.some.injEq, Prod.mk.injEq] at h
        exact Or.inl h.2.symm
    · exact Or.inl rfl
  · exact Or.inl rfl

end Operations

/-! ## Open files keep their names -/

/-- Every open handle is on the file its path names. -/
def Pinned (w : World ι) : Prop := ∀ h ∈ w.opened, w.names h.path = some h.ino

section Pinned

variable {cfg : Config ι} {p : ι} {w w' : World ι} {o : Op ι}

/-- An open handle's file is in use. -/
theorem Pinned.inUse (hpin : Pinned w) {h : Handle ι Path} (hopen : h ∈ w.opened) :
    InUse w h.path := ⟨h, hopen, hpin h hopen⟩

theorem Pinned.opened {q : ι} {path : Path} {i : Nat} (hpin : Pinned w)
    (hn : w.names path = some i) : Pinned (w.openAt q path i) := by
  intro h hopen
  rcases List.mem_cons.1 hopen with rfl | hopen
  · exact hn
  · exact hpin h hopen

/-- A new name is the name of no open handle. -/
theorem Pinned.created {q : ι} {path : Path} {i : Nat} {creator : Option ι} (hpin : Pinned w)
    (hn : w.names path = none) : Pinned ((w.create path i creator).openAt q path i) := by
  refine Pinned.opened (fun h hopen => ?_) (by simp)
  have hne : h.path ≠ path := fun heq => by
    have hnamed := hpin h hopen
    rw [heq, hn] at hnamed
    cases hnamed
  simpa [Function.update_of_ne hne] using hpin h hopen

theorem Pinned.closed {h : Handle ι Path} {content : List UInt8} (hpin : Pinned w) :
    Pinned ((w.store h content []).discard h) :=
  fun k hopen => hpin k (List.mem_filter.1 hopen).1

/-- Every operation that unlinks no file in use keeps open files under their names. -/
theorem Pinned.change (hpin : Pinned w) (hc : Change cfg p w o w')
    (hunused : ∀ path, o = .unlink path → w' = w ∨ ¬ InUse w path) : Pinned w' := by
  cases hc with
  | openAt path kind i hn => exact hpin.opened hn
  | openEmptied path i hn => exact Pinned.opened (w := w.emptyFile i) hpin hn
  | create path kind i hn hi hkind => exact hpin.created hn
  | close g ho content hcontent => exact hpin.closed
  | unlink path i hn =>
      rcases hunused path rfl with heq | hunused
      · rw [heq]
        exact hpin
      · intro h hopen
        have hne : h.path ≠ path := fun heq => hunused (heq ▸ hpin.inUse hopen)
        simpa [Function.update_of_ne hne] using hpin h hopen
  | _ => exact hpin

theorem Pinned.performOp (hpin : Pinned w) {choice : Choice} {c : Call} {r : Except Exc (Val o)}
    (h : performOp cfg choice p c w o = some (r, w')) : Pinned w' := by
  refine hpin.change (performOp_change h) ?_
  rintro path rfl
  exact (unlink_unused h).imp_right And.right

theorem Pinned.finalize (hpin : Pinned w) {e : Finalize ι} (he : Config.finalize e w = some w') :
    Pinned w' := by
  obtain ⟨-, -, rfl⟩ := Config.finalize_cases he
  exact hpin.closed

/-- Two locked handles on one path are one when either is locked exclusively. -/
theorem Pinned.exclusive (hpin : Pinned w) (hw : w.Wf) {g h : Handle ι Path}
    (hpath : g.path = h.path) (hlock : w.lock h = some .exclusive) (hg : w.lock g ≠ none) :
    g = h := by
  obtain ⟨m, hm⟩ := Option.ne_none_iff_exists'.1 hg
  have hnames := hpin g (hw.fs.opened_of_lock hm)
  rw [hpath, hpin h (hw.fs.opened_of_lock hlock)] at hnames
  exact hw.fs.lock_exclusive (Option.some.inj hnames).symm hlock hg

end Pinned

end Machine

end Portalocker.Nt
