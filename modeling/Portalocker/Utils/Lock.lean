import Portalocker.Utils.World
set_option autoImplicit false

/-!
# `LockBase` and `Lock`

The retry loop of `LockBase._timeout_generator`, the POSIX locker of
`portalocker.py`, and the `acquire` and `release` every file lock is built from.
-/

namespace Portalocker

open Posix Interleaving

variable {ι : Type}

/-! ## The retry loop -/

/-- The attempts after attempt `i`: `remaining` more, each followed by a pause
unless it ends the loop. -/
def timeoutGenerator.again {α : Type} (checkInterval : Rat)
    (attempt : Py ι (Except Exc α)) : Nat → Nat → Exc → Py ι (Except Exc α)
  | 0, _, failure => return .error failure
  | remaining + 1, i, _ => do
      match ← attempt with
      | .ok a => return .ok a
      | .error failure =>
          perform (.sleep i checkInterval)
          again checkInterval attempt remaining (i + 1) failure

/-- `for _ in self._timeout_generator(timeout, check_interval)`: attempt number 0
comes before the clock starts, the others as long as the timeout lasts.  An
attempt ends the loop with a value or asks for the next one; a loop that runs out
of attempts answers with what the last one failed with. -/
def timeoutGenerator {α : Type} (timeout checkInterval : Rat)
    (attempt : Py ι (Except Exc α)) : Py ι (Except Exc α) := do
  match ← attempt with
  | .ok a => return .ok a
  | .error failure => do
      let remaining ← perform (.attempts timeout)
      timeoutGenerator.again checkInterval attempt remaining 1 failure

/-! ## The locker -/

/-- What `PosixLocker.lock` makes of an error of the system call: `EACCES` and
`EAGAIN` mean that somebody else has the lock. -/
def PosixLocker.translate : Exc → Exc
  | .osError .EACCES | .osError .EAGAIN => .alreadyLocked
  | .osError _ | .eofError => .lockException
  | e => e

/-- `PosixLocker.lock`. -/
def PosixLocker.lock (h : Handle ι Path) (flags : LockFlags) : Py ι Unit :=
  if flags.nonBlocking && !(flags.shared || flags.exclusive) then
    throw .runtimeError
  else
    tryCatch (perform (.flock h flags)) fun e => throw (translate e)

/-- `PosixLocker.unlock`. -/
def PosixLocker.unlock (h : Handle ι Path) : Py ι Unit :=
  perform (.unlock h)

/-! ## `Lock` -/

namespace Lock

/-- `try_close`: close the handle and stay quiet. -/
def tryClose (h : Handle ι Path) : Py ι Unit :=
  Code.suppress Exc.isException (perform (.close h))

/-- One pass of the loop in `acquire`. -/
def tryLock (self : Lock) (h : Handle ι Path) (failWhenLocked : Bool) :
    Py ι (Except Exc Unit) :=
  tryCatch (do PosixLocker.lock h self.flags; return .ok ()) fun e =>
    if e.isLockException then
      if failWhenLocked then do
        tryClose h
        throw .alreadyLocked
      else return .error e
    else if e.isException then do
      tryClose h
      throw .lockException
    else throw e

/-- `_prepare_fh`: empty the file when the mode says so. -/
def prepareFh (self : Lock) (h : Handle ι Path) : Py ι Unit :=
  if self.truncate then do
    perform (.seek h)
    perform (.truncate h)
  else return ()

/-- `acquire` with a handle it has just opened.  An exception that leaves it
takes the last reference to the handle along. -/
def acquireOpened (self : Lock) (timeout checkInterval : Rat) (failWhenLocked : Bool)
    (h : Handle ι Path) : Py ι (Handle ι Path) :=
  Code.onRaise (do
    match ← timeoutGenerator timeout checkInterval (self.tryLock h failWhenLocked) with
    | .error e => do
        tryClose h
        throw e
    | .ok () => do
        self.prepareFh h
        perform (.setFh (some h))
        return h) (perform (.drop h))

/-- `_get_fh`. -/
def getFh (self : Lock) : Py ι (Handle ι Path) :=
  match openKind self.mode with
  | some kind => perform (.openFile self.filename kind)
  | none => throw .valueError

/-- `Lock.acquire`; an argument that is not given is taken from the instance. -/
def acquire (self : Lock) (timeout checkInterval : Option Rat) (failWhenLocked : Option Bool) :
    Py ι (Handle ι Path) := do
  match ← perform .fh with
  | some h => return h
  | none =>
      let h ← self.getFh
      self.acquireOpened (timeout.getD self.timeout) (checkInterval.getD self.checkInterval)
        (failWhenLocked.getD self.failWhenLocked) h

/-- `Lock.release`: unlock and close are both attempted, and the handle is
forgotten whatever they do. -/
def release (self : Lock) : Py ι Unit := do
  match ← perform .fh with
  | none => return ()
  | some h =>
      let (unlockErrors, closeErrors) ←
        Code.withFinally (Code.collect Exc.isException (PosixLocker.unlock h)) (do
          let errors ← Code.collect Exc.isException (perform (.close h))
          perform (.setFh none)
          return errors)
      match self.raiseOnReleaseError, unlockErrors ++ closeErrors with
      | true, primaryError :: _ => throw primaryError
      | _, _ => return ()

end Lock

/-! ## `RLock` -/

namespace RLock

/-- The handle of a lock that has been acquired. -/
def heldFh : Py ι (Handle ι Path) := do
  match ← perform .fh with
  | some h => return h
  | none => throw .assertionError

/-- The part of `acquire` that gets the handle. -/
def takeFh (self : RLock) (timeout checkInterval : Option Rat) (failWhenLocked : Option Bool) :
    Py ι (Handle ι Path) := do
  let count ← perform .acquireCount
  if 1 ≤ count then heldFh else self.toLock.acquire timeout checkInterval failWhenLocked

/-- `RLock.acquire`. -/
def acquire (self : RLock) (timeout checkInterval : Option Rat) (failWhenLocked : Option Bool) :
    Py ι (Handle ι Path) := do
  let h ← self.takeFh timeout checkInterval failWhenLocked
  let count ← perform .acquireCount
  perform (.setAcquireCount (count + 1))
  return h

/-- The last `release` unlocks. -/
def releaseLast (self : RLock) : Py ι Unit := do
  let count ← perform .acquireCount
  if count = 1 then self.toLock.release else return ()

/-- `RLock.release`. -/
def release (self : RLock) : Py ι Unit := do
  let count ← perform .acquireCount
  if count = 0 then throw .lockException
  else do
    self.releaseLast
    let count ← perform .acquireCount
    perform (.setAcquireCount (count - 1))

end RLock

end Portalocker
