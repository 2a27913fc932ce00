import Portalocker.Utils.Lock
set_option autoImplicit false

/-!
# `TemporaryFileLock` and `PidFileLock`

The two locks whose files exist only while they are held: the acquisition with
the inode comparison they share, their releases, and the pid file of
`PidFileLock`, on POSIX.
-/

namespace Portalocker

open Posix Interleaving

variable {ι : Type}

/-- `_fh_matches_path`: the handle still refers to the file now at `filename`. -/
def fhMatchesPath (h : Handle ι Path) (filename : Path) : Py ι Bool :=
  tryCatch (do
    let fhIno ← perform (.fstat h)
    let pathIno ← perform (.stat filename)
    return fhIno == pathIno) fun e =>
      if e.isFileNotFound then return false else throw e

/-- `os.unlink` with a missing file ignored. -/
def unlinkIfPresent (path : Path) : Py ι Unit :=
  Code.suppress Exc.isFileNotFound (perform (.unlink path))

namespace TemporaryFileLock

/-- The attributes the instance has as a `Lock`: its mode is `w`. -/
def toLock (self : TemporaryFileLock) : Lock where
  filename := self.filename
  truncate := true
  timeout := self.timeout
  checkInterval := self.checkInterval
  failWhenLocked := self.failWhenLocked
  flags := self.flags

/-- `_acquire_verified`: acquire `lock` until its handle names `filename`. -/
def acquireVerified (lock : Lock) (filename : Path) (timeout checkInterval : Option Rat)
    (failWhenLocked : Option Bool) : Py ι (Handle ι Path) := do
  match ← timeoutGenerator (timeout.getD lock.timeout) (checkInterval.getD lock.checkInterval) (do
    let h ← lock.acquire timeout checkInterval failWhenLocked
    if ← fhMatchesPath h filename then return .ok h
    else do
      lock.release
      return .error .alreadyLocked) with
  | .ok h => return h
  | .error e => throw e

/-- `TemporaryFileLock.acquire`. -/
def acquire (self : TemporaryFileLock) (timeout checkInterval : Option Rat)
    (failWhenLocked : Option Bool) : Py ι (Handle ι Path) := do
  let h ← acquireVerified self.toLock self.filename timeout checkInterval failWhenLocked
  perform .acquired
  return h

/-- `TemporaryFileLock.release`: unlink while the lock is still held, then unlock
and close. -/
def release (self : TemporaryFileLock) : Py ι Unit := do
  match ← perform .fh with
  | none => return ()
  | some _ => do
      let _ ← Code.withFinally (unlinkIfPresent self.filename) self.toLock.release
      return ()

end TemporaryFileLock

/-! ## `PidFileLock` -/

/-- `str.isspace` of an ASCII character. -/
def isAsciiSpace (c : Char) : Bool :=
  c = ' ' || (9 ≤ c.toNat && c.toNat ≤ 13) || (28 ≤ c.toNat && c.toNat ≤ 31)

/-- `str.strip` and then `int` of an ASCII text: one sign and decimal digits.
Underscores between digits and digits of other scripts are left out. -/
def pythonInt (text : List Char) : Option Int :=
  let stripped := ((text.dropWhile isAsciiSpace).reverse.dropWhile isAsciiSpace).reverse
  match stripped with
  | '-' :: digits => (natural digits).map fun n => -(n : Int)
  | '+' :: digits => (natural digits).map fun n => (n : Int)
  | digits => (natural digits).map fun n => (n : Int)
where
  /-- A non-empty list of decimal digits. -/
  natural (digits : List Char) : Option Nat :=
    if digits ≠ [] ∧ digits.all Char.isDigit then
      some (digits.foldl (fun n c => 10 * n + (c.toNat - 48)) 0)
    else none

/-- What `read_pid` makes of the content of the file. -/
def parsePid (content : List UInt8) : Option Int :=
  pythonInt (content.map fun b => Char.ofNat b.toNat)

namespace PidFileLock

/-- The bytes `_write_pid` publishes. -/
def pidText (self : PidFileLock) : List UInt8 := encode (str self.getpid.toNat)

/-- The sidecar `Lock` an `acquire` creates. -/
def innerLock (self : PidFileLock) (timeout checkInterval : Option Rat) (failWhenLocked : Bool) :
    Lock where
  filename := self.lockfile
  timeout := if failWhenLocked = false then timeout.getD defaultTimeout else 0
  checkInterval := if failWhenLocked = false then checkInterval.getD defaultCheckInterval else 0
  failWhenLocked := true

/-- The sidecar `Lock` a `release` finds: only its error policy matters. -/
def heldLock (self : PidFileLock) : Lock where
  filename := self.lockfile

/-- The part of `_write_pid` that replaces the content of the file. -/
def storePid (self : PidFileLock) (pidFile : Handle ι Path) : Py ι Unit := do
  perform (.seek pidFile)
  perform (.truncate pidFile)
  perform (.write pidFile self.pidText defaultBufferSize)
  perform (.flush pidFile)

/-- `_write_pid`. -/
def writePid (self : PidFileLock) : Py ι Unit := do
  let pidFile ← perform (.openFile self.filename .append)
  Code.onRaise (do
    tryCatch (do
      self.storePid pidFile
      tryCatch (perform (.fsync pidFile)) fun e =>
        if e = .osError .EINVAL ∨ e = .osError .ENOTSUP then return () else throw e) fun e =>
          if e.isException then do
            Code.suppress Exc.isException (perform (.close pidFile))
            throw e
          else throw e
    perform (.close pidFile)) (perform (.drop pidFile))

/-- The fallback close of `_rollback_failed_acquire`. -/
def closeLeftHandle : Py ι Unit := do
  match ← perform .fh with
  | some h => do
      let _ ← Code.withFinally (Code.suppress Exc.isException (perform (.close h)))
        (perform (.setFh none))
      return ()
  | none => return ()

/-- `_rollback_failed_acquire`. -/
def rollbackFailedAcquire (inner : Lock) : Py ι Unit := do
  Code.suppress Exc.isException inner.release
  closeLeftHandle
  perform (.setInnerLock false)
  perform (.setAcquiredLock false)

/-- The sidecar part of `acquire`: on any error the instance lets go of the
sidecar object, and every plain `LockException` becomes an `AlreadyLocked`. -/
def acquireSidecar (self : PidFileLock) (timeout checkInterval : Option Rat)
    (failWhenLocked : Bool) : Py ι (Handle ι Path) :=
  tryCatch (TemporaryFileLock.acquireVerified
      (self.innerLock timeout checkInterval failWhenLocked) self.lockfile timeout checkInterval
      (some failWhenLocked)) fun e =>
    if e.isException then do
      perform (.setInnerLock false)
      throw (if e = .lockException then .alreadyLocked else e)
    else throw e

/-- `PidFileLock.acquire`.  When it raises, the sidecar object it made lives on
only if `_inner_lock` still refers to it. -/
def acquire (self : PidFileLock) (timeout checkInterval : Option Rat)
    (failWhenLocked : Option Bool) : Py ι (Handle ι Path) := do
  let failWhenLocked := failWhenLocked.getD self.failWhenLocked
  Code.onRaise (do
    perform .discardLock
    perform (.setInnerLock true)
    let _ ← self.acquireSidecar timeout checkInterval failWhenLocked
    tryCatch self.writePid fun e =>
      if e.isException then do
        rollbackFailedAcquire (self.innerLock timeout checkInterval failWhenLocked)
        throw e
      else throw e
    perform (.setAcquiredLock true)
    match ← perform .fh with
    | none => throw .assertionError
    | some h =>
        perform .acquired
        return h) (do
    if ← perform .innerLock then return () else perform .discardLock)

/-- `PidFileLock.release`: unlink both paths while the sidecar is still locked,
then let go of it. -/
def release (self : PidFileLock) : Py ι Unit := do
  if ← perform .innerLock then do
    let _ ← Code.withFinally (do
      unlinkIfPresent self.filename
      unlinkIfPresent self.lockfile) (do
        perform (.setInnerLock false)
        Code.suppress Exc.isException self.heldLock.release)
    return ()
  else return ()

/-- `read_pid`. -/
def readPid (self : PidFileLock) : Py ι (Option Int) := do
  perform .readPidCalled
  let answer ← tryCatch (do
    if ← perform (.pathExists self.filename) then do
      let f ← perform (.openFile self.filename .read)
      let (content, ()) ← Code.withFinally (perform (.read f)) (perform (.close f))
      return parsePid content
    else return none) fun e =>
      if e.isValueOrOSError then return none else throw e
  perform (.readPidReturns answer)
  return answer

/-- `__enter__`: `None` for the holder, else the pid of whoever is in the way. -/
def enter (self : PidFileLock) : Py ι (Option Int) :=
  tryCatch (do
    let _ ← self.acquire none none none
    return none) fun e =>
      if e = .alreadyLocked then self.readPid else throw e

/-- `__exit__`: release only what this instance took. -/
def exit (self : PidFileLock) : Py ι Unit := do
  if ← perform .acquiredLock then do
    self.release
    perform (.setAcquiredLock false)
  else return ()

end PidFileLock

end Portalocker
