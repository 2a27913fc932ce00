import Portalocker.Utils.PidFileLock
set_option autoImplicit false

/-!
# `BoundedSemaphore`, and the machine of all instances

The slots of a semaphore and its sweep over them, and then the machine whose
clients are instances of the lock classes.
-/

namespace Portalocker

open Posix Interleaving

variable {ι : Type}

namespace BoundedSemaphore

/-- `'{number:02d}'`. -/
def pad2 (number : Nat) : List Char :=
  let digits := str number
  List.replicate (2 - digits.length) '0' ++ digits

/-- `pathlib.Path(directory) / name`, for a directory in normal form and a relative name. -/
def joinPath (directory name : Path) : Path :=
  if directory = [] then name
  else if directory.getLast? = some '/' then directory ++ name
  else directory ++ '/' :: name

/-- `get_filename`, for the default pattern `{name}.{number:02d}.lock`. -/
def getFilename (self : BoundedSemaphore) (number : Nat) : Path :=
  joinPath self.directory (self.name ++ '.' :: pad2 number ++ ".lock".toList)

/-- `get_filenames`. -/
def getFilenames (self : BoundedSemaphore) : List Path :=
  (List.range self.maximum).map self.getFilename

/-- The `Lock` made for one slot. -/
def slotLock (filename : Path) : Lock where
  filename := filename
  failWhenLocked := true

/-- Try one slot: `False` when somebody else has it. -/
def trySlot (filename : Path) : Py ι Bool :=
  tryCatch (do
    let _ ← (slotLock filename).acquire none none none
    return true) fun e =>
      if e = .alreadyLocked then return false
      else if e.isException then do
        perform (.setInnerLock false)
        throw e
      else throw e

/-- `try_lock`: one sweep; the first slot that locks is kept. -/
def tryLock : List Path → Py ι Bool
  | [] => return false
  | filename :: rest => do
      perform .discardLock
      if ← trySlot filename then do
        perform (.setInnerLock true)
        return true
      else tryLock rest

/-- `BoundedSemaphore.acquire`: `True` when a slot was taken. -/
def acquire (self : BoundedSemaphore) (timeout checkInterval : Option Rat)
    (failWhenLocked : Option Bool) : Py ι Bool := do
  if ← perform .innerLock then throw .assertionError
  else
    match ← timeoutGenerator (timeout.getD self.timeout) (checkInterval.getD self.checkInterval) (do
      return if ← tryLock self.getFilenames then .ok () else .error .alreadyLocked) with
    | .ok () => do
        perform .acquired
        return true
    | .error e => if failWhenLocked.getD self.failWhenLocked then throw e else return false

/-- `BoundedSemaphore.release`. -/
def release : Py ι Unit := do
  if ← perform .innerLock then do
    (slotLock []).release
    perform (.setInnerLock false)
  else return ()

end BoundedSemaphore

/-! ## Clients -/

/-- `fh.write(bytes)` through the handle `acquire` returned. -/
def Lock.write (self : Lock) (bytes : List UInt8) : Py ι Unit := do
  match ← perform .fh with
  | some h => perform (.write h bytes self.bufferSize)
  | none => return ()

/-- `fh.flush()` through the handle `acquire` returned. -/
def Lock.flush : Py ι Unit := do
  match ← perform .fh with
  | some h => perform (.flush h)
  | none => return ()

/-- What a call does on an instance; a call its class does not have does nothing.
`__del__` and the `atexit` handler call `release`. -/
def Instance.call : Instance → Call → Program (Op ι) (fun o => Except Exc (Val o)) Unit
  | .lock self, .acquire timeout checkInterval failWhenLocked =>
      (self.acquire timeout checkInterval failWhenLocked).toCall
  | .lock self, .enter => (self.acquire none none none).toCall
  | .lock self, .release => self.release.toCall
  | .lock self, .exit => self.release.toCall
  | .lock self, .write bytes => (self.write bytes).toCall
  | .lock _, .flush => Lock.flush.toCall
  | .rLock self, .acquire timeout checkInterval failWhenLocked =>
      (self.acquire timeout checkInterval failWhenLocked).toCall
  | .rLock self, .enter => (self.acquire none none none).toCall
  | .rLock self, .release => self.release.toCall
  | .rLock self, .exit => self.release.toCall
  | .rLock self, .write bytes => (self.toLock.write bytes).toCall
  | .rLock _, .flush => Lock.flush.toCall
  | .temporaryFileLock self, .acquire timeout checkInterval failWhenLocked =>
      (self.acquire timeout checkInterval failWhenLocked).toCall
  | .temporaryFileLock self, .enter => (self.acquire none none none).toCall
  | .temporaryFileLock self, .release => self.release.toCall
  | .temporaryFileLock self, .exit => self.release.toCall
  | .pidFileLock self, .acquire timeout checkInterval failWhenLocked =>
      (self.acquire timeout checkInterval failWhenLocked).toCall
  | .pidFileLock self, .enter => self.enter.toCall
  | .pidFileLock self, .release => self.release.toCall
  | .pidFileLock self, .exit => self.exit.toCall
  | .pidFileLock self, .readPid => self.readPid.toCall
  | .boundedSemaphore self, .acquire timeout checkInterval failWhenLocked =>
      (self.acquire timeout checkInterval failWhenLocked).toCall
  | .boundedSemaphore self, .enter => (self.acquire none none none).toCall
  | .boundedSemaphore _, .release => BoundedSemaphore.release.toCall
  | .boundedSemaphore _, .exit => BoundedSemaphore.release.toCall
  | _, _ => .ret ()

/-- Any number of instances on one file system. -/
def machine [DecidableEq ι] (cfg : Config ι) : Machine ι where
  World := World ι
  Op := Op ι
  Res := fun o => Except Exc (Val o)
  Call := Call
  Choice := Choice
  Event := Finalize ι
  perform := fun choice p c w o => cfg.performOp choice p c w o
  event := Config.finalize
  body := fun p c => (cfg.object p).call c

/-- The files and attributes of a state of the machine. -/
abbrev files [DecidableEq ι] {cfg : Config ι} (s : (machine cfg).State) : World ι := s.world

end Portalocker
