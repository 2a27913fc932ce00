import Mathlib.Logic.Function.Basic
import Portalocker.Foundation.Sequential
import Portalocker.Types
set_option autoImplicit false
set_option linter.unusedSectionVars false

/-!
# The Windows lockers

`Win32Locker` and `MsvcrtLocker`.  Both lock a range of bytes that begins at the current
position of the descriptor, so a call moves the position to byte 0, makes its call of the
operating system and moves the position back.  The world is the position of every
descriptor; a descriptor is seekable or not, and on a seekable one `seek`, `tell` and
`os.lseek` do what they say.  Every other operation may raise anything.
-/

namespace Portalocker.Windows

open Interleaving

abbrev Text : Type := List Char

/-! ## The arguments -/

/-- An `io.IOBase` object. -/
structure IOObject where
  fd : Nat
  deriving DecidableEq

/-- `types.FileArgument`: a file object, an object that only has `fileno()`, or a
descriptor. -/
inductive FileArgument
  | ioBase (obj : IOObject)
  | hasFileno (fd : Nat)
  | int (fd : Nat)
  deriving DecidableEq

/-- The descriptor an argument stands for. -/
def FileArgument.fd : FileArgument → Nat
  | ioBase obj => obj.fd
  | hasFileno fd => fd
  | int fd => fd

/-- The exceptions, with the text of each and, for those of this package, the one they
were raised from.  `other` is any other exception; `except Exception` catches it or not. -/
inductive Failure
  | osError (errno : Int) (strerror text : Text)
  | pywinError (winerror : Int) (strerror text : Text)
  | importError (text : Text)
  | lockException (strerror : Text) (cause : Failure)
  | alreadyLocked (strerror : Text) (cause : Failure)
  | other (isException : Bool) (text : Text)
  deriving DecidableEq

/-- `winerror.ERROR_LOCK_VIOLATION`. -/
def ERROR_LOCK_VIOLATION : Int := 33

/-- `winerror.ERROR_NOT_LOCKED`. -/
def ERROR_NOT_LOCKED : Int := 158

/-- The mode of `LockFileEx`. -/
structure LockMode where
  failImmediately : Bool
  exclusiveLock : Bool
  deriving DecidableEq

/-- The modes of `msvcrt.locking`. -/
inductive LockingMode
  | LK_LOCK
  | LK_NBLCK
  | LK_UNLCK
  deriving DecidableEq

/-! ## The operations -/

/-- The operations that may raise. -/
inductive Op
  /-- the imports a method begins with -/
  | imports
  /-- the import in `_get_os_handle` -/
  | importMsvcrt
  | fileno (file : FileArgument)
  | tell (obj : IOObject)
  | seek (obj : IOObject) (position : Nat)
  | lseekCur (fd : Nat)
  | lseekSet (fd position : Nat)
  | getOsfhandle (fd : Nat)
  | lockFileEx (handle : Nat) (mode : LockMode) (bytesLow : Int)
  | unlockFileEx (handle : Nat) (bytesLow : Int)
  | locking (fd : Nat) (mode : LockingMode) (length : Nat)

/-- What an operation answers with. -/
abbrev Val : Op → Type
  | .fileno _ | .tell _ | .lseekCur _ | .getOsfhandle _ => Nat
  | _ => Unit

abbrev Py (α : Type) : Type := Code Failure Op Val α

abbrev perform (o : Op) : Py (Val o) := Code.call o

/-! ## The code -/

/-- Where the position was: on a descriptor that cannot seek there is nothing to restore. -/
def lseekToStart (fd : Nat) : Py (Option Nat) :=
  tryCatch (do
    let originalPos ← perform (.lseekCur fd)
    if originalPos ≠ 0 then perform (.lseekSet fd 0)
    return some originalPos)
    fun e => match e with
      | .osError _ _ _ => return none
      | e => throw e

/-- `_prepare_windows_file`. -/
def prepareWindowsFile : FileArgument → Py (Nat × Option IOObject × Option Nat)
  | .ioBase obj => do
      let fd ← perform (.fileno (.ioBase obj))
      let originalPos ← perform (.tell obj)
      if originalPos ≠ 0 then perform (.seek obj 0)
      return (fd, some obj, some originalPos)
  | .int fd => do
      let originalPos ← lseekToStart fd
      return (fd, none, originalPos)
  | .hasFileno n => do
      let fd ← perform (.fileno (.hasFileno n))
      let originalPos ← lseekToStart fd
      return (fd, none, originalPos)

/-- `_restore_windows_file_pos`. -/
def restoreWindowsFilePos (fd : Nat) (fileIoObj : Option IOObject) : Option Nat → Py Unit
  | none => return ()
  | some originalPos =>
      if originalPos = 0 then return ()
      else match fileIoObj with
        | some obj => perform (.seek obj originalPos)
        | none => perform (.lseekSet fd originalPos)

/-- `Win32Locker`, with the number of bytes it locks. -/
structure Win32Locker where
  lockBytesLow : Int := -0x10000
  deriving DecidableEq

namespace Win32Locker

/-- `_get_os_handle`. -/
def getOsHandle (fd : Nat) : Py Nat := do
  tryCatch (perform .importMsvcrt) fun e => match e with
    | .importError _ => throw (.importError
        "msvcrt is required for _get_os_handle on Windows but not found.".toList)
    | e => throw e
  perform (.getOsfhandle fd)

/-- What `lock` makes of an exception of `LockFileEx`. -/
def lockFailed : Failure → Failure
  | .pywinError winerror strerror text =>
      if winerror = ERROR_LOCK_VIOLATION then
        .alreadyLocked strerror (.pywinError winerror strerror text)
      else .lockException strerror (.pywinError winerror strerror text)
  | e => e

def lock (self : Win32Locker) (file : FileArgument) (flags : LockFlags) : Py Unit := do
  perform .imports
  let (fd, ioObjCtx, posCtx) ← prepareWindowsFile file
  let osFh ← getOsHandle fd
  let _ ← Code.withFinally
    (tryCatch (perform (.lockFileEx osFh ⟨flags.nonBlocking, flags.exclusive⟩ self.lockBytesLow))
      fun e => throw (lockFailed e))
    (restoreWindowsFilePos fd ioObjCtx posCtx)
  return ()

/-- What `unlock` makes of an exception of `UnlockFileEx`. -/
def unlockFailed : Failure → Py Unit
  | .pywinError winerror strerror text =>
      if winerror ≠ ERROR_NOT_LOCKED then
        throw (.lockException strerror (.pywinError winerror strerror text))
      else return ()
  | .osError errno strerror text =>
      throw (.lockException strerror (.osError errno strerror text))
  | e => throw e

def unlock (self : Win32Locker) (file : FileArgument) : Py Unit := do
  perform .imports
  let (fd, ioObjCtx, posCtx) ← prepareWindowsFile file
  let osFh ← getOsHandle fd
  let _ ← Code.withFinally
    (tryCatch (perform (.unlockFileEx osFh self.lockBytesLow)) unlockFailed)
    (restoreWindowsFilePos fd ioObjCtx posCtx)
  return ()

end Win32Locker

/-- `MsvcrtLocker`; without `pywin32` it has no `Win32Locker`. -/
structure MsvcrtLocker where
  win32Locker : Option Win32Locker
  msvcrtLockLength : Nat := 0x10000
  deriving DecidableEq

namespace MsvcrtLocker

/-- What `lock` makes of an exception of `msvcrt.locking`. -/
def lockFailed : Failure → Failure
  | .osError errno strerror text =>
      if errno ∈ [13, 16, 33, 36] then .alreadyLocked text (.osError errno strerror text)
      else .lockException text (.osError errno strerror text)
  | e => e

/-- The part of `lock` for a lock that is not shared. -/
def lockExclusive (self : MsvcrtLocker) (file : FileArgument) (flags : LockFlags) : Py Unit := do
  let (fd, ioObjCtx, posCtx) ← prepareWindowsFile file
  let mode := if flags.nonBlocking then LockingMode.LK_NBLCK else .LK_LOCK
  let _ ← Code.withFinally
    (tryCatch (perform (.locking fd mode self.msvcrtLockLength)) fun e => throw (lockFailed e))
    (restoreWindowsFilePos fd ioObjCtx posCtx)
  return ()

def lock (self : MsvcrtLocker) (file : FileArgument) (flags : LockFlags) : Py Unit := do
  perform .imports
  if flags.shared then
    match self.win32Locker with
    | none => throw (.importError
        ("Shared locks on Windows require the win32 extra (pywin32); msvcrt provides no " ++
          "true shared lock. Install it with: pip install \"portalocker[win32]\"").toList)
    | some win32Locker => win32Locker.lock file ⟨false, false, flags.nonBlocking⟩
  else self.lockExclusive file flags

/-- What `unlock` raises when the fallback has failed as well. -/
def fallbackFailed (strerror : Text) : Failure → Failure
  | .lockException win32Strerror cause =>
      .lockException ("msvcrt unlock failed (".toList ++ strerror ++
        "), and win32 fallback failed (".toList ++ win32Strerror ++ ")".toList)
        (.lockException win32Strerror cause)
  | .alreadyLocked win32Strerror cause =>
      .lockException ("msvcrt unlock failed (".toList ++ strerror ++
        "), and win32 fallback failed (".toList ++ win32Strerror ++ ")".toList)
        (.alreadyLocked win32Strerror cause)
  | .osError errno finalStrerror text => unexpected strerror text (.osError errno finalStrerror text)
  | .pywinError winerror finalStrerror text =>
      unexpected strerror text (.pywinError winerror finalStrerror text)
  | .importError text => unexpected strerror text (.importError text)
  | .other true text => unexpected strerror text (.other true text)
  | .other false text => .other false text
where
  unexpected (strerror text : Text) (finalExc : Failure) : Failure :=
    .lockException ("msvcrt unlock failed (".toList ++ strerror ++
      "), and win32 fallback failed with unexpected error: ".toList ++ text) finalExc

/-- The `try` statement of `unlock` with its handler: whether it took the fallback path,
and how it ended. -/
def tryUnlock (self : MsvcrtLocker) (file : FileArgument) (fd : Nat)
    (ioObjCtx : Option IOObject) (posCtx : Option Nat) : Py (Bool × Except Failure Unit) := do
  match ← Code.attempt (perform (.locking fd .LK_UNLCK self.msvcrtLockLength)) with
  | .error (.osError errno strerror text) =>
      if errno = 13 then
        match self.win32Locker with
        | none => return (false, .error (.lockException (strerror ++
            (" (the win32 unlock fallback is unavailable without pywin32; " ++
              "install it with: pip install \"portalocker[win32]\")").toList)
            (.osError errno strerror text)))
        | some win32Locker =>
            -- the position is restored first: the fallback prepares the file again
            let outcome ← Code.attempt (do
              restoreWindowsFilePos fd ioObjCtx posCtx
              tryCatch (win32Locker.unlock file) fun e => throw (fallbackFailed strerror e))
            return (true, outcome)
      else return (false, .error (.lockException strerror (.osError errno strerror text)))
  | outcome => return (false, outcome)

def unlock (self : MsvcrtLocker) (file : FileArgument) : Py Unit := do
  perform .imports
  let (fd, ioObjCtx, posCtx) ← prepareWindowsFile file
  let (tookFallbackPath, outcome) ← self.tryUnlock file fd ioObjCtx posCtx
  if ¬ tookFallbackPath then restoreWindowsFilePos fd ioObjCtx posCtx
  match outcome with
  | .ok () => return ()
  | .error e => throw e

end MsvcrtLocker

/-- The methods of the two lockers. -/
inductive Method
  | win32Lock (self : Win32Locker) (flags : LockFlags)
  | win32Unlock (self : Win32Locker)
  | msvcrtLock (self : MsvcrtLocker) (flags : LockFlags)
  | msvcrtUnlock (self : MsvcrtLocker)

/-- A call of a method. -/
def Method.code : Method → FileArgument → Py Unit
  | win32Lock self flags, file => self.lock file flags
  | win32Unlock self, file => self.unlock file
  | msvcrtLock self flags, file => self.lock file flags
  | msvcrtUnlock self, file => self.unlock file

/-! ## What an operation does -/

/-- The position of every descriptor. -/
abbrev Positions : Type := Nat → Nat

/-- What the environment decides: an exception that is raised, and the handle of a
descriptor. -/
structure Choice where
  fault : Option Failure := none
  handle : Nat := 0

/-- The exception of an `os.lseek` that cannot seek. -/
def Choice.illegalSeek : Choice → Option Failure
  | ⟨some (.osError errno strerror text), _⟩ => some (.osError errno strerror text)
  | _ => none

/-- The answer of an operation that may raise. -/
def Choice.answer {α : Type} (choice : Choice) (value : α) : Except Failure α :=
  match choice.fault with
  | none => .ok value
  | some e => .error e

/-- The effect of an operation. -/
def act (seekable : Nat → Bool) (choice : Choice) (positions : Positions) :
    (o : Op) → Option (Except Failure (Val o) × Positions)
  | .tell obj =>
      if seekable obj.fd then some (.ok (positions obj.fd), positions)
      else choice.fault.map fun e => (.error e, positions)
  | .seek obj position =>
      if seekable obj.fd then some (.ok (), Function.update positions obj.fd position)
      else choice.fault.map fun e => (.error e, positions)
  | .lseekCur fd =>
      if seekable fd then some (.ok (positions fd), positions)
      else choice.illegalSeek.map fun e => (.error e, positions)
  | .lseekSet fd position =>
      if seekable fd then some (.ok (), Function.update positions fd position)
      else choice.illegalSeek.map fun e => (.error e, positions)
  | .fileno file => some (choice.answer file.fd, positions)
  | .getOsfhandle _ => some (choice.answer choice.handle, positions)
  | .imports | .importMsvcrt | .lockFileEx _ _ _ | .unlockFileEx _ _ | .locking _ _ _ =>
      some (choice.answer (), positions)

/-- A step of an operation. -/
def Step (seekable : Nat → Bool) (positions : Positions) (o : Op)
    (answer : Except Failure (Val o)) (positions' : Positions) : Prop :=
  ∃ choice, act seekable choice positions o = some (answer, positions')

/-- The calls run alone. -/
abbrev calls (seekable : Nat → Bool) : Context Positions Op fun o => Except Failure (Val o) :=
  Context.alone (Step seekable)

/-- The operations of a call so far. -/
abbrev Log : Type := List (Entry Positions Op fun o => Except Failure (Val o))

/-! ## What is asked of a call -/

/-- The operating system locks or unlocks the range at the position. -/
def Op.isLockCall : Op → Bool
  | .lockFileEx _ _ _ | .unlockFileEx _ _ | .locking _ _ _ => true
  | _ => false

/-- A part of the translation of a descriptor into a handle. -/
def Op.isTranslation : Op → Bool
  | .importMsvcrt | .getOsfhandle _ => true
  | _ => false

/-- Every lock call was made at byte 0, if the argument is seekable. -/
def FromStart (seekable : Nat → Bool) (file : FileArgument) (log : Log) : Prop :=
  ∀ entry ∈ log, entry.op.isLockCall = true → seekable file.fd = true → entry.before file.fd = 0

/-- No translation has raised. -/
def Translates (log : Log) : Prop :=
  ∀ entry ∈ log, entry.op.isTranslation = true → entry.answer.isOk = true

instance (log : Log) : Decidable (Translates log) :=
  inferInstanceAs (Decidable (∀ entry ∈ log, _))

section Rules

variable {seekable : Nat → Bool} {file : FileArgument} {home : Positions} {α : Type}

/-! ## The states of a call -/

/-- The positions while a call has moved the one of its argument. -/
def moved (seekable : Nat → Bool) (file : FileArgument) (home : Positions) : Positions :=
  if seekable file.fd then Function.update home file.fd 0 else home

/-- The call is going well, and these are the positions. -/
def Runs (seekable : Nat → Bool) (file : FileArgument) (positions : Positions)
    (W : Positions × Log) : Prop :=
  W.1 = positions ∧ FromStart seekable file W.2 ∧ Translates W.2

/-- A translation has raised, and the position is still moved. -/
def Astray (seekable : Nat → Bool) (file : FileArgument) (home : Positions)
    (W : Positions × Log) : Prop :=
  W.1 = moved seekable file home ∧ FromStart seekable file W.2 ∧ ¬ Translates W.2

/-- How a call can end. -/
def Over (seekable : Nat → Bool) (file : FileArgument) (home : Positions)
    (W : Positions × Log) : Prop :=
  Runs seekable file home W ∨ Astray seekable file home W

theorem moved_eq_home :
    moved seekable file home = home ↔ seekable file.fd = false ∨ home file.fd = 0 := by
  unfold moved
  cases seekable file.fd with
  | false => simp
  | true =>
      simp only [if_true, Bool.true_eq_false, false_or]
      constructor
      · intro h
        have hfd := congrFun h file.fd
        rwa [Function.update_self, eq_comm] at hfd
      · exact fun h => Function.update_eq_self_iff.2 h.symm

theorem moved_of_seekable (hs : seekable file.fd = true) :
    moved seekable file home = Function.update home file.fd 0 := by
  rw [moved, if_pos hs]

theorem moved_of_not_seekable (hs : seekable file.fd = false) :
    moved seekable file home = home :=
  moved_eq_home.2 (Or.inl hs)

/-- The position of the argument is restored from where it was. -/
theorem update_moved (hs : seekable file.fd = true) :
    Function.update (moved seekable file home) file.fd (home file.fd) = home := by
  rw [moved_of_seekable hs, Function.update_idem, Function.update_eq_self]

theorem FromStart.snoc {log : Log} {entry : Entry Positions Op fun o => Except Failure (Val o)}
    (h : FromStart seekable file log)
    (hentry : entry.op.isLockCall = true → seekable file.fd = true → entry.before file.fd = 0) :
    FromStart seekable file (log ++ [entry]) := by
  intro e he
  rcases List.mem_append.1 he with he | he
  · exact h e he
  · rw [List.mem_singleton.1 he]
    exact hentry

theorem Translates.snoc {log : Log} {entry : Entry Positions Op fun o => Except Failure (Val o)}
    (h : Translates log) (hentry : entry.op.isTranslation = true → entry.answer.isOk = true) :
    Translates (log ++ [entry]) := by
  intro e he
  rcases List.mem_append.1 he with he | he
  · exact h e he
  · rw [List.mem_singleton.1 he]
    exact hentry

/-! ## The operations -/

/-- An operation that does not move a position, and that is neither a lock call nor part of
a translation. -/
theorem quiet_rule {o : Op} {positions : Positions} (hlock : o.isLockCall = false)
    (htranslation : o.isTranslation = false)
    (heffect : ∀ choice r w', act seekable choice positions o = some (r, w') → w' = positions) :
    Hoare (calls seekable).traced (Runs seekable file positions) (perform o)
      (fun _ => Runs seekable file positions) fun _ => Runs seekable file positions := by
  refine Hoare.alone ?_
  rintro w log r w' ⟨rfl, hstart, htranslates⟩ ⟨choice, hact⟩
  obtain rfl := heffect choice r w' hact
  have hruns : Runs seekable file w' (w', log ++ [⟨w', o, r, w'⟩]) :=
    ⟨rfl, hstart.snoc fun h => absurd h (Bool.eq_false_iff.1 hlock),
      htranslates.snoc fun h => absurd h (Bool.eq_false_iff.1 htranslation)⟩
  cases r with
  | ok v => exact hruns
  | error e => exact hruns

/-- The position of a seekable descriptor is read. -/
theorem tell_rule {obj : IOObject} {positions : Positions} :
    Hoare (calls seekable).traced (Runs seekable file positions) (perform (.tell obj))
      (fun position W => Runs seekable file positions W ∧ seekable obj.fd = true ∧
        position = positions obj.fd)
      fun _ => Runs seekable file positions := by
  refine Hoare.alone ?_
  rintro w log r w' ⟨rfl, hstart, htranslates⟩ ⟨choice, hact⟩
  have hruns : ∀ answer, Runs seekable file w (w, log ++ [⟨w, .tell obj, answer, w⟩]) :=
    fun answer => ⟨rfl, hstart.snoc fun h => (by cases h), htranslates.snoc fun h => (by cases h)⟩
  simp only [act] at hact
  split at hact
  · rename_i hs
    simp only [Option.some.injEq, Prod.mk.injEq] at hact
    obtain ⟨rfl, rfl⟩ := hact
    exact ⟨hruns _, hs, rfl⟩
  · simp only [Option.map_eq_some_iff, Prod.mk.injEq] at hact
    obtain ⟨e, -, rfl, rfl⟩ := hact
    exact hruns _

theorem lseekCur_rule {fd : Nat} {positions : Positions} :
    Hoare (calls seekable).traced (Runs seekable file positions) (perform (.lseekCur fd))
      (fun position W => Runs seekable file positions W ∧ seekable fd = true ∧
        position = positions fd)
      fun e W => Runs seekable file positions W ∧ seekable fd = false ∧
        ∃ errno strerror text, e = .osError errno strerror text := by
  refine Hoare.alone ?_
  rintro w log r w' ⟨rfl, hstart, htranslates⟩ ⟨choice, hact⟩
  have hruns : ∀ answer, Runs seekable file w (w, log ++ [⟨w, .lseekCur fd, answer, w⟩]) :=
    fun answer => ⟨rfl, hstart.snoc fun h => (by cases h), htranslates.snoc fun h => (by cases h)⟩
  simp only [act] at hact
  split at hact
  · rename_i hs
    simp only [Option.some.injEq, Prod.mk.injEq] at hact
    obtain ⟨rfl, rfl⟩ := hact
    exact ⟨hruns _, hs, rfl⟩
  · rename_i hs
    simp only [Option.map_eq_some_iff, Prod.mk.injEq] at hact
    obtain ⟨e, hillegal, rfl, rfl⟩ := hact
    refine ⟨hruns _, by simpa using hs, ?_⟩
    unfold Choice.illegalSeek at hillegal
    split at hillegal
    · exact ⟨_, _, _, (Option.some.inj hillegal).symm⟩
    · cases hillegal

/-- The position of a seekable descriptor is moved. -/
theorem seek_rule {obj : IOObject} {position : Nat} {positions : Positions}
    (hs : seekable obj.fd = true) :
    Hoare (calls seekable).traced (Runs seekable file positions) (perform (.seek obj position))
      (fun _ => Runs seekable file (Function.update positions obj.fd position))
      fun _ _ => False := by
  refine Hoare.alone ?_
  rintro w log r w' ⟨rfl, hstart, htranslates⟩ ⟨choice, hact⟩
  simp only [act, hs, if_true, Option.some.injEq, Prod.mk.injEq] at hact
  obtain ⟨rfl, rfl⟩ := hact
  exact ⟨rfl, hstart.snoc fun h => (by cases h), htranslates.snoc fun h => (by cases h)⟩

theorem lseekSet_rule {fd position : Nat} {positions : Positions} (hs : seekable fd = true) :
    Hoare (calls seekable).traced (Runs seekable file positions) (perform (.lseekSet fd position))
      (fun _ => Runs seekable file (Function.update positions fd position))
      fun _ _ => False := by
  refine Hoare.alone ?_
  rintro w log r w' ⟨rfl, hstart, htranslates⟩ ⟨choice, hact⟩
  simp only [act, hs, if_true, Option.some.injEq, Prod.mk.injEq] at hact
  obtain ⟨rfl, rfl⟩ := hact
  exact ⟨rfl, hstart.snoc fun h => (by cases h), htranslates.snoc fun h => (by cases h)⟩

/-- A call of the operating system, made where the position is moved. -/
theorem lockCall_rule {o : Op} (htranslation : o.isTranslation = false)
    (heffect : ∀ choice r w w', act seekable choice w o = some (r, w') → w' = w) :
    Hoare (calls seekable).traced (Runs seekable file (moved seekable file home)) (perform o)
      (fun _ => Runs seekable file (moved seekable file home))
      fun _ => Runs seekable file (moved seekable file home) := by
  refine Hoare.alone ?_
  rintro w log r w' ⟨rfl, hstart, htranslates⟩ ⟨choice, hact⟩
  obtain rfl := heffect choice r _ w' hact
  have hruns : Runs seekable file (moved seekable file home)
      (moved seekable file home,
        log ++ [⟨moved seekable file home, o, r, moved seekable file home⟩]) := by
    refine ⟨rfl, hstart.snoc fun _ hs => ?_,
      htranslates.snoc fun h => absurd h (Bool.eq_false_iff.1 htranslation)⟩
    rw [moved_of_seekable hs]
    exact Function.update_self ..
  cases r with
  | ok v => exact hruns
  | error e => exact hruns

theorem answered {β : Type} {choice : Choice} {value : β} {r : Except Failure β}
    {w w' : Positions} (h : some (choice.answer value, w) = some (r, w')) : w' = w :=
  (congrArg Prod.snd (Option.some.inj h)).symm

theorem imports_rule {positions : Positions} :
    Hoare (calls seekable).traced (Runs seekable file positions) (perform .imports)
      (fun _ => Runs seekable file positions) fun _ => Runs seekable file positions :=
  quiet_rule rfl rfl fun _ _ _ h => answered h

/-- One operation of the translation. -/
theorem translation_rule {o : Op} (hlock : o.isLockCall = false)
    (htranslation : o.isTranslation = true)
    (heffect : ∀ choice r w w', act seekable choice w o = some (r, w') → w' = w) :
    Hoare (calls seekable).traced (Runs seekable file (moved seekable file home)) (perform o)
      (fun _ => Runs seekable file (moved seekable file home))
      fun _ => Astray seekable file home := by
  refine Hoare.alone ?_
  rintro w log r w' ⟨rfl, hstart, htranslates⟩ ⟨choice, hact⟩
  obtain rfl := heffect choice r _ w' hact
  cases r with
  | ok v =>
      exact ⟨rfl, hstart.snoc fun h => absurd h (Bool.eq_false_iff.1 hlock),
        htranslates.snoc fun _ => rfl⟩
  | error e =>
      refine ⟨rfl, hstart.snoc fun h => absurd h (Bool.eq_false_iff.1 hlock), fun h => ?_⟩
      have hok := h _ (List.mem_append_right _ (List.mem_singleton_self _)) htranslation
      cases hok

/-- A handle is found, or the position stays moved. -/
theorem getOsHandle_rule {fd : Nat} :
    Hoare (calls seekable).traced (Runs seekable file (moved seekable file home))
      (Win32Locker.getOsHandle fd) (fun _ => Runs seekable file (moved seekable file home))
      fun _ => Astray seekable file home := by
  have himport : Hoare (calls seekable).traced (Runs seekable file (moved seekable file home))
      (perform .importMsvcrt) (fun _ => Runs seekable file (moved seekable file home))
      fun _ => Astray seekable file home :=
    translation_rule rfl rfl fun _ _ _ _ h => answered h
  refine Hoare.bind (Hoare.tryCatch himport fun e => ?_) fun _ => ?_
  · cases e <;> exact Hoare.throw fun _ _ h => h
  · exact translation_rule rfl rfl fun _ _ _ _ h => answered h

/-! ## Preparing and restoring -/

/-- What `_prepare_windows_file` hands to `_restore_windows_file_pos`. -/
def Saved (seekable : Nat → Bool) (file : FileArgument) (home : Positions) :
    Nat × Option IOObject × Option Nat → Prop
  | (fd, ioObj, originalPos) =>
      fd = file.fd ∧ (∀ obj, ioObj = some obj → obj.fd = file.fd) ∧
        match originalPos with
        | some position => seekable file.fd = true ∧ position = home file.fd
        | none => seekable file.fd = false

theorem fileno_rule {positions : Positions} :
    Hoare (calls seekable).traced (Runs seekable file positions) (perform (.fileno file))
      (fun fd W => fd = file.fd ∧ Runs seekable file positions W)
      fun _ => Runs seekable file positions := by
  refine Hoare.alone ?_
  rintro w log r w' ⟨rfl, hstart, htranslates⟩ ⟨choice, hact⟩
  obtain rfl := answered hact
  have hruns : Runs seekable file w' (w', log ++ [⟨w', .fileno file, r, w'⟩]) :=
    ⟨rfl, hstart.snoc fun h => (by cases h), htranslates.snoc fun h => (by cases h)⟩
  cases r with
  | ok fd =>
      refine ⟨?_, hruns⟩
      simp only [act, Choice.answer, Option.some.injEq, Prod.mk.injEq, and_true] at hact
      split at hact
      · exact (Except.ok.inj hact).symm
      · cases hact
  | error e => exact hruns

/-- The descriptor is moved to its start, if it can seek. -/
theorem lseekToStart_rule (file : FileArgument) :
    Hoare (calls seekable).traced (Runs seekable file home) (lseekToStart file.fd)
      (fun originalPos W => Saved seekable file home (file.fd, none, originalPos) ∧
        Runs seekable file (moved seekable file home) W)
      fun _ => Runs seekable file home := by
  refine Hoare.tryCatch (F := fun e W => Runs seekable file home W ∧ seekable file.fd = false ∧
      ∃ errno strerror text, e = .osError errno strerror text) ?_ fun e => ?_
  · refine Hoare.bind lseekCur_rule fun position => ?_
    refine Hoare.of_pre (Hoare.of_fact fun (h : seekable file.fd = true ∧
      position = home file.fd) => ?_) fun _ _ h => ⟨h.2, h.1⟩
    obtain ⟨hs, rfl⟩ := h
    have hsaved : Saved seekable file home (file.fd, none, some (home file.fd)) :=
      ⟨rfl, fun obj h => (by cases h), hs, rfl⟩
    rw [moved_of_seekable hs]
    split
    · refine Hoare.bind ((lseekSet_rule hs).conseq (fun _ _ h => h) (fun _ _ _ h => h)
        fun _ _ _ h => h.elim) fun _ => ?_
      exact Hoare.pure fun _ _ h => ⟨hsaved, h⟩
    · rename_i hzero
      refine Hoare.pure fun _ _ h => ⟨hsaved, ?_⟩
      rwa [Function.update_eq_self_iff.2 (not_not.1 hzero).symm]
  · refine Hoare.of_pre (Hoare.of_fact fun (h : seekable file.fd = false ∧
      ∃ errno strerror text, e = .osError errno strerror text) => ?_) fun _ _ h => ⟨h.2, h.1⟩
    obtain ⟨hs, errno, strerror, text, rfl⟩ := h
    rw [moved_of_not_seekable hs]
    exact Hoare.pure fun _ _ h => ⟨⟨rfl, fun obj h => (by cases h), hs⟩, h⟩

/-- After `_prepare_windows_file` the position is moved and the old one is saved. -/
theorem prepareWindowsFile_rule :
    Hoare (calls seekable).traced (Runs seekable file home) (prepareWindowsFile file)
      (fun saved W => Saved seekable file home saved ∧
        Runs seekable file (moved seekable file home) W)
      fun _ => Runs seekable file home := by
  cases file with
  | ioBase obj =>
      refine Hoare.bind fileno_rule fun fd => Hoare.of_fact ?_
      rintro rfl
      refine Hoare.bind tell_rule fun position => ?_
      refine Hoare.of_pre (Hoare.of_fact fun (h : seekable obj.fd = true ∧
        position = home obj.fd) => ?_) fun _ _ h => ⟨h.2, h.1⟩
      obtain ⟨hs, rfl⟩ := h
      have hsaved : Saved seekable (.ioBase obj) home
          (obj.fd, some obj, some (home obj.fd)) :=
        ⟨rfl, fun obj' h => congrArg IOObject.fd (Option.some.inj h).symm, hs, rfl⟩
      rw [show moved seekable (.ioBase obj) home = _ from moved_of_seekable hs]
      split
      · refine Hoare.bind ((seek_rule hs).conseq (fun _ _ h => h) (fun _ _ _ h => h)
          fun _ _ _ h => h.elim) fun _ => ?_
        exact Hoare.pure fun _ _ h => ⟨hsaved, h⟩
      · rename_i hzero
        refine Hoare.pure fun _ _ h => ⟨hsaved, ?_⟩
        rwa [Function.update_eq_self_iff.2 (show (0 : Nat) = home obj.fd from
          (not_not.1 hzero).symm)]
  | hasFileno n =>
      refine Hoare.bind (R := fun fd W => fd = n ∧ Runs seekable (.hasFileno n) home W)
        fileno_rule fun fd => Hoare.of_fact ?_
      rintro rfl
      exact Hoare.bind (lseekToStart_rule (.hasFileno fd)) fun _ => Hoare.pure fun _ _ h => h
  | int n =>
      exact Hoare.bind (lseekToStart_rule (.int n)) fun _ => Hoare.pure fun _ _ h => h

/-- `_restore_windows_file_pos` moves the position back. -/
theorem restoreWindowsFilePos_rule {fd : Nat} {ioObj : Option IOObject} {originalPos : Option Nat}
    (h : Saved seekable file home (fd, ioObj, originalPos)) :
    Hoare (calls seekable).traced (Runs seekable file (moved seekable file home))
      (restoreWindowsFilePos fd ioObj originalPos) (fun _ => Runs seekable file home)
      fun _ _ => False := by
  obtain ⟨rfl, hobj, hpos⟩ := h
  cases originalPos with
  | none =>
      rw [moved_of_not_seekable hpos]
      exact Hoare.pure fun _ _ h => h
  | some position =>
      obtain ⟨hs, rfl⟩ := hpos
      simp only [restoreWindowsFilePos]
      split
      · rename_i hzero
        rw [moved_eq_home.2 (Or.inr hzero)]
        exact Hoare.pure fun _ _ h => h
      · cases ioObj with
        | none =>
            have hset : Hoare (calls seekable).traced
                (Runs seekable file (moved seekable file home))
                (perform (.lseekSet file.fd (home file.fd)))
                (fun _ => Runs seekable file
                  (Function.update (moved seekable file home) file.fd (home file.fd)))
                fun _ _ => False := lseekSet_rule hs
            rwa [update_moved hs] at hset
        | some obj =>
            have hfd : obj.fd = file.fd := hobj obj rfl
            have hset : Hoare (calls seekable).traced
                (Runs seekable file (moved seekable file home))
                (perform (.seek obj (home file.fd)))
                (fun _ => Runs seekable file
                  (Function.update (moved seekable file home) obj.fd (home file.fd)))
                fun _ _ => False := seek_rule (hfd.symm ▸ hs)
            rwa [hfd, update_moved hs] at hset

/-- A call of the operating system between the two. -/
theorem restored_rule {fd : Nat} {ioObj : Option IOObject} {originalPos : Option Nat}
    {body : Py α} (h : Saved seekable file home (fd, ioObj, originalPos))
    (hbody : Hoare (calls seekable).traced (Runs seekable file (moved seekable file home)) body
      (fun _ => Runs seekable file (moved seekable file home))
      fun _ => Runs seekable file (moved seekable file home)) :
    Hoare (calls seekable).traced (Runs seekable file (moved seekable file home))
      (do let _ ← Code.withFinally body (restoreWindowsFilePos fd ioObj originalPos); return ())
      (fun _ => Over seekable file home) fun _ => Over seekable file home := by
  have hrestore : Hoare (calls seekable).traced
      (Runs seekable file (moved seekable file home)) (restoreWindowsFilePos fd ioObj originalPos)
      (fun _ => Runs seekable file home) fun _ => Runs seekable file home :=
    (restoreWindowsFilePos_rule h).conseq (fun _ _ h => h) (fun _ _ _ h => h)
      fun _ _ _ h => h.elim
  have hwhole : Hoare (calls seekable).traced (Runs seekable file (moved seekable file home))
      (Code.withFinally body (restoreWindowsFilePos fd ioObj originalPos))
      (fun _ => Runs seekable file home) fun _ => Runs seekable file home :=
    Hoare.withFinally hbody (fun _ => hrestore) fun _ => hrestore
  refine Hoare.bind (R := fun _ => Runs seekable file home) (hwhole.conseq (fun _ _ h => h)
    (fun _ _ _ h => h) fun _ _ _ h => Or.inl h) fun _ => ?_
  exact Hoare.pure fun _ _ h => Or.inl h

/-! ## The methods -/

/-- What every method does: its imports, and then its work on the prepared file. -/
theorem prepared_rule {work : Nat × Option IOObject × Option Nat → Py Unit}
    (hwork : ∀ saved, Saved seekable file home saved →
      Hoare (calls seekable).traced (Runs seekable file (moved seekable file home)) (work saved)
        (fun _ => Over seekable file home) fun _ => Over seekable file home) :
    Hoare (calls seekable).traced (Runs seekable file home) (prepareWindowsFile file >>= work)
      (fun _ => Over seekable file home) fun _ => Over seekable file home := by
  refine Hoare.bind (prepareWindowsFile_rule.conseq (fun _ _ h => h) (fun _ _ _ h => h)
    fun _ _ _ h => Or.inl h) fun saved => ?_
  exact Hoare.of_fact (hwork saved)

theorem after_imports {work : Py Unit}
    (hwork : Hoare (calls seekable).traced (Runs seekable file home) work
      (fun _ => Over seekable file home) fun _ => Over seekable file home) :
    Hoare (calls seekable).traced (Runs seekable file home) (do perform .imports; work)
      (fun _ => Over seekable file home) fun _ => Over seekable file home :=
  Hoare.bind (imports_rule.conseq (fun _ _ h => h) (fun _ _ _ h => h) fun _ _ _ h => Or.inl h)
    fun _ => hwork

/-- A call of the operating system on a handle. -/
theorem handle_rule {body : Nat → Py Unit}
    (hbody : ∀ osFh, Hoare (calls seekable).traced (Runs seekable file (moved seekable file home))
      (body osFh) (fun _ => Runs seekable file (moved seekable file home))
      fun _ => Runs seekable file (moved seekable file home)) :
    Hoare (calls seekable).traced (Runs seekable file home)
      (do
        perform .imports
        let (fd, ioObjCtx, posCtx) ← prepareWindowsFile file
        let osFh ← Win32Locker.getOsHandle fd
        let _ ← Code.withFinally (body osFh) (restoreWindowsFilePos fd ioObjCtx posCtx)
        return ())
      (fun _ => Over seekable file home) fun _ => Over seekable file home := by
  refine after_imports (prepared_rule ?_)
  rintro ⟨fd, ioObjCtx, posCtx⟩ hsaved
  refine Hoare.bind (R := fun _ => Runs seekable file (moved seekable file home))
    (getOsHandle_rule.conseq (fun _ _ h => h) (fun _ _ _ h => h) fun _ _ _ h => Or.inr h)
    fun osFh => ?_
  exact restored_rule hsaved (hbody osFh)

theorem win32Lock_rule (self : Win32Locker) (flags : LockFlags) :
    Hoare (calls seekable).traced (Runs seekable file home) (self.lock file flags)
      (fun _ => Over seekable file home) fun _ => Over seekable file home := by
  refine handle_rule fun osFh => ?_
  refine Hoare.tryCatch (lockCall_rule rfl fun _ _ _ _ h => answered h) fun e => ?_
  exact Hoare.throw fun _ _ h => h

theorem win32Unlock_rule (self : Win32Locker) :
    Hoare (calls seekable).traced (Runs seekable file home) (self.unlock file)
      (fun _ => Over seekable file home) fun _ => Over seekable file home := by
  refine handle_rule fun osFh => ?_
  refine Hoare.tryCatch (lockCall_rule rfl fun _ _ _ _ h => answered h) fun e => ?_
  unfold Win32Locker.unlockFailed
  split
  · split
    · exact Hoare.throw fun _ _ h => h
    · exact Hoare.pure fun _ _ h => h
  · exact Hoare.throw fun _ _ h => h
  · exact Hoare.throw fun _ _ h => h

theorem msvcrtLock_rule (self : MsvcrtLocker) (flags : LockFlags) :
    Hoare (calls seekable).traced (Runs seekable file home) (self.lock file flags)
      (fun _ => Over seekable file home) fun _ => Over seekable file home := by
  refine after_imports ?_
  split
  · split
    · exact Hoare.throw fun _ _ h => Or.inl h
    · exact win32Lock_rule _ _
  · refine prepared_rule ?_
    rintro ⟨fd, ioObjCtx, posCtx⟩ hsaved
    refine restored_rule hsaved ?_
    refine Hoare.tryCatch (lockCall_rule rfl fun _ _ _ _ h => answered h) fun e => ?_
    exact Hoare.throw fun _ _ h => h

/-- The fallback finds the position restored. -/
theorem fallback_rule {saved : Nat × Option IOObject × Option Nat}
    (h : Saved seekable file home saved) (win32Locker : Win32Locker) (strerror : Text) :
    Hoare (calls seekable).traced (Runs seekable file (moved seekable file home))
      (do
        restoreWindowsFilePos saved.1 saved.2.1 saved.2.2
        tryCatch (win32Locker.unlock file) fun e =>
          throw (MsvcrtLocker.fallbackFailed strerror e))
      (fun _ => Over seekable file home) fun _ => Over seekable file home := by
  refine Hoare.bind ((restoreWindowsFilePos_rule h).conseq (fun _ _ h => h) (fun _ _ _ h => h)
    fun _ _ _ h => h.elim) fun _ => ?_
  exact Hoare.tryCatch (win32Unlock_rule win32Locker) fun e => Hoare.throw fun _ _ h => h

/-- After the `try` statement of `unlock` the position is still moved, or the fallback has
taken care of it. -/
theorem tryUnlock_rule (self : MsvcrtLocker) {fd : Nat} {ioObjCtx : Option IOObject}
    {posCtx : Option Nat} (h : Saved seekable file home (fd, ioObjCtx, posCtx)) :
    Hoare (calls seekable).traced (Runs seekable file (moved seekable file home))
      (self.tryUnlock file fd ioObjCtx posCtx)
      (fun result W => if result.1 then Over seekable file home W
        else Runs seekable file (moved seekable file home) W)
      fun _ => Over seekable file home := by
  refine Hoare.bind (R := fun _ => Runs seekable file (moved seekable file home))
    (Hoare.of_post (Hoare.attempt (lockCall_rule rfl fun _ _ _ _ h => answered h))
      fun outcome _ _ hends => ?_) fun outcome => ?_
  · cases outcome with
    | ok v => exact hends
    | error e => exact hends
  split
  · split
    · split
      · exact Hoare.pure fun _ _ h => h
      · refine Hoare.bind (R := fun _ => Over seekable file home)
          (Hoare.of_post (Hoare.attempt (fallback_rule h _ _)) fun outcome _ _ hends => ?_)
          fun outcome => Hoare.pure fun _ _ h => h
        cases outcome with
        | ok v => exact hends
        | error e => exact hends
    · exact Hoare.pure fun _ _ h => h
  · exact Hoare.pure fun _ _ h => h

theorem msvcrtUnlock_rule (self : MsvcrtLocker) :
    Hoare (calls seekable).traced (Runs seekable file home) (self.unlock file)
      (fun _ => Over seekable file home) fun _ => Over seekable file home := by
  refine after_imports (prepared_rule ?_)
  rintro ⟨fd, ioObjCtx, posCtx⟩ hsaved
  refine Hoare.bind (tryUnlock_rule self hsaved) ?_
  rintro ⟨tookFallbackPath, outcome⟩
  have houtcome : Hoare (calls seekable).traced (Over seekable file home)
      (match outcome with
        | .ok () => return ()
        | .error e => throw e : Py Unit)
      (fun _ => Over seekable file home) fun _ => Over seekable file home := by
    split
    · exact Hoare.pure fun _ _ h => h
    · exact Hoare.throw fun _ _ h => h
  cases tookFallbackPath with
  | true => exact houtcome
  | false =>
      refine Hoare.bind (R := fun _ => Over seekable file home)
        ((restoreWindowsFilePos_rule hsaved).conseq (fun _ _ h => h)
          (fun _ _ _ h => Or.inl h) fun _ _ _ h => h.elim) fun _ => ?_
      exact houtcome

/-- How a call of either locker can end. -/
theorem method_rule (m : Method) :
    Hoare (calls seekable).traced (Runs seekable file home) (m.code file)
      (fun _ => Over seekable file home) fun _ => Over seekable file home := by
  cases m with
  | win32Lock self flags => exact win32Lock_rule self flags
  | win32Unlock self => exact win32Unlock_rule self
  | msvcrtLock self flags => exact msvcrtLock_rule self flags
  | msvcrtUnlock self => exact msvcrtUnlock_rule self

end Rules

/-- Every lock call of either locker is made at byte 0, and the call leaves every position
as it found it, exactly when no translation of the descriptor into a handle has raised in
it, unless the argument cannot seek or was at byte 0 anyway. -/
theorem lockers_keep_position_iff (seekable : Nat → Bool) (m : Method) (file : FileArgument)
    {home positions : Positions} {log : Log} {outcome : Except Failure Unit}
    (hex : (calls seekable).Executes (m.code file).run home log outcome positions) :
    FromStart seekable file log ∧ positions = home ↔
      Translates log ∨ seekable file.fd = false ∨ home file.fd = 0 := by
  have hruns : Runs seekable file home (home, []) :=
    ⟨rfl, fun _ h => (by cases h), fun _ h => (by cases h)⟩
  have hover : Over seekable file home (positions, log) := by
    have hends := (method_rule m).executes_alone hruns hex
    cases outcome with
    | ok v => exact hends
    | error e => exact hends
  rcases hover with ⟨hhome, hstart, htranslates⟩ | ⟨hmoved, hstart, hraised⟩
  · exact iff_of_true ⟨hstart, hhome⟩ (Or.inl htranslates)
  · obtain rfl : positions = moved seekable file home := hmoved
    constructor
    · exact fun h => Or.inr (moved_eq_home.1 h.2)
    · rintro (htranslates | hstill)
      · exact absurd htranslates hraised
      · exact ⟨hstart, moved_eq_home.2 hstill⟩

theorem executes_of_act {seekable : Nat → Bool} {choices : List Choice} {x : Py Unit}
    {home positions : Positions} {log : Log} {outcome : Except Failure Unit}
    (h : x.run.play (act seekable) choices home = some (log, outcome, positions)) :
    (calls seekable).Executes x.run home log outcome positions :=
  Context.Executes.of_play (C := calls seekable) (fun hact => ⟨_, hact⟩) h

/-- A shared lock on a descriptor at byte 5 is released through the fallback. -/
theorem lockers_keep_position_iff_run :
    ∃ log positions, (calls fun _ => true).Executes
        (Method.code (.msvcrtUnlock ⟨some {}, 0x10000⟩) (.int 3)).run (fun _ => 5) log (.ok ())
        positions ∧
      FromStart (fun _ => true) (.int 3) log ∧ positions = fun _ => 5 := by
  have hobserve : ((Method.code (.msvcrtUnlock ⟨some {}, 0x10000⟩) (.int 3)).run.play
      (act fun _ => true) [{}, {}, {}, { fault := some (.osError 13 [] []) }, {}, {}, {}, {}, {},
        {}, {}, {}] fun _ => 5).map (fun r => (r.2.1, decide (Translates r.1))) =
      some (.ok (), true) := by rfl
  obtain ⟨⟨log, outcome, positions⟩, hplay, houtcome⟩ := Option.map_eq_some_iff.1 hobserve
  obtain ⟨rfl, htranslates⟩ := Prod.mk.inj houtcome
  have hex := executes_of_act hplay
  exact ⟨log, positions, hex, (lockers_keep_position_iff (fun _ => true) _ (.int 3) hex).2
    (Or.inl (of_decide_eq_true htranslates))⟩

/-- The descriptor cannot be translated into a handle: the position stays at byte 0. -/
theorem handle_translation_moves :
    ¬ ∀ (seekable : Nat → Bool) (m : Method) (file : FileArgument) (home positions : Positions)
      (log : Log) (outcome : Except Failure Unit),
      (calls seekable).Executes (m.code file).run home log outcome positions →
      FromStart seekable file log ∧ positions = home := by
  intro hclaim
  have hobserve : ((Method.code (.win32Lock {} ⟨true, false, true⟩) (.int 3)).run.play
      (act fun _ => true) [{}, {}, {}, {}, { fault := some (.osError 9 [] []) }] fun _ => 5).map
      (fun r => r.2.2 3) = some 0 := by rfl
  obtain ⟨⟨log, outcome, positions⟩, hplay, hposition⟩ := Option.map_eq_some_iff.1 hobserve
  obtain ⟨-, hhome⟩ := hclaim _ _ _ _ _ _ _ (executes_of_act hplay)
  have hfive : positions 3 = 5 := congrFun hhome 3
  have hzero : positions 3 = 0 := hposition
  omega

end Portalocker.Windows
