import Portalocker.Foundation.Program
import Portalocker.Foundation.FileSystem
set_option autoImplicit false

/-!
# Exceptions, flags and paths

The vocabulary of `exceptions.py` and `constants.py`, with the exceptions of the
language and the operating system that the lock classes tell apart.
-/

namespace Portalocker

instance neZeroThree : @NeZero Nat (@Zero.ofOfNat0 Nat (instOfNatNat 0)) 3 :=
  @NeZero.mk Nat (@Zero.ofOfNat0 Nat (instOfNatNat 0)) 3 (Nat.succ_ne_zero 2)

open Posix

/-! ## Exceptions -/

/-- The error numbers the code looks at. -/
inductive Errno
  | EACCES
  | EAGAIN
  | ENOENT
  | EEXIST
  | EINVAL
  | ENOTSUP
  | other (code : Nat)
  deriving DecidableEq, Repr

/-- The exceptions, by the type an `except` clause sees. -/
inductive Exc
  | osError (errno : Errno)
  | eofError
  | valueError
  | runtimeError
  | assertionError
  | lockException
  | alreadyLocked
  /-- any other subclass of `Exception`, such as one a Redis client raises -/
  | other (code : Nat)
  | keyboardInterrupt
  | systemExit
  deriving DecidableEq, Repr

namespace Exc

/-- `except Exception` catches it: everything but the two interrupts. -/
def isException : Exc → Bool
  | keyboardInterrupt | systemExit => false
  | _ => true

/-- `except LockException` catches it. -/
def isLockException : Exc → Bool
  | lockException | alreadyLocked => true
  | _ => false

/-- `except FileNotFoundError` catches it. -/
def isFileNotFound (e : Exc) : Bool :=
  e = osError .ENOENT

/-- `except (ValueError, OSError)` catches it. -/
def isValueOrOSError : Exc → Bool
  | valueError | osError _ => true
  | _ => false

end Exc

/-! ## Flags -/

/-- `LockFlags`, a set of the members `EXCLUSIVE`, `SHARED` and `NON_BLOCKING`. -/
structure LockFlags where
  exclusive : Bool
  shared : Bool
  nonBlocking : Bool
  deriving DecidableEq, Repr

/-- `LOCK_METHOD`, the default of every lock. -/
def LockFlags.lockMethod : LockFlags := ⟨true, false, true⟩

/-- What `flock` is asked for; it refuses both kinds at once and neither. -/
def LockFlags.mode : LockFlags → Option LockMode
  | ⟨true, false, _⟩ => some .exclusive
  | ⟨false, true, _⟩ => some .shared
  | _ => none

/-! ## Modes of files -/

/-- What `open` does about a file that is there and about one that is not, by the
letter of its mode. -/
inductive OpenKind
  | read
  | write
  | append
  | create
  deriving DecidableEq, Repr

/-- How `open` reads a mode; `none` is the `ValueError` of one that is not valid. -/
def openKind (mode : List Char) : Option OpenKind :=
  if mode.all (· ∈ "axrwb+t".toList) ∧ mode.Nodup ∧ ¬ ('t' ∈ mode ∧ 'b' ∈ mode) then
    match mode.filter (· ∈ "rwax".toList) with
    | ['r'] => some .read
    | ['w'] => some .write
    | ['a'] => some .append
    | ['x'] => some .create
    | _ => none
  else none

/-- Only a mode with a `w` empties a file when it is opened. -/
theorem openKind_ne_write {mode : List Char} (h : 'w' ∉ mode) : openKind mode ≠ some .write := by
  intro hkind
  unfold openKind at hkind
  split at hkind
  · split at hkind
    · cases hkind
    · rename_i hletters
      have hmem : 'w' ∈ mode.filter (· ∈ "rwax".toList) := by
        rw [hletters]
        exact List.mem_singleton_self _
      exact h (List.mem_filter.1 hmem).1
    · cases hkind
    · cases hkind
    · cases hkind
  · cases hkind

/-! ## Paths and texts -/

abbrev Path : Type := List Char

/-- The bytes of an ASCII text. -/
def encode (text : List Char) : List UInt8 := text.map fun c => c.toNat.toUInt8

/-- `str(n)` of a process id. -/
def str (n : Nat) : List Char := Nat.toDigits 10 n

/-- `DEFAULT_TIMEOUT`, in seconds. -/
def defaultTimeout : Rat := 5

/-- `DEFAULT_CHECK_INTERVAL`, in seconds. -/
def defaultCheckInterval : Rat := 1 / 4

/-- `io.DEFAULT_BUFFER_SIZE`, the buffer of a file object opened without an
explicit `buffering`. -/
def defaultBufferSize : Nat := 8192

end Portalocker
