import Portalocker.Types
import Portalocker.Foundation.Discipline
set_option autoImplicit false

/-!
# The state file locks share

One client of the machine is one instance of a lock class of `utils.py`.  The
world holds the file system and the attributes of every instance; an operation
is one system call, one read or write of an attribute, or one question to the
clock.  The reference counts of file objects and of inner `Lock` objects are
reduced to one mark: an object whose last reference is gone is `dropped`, and
the environment may finalize it at any later moment.

The last fields of the world are history: no operation's answer depends on them.
-/

namespace Portalocker

open Posix Interleaving

/-! ## The lock objects -/

/-- The default mode. -/
theorem append_mode : 'w' ∉ ['a'] := by decide

/-- The attributes of a `Lock`.  `truncate` says that its mode contained a `w`, which
`mode` does not any more. -/
structure Lock where
  filename : Path
  mode : List Char := ['a']
  truncate : Bool := false
  timeout : Rat := defaultTimeout
  checkInterval : Rat := defaultCheckInterval
  failWhenLocked : Bool := false
  flags : LockFlags := .lockMethod
  raiseOnReleaseError : Bool := false
  /-- the `buffering` of the file object -/
  bufferSize : Nat := defaultBufferSize
  mode_w : 'w' ∉ mode := by first | exact append_mode | decide

/-- The part of the constructor that rewrites the mode: a `w` becomes an `a`, and the
truncation is postponed. -/
def Lock.init (self : Lock) (mode : List Char) : Lock :=
  { self with
    mode := mode.map fun c => if c = 'w' then 'a' else c
    truncate := 'w' ∈ mode
    mode_w := fun h => by
      obtain ⟨c, -, hc⟩ := List.mem_map.1 h
      split at hc
      · exact absurd hc (by decide)
      · exact absurd hc ‹_› }

/-- An `RLock` is a `Lock` with a count of its acquisitions. -/
structure RLock extends Lock

/-- The constructor arguments of a `TemporaryFileLock`. -/
structure TemporaryFileLock where
  filename : Path
  timeout : Rat := defaultTimeout
  checkInterval : Rat := defaultCheckInterval
  failWhenLocked : Bool := true
  flags : LockFlags := .lockMethod

/-- The constructor arguments of a `PidFileLock`, and the pid of its process. -/
structure PidFileLock where
  filename : Path
  timeout : Rat := defaultTimeout
  checkInterval : Rat := defaultCheckInterval
  failWhenLocked : Bool := true
  getpid : UInt32

/-- The constructor arguments of a `BoundedSemaphore` with the default
`filename_pattern`. -/
structure BoundedSemaphore where
  maximum : Nat
  name : Path
  directory : Path
  timeout : Rat := defaultTimeout
  checkInterval : Rat := defaultCheckInterval
  failWhenLocked : Bool := true

/-- `_lockfile`, the sidecar file that carries the lock. -/
def PidFileLock.lockfile (self : PidFileLock) : Path := self.filename ++ ".lock".toList

/-- An instance of one of the lock classes. -/
inductive Instance
  | lock (self : Lock)
  | rLock (self : RLock)
  | temporaryFileLock (self : TemporaryFileLock)
  | pidFileLock (self : PidFileLock)
  | boundedSemaphore (self : BoundedSemaphore)

namespace Instance

/-- The path of the file whose OS lock the instance takes; a semaphore has one
for every slot instead. -/
def lockPath : Instance → Option Path
  | lock self => some self.filename
  | rLock self => some self.filename
  | temporaryFileLock self => some self.filename
  | pidFileLock self => some self.lockfile
  | boundedSemaphore _ => none

/-- The path the instance publishes its pid under. -/
def pidPath : Instance → Option Path
  | pidFileLock self => some self.filename
  | _ => none

end Instance

/-- The calls a client can make on its instance. -/
inductive Call
  | acquire (timeout checkInterval : Option Rat) (failWhenLocked : Option Bool)
  | release
  | enter
  | exit
  | readPid
  | write (bytes : List UInt8)
  | flush

/-- The call acquires. -/
def Call.acquires : Call → Bool
  | .acquire _ _ _ | .enter => true
  | _ => false

/-! ## Operations -/

variable {ι : Type}

/-- The atomic operations. -/
inductive Op (ι : Type)
  /-- `self.fh` of the `Lock` object the instance uses, and its assignment -/
  | fh
  | setFh (value : Option (Handle ι Path))
  /-- whether the instance refers to a `Lock` object of its own: `_inner_lock` of
  a `PidFileLock`, `lock` of a `BoundedSemaphore` -/
  | innerLock
  | setInnerLock (value : Bool)
  /-- the last reference to that object goes away -/
  | discardLock
  | acquiredLock
  | setAcquiredLock (value : Bool)
  /-- `_acquire_count` of an `RLock` -/
  | acquireCount
  | setAcquireCount (value : Nat)
  /-- the last reference to a file object goes away -/
  | drop (h : Handle ι Path)
  | openFile (path : Path) (kind : OpenKind)
  | flock (h : Handle ι Path) (flags : LockFlags)
  | unlock (h : Handle ι Path)
  | close (h : Handle ι Path)
  | seek (h : Handle ι Path)
  | truncate (h : Handle ι Path)
  | write (h : Handle ι Path) (bytes : List UInt8) (bufferSize : Nat)
  | flush (h : Handle ι Path)
  | fsync (h : Handle ι Path)
  | read (h : Handle ι Path)
  | fstat (h : Handle ι Path)
  | stat (path : Path)
  | pathExists (path : Path)
  | unlink (path : Path)
  /-- how many more attempts the clock allows within the timeout -/
  | attempts (timeout : Rat)
  /-- the pause after attempt `i` -/
  | sleep (i : Nat) (checkInterval : Rat)
  /-- history: `acquire` is about to return -/
  | acquired
  /-- history: `read_pid` has been called, and what it returns -/
  | readPidCalled
  | readPidReturns (value : Option Int)

/-- What an operation answers with. -/
abbrev Val : Op ι → Type
  | .fh => Option (Handle ι Path)
  | .innerLock | .acquiredLock | .pathExists _ => Bool
  | .openFile _ _ => Handle ι Path
  | .read _ => List UInt8
  | .acquireCount | .fstat _ | .stat _ | .attempts _ => Nat
  | _ => Unit

/-- Code of the lock classes. -/
abbrev Py (ι : Type) (α : Type) : Type := Code Exc (Op ι) Val α

/-- Perform one operation. -/
abbrev perform {ι : Type} (o : Op ι) : Py ι (Val o) := Code.call o

/-! ## The world -/

/-- One critical section of a file: the handle that was locked for it, whether
it emptied the file, and the bytes written since. -/
structure Section (ι : Type) where
  handle : Handle ι Path
  truncated : Bool
  bytes : List UInt8

structure World (ι : Type) extends Fs ι Path where
  fh : ι → Option (Handle ι Path)
  inner : ι → Bool
  acquired : ι → Bool
  acquireCount : ι → Nat
  dropped : Handle ι Path → Bool
  /-- history: the handle was locked, current, and on the inode its path names at
  an inode comparison; and has been neither unlocked nor closed nor had its path
  unlinked by its owner since -/
  confirmed : Handle ι Path → Bool
  /-- history: `acquire` has taken the lock and the instance has not let go of it,
  by unlinking its lock path or by forgetting its inner lock -/
  held : ι → Bool
  /-- history: the `PidFileLock` that created the inode as its PID file -/
  creator : Nat → Option ι
  /-- history: the instances that were confirmed at some moment since the client's
  last `read_pid` began, and what that call returned -/
  seen : ι → ι → Bool
  answer : ι → Option (Option Int)
  /-- history: the critical sections, the latest to take its lock first -/
  sections : List (Section ι)

namespace World

/-- No file exists and no lock has been used. -/
def empty : World ι where
  names _ := none
  links _ := none
  data _ := []
  opened := []
  lock _ := none
  buffer _ := []
  serial _ := 0
  fh _ := none
  inner _ := false
  acquired _ := false
  acquireCount _ := 0
  dropped _ := false
  confirmed _ := false
  held _ := false
  creator _ := none
  seen _ _ := false
  answer _ := none
  sections := []

variable [DecidableEq ι] (w : World ι)

/-- The instance's current handle has passed the inode comparison. -/
def Verified (p : ι) (h : Handle ι Path) : Prop := w.fh p = some h ∧ w.confirmed h = true

/-- The same, computed. -/
def verified (p : ι) : Bool := (w.fh p).any w.confirmed

@[simps toFs fh inner acquired dropped confirmed held creator seen answer sections]
def setFh (p : ι) (v : Option (Handle ι Path)) : World ι :=
  { w with fh := Function.update w.fh p v }

@[simps toFs fh inner acquired dropped confirmed held creator seen answer sections]
def drop (h : Handle ι Path) : World ι :=
  { w with dropped := Function.update w.dropped h true }

/-- The `Lock` object of `p` loses its last reference, and its file object with
it. -/
@[simps toFs fh inner acquired dropped confirmed held creator seen answer sections]
def discardLock (p : ι) : World ι :=
  { w with
    fh := Function.update w.fh p none
    dropped := fun h => w.dropped h || w.fh p = some h }

/-- The instance refers to its inner lock, or forgets it. -/
@[simps toFs fh inner acquired dropped confirmed held creator seen answer sections]
def setInner (p : ι) (b : Bool) : World ι :=
  { w with
    inner := Function.update w.inner p b
    held := if b then w.held else Function.update w.held p false }

/-- Open an existing inode. -/
@[simps toFs fh inner acquired dropped confirmed held creator seen answer sections]
def openAt (p : ι) (path : Path) (i : Nat) : World ι :=
  { w with toFs := w.toFs.openAt p path i }

/-- Create a file; `creator` is who publishes a pid in it. -/
@[simps toFs fh inner acquired dropped confirmed held creator seen answer sections]
def create (path : Path) (i : Nat) (creator : Option ι) : World ι :=
  { w with toFs := w.toFs.create path i, creator := Function.update w.creator i creator }

/-- Lock a handle: a critical section begins. -/
@[simps toFs fh inner acquired dropped confirmed held creator seen answer sections]
def lockHandle (h : Handle ι Path) (mode : LockMode) : World ι :=
  { w with
    toFs := w.toFs.setLock h (some mode)
    sections := ⟨h, false, []⟩ :: w.sections }

@[simps toFs fh inner acquired dropped confirmed held creator seen answer sections]
def unlockHandle (h : Handle ι Path) : World ι :=
  { w with
    toFs := w.toFs.setLock h none
    confirmed := Function.update w.confirmed h false }

/-- Replace the content of a file and of a handle's buffer. -/
@[simps toFs fh inner acquired dropped confirmed held creator seen answer sections]
def store (h : Handle ι Path) (content pending : List UInt8) : World ι :=
  { w with toFs := w.toFs.store h content pending }

@[simps toFs fh inner acquired dropped confirmed held creator seen answer sections]
def discard (h : Handle ι Path) : World ι :=
  { w with
    toFs := w.toFs.discard h
    confirmed := Function.update w.confirmed h false }

/-- Change the section of a handle. -/
@[simps toFs fh inner acquired dropped confirmed held creator seen answer sections]
def record (h : Handle ι Path) (f : Section ι → Section ι) : World ι :=
  { w with sections := w.sections.map fun s => if s.handle = h then f s else s }

/-- Remove a name; `own` are the handles whose lock file it is. -/
@[simps toFs fh inner acquired dropped confirmed held creator seen answer sections]
def unlink (p : ι) (path : Path) (isLockPath : Bool) : World ι :=
  { w with
    toFs := w.toFs.unlink path
    confirmed := fun h => w.confirmed h && !(h.owner = p && h.path = path)
    held := if isLockPath then Function.update w.held p false else w.held }

/-- Empty a file. -/
@[simps toFs fh inner acquired dropped confirmed held creator seen answer sections]
def emptyFile (i : Nat) : World ι :=
  { w with toFs := { w.toFs with data := Function.update w.data i [] } }

/-- The handle is the current one of `p`, is locked and names the inode `i` as
`path`. -/
def Matches (p : ι) (path : Path) (i : Nat) (h : Handle ι Path) : Prop :=
  w.fh p = some h ∧ h.path = path ∧ h.ino = i ∧ w.lock h ≠ none

instance (p : ι) (path : Path) (i : Nat) (h : Handle ι Path) : Decidable (w.Matches p path i h) :=
  inferInstanceAs (Decidable (_ ∧ _))

/-- The inode comparison of `p` finds `path` on the inode `i`. -/
@[simps toFs fh inner acquired dropped confirmed held creator seen answer sections]
def compare (p : ι) (path : Path) (i : Nat) : World ι :=
  { w with
    confirmed := fun h => w.confirmed h || w.Matches p path i h
    seen := fun r q => w.seen r q || (q = p && (w.fh p).any fun h => w.Matches p path i h) }

end World

/-! ## What an operation does -/

/-- The instances, and the exceptions an operation of a call may raise without
taking effect. -/
structure Config (ι : Type) where
  object : ι → Instance
  mayRaise : Call → Op ι → Exc → Bool

/-- What the environment decides when an operation is performed: the number of a
new inode, the number of attempts or of bytes that leave a full buffer, and an
exception that is raised instead. -/
structure Choice where
  ino : Nat := 0
  count : Nat := 0
  fault : Option Exc := none

/-- What the environment does on its own: it finalizes a dropped file object. -/
structure Finalize (ι : Type) where
  handle : Handle ι Path

namespace Config

variable [DecidableEq ι] (cfg : Config ι)

/-- An operation on a closed file raises. -/
def onOpen (w : World ι) (h : Handle ι Path) {α : Type} (r : Option (Except Exc α × World ι)) :
    Option (Except Exc α × World ι) :=
  if h ∈ w.opened then r else some (.error .valueError, w)

/-- The effect of an operation that no exception prevents; `none` while it waits. -/
def act (choice : Choice) (p : ι) (w : World ι) : (o : Op ι) → Option (Except Exc (Val o) × World ι)
  | .fh => some (.ok (w.fh p), w)
  | .setFh v => some (.ok (), w.setFh p v)
  | .innerLock => some (.ok (w.inner p), w)
  | .setInnerLock b => some (.ok (), w.setInner p b)
  | .discardLock => some (.ok (), w.discardLock p)
  | .acquiredLock => some (.ok (w.acquired p), w)
  | .setAcquiredLock b => some (.ok (), { w with acquired := Function.update w.acquired p b })
  | .acquireCount => some (.ok (w.acquireCount p), w)
  | .setAcquireCount n =>
      some (.ok (), { w with acquireCount := Function.update w.acquireCount p n })
  | .drop h => some (.ok (), w.drop h)
  | .openFile path kind =>
      match w.names path with
      | some i =>
          match kind with
          | .create => some (.error (.osError .EEXIST), w)
          | .write => some (.ok (w.handle p path i), (w.emptyFile i).openAt p path i)
          | _ => some (.ok (w.handle p path i), w.openAt p path i)
      | none =>
          match kind with
          | .read => some (.error (.osError .ENOENT), w)
          | _ =>
              if w.Fresh choice.ino then
                some (.ok (w.handle p path choice.ino),
                  (w.create path choice.ino
                    (if (cfg.object p).pidPath = some path then some p else none)).openAt
                      p path choice.ino)
              else none
  | .flock h flags =>
      onOpen w h <|
        match flags.mode with
        | none => some (.error (.osError .EINVAL), w)
        | some mode =>
            if w.Conflicts h mode then
              if flags.nonBlocking then some (.error (.osError .EAGAIN), w) else none
            else some (.ok (), w.lockHandle h mode)
  | .unlock h => onOpen w h <| some (.ok (), w.unlockHandle h)
  | .close h =>
      if h ∈ w.opened then
        some (.ok (), (w.store h (w.data h.ino ++ w.buffer h) []).discard h)
      else some (.ok (), w)
  | .seek h | .flush h =>
      onOpen w h <| some (.ok (), w.store h (w.data h.ino ++ w.buffer h) [])
  | .truncate h =>
      onOpen w h <| some (.ok (), (w.store h [] []).record h fun s => ⟨s.handle, true, []⟩)
  | .write h bytes bufferSize =>
      let pending := w.buffer h ++ bytes
      onOpen w h <|
        if choice.count = 0 ∨ (bufferSize < pending.length ∧ choice.count ≤ pending.length) then
          some (.ok (), (w.store h (w.data h.ino ++ pending.take choice.count)
            (pending.drop choice.count)).record h fun s =>
              ⟨s.handle, s.truncated, s.bytes ++ bytes⟩)
        else none
  | .fsync h => onOpen w h <| some (.ok (), w)
  | .read h => onOpen w h <| some (.ok (w.data h.ino), w)
  | .fstat h => onOpen w h <| some (.ok h.ino, w)
  | .stat path =>
      match w.names path with
      | some i => some (.ok i, w.compare p path i)
      | none => some (.error (.osError .ENOENT), w)
  | .pathExists path => some (.ok (w.names path).isSome, w)
  | .unlink path =>
      match w.names path with
      | some _ => some (.ok (), w.unlink p path ((cfg.object p).lockPath = some path))
      | none => some (.error (.osError .ENOENT), w)
  | .attempts timeout =>
      if timeout ≤ 0 ∧ choice.count ≠ 0 then none else some (.ok choice.count, w)
  | .sleep _ _ => some (.ok (), w)
  | .acquired => some (.ok (), { w with held := Function.update w.held p true })
  | .readPidCalled =>
      some (.ok (), { w with
        seen := Function.update w.seen p w.verified
        answer := Function.update w.answer p none })
  | .readPidReturns v => some (.ok (), { w with answer := Function.update w.answer p (some v) })

/-- A `close` that raises has closed the descriptor; its buffer is lost. -/
def afterFault (w : World ι) : Op ι → World ι
  | .close h => if h ∈ w.opened then (w.store h (w.data h.ino) []).discard h else w
  | _ => w

/-- Perform an operation: it takes effect or raises an exception that the
configuration allows there. -/
def performOp (choice : Choice) (p : ι) (c : Call) (w : World ι) (o : Op ι) :
    Option (Except Exc (Val o) × World ι) :=
  match choice.fault with
  | none => cfg.act choice p w o
  | some e => if cfg.mayRaise c o e then some (.error e, afterFault w o) else none

/-- Finalizing a dropped file object flushes and closes it. -/
def finalize (e : Finalize ι) (w : World ι) : Option (World ι) :=
  if e.handle ∈ w.opened ∧ w.dropped e.handle then
    some ((w.store e.handle (w.data e.handle.ino ++ w.buffer e.handle) []).discard e.handle)
  else none

end Config

end Portalocker
