import Portalocker.Types
import Portalocker.Foundation.Discipline
import Portalocker.Foundation.Kinds
set_option autoImplicit false
set_option linter.unusedSectionVars false

/-!
# `open_atomic`

A call writes to a temporary file next to the destination and publishes it with an
operation that refuses an existing destination: a hard link on POSIX, a rename on
Windows.  The body of the `with` statement is any code over the temporary file.  The
other programs act on every path but that of the temporary file, and on the content
of every file they can reach, between any two operations of the call.

The last fields of the world are history: no operation's answer depends on them.
-/

namespace Portalocker

namespace OpenAtomic

open Interleaving

/-! ## The state -/

/-- The temporary file of a call: its name, and the inode it was created with. -/
structure Temp where
  path : Path
  ino : Nat
  deriving DecidableEq

/-- The files, the file object of the temporary file, and the history of the call.
An inode may have several names; inode numbers are given in order. -/
structure World where
  names : Path → Option Nat
  data : Nat → List UInt8
  inodes : Nat
  temp : Option Temp
  isOpen : Bool
  /-- the bytes that wait in the buffer of the file object -/
  pending : List UInt8
  /-- history: the bytes the body has written in this call; of a write that has raised,
  those that are in the file nevertheless -/
  written : List UInt8
  /-- history: what the destination held when the call made it appear -/
  published : Option (List UInt8)
  /-- history: whether the call has ended, and without an exception -/
  outcome : Option Bool

/-- The atomic operations. -/
inductive Op
  /-- history: a call begins, and it ends -/
  | begins
  | ends (returned : Bool)
  | pathExists (path : Path)
  | mkdir (path : Path)
  | namedTemporaryFile (dir : Path)
  | write (f : Temp) (bytes : List UInt8)
  | flush (f : Temp)
  | fsync (f : Temp)
  | close (f : Temp)
  | link (f : Temp) (path : Path)
  | rename (f : Temp) (path : Path)
  | remove (f : Temp)

/-- What an operation answers with. -/
abbrev Val : Op → Type
  | .pathExists _ => Bool
  | .namedTemporaryFile _ => Temp
  | _ => Unit

/-- Code of the function and of the bodies of its `with` statements. -/
abbrev Py (α : Type) : Type := Code Exc Op Val α

abbrev perform (o : Op) : Py (Val o) := Code.call o

/-! ## The code -/

/-- What the body can do with the file it is given. -/
def OnFile (f : Temp) : Op → Prop
  | .write g _ | .flush g | .fsync g | .close g => g = f
  | _ => False

/-- A `with open_atomic(filename)` statement. -/
structure Call where
  filename : Path
  body : Temp → Py Unit
  body_onFile : ∀ f, Code.Within (OnFile f) (body f)

/-- `path.parent`, for a path in normal form; `[]` is the current directory. -/
def parent (path : Path) : Path :=
  match path.reverse.dropWhile (· ≠ '/') with
  | [] => []
  | ['/'] => ['/']
  | _ :: rest => rest.reverse

/-- `os.path.join` of a directory and a name. -/
def join (dir name : Path) : Path :=
  if dir = [] ∨ dir.getLast? = some '/' then dir ++ name else dir ++ '/' :: name

/-- The publication: `os.rename` on Windows, `os.link` elsewhere. -/
def publish (nt : Bool) (f : Temp) (path : Path) : Py Unit :=
  if nt then perform (.rename f path) else perform (.link f path)

/-- The block in which the temporary file is open. -/
def writeTemp (c : Call) (f : Temp) : Py Unit := do
  let _ ← Code.withFinally (do
    c.body f
    perform (.flush f)
    perform (.fsync f)) (perform (.close f))
  return ()

/-- The `try` statement that publishes it and removes its temporary name. -/
def publishTemp (nt : Bool) (c : Call) (f : Temp) : Py Unit := do
  let _ ← Code.withFinally (publish nt f c.filename)
    (Code.suppress Exc.isException (perform (.remove f)))
  return ()

/-- `open_atomic` around its body. -/
def openAtomic (nt : Bool) (c : Call) : Py Unit := do
  if ← perform (.pathExists c.filename) then throw .assertionError
  else do
    perform (.mkdir (parent c.filename))
    let f ← perform (.namedTemporaryFile (parent c.filename))
    writeTemp c f
    publishTemp nt c f

/-- The whole statement, with its outcome in the history. -/
def statement (nt : Bool) (c : Call) : Py Unit := do
  perform .begins
  let outcome ← Code.attempt (openAtomic nt c)
  perform (.ends outcome.isOk)

/-! ## What an operation does -/

/-- What the environment decides: the name of a temporary file, how many bytes reach
the file, and an exception that is raised instead. -/
structure Choice where
  name : Path := []
  count : Nat := 0
  fault : Option Exc := none

namespace World

/-- The path is not that of the temporary file. -/
def Foreign (w : World) (path : Path) : Prop := ∀ f ∈ w.temp, f.path ≠ path

instance (w : World) (path : Path) : Decidable (w.Foreign path) := by
  unfold Foreign
  infer_instance

/-- What a path names: the file and its content. -/
def lookup (w : World) (path : Path) : Option (Nat × List UInt8) :=
  (w.names path).map fun i => (i, w.data i)

/-- A new file, also where the path names another one. -/
@[simps] def create (w : World) (path : Path) (content : List UInt8) : World :=
  { w with
    names := Function.update w.names path (some w.inodes)
    data := Function.update w.data w.inodes content
    inodes := w.inodes + 1 }

/-- A path names something else, or nothing. -/
@[simps] def rename (w : World) (path : Path) (i : Option Nat) : World :=
  { w with names := Function.update w.names path i }

/-- Other content. -/
@[simps] def store (w : World) (i : Nat) (content : List UInt8) : World :=
  { w with data := Function.update w.data i content }

/-- The file object of the temporary file takes `bytes`, and of all waiting bytes the
first `n` reach the file. -/
@[simps] def accept (w : World) (f : Temp) (bytes : List UInt8) (n : Nat) : World :=
  { w with
    data := Function.update w.data f.ino (w.data f.ino ++ (w.pending ++ bytes).take n)
    pending := (w.pending ++ bytes).drop n
    written := w.written ++ bytes }

/-- The file object is closed. -/
@[simps] def closed (w : World) : World := { w with isOpen := false, pending := [] }

/-- The destination appears. -/
@[simps] def appear (w : World) (path : Path) (i : Nat) : World :=
  { w with
    names := Function.update w.names path (some i)
    published := some (w.data i) }

end World

/-- The file object is open. -/
def IsOpen (w : World) (f : Temp) : Prop := w.temp = some f ∧ w.isOpen = true

instance (w : World) (f : Temp) : Decidable (IsOpen w f) := inferInstanceAs (Decidable (_ ∧ _))

/-- The effect of an operation that no exception prevents.  The name of a temporary
file is new, and nobody else will touch it: it is not the destination. -/
def act (choice : Choice) (c : Call) (w : World) : (o : Op) → Option (Except Exc (Val o) × World)
  | .begins => some (.ok (), { w with
      temp := none, isOpen := false, pending := [], written := [], published := none,
      outcome := none })
  | .ends returned => some (.ok (), { w with outcome := some returned })
  | .pathExists path => some (.ok (w.names path).isSome, w)
  | .mkdir _ => some (.ok (), w)
  | .namedTemporaryFile dir =>
      let f : Temp := ⟨join dir choice.name, w.inodes⟩
      if w.names f.path = none ∧ f.path ≠ c.filename then
        some (.ok f, { w.create f.path [] with temp := some f, isOpen := true, pending := [] })
      else none
  | .write f bytes =>
      if IsOpen w f then some (.ok (), w.accept f bytes choice.count)
      else some (.error .valueError, w)
  | .flush f =>
      if IsOpen w f then some (.ok (), w.accept f [] w.pending.length)
      else some (.error .valueError, w)
  | .fsync f => if IsOpen w f then some (.ok (), w) else some (.error .valueError, w)
  | .close f =>
      if IsOpen w f then some (.ok (), (w.accept f [] w.pending.length).closed)
      else some (.ok (), w)
  | .link f path =>
      match w.names f.path, w.names path with
      | none, _ => some (.error (.osError .ENOENT), w)
      | some _, some _ => some (.error (.osError .EEXIST), w)
      | some i, none => some (.ok (), w.appear path i)
  | .rename f path =>
      match w.names f.path, w.names path with
      | none, _ => some (.error (.osError .ENOENT), w)
      | some _, some _ => some (.error (.osError .EEXIST), w)
      | some i, none => some (.ok (), (w.appear path i).rename f.path none)
  | .remove f =>
      match w.names f.path with
      | none => some (.error (.osError .ENOENT), w)
      | some _ => some (.ok (), w.rename f.path none)

/-- What an operation that raises leaves behind.  Some of the bytes that waited, and of
those of the failed write, may have reached the file; a failed `close` has closed it. -/
def afterFault (n : Nat) (w : World) : Op → World
  | .write f bytes =>
      if IsOpen w f then w.accept f (bytes.take (n - w.pending.length)) n else w
  | .flush f => if IsOpen w f then w.accept f [] n else w
  | .close f => if IsOpen w f then (w.accept f [] n).closed else w
  | _ => w

/-- Every operation may raise anything; removing the temporary name is interrupted by
nothing but its own errors. -/
def mayRaise : Op → Exc → Bool
  | .begins, _ | .ends _, _ => false
  | .remove _, e => e.isException
  | _, _ => true

/-- Perform an operation: it takes effect or raises. -/
def performOp (choice : Choice) (c : Call) (w : World) (o : Op) :
    Option (Except Exc (Val o) × World) :=
  match choice.fault with
  | none => act choice c w o
  | some e => if mayRaise o e then some (.error e, afterFault choice.count w o) else none

/-- What other programs do on their own. -/
inductive Elsewhere
  /-- create a file, or replace one by a new one -/
  | create (path : Path) (content : List UInt8)
  /-- give a file another name -/
  | link (source path : Path)
  | remove (path : Path)
  /-- change the content of a file -/
  | store (i : Nat) (content : List UInt8)

/-- They do not touch the temporary name, nor the file itself until it has been
published. -/
def elsewhere (w : World) : Elsewhere → Option World
  | .create path content => if w.Foreign path then some (w.create path content) else none
  | .link source path =>
      if w.Foreign source ∧ w.Foreign path then some (w.rename path (w.names source)) else none
  | .remove path => if w.Foreign path then some (w.rename path none) else none
  | .store i content =>
      if w.published ≠ none ∨ ∀ f ∈ w.temp, f.ino ≠ i then some (w.store i content) else none

/-- A program that uses `open_atomic`, next to others; `nt` is the platform. -/
def machine (nt : Bool) : Machine Unit where
  World := World
  Op := Op
  Res := fun o => Except Exc (Val o)
  Call := Call
  Choice := Choice
  Event := Elsewhere
  perform := fun choice _ c w o => performOp choice c w o
  event := fun e w => elsewhere w e
  body := fun _ c => (statement nt c).toCall

/-- The files and the history of a state of the machine. -/
abbrev files {nt : Bool} (s : (machine nt).State) : World := s.world

end OpenAtomic

end Portalocker
