import Portalocker.Foundation.Executions
import Portalocker.Utils.Contract
set_option autoImplicit false
set_option linter.unusedSectionVars false

/-!
# What one `acquire` does

One call of `Lock.acquire` among others that may do anything at all to the files, as
long as they leave the instance's own attributes and open handles alone
(`Config.solo`).  The list of the operations it performs says which file it opened, what
became of every attempt to lock it, and whether it was closed again; one triple
(`Lock.acquire_attempts`) describes that list for every outcome, for every exception
raised at any step.
-/

namespace Portalocker

open Posix Interleaving World Contract

variable {ι : Type} [DecidableEq ι]

/-! ## One call among others -/

/-- A call of `p` while the others, and other programs, do what they like: what is not
the instance's own may change at any time and in any way. -/
def Config.solo (cfg : Config ι) (p : ι) (c : Call) :
    Context (World ι) (Op ι) (fun o => Except Exc (Val o)) where
  inv := World.Wf
  rely w w' := Undisturbed p w w' ∧ ∀ h : Handle ι Path, h.owner = p → h ∈ w'.opened → h ∈ w.opened
  pre := Own p
  step w o r w' := ∃ choice, cfg.performOp choice p c w o = some (r, w')
  rely_refl w := ⟨.refl p w, fun _ _ h => h⟩
  rely_trans := fun h₁ h₂ => ⟨h₁.1.trans h₂.1, fun h ho hmem => h₁.2 h ho (h₂.2 h ho hmem)⟩
  inv_step := by
    rintro w o r w' hw hown ⟨choice, h⟩
    exact hw.change hown (Config.performOp_change h)

/-- One operation of a call. -/
abbrev TraceEntry (ι : Type) : Type := Entry (World ι) (Op ι) fun o => Except Exc (Val o)

/-- The operations a call has performed. -/
abbrev Trace (ι : Type) : Type := List (TraceEntry ι)

/-- The context of a call whose operations are written down. -/
abbrev Config.soloTraced (cfg : Config ι) (p : ι) (c : Call) :
    Context (World ι × Trace ι) (Op ι) (fun o => Except Exc (Val o)) :=
  (cfg.solo p c).traced

/-- An assertion of the world and one of the operations so far. -/
def At (P : World ι → Prop) (φ : Trace ι → Prop) (W : World ι × Trace ι) : Prop := P W.1 ∧ φ W.2

section Stability

variable {cfg : Config ι} {p : ι} {c : Call}

theorem stable_solo {P : World ι → Prop}
    (h : ∀ {w w'}, Undisturbed p w w' →
      (∀ h : Handle ι Path, h.owner = p → h ∈ w'.opened → h ∈ w.opened) → P w → P w') :
    (cfg.solo p c).Stable P :=
  ⟨fun _ _ hr hP => h hr.1 hr.2 hP⟩

instance solo_fh (v : Option (Handle ι Path)) : (cfg.solo p c).Stable fun w => w.fh p = v :=
  stable_solo fun hu _ h => hu.fh.trans h

instance solo_serial_le (n : Nat) : (cfg.solo p c).Stable fun w => n ≤ w.serial p :=
  stable_solo fun hu _ h => hu.serial.symm ▸ h

instance solo_acquireCount (n : Nat) : (cfg.solo p c).Stable fun w => w.acquireCount p = n :=
  stable_solo fun hu _ h => hu.acquireCount.trans h

instance solo_opened (h : Handle ι Path) : (cfg.solo p c).Stable (Opened p h) :=
  stable_solo fun hu _ hs => hs.keep hu

instance solo_lockIs (h : Handle ι Path) (m : Option LockMode) :
    (cfg.solo p c).Stable (LockIs p h m) :=
  stable_solo fun hu _ hs => hs.keep hu

/-- The handle is not open, and has been: it is never opened again. -/
def Shut (p : ι) (h : Handle ι Path) (w : World ι) : Prop :=
  h.owner = p ∧ h.serial < w.serial p ∧ h ∉ w.opened

instance solo_shut (h : Handle ι Path) : (cfg.solo p c).Stable (Shut p h) :=
  stable_solo fun hu hopen ⟨ho, hserial, hclosed⟩ =>
    ⟨ho, hu.serial ▸ hserial, fun hmem => hclosed (hopen h ho hmem)⟩

instance solo_serial (h : Handle ι Path) :
    (cfg.solo p c).Stable fun w => h.owner = p ∧ h.serial < w.serial p :=
  stable_solo fun hu _ ⟨ho, hserial⟩ => ⟨ho, hu.serial ▸ hserial⟩

instance stable_at {P : World ι → Prop} {φ : Trace ι → Prop} [hP : (cfg.solo p c).Stable P] :
    (cfg.soloTraced p c).Stable (At P φ) :=
  ⟨fun hw hw' hr h => ⟨hP.keep hw hw' hr.1 h.1, hr.2.symm ▸ h.2⟩⟩

end Stability

section Rule

variable {cfg : Config ι} {p : ι} {c : Call}

/-- One operation, and its place at the end of the list. -/
theorem solo_rule {o : Op ι} {P : World ι × Trace ι → Prop}
    {Q : Val o → World ι × Trace ι → Prop} {E : Exc → World ι × Trace ι → Prop}
    [(cfg.soloTraced p c).Stable P] [∀ v, (cfg.soloTraced p c).Stable (Q v)]
    [∀ e, (cfg.soloTraced p c).Stable (E e)]
    (hpre : ∀ w tr, w.Wf → P (w, tr) → Own p w o)
    (hact : ∀ w tr choice r w', w.Wf → w'.Wf → P (w, tr) → cfg.act choice p w o = some (r, w') →
      Ends Q E r (w', tr ++ [⟨w, o, r, w'⟩]))
    (hfault : ∀ w tr e, w.Wf → P (w, tr) → cfg.mayRaise c o e = true →
      E e (Config.afterFault w o, tr ++ [⟨w, o, .error e, Config.afterFault w o⟩])) :
    Hoare (cfg.soloTraced p c) P (perform o) Q E := by
  have hstep : ∀ W r W', (cfg.soloTraced p c).inv W → (cfg.soloTraced p c).inv W' → P W →
      (cfg.soloTraced p c).step W o r W' → Ends Q E r W' := by
    rintro ⟨w, tr⟩ r ⟨w', tr'⟩ hw hw' hP ⟨⟨choice, h⟩, htr⟩
    obtain rfl : tr' = tr ++ [⟨w, o, r, w'⟩] := htr
    have h' : cfg.performOp choice p c w o = some (r, w') := h
    rcases Config.performOp_cases h' with hact' | ⟨e, he, rfl, rfl⟩
    · exact hact w tr choice r w' hw hw' hP hact'
    · exact hfault w tr e hw hP he
  exact Hoare.step (fun W hw hP => hpre W.1 W.2 hw hP)
    fun W r W' hw hw' hP hs => hstep W r W' hw hw' hP hs

end Rule

/-! ## What the operations show -/

/-- A file is opened, or is not. -/
def opening : TraceEntry ι → Option (Except Exc (Handle ι Path))
  | ⟨_, .openFile _ _, answer, _⟩ => some answer
  | _ => none

/-- The lock is tried. -/
def trying : TraceEntry ι → Option (Handle ι Path × Except Exc Unit)
  | ⟨_, .flock h _, answer, _⟩ => some (h, answer)
  | _ => none

def unlocking : TraceEntry ι → Option (Handle ι Path)
  | ⟨_, .unlock h, _, _⟩ => some h
  | _ => none

def closing : TraceEntry ι → Option (Handle ι Path)
  | ⟨_, .close h, _, _⟩ => some h
  | _ => none

/-- The files a call has opened, or has failed to open. -/
def opensOf (tr : Trace ι) : List (Except Exc (Handle ι Path)) := tr.filterMap opening

/-- The attempts to lock. -/
def triesOf (tr : Trace ι) : List (Handle ι Path × Except Exc Unit) := tr.filterMap trying

def unlocksOf (tr : Trace ι) : List (Handle ι Path) := tr.filterMap unlocking

def closesOf (tr : Trace ι) : List (Handle ι Path) := tr.filterMap closing

@[simp] theorem opensOf_append (tr tr' : Trace ι) :
    opensOf (tr ++ tr') = opensOf tr ++ opensOf tr' := List.filterMap_append

@[simp] theorem triesOf_append (tr tr' : Trace ι) :
    triesOf (tr ++ tr') = triesOf tr ++ triesOf tr' := List.filterMap_append

@[simp] theorem unlocksOf_append (tr tr' : Trace ι) :
    unlocksOf (tr ++ tr') = unlocksOf tr ++ unlocksOf tr' := List.filterMap_append

@[simp] theorem closesOf_append (tr tr' : Trace ι) :
    closesOf (tr ++ tr') = closesOf tr ++ closesOf tr' := List.filterMap_append

@[simp] theorem opensOf_singleton (entry : TraceEntry ι) :
    opensOf [entry] = (opening entry).toList := by
  cases h : opening entry <;> simp [opensOf, h]

@[simp] theorem triesOf_singleton (entry : TraceEntry ι) :
    triesOf [entry] = (trying entry).toList := by
  cases h : trying entry <;> simp [triesOf, h]

@[simp] theorem unlocksOf_singleton (entry : TraceEntry ι) :
    unlocksOf [entry] = (unlocking entry).toList := by
  cases h : unlocking entry <;> simp [unlocksOf, h]

@[simp] theorem closesOf_singleton (entry : TraceEntry ι) :
    closesOf [entry] = (closing entry).toList := by
  cases h : closing entry <;> simp [closesOf, h]

/-- An exception of a step that no handler answers by closing the file. -/
def exposing : TraceEntry ι → Bool
  | ⟨_, .seek _, .error _, _⟩ | ⟨_, .truncate _, .error _, _⟩ | ⟨_, .attempts _, .error _, _⟩
  | ⟨_, .sleep _ _, .error _, _⟩ => true
  | ⟨_, .fstat _, .error e, _⟩ | ⟨_, .stat _, .error e, _⟩ => !e.isFileNotFound
  | _ => false

/-- The handles that are opened and not closed, and whether such a step has raised while
there was one. -/
def account (a : List (Handle ι Path) × Bool) (entry : TraceEntry ι) :
    List (Handle ι Path) × Bool :=
  match opening entry, closing entry with
  | some (.ok h), _ => (h :: a.1, a.2)
  | _, some h => (a.1.filter (· ≠ h), a.2)
  | _, _ => (a.1, a.2 || (exposing entry && !a.1.isEmpty))

def accountOf (tr : Trace ι) : List (Handle ι Path) × Bool := tr.foldl account ([], false)

@[simp] theorem accountOf_append (tr : Trace ι) (entry : TraceEntry ι) :
    accountOf (tr ++ [entry]) = account (accountOf tr) entry := by
  simp [accountOf]

/-- What a settled list begins does not count. -/
theorem accountOf_settled {log : Trace ι} (tr : Trace ι) (h : accountOf log = ([], false)) :
    accountOf (log ++ tr) = accountOf tr := by
  rw [accountOf, List.foldl_append]
  exact congrArg (fun a => tr.foldl account a) h

/-- The operations have opened `h` and tried to lock it with these results, and have
closed these handles. -/
structure Tried (h : Handle ι Path) (results : List (Except Exc Unit))
    (closes : List (Handle ι Path)) (tr : Trace ι) : Prop where
  opens : opensOf tr = [.ok h]
  tries : triesOf tr = results.map fun r => (h, r)
  unlocks : unlocksOf tr = []
  account : accountOf tr = (if h ∈ closes then [] else [h], false)
  closes : closesOf tr = closes

/-- The operation is none of these. -/
def Unseen (entry : TraceEntry ι) : Prop :=
  opening entry = none ∧ trying entry = none ∧ unlocking entry = none ∧ closing entry = none ∧
    exposing entry = false

theorem account_unseen {entry : TraceEntry ι} (he : Unseen entry)
    (a : List (Handle ι Path) × Bool) : account a entry = a := by
  obtain ⟨hopen, -, -, hclose, hexpose⟩ := he
  simp [Portalocker.account, hopen, hclose, hexpose]

section Tried

variable {h : Handle ι Path} {results : List (Except Exc Unit)} {closes : List (Handle ι Path)}
  {tr : Trace ι} {w w' : World ι}

theorem Tried.unseen {entry : TraceEntry ι} (ht : Tried h results closes tr)
    (he : Unseen entry) : Tried h results closes (tr ++ [entry]) := by
  have haccount := account_unseen he
  obtain ⟨hopen, htry, hunlock, hclose, -⟩ := he
  constructor <;>
    simp [ht.opens, ht.tries, ht.unlocks, ht.closes, hopen, htry, hunlock, hclose, haccount,
      ht.account]

theorem Tried.attempt {flags : LockFlags} {r : Except Exc Unit} (ht : Tried h results closes tr) :
    Tried h (results ++ [r]) closes (tr ++ [⟨w, .flock h flags, r, w'⟩]) := by
  constructor <;>
    simp [ht.opens, ht.tries, ht.unlocks, ht.closes, ht.account, Portalocker.account, opening,
      trying, unlocking, closing, exposing]

theorem Tried.close {r : Except Exc Unit} (ht : Tried h results closes tr) :
    Tried h results (closes ++ [h]) (tr ++ [⟨w, .close h, r, w'⟩]) := by
  constructor <;>
    simp [ht.opens, ht.tries, ht.unlocks, ht.closes, ht.account, Portalocker.account, opening,
      trying, unlocking, closing]

/-- A step has raised while `h` was open, and nothing has closed it. -/
structure Abandoned (h : Handle ι Path) (tr : Trace ι) : Prop where
  opens : opensOf tr = [.ok h]
  unlocks : unlocksOf tr = []
  closes : closesOf tr = []
  account : accountOf tr = ([h], true)

theorem Tried.abandon {entry : TraceEntry ι} (ht : Tried h results [] tr)
    (hquiet : opening entry = none ∧ unlocking entry = none ∧ closing entry = none)
    (he : exposing entry = true) : Abandoned h (tr ++ [entry]) := by
  obtain ⟨hopen, hunlock, hclose⟩ := hquiet
  constructor <;>
    simp [ht.opens, ht.unlocks, ht.closes, ht.account, Portalocker.account, hopen, hunlock,
      hclose, he]

theorem Abandoned.unseen {entry : TraceEntry ι} (ha : Abandoned h tr) (he : Unseen entry) :
    Abandoned h (tr ++ [entry]) := by
  have haccount := account_unseen he
  obtain ⟨hopen, -, hunlock, hclose, -⟩ := he
  constructor <;> simp [ha.opens, ha.unlocks, ha.closes, hopen, hunlock, hclose, haccount, ha.account]

end Tried

/-! ## The operations of a `Lock` -/

/-- What `acquire`, `release` and the inode comparison perform. -/
def Lock.Uses (self : Lock) : Op ι → Prop
  | .fh | .setFh _ | .drop _ | .unlock _ | .close _ | .seek _ | .truncate _ | .fstat _ | .stat _
  | .attempts _ | .sleep _ _ => True
  | .openFile path _ => path = self.filename
  | .flock _ flags => flags = self.flags
  | _ => False

/-- A retry loop of operations of a kind. -/
theorem timeoutGenerator_within {kind : Op ι → Prop} {α : Type} {timeout checkInterval : Rat}
    {attempt : Py ι (Except Exc α)} (hattempts : kind (.attempts timeout))
    (hsleep : ∀ i, kind (.sleep i checkInterval)) (h : Code.Within kind attempt) :
    Code.Within kind (timeoutGenerator timeout checkInterval attempt) := by
  have hagain : ∀ remaining i failure, Code.Within kind
      (timeoutGenerator.again checkInterval attempt remaining i failure) := by
    intro remaining
    induction remaining with
    | zero => exact fun _ _ => .pure _
    | succ remaining ih =>
        intro i failure
        refine .bind h fun outcome => ?_
        cases outcome with
        | ok a => exact .pure _
        | error e => exact .step (hsleep i) fun _ => ih (i + 1) e
  refine .bind h fun outcome => ?_
  cases outcome with
  | ok a => exact .pure _
  | error e => exact .step hattempts fun remaining => hagain remaining 1 e

theorem tryLock_uses (self : Lock) (h : Handle ι Path) (failWhenLocked : Bool) :
    Code.Within self.Uses (self.tryLock h failWhenLocked) := by
  have hclose : Code.Within self.Uses (Lock.tryClose h) := .suppress (.call trivial)
  refine .tryCatch (.bind (.ite (.throw _) (.tryCatch (.call rfl) fun _ => .throw _))
    fun _ => .pure _) fun e => .ite (.ite ?_ (.pure _)) (.ite ?_ (.throw _))
  · exact .bind hclose fun _ => .throw _
  · exact .bind hclose fun _ => .throw _

theorem lockAcquire_uses (self : Lock) (timeout checkInterval : Option Rat)
    (failWhenLocked : Option Bool) :
    Code.Within self.Uses (self.acquire timeout checkInterval failWhenLocked : Py ι _) := by
  refine .step trivial fun v => ?_
  cases v with
  | some h => exact .pure _
  | none =>
      refine .bind ?_ fun h => .onRaise (.bind (timeoutGenerator_within trivial (fun _ => trivial)
        (tryLock_uses self h _)) fun outcome => ?_) (.call trivial)
      · unfold Lock.getFh
        split
        · exact .call rfl
        · exact .throw _
      · cases outcome with
        | error e => exact .bind (.suppress (.call trivial)) fun _ => .throw _
        | ok a =>
            exact .bind (.ite (.step trivial fun _ => .call trivial) (.pure _)) fun _ =>
              .step trivial fun _ => .pure _

theorem release_uses (self : Lock) : Code.Within self.Uses (self.release : Py ι Unit) :=
  release_within self trivial (fun _ => trivial) (fun _ => trivial) trivial

/-! ## `Lock.acquire` -/

/-- The operation is a system call, or asks the clock or waits. -/
def Op.Fallible : Op ι → Prop
  | .openFile _ _ | .flock _ _ | .unlock _ | .close _ | .seek _ | .truncate _ | .write _ _ _
  | .flush _ | .fsync _ | .read _ | .fstat _ | .stat _ | .pathExists _ | .unlink _
  | .attempts _ | .sleep _ _ => True
  | _ => False

/-- Any of these may raise any `Exception`; attributes are read and assigned without. -/
def PlainFaults (cfg : Config ι) : Prop :=
  ∀ c o e, cfg.mayRaise c o e = true → e.isException = true ∧ o.Fallible

/-- `PosixLocker.lock` refuses the flags before it makes the system call. -/
def LockFlags.refused (flags : LockFlags) : Bool :=
  flags.nonBlocking && !(flags.shared || flags.exclusive)

theorem PosixLocker.lock_eq (h : Handle ι Path) (flags : LockFlags) :
    (PosixLocker.lock h flags : Py ι Unit) =
      if flags.refused = true then throw .runtimeError
      else tryCatch (perform (.flock h flags)) fun e => throw (PosixLocker.translate e) := rfl

/-- The loop goes on after an attempt with this result. -/
def Retried (failWhenLocked : Bool) (r : Except Exc Unit) : Prop :=
  failWhenLocked = false ∧ ∃ e, r = .error e ∧ (PosixLocker.translate e).isLockException = true

/-- What the system call fails with: an error number, or what the configuration allows. -/
def CanFail (cfg : Config ι) (c : Call) (h : Handle ι Path) (flags : LockFlags) (e : Exc) : Prop :=
  (∃ n, e = .osError n) ∨ cfg.mayRaise c (.flock h flags) e = true

/-- The attempts before the last one were retried; the last one has failed, and `e` is what
the locker made of it. -/
def Missed (cfg : Config ι) (c : Call) (flags : LockFlags) (failWhenLocked : Bool)
    (h : Handle ι Path) (closes : List (Handle ι Path)) (e : Exc) (tr : Trace ι) : Prop :=
  (flags.refused = true ∧ e = .runtimeError ∧ Tried h [] closes tr) ∨
    flags.refused = false ∧ ∃ failed e₀, (∀ r ∈ failed, Retried failWhenLocked r) ∧
      CanFail cfg c h flags e₀ ∧ e = PosixLocker.translate e₀ ∧
      Tried h (failed ++ [.error e₀]) closes tr

/-- Operations that are no attempts change nothing about how the last one failed. -/
theorem Missed.map {cfg : Config ι} {c : Call} {flags : LockFlags} {failWhenLocked : Bool}
    {h : Handle ι Path} {closes closes' : List (Handle ι Path)} {e : Exc} {tr tr' : Trace ι}
    (hm : Missed cfg c flags failWhenLocked h closes e tr)
    (htried : ∀ {results}, Tried h results closes tr → Tried h results closes' tr') :
    Missed cfg c flags failWhenLocked h closes' e tr' := by
  rcases hm with ⟨hrefused, he, ht⟩ | ⟨hrefused, failed, e₀, hretried, hcan, he, ht⟩
  · exact Or.inl ⟨hrefused, he, htried ht⟩
  · exact Or.inr ⟨hrefused, failed, e₀, hretried, hcan, he, htried ht⟩

theorem Missed.tried {cfg : Config ι} {c : Call} {flags : LockFlags} {failWhenLocked : Bool}
    {h : Handle ι Path} {closes : List (Handle ι Path)} {e : Exc} {tr : Trace ι}
    (hm : Missed cfg c flags failWhenLocked h closes e tr) : ∃ results, Tried h results closes tr := by
  rcases hm with ⟨-, -, ht⟩ | ⟨-, failed, e₀, -, -, -, ht⟩
  · exact ⟨_, ht⟩
  · exact ⟨_, ht⟩

/-- The steps after which `Lock.acquire` does not close the handle. -/
def Op.Unguarded : Op ι → Prop
  | .seek _ | .truncate _ | .attempts _ | .sleep _ _ => True
  | _ => False

namespace Lock

variable (self : Lock) (cfg : Config ι) (c : Call) (failWhenLocked : Bool) (p : ι)
  (h : Handle ι Path)

/-- `h` is open and not stored yet; all attempts so far were retried. -/
def Trying : World ι × Trace ι → Prop :=
  At (fun w => Opened p h w ∧ w.fh p = none) fun tr =>
    ∃ failed, (self.flags.refused = true → failed = []) ∧
      (∀ r ∈ failed, Retried failWhenLocked r) ∧ Tried h failed [] tr

/-- Nothing has been opened yet. -/
def Untried (tr : Trace ι) : Prop :=
  opensOf tr = [] ∧ triesOf tr = [] ∧ unlocksOf tr = [] ∧ closesOf tr = [] ∧
    accountOf tr = ([], false)

/-- The file could not be opened, and `e` says why. -/
def Unopened (e : Exc) (tr : Trace ι) : Prop :=
  ((opensOf tr = [] ∧ openKind self.mode = none ∧ e = .valueError) ∨
      opensOf tr = [.error e] ∧
        ((∃ n, e = .osError n) ∨ ∃ path kind, cfg.mayRaise c (.openFile path kind) e = true)) ∧
    triesOf tr = [] ∧ unlocksOf tr = [] ∧ closesOf tr = [] ∧ accountOf tr = ([], false)

/-- The last attempt has locked `h`. -/
def Locks : World ι × Trace ι → Prop :=
  At (fun w => (Opened p h w ∧ w.fh p = none) ∧
      ∃ m, self.flags.mode = some m ∧ LockIs p h (some m) w) fun tr =>
    ∃ failed, (∀ r ∈ failed, Retried failWhenLocked r) ∧ Tried h (failed ++ [.ok ()]) [] tr

/-- The last attempt has failed with `e`. -/
def Misses (e : Exc) : World ι × Trace ι → Prop :=
  At (fun w => (Opened p h w ∧ w.fh p = none) ∧ e.isException = true) fun tr =>
    Missed cfg c self.flags failWhenLocked h [] e tr

/-- It has, and the handle has been closed. -/
def Closes (e : Exc) : World ι × Trace ι → Prop :=
  At (fun w => Shut p h w ∧ w.fh p = none) fun tr => Missed cfg c self.flags failWhenLocked h [h] e tr

/-- `e` leaves `acquire`: after a failed attempt the handle has been closed, after an
unguarded step that may raise it has not. -/
def GivesUp (e : Exc) (W : World ι × Trace ι) : Prop :=
  At (fun w => Shut p h w ∧ w.fh p = none) (fun tr =>
      ∃ e', e = report failWhenLocked e' ∧ Missed cfg c self.flags failWhenLocked h [h] e' tr) W ∨
    At (fun w => (h.owner = p ∧ h.serial < w.serial p) ∧ w.fh p = none) (fun tr =>
      Abandoned h tr ∧ ∃ o : Op ι, o.Unguarded ∧ cfg.mayRaise c o e = true) W

/-- `acquire` returns `h`. -/
def Wins (W : World ι × Trace ι) : Prop :=
  At (fun w => (Opened p h w ∧ w.fh p = some h) ∧
      ∃ m, self.flags.mode = some m ∧ LockIs p h (some m) w) (fun tr =>
    ∃ failed, (∀ r ∈ failed, Retried failWhenLocked r) ∧ Tried h (failed ++ [.ok ()]) [] tr) W

section Stable

variable {cfg : Config ι} {c : Call} {self : Lock} {failWhenLocked : Bool} {p : ι}
  {h : Handle ι Path}

instance stable_trying : (cfg.soloTraced p c).Stable (self.Trying failWhenLocked p h) := by
  unfold Trying
  infer_instance

instance stable_locks : (cfg.soloTraced p c).Stable (self.Locks failWhenLocked p h) := by
  unfold Locks
  infer_instance

instance stable_misses (e : Exc) :
    (cfg.soloTraced p c).Stable (self.Misses cfg c failWhenLocked p h e) := by
  unfold Misses
  infer_instance

instance stable_closes (e : Exc) :
    (cfg.soloTraced p c).Stable (self.Closes cfg c failWhenLocked p h e) := by
  unfold Closes
  infer_instance

instance stable_givesUp (e : Exc) :
    (cfg.soloTraced p c).Stable (self.GivesUp cfg c failWhenLocked p h e) := by
  unfold GivesUp
  infer_instance

instance stable_wins : (cfg.soloTraced p c).Stable (self.Wins failWhenLocked p h) := by
  unfold Wins
  infer_instance

end Stable

/-! ### One step each -/

section Steps

variable {cfg : Config ι} {c : Call} {self : Lock} {failWhenLocked : Bool} {p : ι}
  {h : Handle ι Path}

theorem translate_isException {e : Exc} (h : e.isException = true) :
    (PosixLocker.translate e).isException = true := by
  unfold PosixLocker.translate
  split <;> first | rfl | exact h

/-- The lock is tried. -/
theorem lock_attempts (hfaults : PlainFaults cfg) :
    Hoare (cfg.soloTraced p c) (self.Trying failWhenLocked p h) (PosixLocker.lock h self.flags)
      (fun _ => self.Locks failWhenLocked p h) (self.Misses cfg c failWhenLocked p h) := by
  rw [PosixLocker.lock_eq]
  cases hrefused : self.flags.refused with
  | true =>
      rw [if_pos rfl]
      refine Hoare.throw ?_
      rintro ⟨w, tr⟩ - ⟨hw, failed, hnone, -, htried⟩
      obtain rfl := hnone hrefused
      exact ⟨⟨hw, rfl⟩, Or.inl ⟨hrefused, rfl, htried⟩⟩
  | false =>
      rw [if_neg Bool.false_ne_true]
      have hflock : Hoare (cfg.soloTraced p c) (self.Trying failWhenLocked p h)
          (perform (.flock h self.flags)) (fun _ => self.Locks failWhenLocked p h)
          fun e => self.Misses cfg c failWhenLocked p h (PosixLocker.translate e) := by
        have hmisses : ∀ {w tr} (w' : World ι) {e : Exc}, e.isException = true →
            CanFail cfg c h self.flags e → self.Trying failWhenLocked p h (w, tr) →
            self.Misses cfg c failWhenLocked p h (PosixLocker.translate e)
              (w, tr ++ [⟨w, .flock h self.flags, .error e, w'⟩]) := by
          rintro w tr w' e he hcan ⟨hw, failed, -, hretried, htried⟩
          exact ⟨⟨hw, translate_isException he⟩,
            Or.inr ⟨hrefused, failed, e, hretried, hcan, rfl, htried.attempt⟩⟩
        refine solo_rule (fun w tr _ hP => hP.1.1.1) ?_ ?_
        · intro w tr choice r w' _ _ hP hact
          have hopen : h ∈ w.opened := hP.1.1.2.2
          simp only [Config.act, Config.onOpen, hopen, if_true] at hact
          split at hact
          · simp only [Option.some.injEq, Prod.mk.injEq] at hact
            obtain ⟨rfl, rfl⟩ := hact
            exact hmisses _ rfl (Or.inl ⟨_, rfl⟩) hP
          · rename_i mode hmode
            split at hact
            · simp only [Option.ite_none_right_eq_some, Option.some.injEq, Prod.mk.injEq] at hact
              obtain ⟨-, rfl, rfl⟩ := hact
              exact hmisses _ rfl (Or.inl ⟨_, rfl⟩) hP
            · simp only [Option.some.injEq, Prod.mk.injEq] at hact
              obtain ⟨rfl, rfl⟩ := hact
              obtain ⟨⟨⟨ho, hd, hmem⟩, hfh⟩, failed, -, hretried, htried⟩ := hP
              exact ⟨⟨⟨⟨ho, hd, hmem⟩, hfh⟩, mode, hmode, ho, hd, by simp⟩, failed, hretried,
                htried.attempt⟩
        · exact fun w tr e _ hP he => hmisses _ (hfaults _ _ _ he).1 (Or.inr he) hP
      exact Hoare.tryCatch hflock fun e => Hoare.throw fun _ _ hP => hP

/-- Contention asks for another attempt. -/
theorem Misses.retry {e : Exc} {W : World ι × Trace ι} (hm : self.Misses cfg c failWhenLocked p h e W)
    (he : e.isLockException = true) (hfail : failWhenLocked = false) :
    self.Trying failWhenLocked p h W := by
  obtain ⟨⟨hw, -⟩, ⟨-, rfl, -⟩ | ⟨hflags, failed, e₀, hretried, -, rfl, htried⟩⟩ := hm
  · cases he
  · refine ⟨hw, failed ++ [.error e₀], fun hrefused => ?_, fun r hr => ?_, htried⟩
    · rw [hflags] at hrefused
      cases hrefused
    · rcases List.mem_append.1 hr with hr | hr
      · exact hretried r hr
      · obtain rfl := List.mem_singleton.1 hr
        exact ⟨hfail, e₀, rfl, he⟩

/-- The handle is closed after a failed attempt. -/
theorem close_attempts (hfaults : PlainFaults cfg) (e : Exc) :
    Hoare (cfg.soloTraced p c) (self.Misses cfg c failWhenLocked p h e) (perform (.close h))
      (fun _ => self.Closes cfg c failWhenLocked p h e)
      (Caught (self.Closes cfg c failWhenLocked p h e) (self.GivesUp cfg c failWhenLocked p h)) := by
  have hcloses : ∀ {w tr content} {r : Except Exc Unit}, w.Wf →
      self.Misses cfg c failWhenLocked p h e (w, tr) →
      self.Closes cfg c failWhenLocked p h e (((w.store h content []).discard h),
        tr ++ [⟨w, .close h, r, ((w.store h content []).discard h)⟩]) := by
    rintro w tr content r hw ⟨⟨⟨⟨ho, hd, hmem⟩, hfh⟩, -⟩, hmissed⟩
    refine ⟨⟨⟨ho, ?_, by simp⟩, hfh⟩, hmissed.map fun htried => htried.close⟩
    have := hw.fs.serial_lt hmem
    rwa [ho] at this
  refine solo_rule (fun w tr _ hP => hP.1.1.1.1) ?_ ?_
  · intro w tr choice r w' hw _ hP hact
    have hopen : h ∈ w.opened := hP.1.1.1.2.2
    simp only [Config.act, hopen, if_true, Option.some.injEq, Prod.mk.injEq] at hact
    obtain ⟨rfl, rfl⟩ := hact
    exact hcloses hw hP
  · intro w tr e' hw hP he
    have hopen : h ∈ w.opened := hP.1.1.1.2.2
    simp only [Config.afterFault, hopen, if_true, Caught, (hfaults _ _ _ he).1]
    exact hcloses hw hP

/-- Nothing closes the handle after an unguarded step has raised. -/
theorem unguarded_givesUp {w w' : World ι} {tr : Trace ι} {o : Op ι} {e : Exc}
    {results : List (Except Exc Unit)} (hw : w.Wf) (hown : Opened p h w) (hfh : w.fh p = none)
    (hsame : w'.serial = w.serial ∧ w'.fh = w.fh) (ht : Tried h results [] tr)
    (ho : o.Unguarded) (hmay : cfg.mayRaise c o e = true) :
    self.GivesUp cfg c failWhenLocked p h e (w', tr ++ [⟨w, o, .error e, w'⟩]) := by
  have hserial : h.serial < w'.serial p := by
    have := hw.fs.serial_lt hown.2.2
    rwa [hown.1, ← hsame.1] at this
  refine Or.inr ⟨⟨⟨hown.1, hserial⟩, by rw [hsame.2]; exact hfh⟩, ?_, o, ho, hmay⟩
  cases o with
  | seek | truncate | attempts | sleep => exact ht.abandon ⟨rfl, rfl, rfl⟩ rfl
  | _ => exact ho.elim

/-- The clock is asked, or the loop waits. -/
theorem pause_attempts {o : Op ι} (ho : (∃ timeout, o = .attempts timeout) ∨
      ∃ i checkInterval, o = .sleep i checkInterval) (e : Exc) :
    Hoare (cfg.soloTraced p c) (self.Misses cfg c failWhenLocked p h e) (perform o)
      (fun _ => self.Misses cfg c failWhenLocked p h e) (self.GivesUp cfg c failWhenLocked p h) := by
  have hkeep : ∀ {w tr} {r : Val o}, self.Misses cfg c failWhenLocked p h e (w, tr) →
      self.Misses cfg c failWhenLocked p h e (w, tr ++ [⟨w, o, .ok r, w⟩]) := by
    rintro w tr r ⟨hw, hmissed⟩
    have hunseen : Unseen (⟨w, o, .ok r, w⟩ : TraceEntry ι) := by
      rcases ho with ⟨_, rfl⟩ | ⟨_, _, rfl⟩ <;> exact ⟨rfl, rfl, rfl, rfl, rfl⟩
    exact ⟨hw, hmissed.map fun htried => htried.unseen hunseen⟩
  have hfault : ∀ {w tr} {e' : Exc}, w.Wf → cfg.mayRaise c o e' = true →
      self.Misses cfg c failWhenLocked p h e (w, tr) →
      self.GivesUp cfg c failWhenLocked p h e' (w, tr ++ [⟨w, o, .error e', w⟩]) := by
    rintro w tr e' hw hmay ⟨⟨⟨hopen, hfh⟩, -⟩, hmissed⟩
    have hstep : o.Unguarded := by
      rcases ho with ⟨_, rfl⟩ | ⟨_, _, rfl⟩ <;> trivial
    obtain ⟨results, htried⟩ := hmissed.tried
    exact unguarded_givesUp hw hopen hfh ⟨rfl, rfl⟩ htried hstep hmay
  refine solo_rule (fun w tr _ _ => ?_) ?_ ?_
  · rcases ho with ⟨_, rfl⟩ | ⟨_, _, rfl⟩ <;> trivial
  · intro w tr choice r w' hw _ hP hact
    rcases ho with ⟨_, rfl⟩ | ⟨_, _, rfl⟩
    · simp only [Config.act, Option.ite_none_left_eq_some, Option.some.injEq, Prod.mk.injEq] at hact
      obtain ⟨-, rfl, rfl⟩ := hact
      exact hkeep hP
    · simp only [Config.act, Option.some.injEq, Prod.mk.injEq] at hact
      obtain ⟨rfl, rfl⟩ := hact
      exact hkeep hP
  · intro w tr e' hw hP hmay
    have hsame : Config.afterFault w o = w := by
      rcases ho with ⟨_, rfl⟩ | ⟨_, _, rfl⟩ <;> rfl
    rw [hsame]
    exact hfault hw hmay hP

/-- A step of `_prepare_fh`. -/
theorem prepare_attempts {o : Op ι} (ho : o = .seek h ∨ o = .truncate h) :
    Hoare (cfg.soloTraced p c) (self.Locks failWhenLocked p h) (perform o)
      (fun _ => self.Locks failWhenLocked p h) (self.GivesUp cfg c failWhenLocked p h) := by
  have hseen : ∀ {w w'} (r : Val o), Unseen (⟨w, o, .ok r, w'⟩ : TraceEntry ι) := by
    intro w w' r
    rcases ho with rfl | rfl <;> exact ⟨rfl, rfl, rfl, rfl, rfl⟩
  have hkeep : ∀ {w w' tr} {r : Val o}, w'.opened = w.opened → w'.lock = w.lock →
      w'.dropped = w.dropped → w'.fh = w.fh → self.Locks failWhenLocked p h (w, tr) →
      self.Locks failWhenLocked p h (w', tr ++ [⟨w, o, .ok r, w'⟩]) := by
    rintro w w' tr r hopened hlock hdropped hfh ⟨⟨⟨⟨hown, hd, hmem⟩, hnone⟩, m, hm, -, -, hl⟩,
      failed, hretried, htried⟩
    have hd' : w'.dropped h = false := by rw [hdropped]; exact hd
    exact ⟨⟨⟨⟨hown, hd', by rw [hopened]; exact hmem⟩, by rw [hfh]; exact hnone⟩, m, hm, hown, hd',
      by rw [hlock]; exact hl⟩, failed, hretried, htried.unseen (hseen r)⟩
  refine solo_rule (fun w tr _ hP => ?_) ?_ ?_
  · rcases ho with rfl | rfl <;> exact hP.1.1.1.1
  · intro w tr choice r w' _ _ hP hact
    have hopen : h ∈ w.opened := hP.1.1.1.2.2
    rcases ho with rfl | rfl
    · simp only [Config.act, Config.onOpen, hopen, if_true, Option.some.injEq,
        Prod.mk.injEq] at hact
      obtain ⟨rfl, rfl⟩ := hact
      exact hkeep rfl rfl rfl rfl hP
    · simp only [Config.act, Config.onOpen, hopen, if_true, Option.some.injEq,
        Prod.mk.injEq] at hact
      obtain ⟨rfl, rfl⟩ := hact
      exact hkeep rfl rfl rfl rfl hP
  · rintro w tr e hw ⟨⟨⟨hopen, hfh⟩, -⟩, failed, -, htried⟩ hmay
    rcases ho with rfl | rfl
    · exact unguarded_givesUp hw hopen hfh ⟨rfl, rfl⟩ htried trivial hmay
    · exact unguarded_givesUp hw hopen hfh ⟨rfl, rfl⟩ htried trivial hmay

theorem prepareFh_attempts :
    Hoare (cfg.soloTraced p c) (self.Locks failWhenLocked p h) (self.prepareFh h)
      (fun _ => self.Locks failWhenLocked p h) (self.GivesUp cfg c failWhenLocked p h) := by
  unfold prepareFh
  split
  · exact Hoare.bind (prepare_attempts (Or.inl rfl)) fun _ => prepare_attempts (Or.inr rfl)
  · exact Hoare.pure fun _ _ hP => hP

/-- The handle is stored. -/
theorem setFh_attempts (hfaults : PlainFaults cfg) :
    Hoare (cfg.soloTraced p c) (self.Locks failWhenLocked p h) (perform (.setFh (some h)))
      (fun _ => self.Wins failWhenLocked p h) (self.GivesUp cfg c failWhenLocked p h) := by
  refine solo_rule (fun w tr _ hP h' heq => ?_) ?_ fun w tr e _ _ he => (hfaults _ _ _ he).2.elim
  · obtain ⟨⟨⟨⟨ho, hd, hmem⟩, -⟩, -⟩, -⟩ := hP
    exact Option.some.inj heq ▸ ⟨ho, hmem, hd⟩
  · rintro w tr choice r w' - - ⟨⟨⟨hopen, -⟩, hlocked⟩, failed, hretried, htried⟩ hact
    simp only [Config.act, Option.some.injEq, Prod.mk.injEq] at hact
    obtain ⟨rfl, rfl⟩ := hact
    exact ⟨⟨⟨hopen, by simp⟩, hlocked⟩, failed, hretried,
      htried.unseen ⟨rfl, rfl, rfl, rfl, rfl⟩⟩

/-- The last reference to the handle goes away. -/
theorem drop_attempts (hfaults : PlainFaults cfg) (e : Exc) :
    Hoare (cfg.soloTraced p c) (self.GivesUp cfg c failWhenLocked p h e) (perform (.drop h))
      (fun _ => self.GivesUp cfg c failWhenLocked p h e) (self.GivesUp cfg c failWhenLocked p h) := by
  have hseen : ∀ {w w' : World ι} {r}, Unseen (⟨w, .drop h, r, w'⟩ : TraceEntry ι) :=
    ⟨rfl, rfl, rfl, rfl, rfl⟩
  refine solo_rule ?_ ?_ fun w tr e _ _ he => (hfaults _ _ _ he).2.elim
  · rintro w tr - (⟨⟨hshut, hfh⟩, -⟩ | ⟨⟨hserial, hfh⟩, -⟩)
    · exact ⟨hshut.1, hshut.2.1, by rw [hfh]; simp⟩
    · exact ⟨hserial.1, hserial.2, by rw [hfh]; simp⟩
  · intro w tr choice r w' _ _ hP hact
    simp only [Config.act, Option.some.injEq, Prod.mk.injEq] at hact
    obtain ⟨rfl, rfl⟩ := hact
    rcases hP with ⟨hw, e', he', hmissed⟩ | ⟨hw, habandoned, hstep⟩
    · exact Or.inl ⟨hw, e', he', hmissed.map fun htried => htried.unseen hseen⟩
    · exact Or.inr ⟨hw, habandoned.unseen hseen, hstep⟩

/-- The file is opened. -/
theorem getFh_attempts (n : Nat) :
    Hoare (cfg.soloTraced p c) (At (fun w => w.fh p = none ∧ n ≤ w.serial p) Untried) self.getFh
      (fun h W => (h.path = self.filename ∧ n ≤ h.serial) ∧ self.Trying failWhenLocked p h W)
      (fun e => At (fun w => w.fh p = none) (self.Unopened cfg c e)) := by
  unfold Lock.getFh
  cases hkind : openKind self.mode with
  | none =>
      refine Hoare.throw ?_
      rintro ⟨w, tr⟩ - ⟨⟨hfh, -⟩, hopen, hrest⟩
      exact ⟨hfh, Or.inl ⟨hopen, hkind, rfl⟩, hrest⟩
  | some kind =>
      have hopened : ∀ {w tr i} (w₁ : World ι), w₁.Wf → w₁.fh p = none → Untried tr →
          self.Trying failWhenLocked p (w₁.handle p self.filename i)
            (w₁.openAt p self.filename i, tr ++ [⟨w, .openFile self.filename kind,
              .ok (w₁.handle p self.filename i), w₁.openAt p self.filename i⟩]) := by
        rintro w tr i w₁ hw₁ hfh ⟨hopen, htry, hunlock, hclose, haccount⟩
        have hundropped : w₁.dropped (w₁.handle p self.filename i) = false :=
          Bool.eq_false_iff.2 fun hd => absurd (hw₁.dropped_serial hd) (by simp)
        refine ⟨⟨⟨rfl, hundropped, by simp⟩, hfh⟩, [], fun _ => rfl, by simp, ?_⟩
        constructor <;>
          simp [hopen, htry, hunlock, hclose, haccount, account, opening, trying, unlocking, closing]
      have hrefused : ∀ {w tr} (w' : World ι) (e : Exc), (∃ n, e = .osError n) ∨
          (∃ path kind, cfg.mayRaise c (.openFile path kind) e = true) → w.fh p = none →
          Untried tr → At (fun w => w.fh p = none) (self.Unopened cfg c e)
            (w, tr ++ [⟨w, .openFile self.filename kind, .error e, w'⟩]) := by
        rintro w tr w' e hwhy hfh ⟨hopen, htry, hunlock, hclose, haccount⟩
        refine ⟨hfh, Or.inr ⟨?_, hwhy⟩, ?_, ?_, ?_, ?_⟩ <;>
          simp [hopen, htry, hunlock, hclose, haccount, account, opening, trying, unlocking, closing,
            exposing]
      refine solo_rule
        (fun w tr _ _ heq => openKind_ne_write self.mode_w (heq ▸ hkind)) ?_ ?_
      · rintro w tr choice r w' hw - ⟨⟨hfh, hserial⟩, huntried⟩ hact
        simp only [Config.act] at hact
        split at hact
        · split at hact
          · simp only [Option.some.injEq, Prod.mk.injEq] at hact
            obtain ⟨rfl, rfl⟩ := hact
            exact hrefused _ _ (Or.inl ⟨_, rfl⟩) hfh huntried
          · exact absurd hkind (openKind_ne_write self.mode_w)
          · simp only [Option.some.injEq, Prod.mk.injEq] at hact
            obtain ⟨rfl, rfl⟩ := hact
            exact ⟨⟨rfl, hserial⟩, hopened w hw hfh huntried⟩
        · split at hact
          · simp only [Option.some.injEq, Prod.mk.injEq] at hact
            obtain ⟨rfl, rfl⟩ := hact
            exact hrefused _ _ (Or.inl ⟨_, rfl⟩) hfh huntried
          · simp only [Option.ite_none_right_eq_some, Option.some.injEq, Prod.mk.injEq] at hact
            obtain ⟨hnew, rfl, rfl⟩ := hact
            exact ⟨⟨rfl, hserial⟩, hopened (w.create self.filename choice.ino
              (if (cfg.object p).pidPath = some self.filename then some p else none))
              ⟨hw.fs.create ‹_› hnew, hw.fh_owner, hw.fh_serial, hw.fh_dropped,
                hw.dropped_serial⟩ hfh huntried⟩
      · rintro w tr e - ⟨⟨hfh, -⟩, huntried⟩ hmay
        exact hrefused _ _ (Or.inr ⟨_, _, hmay⟩) hfh huntried

end Steps

/-- What one `acquire` of an instance that holds nothing does, for every outcome of every
step: it gets the lock with its last attempt, or gives up after one, or fails to open the
file. -/
theorem acquire_attempts {cfg : Config ι} {c : Call} {p : ι} (hfaults : PlainFaults cfg)
    (self : Lock) (timeout checkInterval : Option Rat) (failWhenLocked : Option Bool) (n : Nat) :
    Hoare (cfg.soloTraced p c) (At (fun w => w.fh p = none ∧ n ≤ w.serial p) (· = []))
      (self.acquire timeout checkInterval failWhenLocked)
      (fun h W => (h.path = self.filename ∧ n ≤ h.serial) ∧
        self.Wins (failWhenLocked.getD self.failWhenLocked) p h W)
      (fun e W => At (fun w => w.fh p = none) (self.Unopened cfg c e) W ∨
        ∃ h : Handle ι Path, (h.path = self.filename ∧ n ≤ h.serial) ∧
          self.GivesUp cfg c (failWhenLocked.getD self.failWhenLocked) p h e W) := by
  refine Hoare.bind (R := fun v W => v = none ∧
    At (fun w => w.fh p = none ∧ n ≤ w.serial p) Untried W) ?_ ?_
  · refine solo_rule (fun _ _ _ _ => trivial) ?_ fun w tr e _ _ he => (hfaults _ _ _ he).2.elim
    rintro w tr choice r w' - - ⟨⟨hfh, hserial⟩, rfl⟩ hact
    simp only [Config.act, Option.some.injEq, Prod.mk.injEq] at hact
    obtain ⟨rfl, rfl⟩ := hact
    exact ⟨hfh, ⟨hfh, hserial⟩, rfl, rfl, rfl, rfl, rfl⟩
  · intro v
    refine Hoare.of_fact ?_
    rintro rfl
    refine Hoare.bind (R := fun h W => (h.path = self.filename ∧ n ≤ h.serial) ∧
      self.Trying (failWhenLocked.getD self.failWhenLocked) p h W) ?_ fun h => ?_
    · exact (getFh_attempts n).conseq (fun _ _ hP => hP) (fun _ _ _ hQ => hQ)
        fun _ _ _ hE => Or.inl hE
    · refine Hoare.of_fact fun hpath => ?_
      have hopened : Hoare (cfg.soloTraced p c)
          (self.Trying (failWhenLocked.getD self.failWhenLocked) p h)
          (self.acquireOpened (timeout.getD self.timeout) (checkInterval.getD self.checkInterval)
            (failWhenLocked.getD self.failWhenLocked) h)
          (fun h' W => (h'.path = self.filename ∧ n ≤ h'.serial) ∧
            self.Wins (failWhenLocked.getD self.failWhenLocked) p h' W)
          (self.GivesUp cfg c (failWhenLocked.getD self.failWhenLocked) p h) :=
        acquireOpened_report_rule (lock_attempts hfaults) (close_attempts hfaults)
        (fun e W _ hG => Or.inl ⟨hG.1, e, rfl, hG.2⟩)
        (fun e W _ he hT => by rw [hT.1.2] at he; cases he)
        (fun e W _ he hfail hT => hT.retry he hfail)
        (fun e _ => pause_attempts (Or.inl ⟨_, rfl⟩) e)
        (fun i e _ => pause_attempts (Or.inr ⟨_, _, rfl⟩) e)
        prepareFh_attempts ((setFh_attempts hfaults).of_post fun _ _ _ hW => ⟨hpath, hW⟩)
        (drop_attempts hfaults)
      exact hopened.conseq (fun _ _ hP => hP) (fun _ _ _ hQ => hQ) fun _ _ _ hE =>
        Or.inr ⟨h, hpath, hE⟩

/-- `acquire` on an instance that has a handle returns it and does nothing else. -/
theorem acquire_stored {cfg : Config ι} {c : Call} {p : ι} (hfaults : PlainFaults cfg)
    (self : Lock) (timeout checkInterval : Option Rat) (failWhenLocked : Option Bool)
    (h : Handle ι Path) :
    Hoare (cfg.soloTraced p c) (At (fun w => w.fh p = some h) (· = []))
      (self.acquire timeout checkInterval failWhenLocked)
      (fun g W => g = h ∧ At (fun w => w.fh p = some h) Untried W) (fun _ _ => False) := by
  refine Hoare.bind (R := fun v W => v = some h ∧ At (fun w => w.fh p = some h) Untried W) ?_ ?_
  · refine solo_rule (fun _ _ _ _ => trivial) ?_ fun w tr e _ _ he => (hfaults _ _ _ he).2.elim
    rintro w tr choice r w' - - ⟨hfh, rfl⟩ hact
    simp only [Config.act, Option.some.injEq, Prod.mk.injEq] at hact
    obtain ⟨rfl, rfl⟩ := hact
    exact ⟨hfh, hfh, rfl, rfl, rfl, rfl, rfl⟩
  · intro v
    refine Hoare.of_fact ?_
    rintro rfl
    exact Hoare.pure fun W _ hW => ⟨rfl, hW⟩

end Lock

end Portalocker
