import Portalocker.Utils.LockRules
import Portalocker.Foundation.Kinds
set_option autoImplicit false
set_option linter.unusedSectionVars false

/-!
# Which retry policy a call follows

A retry loop asks the clock with the timeout it has been given and pauses with the
check interval it has been given.  Each class resolves the two for itself, and
`acquire_verified` hands them to a second loop inside the first.  What is proved
here is which values reach the clock and the pauses, for every answer of the
environment; the branch that only `fail_when_locked` closes is the one place where
the text of the code alone does not tell.  The code is that for POSIX; for Windows
`_acquire_verified` returns the first handle, from the same two loops.
-/

namespace Portalocker

open Posix Interleaving Interleaving.Machine

variable {ι : Type}

/-- The retry arguments of a call that acquires. -/
def Call.arguments : Call → Option (Option Rat × Option Rat × Option Bool)
  | .acquire timeout checkInterval failWhenLocked =>
      some (timeout, checkInterval, failWhenLocked)
  | .enter => some (none, none, none)
  | _ => none

namespace Instance

/-- The attribute `timeout`. -/
def timeout : Instance → Rat
  | lock self => self.timeout
  | rLock self => self.timeout
  | temporaryFileLock self => self.timeout
  | pidFileLock self => self.timeout
  | boundedSemaphore self => self.timeout

/-- The attribute `check_interval`. -/
def checkInterval : Instance → Rat
  | lock self => self.checkInterval
  | rLock self => self.checkInterval
  | temporaryFileLock self => self.checkInterval
  | pidFileLock self => self.checkInterval
  | boundedSemaphore self => self.checkInterval

/-- The attribute `fail_when_locked`. -/
def failWhenLocked : Instance → Bool
  | lock self => self.failWhenLocked
  | rLock self => self.failWhenLocked
  | temporaryFileLock self => self.failWhenLocked
  | pidFileLock self => self.failWhenLocked
  | boundedSemaphore self => self.failWhenLocked

end Instance

/-- An operation that asks the clock does so with this deadline, one that pauses with
this spacing. -/
def Paces (timeout checkInterval : Rat → Prop) : Op ι → Prop
  | .attempts t => timeout t
  | .sleep _ c => checkInterval c
  | _ => True

/-! ## The parts of `acquire` -/

section Parts

variable {T C : Rat → Prop}

/-- The loop asks with its own timeout and pauses with its own interval. -/
theorem timeoutGenerator_paced {α : Type} {timeout checkInterval : Rat}
    {attempt : Py ι (Except Exc α)} (ht : T timeout) (hc : C checkInterval)
    (hattempt : Code.Within (Paces T C) attempt) :
    Code.Within (Paces T C) (timeoutGenerator timeout checkInterval attempt) := by
  have hagain : ∀ remaining i failure,
      Code.Within (Paces T C)
        (timeoutGenerator.again checkInterval attempt remaining i failure) := by
    intro remaining
    induction remaining with
    | zero => exact fun _ _ => .pure _
    | succ remaining ih =>
        intro i failure
        refine .bind hattempt fun outcome => ?_
        cases outcome with
        | ok a => exact .pure _
        | error e => exact .step hc fun _ => ih (i + 1) e
  refine .bind hattempt fun outcome => ?_
  cases outcome with
  | ok a => exact .pure _
  | error e => exact .step ht fun remaining => hagain remaining 1 e

theorem posixLock_paced (h : Handle ι Path) (flags : LockFlags) :
    Code.Within (Paces T C) (PosixLocker.lock h flags) :=
  .ite (.throw _) (.tryCatch (.call trivial) fun _ => .throw _)

theorem prepareFh_paced (self : Lock) (h : Handle ι Path) :
    Code.Within (Paces T C) (self.prepareFh h) :=
  .ite (.bind (.call trivial) fun _ => (.call trivial)) (.pure _)

theorem getFh_paced (self : Lock) : Code.Within (Paces T C) (self.getFh : Py ι _) := by
  unfold Lock.getFh
  split
  · exact (.call trivial)
  · exact .throw _

theorem release_paced (self : Lock) : Code.Within (Paces T C) (self.release : Py ι Unit) :=
  release_within self trivial (fun _ => trivial) (fun _ => trivial) trivial

/-- `acquire` with a handle it has opened asks the clock and pauses only where
`fail_when_locked` is off: otherwise no attempt asks for another one. -/
theorem acquireOpened_paced (self : Lock) {timeout checkInterval : Rat} {failWhenLocked : Bool}
    (ht : failWhenLocked = false → T timeout) (hc : failWhenLocked = false → C checkInterval)
    (h : Handle ι Path) :
    Code.Within (Paces T C) (self.acquireOpened timeout checkInterval failWhenLocked h) := by
  have hany : ∀ {α : Type} {x : Py ι α}, Code.Within (Paces T C) x →
      Hoare (Context.anyAnswer (World ι) (fun o => Except Exc (Val o)) (Paces T C))
        (fun _ => True) x (fun _ _ => True) fun _ _ => True := Hoare.anyAnswer
  have : Inhabited (World ι) := ⟨World.empty⟩
  refine Hoare.within_of_anyAnswer (acquireOpened_rule (N := fun (_ : World ι) => True)
    (L := fun _ => True) (S := fun _ _ => True) (T := fun _ _ => True) (G := fun _ _ => True)
    (D := fun _ _ => True) (X := fun _ _ => True) (hany (posixLock_paced h self.flags)) ?_
    (fun _ _ _ _ _ _ => trivial) (fun _ _ _ _ _ => trivial) (fun _ _ _ _ _ => trivial)
    (fun _ hfail => hany (.call (ht hfail))) (fun _ _ hfail => hany (.call (hc hfail)))
    (hany (prepareFh_paced self h)) (hany (.call (by trivial)))
    fun _ => hany (.call (by trivial))) trivial
  refine fun _ => (hany (.call (by trivial))).conseq (fun _ _ h => h) (fun _ _ _ h => h)
    fun e _ _ _ => ?_
  unfold Caught
  split <;> trivial

/-- `Lock.acquire`. -/
theorem lockAcquire_paced (self : Lock) {timeout checkInterval : Option Rat}
    {failWhenLocked : Option Bool}
    (ht : failWhenLocked.getD self.failWhenLocked = false → T (timeout.getD self.timeout))
    (hc : failWhenLocked.getD self.failWhenLocked = false →
      C (checkInterval.getD self.checkInterval)) :
    Code.Within (Paces T C)
      (self.acquire timeout checkInterval failWhenLocked : Py ι _) := by
  refine .bind (.call trivial) fun v => ?_
  cases v with
  | some h => exact .pure _
  | none => exact .bind (getFh_paced self) fun h => acquireOpened_paced self ht hc h

theorem fhMatchesPath_paced (h : Handle ι Path) (filename : Path) :
    Code.Within (Paces T C) (fhMatchesPath h filename) :=
  .tryCatch (.bind (.call trivial) fun _ => .bind (.call trivial) fun _ => .pure _) fun _ =>
    .ite (.pure _) (.throw _)

/-- `_acquire_verified`: both loops. -/
theorem acquireVerified_paced (lock : Lock) (filename : Path) {timeout checkInterval : Option Rat}
    {failWhenLocked : Option Bool} (ht : T (timeout.getD lock.timeout))
    (hc : C (checkInterval.getD lock.checkInterval)) :
    Code.Within (Paces T C) (TemporaryFileLock.acquireVerified lock filename timeout checkInterval
      failWhenLocked : Py ι _) := by
  refine .bind (timeoutGenerator_paced ht hc (.bind (lockAcquire_paced lock (fun _ => ht)
    fun _ => hc) fun h => .bind (fhMatchesPath_paced h filename) fun same => ?_)) fun outcome => ?_
  · cases same with
    | true => exact .pure _
    | false => exact .bind (release_paced lock) fun _ => .pure _
  · cases outcome with
    | ok h => exact .pure _
    | error e => exact .throw _

/-! ## The five classes -/

theorem rLock_paced (self : RLock) {timeout checkInterval : Option Rat}
    {failWhenLocked : Option Bool} (ht : T (timeout.getD self.timeout))
    (hc : C (checkInterval.getD self.checkInterval)) :
    Code.Within (Paces T C) (self.acquire timeout checkInterval failWhenLocked : Py ι _) := by
  have hheld : Code.Within (Paces T C) (RLock.heldFh : Py ι _) := by
    refine .bind (.call trivial) fun v => ?_
    cases v with
    | some h => exact .pure _
    | none => exact .throw _
  refine .bind (.bind (.call trivial) fun count => .ite hheld ?_) fun h =>
    .bind (.call trivial) fun _ => .bind (.call trivial) fun _ => .pure _
  exact lockAcquire_paced self.toLock (fun _ => ht) fun _ => hc

theorem temporaryFileLock_paced (self : TemporaryFileLock) {timeout checkInterval : Option Rat}
    {failWhenLocked : Option Bool} (ht : T (timeout.getD self.timeout))
    (hc : C (checkInterval.getD self.checkInterval)) :
    Code.Within (Paces T C) (self.acquire timeout checkInterval failWhenLocked : Py ι _) :=
  .bind (acquireVerified_paced self.toLock self.filename ht hc) fun _ =>
    .bind (.call trivial) fun _ => .pure _

/-- The locks of the slots fail at once and neither ask the clock nor pause. -/
theorem tryLock_paced (filenames : List Path) :
    Code.Within (Paces T C) (BoundedSemaphore.tryLock filenames : Py ι Bool) := by
  have hslot : ∀ filename, Code.Within (Paces T C)
      (BoundedSemaphore.trySlot filename : Py ι Bool) := fun filename =>
    .tryCatch (.bind (lockAcquire_paced (BoundedSemaphore.slotLock filename)
      (fun hfail => by cases hfail) fun hfail => by cases hfail) fun _ => .pure _) fun _ =>
        .ite (.pure _) (.ite (.bind (.call trivial) fun _ => .throw _) (.throw _))
  induction filenames with
  | nil => exact .pure _
  | cons filename rest ih =>
      exact .bind (.call trivial) fun _ => .bind (hslot filename) fun _ =>
        .ite (.bind (.call trivial) fun _ => .pure _) ih

theorem boundedSemaphore_paced (self : BoundedSemaphore) {timeout checkInterval : Option Rat}
    {failWhenLocked : Option Bool} (ht : T (timeout.getD self.timeout))
    (hc : C (checkInterval.getD self.checkInterval)) :
    Code.Within (Paces T C) (self.acquire timeout checkInterval failWhenLocked : Py ι Bool) := by
  have hsweep : Code.Within (Paces T C) (timeoutGenerator (timeout.getD self.timeout)
      (checkInterval.getD self.checkInterval) (do
        return if ← BoundedSemaphore.tryLock self.getFilenames then .ok ()
          else .error .alreadyLocked) : Py ι (Except Exc Unit)) :=
    timeoutGenerator_paced ht hc (.bind (tryLock_paced self.getFilenames) fun _ => .pure _)
  refine .bind (.call trivial) fun _ => .ite (.throw _) (.bind hsweep fun outcome => ?_)
  cases outcome with
  | ok a => exact .bind (.call trivial) fun _ => .pure _
  | error e => exact .ite (.throw _) (.pure _)

theorem writePid_paced (self : PidFileLock) :
    Code.Within (Paces T C) (self.writePid : Py ι Unit) := by
  have hstore : ∀ f : Handle ι Path, Code.Within (Paces T C) (self.storePid f) := fun f =>
    .bind (.call trivial) fun _ => .bind (.call trivial) fun _ => .bind (.call trivial) fun _ =>
      (.call trivial)
  refine .bind (.call trivial) fun f => .onRaise (.bind (.tryCatch (.bind (hstore f) fun _ =>
    .tryCatch (.call trivial) fun _ => .ite (.pure _) (.throw _)) fun _ => .ite ?_ (.throw _))
      fun _ => (.call trivial)) (.call trivial)
  exact .bind (.suppress (.call trivial)) fun _ => .throw _

theorem rollback_paced (inner : Lock) :
    Code.Within (Paces T C) (PidFileLock.rollbackFailedAcquire inner : Py ι Unit) := by
  have hclose : Code.Within (Paces T C) (PidFileLock.closeLeftHandle : Py ι Unit) := by
    refine .bind (.call trivial) fun v => ?_
    cases v with
    | none => exact .pure _
    | some h =>
        exact .bind (.withFinally (.suppress (.call trivial)) (.call trivial)) fun _ => .pure _
  exact .bind (.suppress (release_paced inner)) fun _ => .bind hclose fun _ =>
    .bind (.call trivial) fun _ => (.call trivial)

/-- The sidecar lock carries a policy of its own, which its two loops follow. -/
theorem pidFileLock_paced (self : PidFileLock) {timeout checkInterval : Option Rat}
    {failWhenLocked : Option Bool}
    (ht : T (timeout.getD (self.innerLock timeout checkInterval
      (failWhenLocked.getD self.failWhenLocked)).timeout))
    (hc : C (checkInterval.getD (self.innerLock timeout checkInterval
      (failWhenLocked.getD self.failWhenLocked)).checkInterval)) :
    Code.Within (Paces T C) (self.acquire timeout checkInterval failWhenLocked : Py ι _) := by
  have hsidecar : Code.Within (Paces T C) (self.acquireSidecar timeout checkInterval
      (failWhenLocked.getD self.failWhenLocked) : Py ι _) :=
    .tryCatch (acquireVerified_paced _ _ ht hc) fun _ =>
      .ite (.bind (.call trivial) fun _ => .throw _) (.throw _)
  refine .onRaise (.bind (.call trivial) fun _ => .bind (.call trivial) fun _ =>
    .bind hsidecar fun _ => .bind (.tryCatch (writePid_paced self) fun _ => .ite (.bind
      (rollback_paced _) fun _ => .throw _) (.throw _)) fun _ => .bind (.call trivial) fun _ =>
        .bind (.call trivial) fun v => ?_)
    (.bind (.call trivial) fun _ => .ite (.pure _) (.call trivial))
  cases v with
  | none => exact .throw _
  | some h => exact .bind (.call trivial) fun _ => .pure _

theorem readPid_paced (self : PidFileLock) :
    Code.Within (Paces T C) (self.readPid : Py ι _) :=
  .bind (.call trivial) fun _ => .bind (.tryCatch (.bind (.call trivial) fun _ => .ite
    (.bind (.call trivial) fun _ => .bind (.withFinally (.call trivial) (.call trivial)) fun _ =>
      .pure _) (.pure _)) fun _ => .ite (.pure _) (.throw _)) fun _ =>
    .bind (.call trivial) fun _ => .pure _

end Parts

/-! ## All calls -/

/-- The deadline and the spacing the documentation gives a call on this instance: the
argument, or the attribute where there is none.  A `PidFileLock` that is to fail when
locked does without its attributes. -/
def Instance.Policy (self : Instance) (timeout checkInterval : Option Rat)
    (failWhenLocked : Option Bool) : Op ι → Prop :=
  match self with
  | .pidFileLock self =>
      if failWhenLocked.getD self.failWhenLocked then
        Paces (· = timeout.getD 0) (· = checkInterval.getD 0)
      else Paces (fun t => ∀ a ∈ timeout, t = a) fun c => ∀ a ∈ checkInterval, c = a
  | self => Paces (· = timeout.getD self.timeout) (· = checkInterval.getD self.checkInterval)

theorem pidFileLock_policy (self : PidFileLock) (timeout checkInterval : Option Rat)
    (failWhenLocked : Option Bool) :
    Code.Within ((Instance.pidFileLock self).Policy timeout checkInterval failWhenLocked)
      (self.acquire timeout checkInterval failWhenLocked : Py ι _) := by
  unfold Instance.Policy
  dsimp only
  split
  · rename_i hfail
    refine pidFileLock_paced self ?_ ?_ <;> rw [hfail] <;> rfl
  · refine pidFileLock_paced self ?_ ?_
    · rintro a ⟨⟩
      rfl
    · rintro a ⟨⟩
      rfl

/-- Every call that acquires follows the policy of its instance. -/
theorem call_policy (self : Instance) {c : Call} {timeout checkInterval : Option Rat}
    {failWhenLocked : Option Bool}
    (hc : c.arguments = some (timeout, checkInterval, failWhenLocked)) :
    (self.call c : Program (Op ι) (fun o => Except Exc (Val o)) Unit).Within
      (self.Policy timeout checkInterval failWhenLocked) := by
  cases c with
  | acquire t c b =>
      simp only [Call.arguments, Option.some.injEq, Prod.mk.injEq] at hc
      obtain ⟨rfl, rfl, rfl⟩ := hc
      cases self with
      | lock self => exact Code.Within.toCall (lockAcquire_paced self (fun _ => rfl) fun _ => rfl)
      | rLock self => exact Code.Within.toCall (rLock_paced self rfl rfl)
      | temporaryFileLock self => exact Code.Within.toCall (temporaryFileLock_paced self rfl rfl)
      | pidFileLock self => exact Code.Within.toCall (pidFileLock_policy self t c b)
      | boundedSemaphore self => exact Code.Within.toCall (boundedSemaphore_paced self rfl rfl)
  | enter =>
      simp only [Call.arguments, Option.some.injEq, Prod.mk.injEq] at hc
      obtain ⟨rfl, rfl, rfl⟩ := hc
      cases self with
      | lock self => exact Code.Within.toCall (lockAcquire_paced self (fun _ => rfl) fun _ => rfl)
      | rLock self => exact Code.Within.toCall (rLock_paced self rfl rfl)
      | temporaryFileLock self => exact Code.Within.toCall (temporaryFileLock_paced self rfl rfl)
      | boundedSemaphore self => exact Code.Within.toCall (boundedSemaphore_paced self rfl rfl)
      | pidFileLock self =>
          have hread : Code.Within ((Instance.pidFileLock self).Policy none none none)
              (self.readPid : Py ι _) := by
            unfold Instance.Policy
            dsimp only
            split <;> exact readPid_paced self
          exact Code.Within.toCall (.tryCatch (.bind (pidFileLock_policy self none none none)
            fun _ => .pure _) fun _ => .ite hread (.throw _))
  | release | exit | readPid | write | flush => cases hc

/-! ## In every run -/

section Runs

variable [DecidableEq ι] {cfg : Config ι}

/-- A call that acquires follows the policy of its instance; the others are free. -/
def FollowsPolicy (cfg : Config ι) (p : ι) (c : Call) (o : Op ι) : Prop :=
  match c.arguments with
  | some (timeout, checkInterval, failWhenLocked) =>
      (cfg.object p).Policy timeout checkInterval failWhenLocked o
  | none => True

theorem body_followsPolicy (p : ι) (c : Call) :
    Program.Within (FollowsPolicy cfg p c) ((machine cfg).body p c) := by
  unfold FollowsPolicy
  split
  · exact call_policy (cfg.object p) ‹_›
  · exact Program.Within.trivial _

/-- In every state of every run, a client that asks the clock or pauses inside a call
that acquires does so with the argument of the call, or with the attribute of its
instance where the argument has not been given. -/
theorem retry_policy_resolved {init : World ι → Prop} {s : (machine cfg).State}
    (hs : Reach init (Guard.free (machine cfg)) s) {p : ι} {c : Call} {o : Op ι}
    {k : Except Exc (Val o) → Program (Op ι) (fun o => Except Exc (Val o)) Unit}
    (hthread : s.thread p = some (c, .op o k)) {timeout checkInterval : Option Rat}
    {failWhenLocked : Option Bool}
    (hargs : c.arguments = some (timeout, checkInterval, failWhenLocked)) :
    (cfg.object p).Policy timeout checkInterval failWhenLocked o := by
  have hkind : Program.Within (FollowsPolicy cfg p c) (.op o k) :=
    hs.within body_followsPolicy hthread
  have hfirst : FollowsPolicy cfg p c o := hkind.1
  rwa [FollowsPolicy, hargs] at hfirst

/-- A sidecar and a `TemporaryFileLock` on the same path. -/
def sharedSidecar : Config Bool where
  object p := if p then .temporaryFileLock { filename := "f.lock".toList, timeout := 2 }
    else .pidFileLock { filename := ['f'], getpid := 72 }
  mayRaise _ _ _ := false

/-- All is idle and no file exists. -/
def sharedSidecar.start : (machine sharedSidecar).State := ⟨World.empty, fun _ => none⟩

/-- The arguments of the client's call and the deadline it is about to ask the clock
with. -/
def deadline {cfg : Config Bool} (s : (machine cfg).State) (p : Bool) :
    Option (Option (Option Rat × Option Rat × Option Bool) × Rat) :=
  match s.thread p with
  | some (c, .op (.attempts timeout) _) => some (Call.arguments c, timeout)
  | _ => none

theorem deadline_eq_some {cfg : Config Bool} {s : (machine cfg).State} {p : Bool} {arguments}
    {timeout : Rat} (h : deadline s p = some (arguments, timeout)) :
    ∃ c k, s.thread p = some (c, .op (.attempts timeout) k) ∧ Call.arguments c = arguments := by
  unfold deadline at h
  split at h
  · rename_i c t k hthread
    obtain ⟨rfl, rfl⟩ := Prod.mk.inj (Option.some.inj h)
    exact ⟨c, k, hthread, rfl⟩
  · cases h

/-- A `PidFileLock` locks the sidecar, and the other instance finds it locked. -/
def sharedSidecar.contends : List (machine sharedSidecar).Label :=
  .call false (.acquire none none none) :: (List.replicate 8 (.op false {}) ++
    .call true (.acquire none none (some false)) :: List.replicate 3 (.op true {}))

/-- A `TemporaryFileLock` that finds its path locked asks the clock with the timeout
it has been constructed with. -/
theorem retry_policy_resolved_run :
    ∃ s c k, run sharedSidecar.contends sharedSidecar.start = some s ∧
      s.thread true = some (c, .op (.attempts 2) k) ∧
      (sharedSidecar.object true).Policy none none (some false) (.attempts 2 : Op Bool) := by
  have hobserve : (run sharedSidecar.contends sharedSidecar.start).bind
      (fun s => deadline s true) = some (some (none, none, some false), 2) := by rfl
  obtain ⟨s, hrun, hs⟩ := Option.bind_eq_some_iff.1 hobserve
  obtain ⟨c, k, hthread, hargs⟩ := deadline_eq_some hs
  have hreach : Reach (Eq World.empty) (Guard.free (machine sharedSidecar)) s :=
    (Reach.start rfl).run hrun
  exact ⟨s, c, k, hrun, hthread, retry_policy_resolved hreach hthread hargs⟩

/-- A `PidFileLock` opens its sidecar while another instance holds it, and locks it
after that instance has unlinked it. -/
def sharedSidecar.overtaken : List (machine sharedSidecar).Label :=
  .call true (.acquire none none none) :: (List.replicate 9 (.op true {}) ++
    .call false (.acquire none none none) :: (List.replicate 4 (.op false {}) ++
      .call true .release :: (List.replicate 6 (.op true {}) ++ List.replicate 8 (.op false {}))))

/-- A `PidFileLock` with the default attributes asks the clock with the timeout 0. -/
theorem pid_file_lock_drops_timeout :
    ¬ ∀ (s : (machine sharedSidecar).State) (p : Bool) (c : Call) (o : Op Bool)
      (k : Except Exc (Val o) → Program (Op Bool) (fun o => Except Exc (Val o)) Unit)
      (timeout checkInterval : Option Rat) (failWhenLocked : Option Bool),
      Reach (Eq World.empty) (Guard.free (machine sharedSidecar)) s →
      s.thread p = some (c, .op o k) →
      c.arguments = some (timeout, checkInterval, failWhenLocked) →
      Paces (· = timeout.getD (sharedSidecar.object p).timeout)
        (· = checkInterval.getD (sharedSidecar.object p).checkInterval) o := by
  intro hclaim
  have hobserve : (run sharedSidecar.overtaken sharedSidecar.start).bind
      (fun s => deadline s false) = some (some (none, none, none), 0) := by rfl
  obtain ⟨s, hrun, hs⟩ := Option.bind_eq_some_iff.1 hobserve
  obtain ⟨c, k, hthread, hargs⟩ := deadline_eq_some hs
  have hreach : Reach (Eq World.empty) (Guard.free (machine sharedSidecar)) s :=
    (Reach.start rfl).run hrun
  have hpaces : (0 : Rat) = defaultTimeout :=
    hclaim s false c _ k none none none hreach hthread hargs
  exact absurd hpaces (by decide)

end Runs

end Portalocker
