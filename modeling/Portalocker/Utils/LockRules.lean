import Portalocker.Foundation.Kinds
import Portalocker.Utils.BoundedSemaphore
set_option autoImplicit false
set_option linter.unusedSectionVars false

/-!
# Rules for the code all file locks share

The control flow of the retry loop, of `Lock.acquire` and of `Lock.release`,
proved once for any context: a proof about instances of a lock class only says
what the single operations do to its own assertions.
-/

namespace Portalocker

open Posix Interleaving

variable {ι W : Type} {C : Context W (Op ι) (fun o => Except Exc (Val o))}

/-- The assertion after code whose exceptions an `except Exception` catches: the
interrupts go through. -/
def Caught (A : W → Prop) (B : Exc → W → Prop) (e : Exc) (w : W) : Prop :=
  if e.isException = true then A w else B e w

instance stable_caught {A : W → Prop} {B : Exc → W → Prop} [hA : C.Stable A]
    [hB : ∀ e, C.Stable (B e)] (e : Exc) : C.Stable (Caught A B e) := by
  unfold Caught
  split
  · exact hA
  · exact hB e

/-- `with contextlib.suppress(Exception)`. -/
theorem suppress_rule {x : Py ι Unit} {P A : W → Prop} {B : Exc → W → Prop}
    [C.Stable A] [∀ e, C.Stable (B e)] (hx : Hoare C P x (fun _ => A) (Caught A B)) :
    Hoare C P (Code.suppress Exc.isException x) (fun _ => A) B := by
  refine Hoare.suppress hx ?_ ?_
  · intro e w _ he h
    simpa [Caught, he] using h
  · intro e w _ he h
    simpa [Caught, he] using h

/-- `except Exception` around code whose errors are only collected. -/
theorem collect_rule {x : Py ι Unit} {P A : W → Prop} {B : Exc → W → Prop}
    [C.Stable A] [∀ e, C.Stable (B e)] (hx : Hoare C P x (fun _ => A) (Caught A B)) :
    Hoare C P (Code.collect Exc.isException x) (fun _ => A) B := by
  refine Hoare.collect hx ?_ ?_
  · intro e w _ he h
    simpa [Caught, he] using h
  · intro e w _ he h
    simpa [Caught, he] using h

/-! ## The retry loop -/

section Loop

variable {α : Type} {timeout checkInterval : Rat} {attempt : Py ι (Except Exc α)}
  {I : W → Prop} {Q : α → W → Prop} {F E : Exc → W → Prop}
  [∀ a, C.Stable (Q a)] [∀ e, C.Stable (F e)] [∀ e, C.Stable (E e)]

/-- The attempts after the first: each starts in `I` and asks for the next one in
`F`, which leads back to `I`. -/
theorem timeoutGenerator_again_rule (hattempt : Hoare C I attempt (Ends Q F) E)
    (hnext : ∀ e w, C.inv w → F e w → I w)
    (hsleep : ∀ i e, Hoare C (F e) (perform (.sleep i checkInterval)) (fun _ => F e) E)
    (remaining i : Nat) (failure : Exc) :
    Hoare C (F failure) (timeoutGenerator.again checkInterval attempt remaining i failure)
      (Ends Q F) E := by
  induction remaining generalizing i failure with
  | zero => exact Hoare.pure fun _ _ h => h
  | succ remaining ih =>
      refine Hoare.bind (R := Ends Q F) (hattempt.of_pre (hnext failure)) ?_
      intro outcome
      cases outcome with
      | ok a => exact Hoare.pure fun _ _ h => h
      | error failure => exact Hoare.bind (hsleep i failure) fun _ => ih (i + 1) failure

/-- `for _ in self._timeout_generator(...)`. -/
theorem timeoutGenerator_rule (hattempt : Hoare C I attempt (Ends Q F) E)
    (hnext : ∀ e w, C.inv w → F e w → I w)
    (hattempts : ∀ e, Hoare C (F e) (perform (.attempts timeout)) (fun _ => F e) E)
    (hsleep : ∀ i e, Hoare C (F e) (perform (.sleep i checkInterval)) (fun _ => F e) E) :
    Hoare C I (timeoutGenerator timeout checkInterval attempt) (Ends Q F) E := by
  refine Hoare.bind (R := Ends Q F) hattempt ?_
  intro outcome
  cases outcome with
  | ok a => exact Hoare.pure fun _ _ h => h
  | error failure =>
      exact Hoare.bind (hattempts failure) fun remaining =>
        timeoutGenerator_again_rule hattempt hnext hsleep remaining 1 failure

end Loop

/-! ## `Lock.acquire` -/

/-- `PosixLocker.lock`: the flags are refused, or the system call is made. -/
theorem posixLock_flags_rule {h : Handle ι Path} {flags : LockFlags} {N L : W → Prop}
    {F T : Exc → W → Prop} [C.Stable N] [C.Stable L] [∀ e, C.Stable (F e)]
    (hflock : Hoare C N (perform (.flock h flags)) (fun _ => L) F)
    (htranslate : ∀ e w, C.inv w → F e w → T (PosixLocker.translate e) w)
    (hrefused : ∀ w, C.inv w → N w → T .runtimeError w) :
    Hoare C N (PosixLocker.lock h flags) (fun _ => L) T := by
  unfold PosixLocker.lock
  split
  · exact Hoare.throw hrefused
  · exact Hoare.tryCatch hflock fun e => Hoare.throw (htranslate e)

/-- `PosixLocker.lock` with the default flags. -/
theorem posixLock_rule {h : Handle ι Path} {N L : W → Prop} {F T : Exc → W → Prop}
    [C.Stable L] [∀ e, C.Stable (F e)]
    (hflock : Hoare C N (perform (.flock h .lockMethod)) (fun _ => L) F)
    (htranslate : ∀ e w, C.inv w → F e w → T (PosixLocker.translate e) w) :
    Hoare C N (PosixLocker.lock h .lockMethod) (fun _ => L) T :=
  Hoare.tryCatch hflock fun e => Hoare.throw (htranslate e)

/-- What `acquire` raises after the lock call has failed with `e`: a plain
`LockException` goes on or becomes an `AlreadyLocked`, anything else is wrapped. -/
def Reports (e e' : Exc) : Prop :=
  if e.isLockException then e' = e ∨ e' = .alreadyLocked else e' = .lockException

/-- The same, by `fail_when_locked`. -/
def Lock.report (failWhenLocked : Bool) (e : Exc) : Exc :=
  if e.isLockException then (if failWhenLocked then .alreadyLocked else e) else .lockException

theorem reports_report (failWhenLocked : Bool) (e : Exc) :
    Reports e (Lock.report failWhenLocked e) := by
  unfold Reports Lock.report
  cases e.isLockException <;> cases failWhenLocked <;> simp

section Acquire

variable {self : Lock} {h : Handle ι Path} {timeout checkInterval : Rat} {failWhenLocked : Bool}
  {N L : W → Prop} {S : Handle ι Path → W → Prop} {T G D X : Exc → W → Prop}
  [∀ e, C.Stable (T e)] [∀ e, C.Stable (D e)] [∀ e, C.Stable (X e)] [C.Stable N] [C.Stable L]
  [∀ h, C.Stable (S h)]

/-- The closing that precedes every error of `acquire`. -/
theorem closeThenThrow_rule {α : Type} {Q : α → W → Prop} {e e' : Exc}
    [∀ e, C.Stable (G e)]
    (hclose : Hoare C (T e) (perform (.close h)) (fun _ => G e) (Caught (G e) D))
    (hgive : ∀ w, C.inv w → G e w → D e' w) :
    Hoare C (T e) (do Lock.tryClose h; throw e' : Py ι α) Q D :=
  Hoare.bind (suppress_rule hclose) fun _ => Hoare.throw hgive

/-- One pass of the loop: `N` is a new handle, `L` a locked one, `T e` one whose
lock call has failed with `e`, `G e` the same after the handle has been closed,
and `D e` what is left when `e` is raised. -/
theorem tryLock_rule [∀ e, C.Stable (G e)]
    (hlock : Hoare C N (PosixLocker.lock h self.flags) (fun _ => L) T)
    (hclose : ∀ e, Hoare C (T e) (perform (.close h)) (fun _ => G e) (Caught (G e) D))
    (hgive : ∀ e w, C.inv w → G e w → D (Lock.report failWhenLocked e) w)
    (hraise : ∀ e w, C.inv w → e.isException = false → T e w → D e w) :
    Hoare C N (self.tryLock h failWhenLocked)
      (Ends (fun _ => L) fun e w => (e.isLockException = true ∧ failWhenLocked = false) ∧ T e w)
      D := by
  refine Hoare.tryCatch (F := T) (Hoare.bind hlock fun _ => Hoare.pure fun _ _ h => h) ?_
  intro e
  cases he : e.isLockException with
  | true =>
      cases failWhenLocked with
      | true =>
          have hreports : ∀ w, C.inv w → G e w → D .alreadyLocked w := fun w hw hg => by
            simpa [Lock.report, he] using hgive e w hw hg
          simpa only [if_true] using closeThenThrow_rule (hclose e) hreports
      | false => exact Hoare.pure fun w _ ht => ⟨⟨he, rfl⟩, ht⟩
  | false =>
      cases hx : e.isException with
      | true =>
          have hreports : ∀ w, C.inv w → G e w → D .lockException w := fun w hw hg => by
            simpa [Lock.report, he] using hgive e w hw hg
          simpa [hx] using closeThenThrow_rule (hclose e) hreports
      | false => simpa [hx] using Hoare.throw (C := C) fun w hw => hraise e w hw hx

/-- `acquire` with a handle it has just opened: it is locked and stored, or it is
given up. -/
theorem acquireOpened_report_rule [∀ e, C.Stable (G e)]
    (hlock : Hoare C N (PosixLocker.lock h self.flags) (fun _ => L) T)
    (hclose : ∀ e, Hoare C (T e) (perform (.close h)) (fun _ => G e) (Caught (G e) D))
    (hgive : ∀ e w, C.inv w → G e w → D (Lock.report failWhenLocked e) w)
    (hraise : ∀ e w, C.inv w → e.isException = false → T e w → D e w)
    (hnext : ∀ e w, C.inv w → e.isLockException = true → failWhenLocked = false → T e w → N w)
    (hattempts : ∀ e, failWhenLocked = false →
      Hoare C (T e) (perform (.attempts timeout)) (fun _ => T e) D)
    (hsleep : ∀ i e, failWhenLocked = false →
      Hoare C (T e) (perform (.sleep i checkInterval)) (fun _ => T e) D)
    (hprepare : Hoare C L (self.prepareFh h) (fun _ => L) D)
    (hstore : Hoare C L (perform (.setFh (some h))) (fun _ => S h) D)
    (hdrop : ∀ e, Hoare C (D e) (perform (.drop h)) (fun _ => X e) X) :
    Hoare C N (self.acquireOpened timeout checkInterval failWhenLocked h) S X := by
  refine Hoare.onRaise (F := D) ?_ hdrop
  refine Hoare.bind (timeoutGenerator_rule (tryLock_rule hlock hclose hgive hraise) ?_ ?_ ?_) ?_
  · exact fun e w hw ht => hnext e w hw ht.1.1 ht.1.2 ht.2
  · exact fun e => Hoare.of_fact fun hfact =>
      (hattempts e hfact.2).of_post fun _ _ _ ht => ⟨hfact, ht⟩
  · exact fun i e => Hoare.of_fact fun hfact =>
      (hsleep i e hfact.2).of_post fun _ _ _ ht => ⟨hfact, ht⟩
  · intro outcome
    cases outcome with
    | error e =>
        refine Hoare.of_fact fun hfact => ?_
        exact closeThenThrow_rule (hclose e) fun w hw hg => by
          simpa [Lock.report, hfact] using hgive e w hw hg
    | ok a =>
        exact Hoare.bind hprepare fun _ => Hoare.bind hstore fun _ =>
          Hoare.pure fun _ _ h => h

/-- The same, where it does not matter which of the two a failure becomes. -/
theorem acquireOpened_rule [∀ e, C.Stable (G e)]
    (hlock : Hoare C N (PosixLocker.lock h self.flags) (fun _ => L) T)
    (hclose : ∀ e, Hoare C (T e) (perform (.close h)) (fun _ => G e) (Caught (G e) D))
    (hgive : ∀ e e' w, C.inv w → Reports e e' → G e w → D e' w)
    (hraise : ∀ e w, C.inv w → e.isException = false → T e w → D e w)
    (hnext : ∀ e w, C.inv w → failWhenLocked = false → T e w → N w)
    (hattempts : ∀ e, failWhenLocked = false →
      Hoare C (T e) (perform (.attempts timeout)) (fun _ => T e) D)
    (hsleep : ∀ i e, failWhenLocked = false →
      Hoare C (T e) (perform (.sleep i checkInterval)) (fun _ => T e) D)
    (hprepare : Hoare C L (self.prepareFh h) (fun _ => L) D)
    (hstore : Hoare C L (perform (.setFh (some h))) (fun _ => S h) D)
    (hdrop : ∀ e, Hoare C (D e) (perform (.drop h)) (fun _ => X e) X) :
    Hoare C N (self.acquireOpened timeout checkInterval failWhenLocked h) S X :=
  acquireOpened_report_rule hlock hclose
    (fun e w hw => hgive e _ w hw (reports_report failWhenLocked e)) hraise
    (fun e w hw _ => hnext e w hw) hattempts hsleep hprepare hstore hdrop

end Acquire

/-! ## `Lock.release` -/

section Release

/-- `R h` for a handle, `Z` without one. -/
instance stable_elim {Z : W → Prop} {R : Handle ι Path → W → Prop} [hZ : C.Stable Z]
    [hR : ∀ h, C.Stable (R h)] (v : Option (Handle ι Path)) : C.Stable (v.elim Z R) := by
  cases v with
  | none => exact hZ
  | some h => exact hR h

variable {self : Lock} {Z : W → Prop} {R U V : Handle ι Path → W → Prop}
  {P : W → Prop} {I : Exc → Prop} {Y : Exc → W → Prop}
  [∀ h, C.Stable (R h)] [∀ h, C.Stable (U h)] [∀ h, C.Stable (V h)] [∀ e, C.Stable (Y e)]
  [C.Stable Z]

/-- `release`: `R h` before the unlock, `U h` after it, `V h` after the close and
`Z` when the handle is forgotten.  `I` are the exceptions that may leave it
although both have been attempted. -/
theorem release_rule
    (hfh : Hoare C P (perform .fh) (fun v => (v.elim Z R : W → Prop)) Y)
    (hunlock : ∀ h, Hoare C (R h) (perform (.unlock h)) (fun _ => U h)
      (Caught (U h) fun e w => I e ∧ U h w))
    (hclose : ∀ h, Hoare C (U h) (perform (.close h)) (fun _ => V h) (Caught (V h) Y))
    (hforget : ∀ h, Hoare C (V h) (perform (.setFh none)) (fun _ => Z) Y)
    (hcollected : self.raiseOnReleaseError = true → ∀ e, I e)
    (hraise : ∀ e w, C.inv w → I e → Z w → Y e w) :
    Hoare C P self.release (fun _ => Z) Y := by
  refine Hoare.bind hfh ?_
  intro v
  cases v with
  | none => exact Hoare.pure fun _ _ h => h
  | some h =>
      have hcleanup : Hoare C (U h) (do
          let errors ← Code.collect Exc.isException (perform (.close h))
          perform (.setFh none)
          return errors) (fun _ => Z) Y :=
        Hoare.bind (collect_rule (hclose h)) fun _ =>
          Hoare.bind (hforget h) fun _ => Hoare.pure fun _ _ hz => hz
      refine Hoare.bind (R := fun _ => Z) ?_ ?_
      · refine Hoare.withFinally (R := fun _ => U h) (F := fun e w => I e ∧ U h w)
          (collect_rule (hunlock h)) (fun _ => hcleanup) fun e => ?_
        exact Hoare.of_fact fun he => hcleanup.of_post fun _ w hw hz => hraise e w hw he hz
      · rintro ⟨unlockErrors, closeErrors⟩
        dsimp only
        split
        · exact Hoare.throw fun w hw => hraise _ w hw (hcollected ‹_› _)
        · exact Hoare.pure fun _ _ hz => hz

end Release

/-! ## `TemporaryFileLock` -/

section Temporary

variable {self : Lock} {filename : Path} {timeout checkInterval : Option Rat}
  {failWhenLocked : Option Bool} {P Z : W → Prop} {N S U : Handle ι Path → W → Prop}
  {M : Handle ι Path → Bool → W → Prop} {F X : Exc → W → Prop}
  [C.Stable Z] [∀ h, C.Stable (N h)] [∀ h, C.Stable (S h)] [∀ h, C.Stable (U h)]
  [∀ h b, C.Stable (M h b)] [∀ e, C.Stable (F e)] [∀ e, C.Stable (X e)]

/-- `Lock.acquire` in append mode: nothing is stored and the file is opened, or the
handle that is stored is the answer. -/
theorem lockAcquire_rule (hmode : openKind self.mode = some .append)
    (hfh : Hoare C P (perform .fh) (fun v => (v.elim Z S : W → Prop)) X)
    (hopen : Hoare C Z (perform (.openFile self.filename .append)) N X)
    (hopened : ∀ h, Hoare C (N h) (self.acquireOpened (timeout.getD self.timeout)
      (checkInterval.getD self.checkInterval) (failWhenLocked.getD self.failWhenLocked) h) S X) :
    Hoare C P (self.acquire timeout checkInterval failWhenLocked) S X := by
  refine Hoare.bind hfh fun v => ?_
  cases v with
  | none =>
      refine Hoare.bind (R := N) ?_ hopened
      simp only [Lock.getFh, hmode]
      exact hopen
  | some h => exact Hoare.pure fun _ _ hs => hs

/-- `_fh_matches_path`: `M h b` says what the answer `b` means for the handle. -/
theorem fhMatchesPath_rule {h : Handle ι Path}
    (hfstat : Hoare C (S h) (perform (.fstat h)) (fun i w => i = h.ino ∧ S h w)
      fun e w => e = .osError .ENOENT ∧ M h false w)
    (hstat : Hoare C (S h) (perform (.stat filename)) (fun i => M h (h.ino == i))
      fun e w => e = .osError .ENOENT ∧ M h false w) :
    Hoare C (S h) (fhMatchesPath h filename) (M h) X := by
  refine Hoare.tryCatch (F := fun e w => e = .osError .ENOENT ∧ M h false w) ?_ fun e => ?_
  · refine Hoare.bind hfstat fun i => Hoare.of_fact fun hi => ?_
    subst hi
    exact Hoare.bind hstat fun j => Hoare.pure fun _ _ hs => hs
  · refine Hoare.of_fact fun he => ?_
    subst he
    exact Hoare.pure fun _ _ hs => hs

/-- `_acquire_verified`: a handle that does not match is released before the next
attempt, and an `AlreadyLocked` reports that none has matched. -/
theorem acquireVerified_rule
    (hacquire : Hoare C P (self.acquire timeout checkInterval failWhenLocked) S X)
    (hmatch : ∀ h, Hoare C (S h) (fhMatchesPath h filename) (M h) X)
    (hrelease : ∀ h, Hoare C (M h false) self.release (fun _ => Z) X)
    (hnext : ∀ w, C.inv w → Z w → P w) (hraise : ∀ w, C.inv w → Z w → X .alreadyLocked w)
    (hattempts : ∀ t, Hoare C Z (perform (.attempts t)) (fun _ => Z) X)
    (hsleep : ∀ i t, Hoare C Z (perform (.sleep i t)) (fun _ => Z) X) :
    Hoare C P (TemporaryFileLock.acquireVerified self filename timeout checkInterval failWhenLocked)
      (fun h => M h true) X := by
  refine Hoare.bind (timeoutGenerator_rule (Q := fun h => M h true)
    (F := fun e w => e = .alreadyLocked ∧ Z w) ?_ (fun _ w hw hz => hnext w hw hz.2) ?_ ?_)
    fun outcome => ?_
  · refine Hoare.bind hacquire fun h => Hoare.bind (hmatch h) fun matching => ?_
    cases matching with
    | true => exact Hoare.pure fun _ _ hs => hs
    | false => exact Hoare.bind (hrelease h) fun _ => Hoare.pure fun _ _ hs => ⟨rfl, hs⟩
  · exact fun e => Hoare.of_fact fun he => (hattempts _).of_post fun _ _ _ hz => ⟨he, hz⟩
  · exact fun i e => Hoare.of_fact fun he => (hsleep i _).of_post fun _ _ _ hz => ⟨he, hz⟩
  · cases outcome with
    | ok h => exact Hoare.pure fun _ _ hs => hs
    | error e => exact Hoare.of_fact fun he => Hoare.throw (he ▸ hraise)

/-- `TemporaryFileLock.release`: the unlink, and whatever becomes of it the release. -/
theorem temporaryRelease_rule {self : TemporaryFileLock}
    (hfh : Hoare C P (perform .fh) (fun v => (v.elim Z S : W → Prop)) X)
    (hunlink : ∀ h, Hoare C (S h) (unlinkIfPresent self.filename) (fun _ => U h) F)
    (hrelease : ∀ h, Hoare C (U h) self.toLock.release (fun _ => Z) X)
    (hfailed : ∀ e, Hoare C (F e) self.toLock.release (fun _ => X e) X) :
    Hoare C P self.release (fun _ => Z) X := by
  refine Hoare.bind hfh fun v => ?_
  cases v with
  | none => exact Hoare.pure fun _ _ hs => hs
  | some h =>
      exact Hoare.bind (R := fun _ => Z)
        (Hoare.withFinally (hunlink h) (fun _ => hrelease h) hfailed) fun _ =>
          Hoare.pure fun _ _ hs => hs

end Temporary

/-- The operations of `release`. -/
theorem release_within {kind : Op ι → Prop} (self : Lock) (hfh : kind .fh)
    (hunlock : ∀ h, kind (.unlock h)) (hclose : ∀ h, kind (.close h))
    (hforget : kind (.setFh none)) : Code.Within kind (self.release : Py ι Unit) := by
  refine .step hfh fun v => ?_
  cases v with
  | none => exact .pure _
  | some h =>
      refine .bind (.withFinally (.collect (.call (hunlock h)))
        (.bind (.collect (.call (hclose h))) fun _ => .step hforget fun _ => .pure _)) fun errors => ?_
      dsimp only
      split
      · exact .throw _
      · exact .pure _

end Portalocker
