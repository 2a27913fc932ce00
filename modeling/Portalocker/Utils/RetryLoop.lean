import Portalocker.Utils.Attempts
set_option autoImplicit false
set_option linter.unusedSectionVars false

/-!
# The retry loop of `Lock.acquire`

What `acquire` makes of a sequence of lock attempts, once its file is open: the loop
goes on only after contention it may wait for, the last attempt alone decides how the
call ends, and a call that fails has closed what it opened.
-/

namespace Portalocker

open Posix Interleaving World Contract

variable {ι : Type} [DecidableEq ι]

/-- The operation locks, unlocks or closes a file. -/
def Op.Locking : Op ι → Prop
  | .flock _ _ | .unlock _ | .close _ => True
  | _ => False

/-- Only these operations fail, each with any `Exception`. -/
def LockingFaults (cfg : Config ι) : Prop :=
  ∀ c o e, cfg.mayRaise c o e = true → e.isException = true ∧ o.Locking

theorem LockingFaults.plain {cfg : Config ι} (h : LockingFaults cfg) : PlainFaults cfg := by
  intro c o e he
  obtain ⟨hexception, ho⟩ := h c o e he
  refine ⟨hexception, ?_⟩
  cases o with
  | flock | unlock | close => trivial
  | _ => exact ho.elim

namespace Lock

/-- How `acquire` ends after a last attempt with this result. -/
def ending (failWhenLocked : Bool) (h : Handle ι Path) :
    Except Exc Unit → Except Exc (Handle ι Path)
  | .ok () => .ok h
  | .error e => .error (report failWhenLocked (PosixLocker.translate e))

variable {cfg : Config ι} {p : ι} {c : Call} {self : Lock} {failWhenLocked : Bool}
  {h g : Handle ι Path} {e : Exc} {w : World ι} {tr : Trace ι}

/-- Without faults in any other step, a call that has opened its file and raises has
closed it after its last attempt. -/
theorem GivesUp.closed (hfaults : LockingFaults cfg)
    (hgives : self.GivesUp cfg c failWhenLocked p g e (w, tr)) :
    (Shut p g w ∧ w.fh p = none) ∧
      ∃ e', e = report failWhenLocked e' ∧ Missed cfg c self.flags failWhenLocked g [g] e' tr := by
  rcases hgives with hgives | ⟨-, -, o, hstep, hmay⟩
  · exact hgives
  · obtain ⟨-, hlocking⟩ := hfaults c o e hmay
    cases o with
    | flock | unlock | close => exact hstep.elim
    | _ => exact hlocking.elim

end Lock

end Portalocker
