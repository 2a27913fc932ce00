import Portalocker.Foundation.Kinds
import Portalocker.Redis.Lock
set_option autoImplicit false

/-!
# Which operations the methods perform

Most of what `acquire` does besides starting the subscription and probing, and all of
`release`, consists of operations on the attributes of the lock and of the commands that
end a subscription.
-/

namespace Portalocker.Redis

open Interleaving

/-- The operation neither starts a subscription nor belongs to a probe. -/
def Op.Beside : Op → Prop
  | .setName _ | .parseResponse | .subscribe | .startThread | .subscriberCount _
  | .subscribeResponse | .getMessage | .closeProbe | .publish | .clientList | .clientKill _
  | .concluded _ => False
  | _ => True

namespace RedisLock

open Code

variable (self : RedisLock)

section Loop

variable {kind : Op → Prop} {σ α : Type} {body : σ → Py (α ⊕ σ)}

theorem again_within (hsleep : ∀ interval, kind (.sleep interval))
    (hbody : ∀ s, Within kind (body s)) (interval : Rat) (remaining : Nat) (s : σ) :
    Within kind (timeoutGenerator.again interval body remaining s) := by
  induction remaining generalizing s with
  | zero => exact .pure _
  | succ remaining ih =>
      refine .step (hsleep interval) fun _ => .bind (hbody s) fun r => ?_
      cases r with
      | inl a => exact .pure _
      | inr s => exact ih s

/-- The loop asks the clock, and otherwise does what its body does. -/
theorem timeoutGenerator_within (hattempts : ∀ timeout, kind (.attempts timeout))
    (hsleep : ∀ interval, kind (.sleep interval)) (hbody : ∀ s, Within kind (body s))
    (timeout checkInterval : Rat) (s : σ) :
    Within kind (self.timeoutGenerator timeout checkInterval body s) :=
  .step (hattempts timeout) fun more => again_within hsleep hbody _ (more + 1) s

end Loop

theorem release_within : Within Op.Beside self.release := by
  refine .step trivial fun _ => .bind ?_ fun _ => .bind ?_ fun _ => ?_
  · exact .step trivial fun _ => .ite (.step trivial fun _ => .step trivial fun _ => .call trivial)
      (.pure _)
  · exact .step trivial fun _ => .ite (.step trivial fun _ => .step trivial fun _ => .call trivial)
      (.pure _)
  · exact .ite (.step trivial fun _ => .ite (.step trivial fun _ => .call trivial) (.pure _))
      (.pure _)

theorem getConnection_within : Within Op.Beside getConnection := by
  refine .step trivial fun connection => ?_
  cases connection with
  | some connection => exact .pure _
  | none => exact .step trivial fun _ => .step trivial fun _ => .pure _

theorem takeAlone_within : Within Op.Beside self.takeAlone :=
  .step trivial fun _ => .ite (.step trivial fun _ => .pure _) (.pure _)

theorem backOff_within (failWhenLocked : Bool) : Within Op.Beside (self.backOff failWhenLocked) :=
  .bind self.release_within fun _ => .ite (.throw _) (.pure _)

theorem takeElected_within (holders : List RedisLockHolder) (failWhenLocked : Bool) :
    Within Op.Beside (self.takeElected holders failWhenLocked) :=
  .step trivial fun _ => .ite (.bind self.release_within fun _ => .throw _)
    (.ite (.pure _) (.step trivial fun _ => .step trivial fun _ => .pure _))

theorem resolveLockHolders_within (holders : Option (List RedisLockHolder))
    (failWhenLocked : Bool) :
    Within Op.Beside (self.resolveLockHolders holders failWhenLocked) := by
  cases holders with
  | none => exact .step trivial fun _ => .ite (.pure _) (self.backOff_within failWhenLocked)
  | some holders =>
      exact .ite (.step trivial fun _ => .pure _)
        (.ite (self.takeElected_within holders failWhenLocked) (self.backOff_within failWhenLocked))

theorem resetWriter_within : Within Op.Beside self.resetWriter :=
  .ite (.step trivial fun _ => .call trivial) (.pure _)

end RedisLock

end Portalocker.Redis
