import Mathlib.Tactic.Common
import Portalocker.Foundation.Discipline
import Portalocker.Redis.Lock
set_option autoImplicit false
set_option linter.unusedSectionVars false

/-!
# One lock and every answer

The calls of a single `RedisLock`, where each command may answer anything: any
number of subscribers, any message, any list of clients, or an exception, raised
before the command takes effect or after it.  Only the commands of an acquisition
raise; those of `release` succeed.

The other fields of a session are history: what the lock has observed in its
current attempt, how many attempts it has made and may make, how often it has given
its subscription up, which command raised last, and how its last call ended.
-/

namespace Portalocker.Redis

open Interleaving Interleaving.Machine

/-! ## Sessions -/

/-- What an attempt has observed last. -/
inductive Observation
  | nothing
  | counted (subscribers : Nat)
  /-- a probe that has not returned a list -/
  | probing
  | listed (holders : List RedisLockHolder)

/-- How a call ended: with which exception, which command raised last in it, and
after how many attempts. -/
structure Ending where
  call : RedisLock.Call
  outcome : Option Exc
  raised : Option (Op × Exc)
  tries : Nat

structure Session where
  attributes : Attributes
  subscribed : Bool := false
  /-- between the decision that makes `acquire` return and the end of the subscription -/
  owns : Bool := false
  observation : Observation := .nothing
  /-- the attempts the current call has made, and how many its deadline allows -/
  tries : Nat := 0
  allowed : Option Nat := none
  /-- the writer has been elected in this subscription -/
  elected : Bool := false
  /-- how often the current call has ended the subscription -/
  backOffs : Nat := 0
  raised : Option (Op × Exc) := none
  last : Option Ending := none

/-- What the environment decides when an operation is performed. -/
structure Answer where
  count : Nat := 0
  message : Option Message := none
  clients : List Client := []
  fault : Option Exc := none
  late : Bool := false

/-- The Redis commands of `acquire`. -/
def Op.isCommand : Op → Bool
  | .setName _ | .parseResponse | .subscribe | .subscriberCount _ | .subscribeResponse
  | .getMessage | .closeProbe | .publish | .clientList | .clientKill _ => true
  | _ => false

/-- Those of `_start_subscription`. -/
def Op.startsSubscription : Op → Bool
  | .setName _ | .parseResponse | .subscribe => true
  | _ => false

namespace Session

variable (w : Session)

/-- The history of a call is over. -/
@[simps]
def finish (c : RedisLock.Call) (outcome : Option Exc) : Session where
  attributes := w.attributes
  subscribed := w.subscribed
  owns := w.owns
  elected := w.elected
  last := some ⟨c, outcome, w.raised, w.tries⟩

@[simps]
def unsubscribe : Session :=
  { w with subscribed := false, owns := false, elected := false, backOffs := w.backOffs + 1 }

@[simps]
def raise (o : Op) (e : Exc) : Session := { w with raised := some (o, e) }

/-- The effect of an operation of call `c`. -/
def act (c : RedisLock.Call) (answer : Answer) : (o : Op) → Option (Except Exc (Val o) × Session)
  | .setWriterElected value => some (.ok (),
      { w with
        attributes := { w.attributes with writerElected := value }
        elected := w.elected || value })
  | .setName _ | .parseResponse | .closePubsub | .closeConnection | .closeProbe | .publish
  | .clientKill _ | .sleep _ => some (.ok (), w)
  | .subscribe => some (.ok (), { w with subscribed := true })
  | .unsubscribe => some (.ok (), w.unsubscribe)
  | .subscriberCount false => some (.ok answer.count,
      { w with observation := .counted answer.count, tries := w.tries + 1 })
  | .subscriberCount true => some (.ok answer.count, w)
  | .subscribeResponse => some (.ok (), { w with observation := .probing })
  | .getMessage => some (.ok answer.message, w)
  | .clientList => some (.ok answer.clients, w)
  | .attempts timeout =>
      if timeout ≤ 0 ∧ answer.count ≠ 0 then none
      else some (.ok answer.count, { w with allowed := some (w.allowed.getD (answer.count + 1)) })
  | .won _ => some (.ok (), { w with owns := true })
  | .concluded holders => some (.ok (), { w with observation := .listed holders })
  | .ended outcome => some (.ok (), w.finish c outcome)
  | o => (w.attributes.act o).map fun ra => (ra.1, { w with attributes := ra.2 })

end Session

/-- A lock, and the exceptions its commands may raise. -/
structure SessionConfig where
  lock : RedisLock
  mayRaise : Op → Exc → Bool

namespace SessionConfig

variable (cfg : SessionConfig)

/-- Perform an operation: it takes effect, or it is a command and raises an
exception that the configuration allows, before it takes effect or after it. -/
def performOp (answer : Answer) (c : RedisLock.Call) (w : Session) (o : Op) :
    Option (Except Exc (Val o) × Session) :=
  match answer.fault with
  | none => w.act c answer o
  | some e =>
      if o.isCommand ∧ cfg.mayRaise o e then
        if answer.late then (w.act c answer o).map fun rw => (.error e, rw.2.raise o e)
        else some (.error e, w.raise o e)
      else none

/-- The lock as it was constructed. -/
def start : Session where
  attributes := cfg.lock.attributes

/-- The calls of one lock, and every answer to its commands. -/
def machine : Machine Unit where
  World := Session
  Op := Op
  Res := fun o => Except Exc (Val o)
  Call := RedisLock.Call
  Choice := Answer
  Event := Empty
  perform := fun answer _ c w o => cfg.performOp answer c w o
  event := fun e _ => e.elim
  body := fun _ c => (cfg.lock.call c).toCall

end SessionConfig

/-- The session of a state of the machine. -/
abbrev session {cfg : SessionConfig} (s : cfg.machine.State) : Session := s.world

/-! ## What one operation can do -/

/-- The two sessions differ in what has been observed, tried or allowed at most. -/
structure Session.Unchanged (w w' : Session) : Prop where
  pubsub : w'.attributes.pubsub = w.attributes.pubsub
  thread : w'.attributes.thread = w.attributes.thread
  mode : w'.attributes.mode = w.attributes.mode
  writerElected : w'.attributes.writerElected = w.attributes.writerElected
  connection : w'.attributes.connection = w.attributes.connection
  subscribed : w'.subscribed = w.subscribed
  owns : w'.owns = w.owns
  elected : w'.elected = w.elected
  observation : w'.observation = w.observation ∨ ∀ holders, w'.observation ≠ .listed holders

/-- Every way an operation can change a session. -/
inductive Session.Change (w : Session) : Op → Session → Prop
  | concluded (holders : List RedisLockHolder) :
      Change w (.concluded holders) { w with observation := .listed holders }
  | setConnection (value : Option Connection) :
      Change w (.setConnection value)
        { w with attributes := { w.attributes with connection := value } }
  | setPubsub (value : Option Connection) :
      Change w (.setPubsub value) { w with attributes := { w.attributes with pubsub := value } }
  | setThread (value : Bool) :
      Change w (.setThread value)
        { w with attributes :=
          { w.attributes with thread := if value then some .created else none } }
  | startThread :
      Change w .startThread { w with attributes := { w.attributes with thread := some .running } }
  | stopThread (worker : Worker) :
      Change w .stopThread { w with attributes := { w.attributes with thread := some worker } }
  | setMode (mode : RedisLockMode) :
      Change w (.setMode mode) { w with attributes := { w.attributes with mode := mode } }
  | setWriterElected (value : Bool) :
      Change w (.setWriterElected value)
        { w with
          attributes := { w.attributes with writerElected := value }
          elected := w.elected || value }
  | subscribe : Change w .subscribe { w with subscribed := true }
  | unsubscribe : Change w .unsubscribe w.unsubscribe
  | won (view : Option (List RedisLockHolder)) : Change w (.won view) { w with owns := true }
  | noted (o : Op) {w' : Session} (hsame : w.Unchanged w') : Change w o w'

theorem Session.Unchanged.refl (w : Session) : w.Unchanged w :=
  ⟨rfl, rfl, rfl, rfl, rfl, rfl, rfl, rfl, Or.inl rfl⟩

theorem Session.act_change {w w' : Session} {c : RedisLock.Call} {answer : Answer} {o : Op}
    {r : Except Exc (Val o)} (h : w.act c answer o = some (r, w')) : w.Change o w' := by
  cases o with
  | setName | parseResponse | closePubsub | closeConnection | closeProbe | publish | clientKill
    | sleep | getMessage | clientList =>
      simp only [Session.act, Option.some.injEq, Prod.mk.injEq] at h
      exact h.2 ▸ .noted _ (.refl w)
  | connection | pubsub | thread | writerElected | newConnection =>
      simp only [Session.act, Attributes.act, Option.map_some, Option.some.injEq,
        Prod.mk.injEq] at h
      exact h.2 ▸ .noted _ ⟨rfl, rfl, rfl, rfl, rfl, rfl, rfl, rfl, Or.inl rfl⟩
  | subscribeResponse =>
      simp only [Session.act, Option.some.injEq, Prod.mk.injEq] at h
      exact h.2 ▸ .noted _ ⟨rfl, rfl, rfl, rfl, rfl, rfl, rfl, rfl, Or.inr fun _ => by simp⟩
  | ended outcome =>
      simp only [Session.act, Option.some.injEq, Prod.mk.injEq] at h
      exact h.2 ▸ .noted _ ⟨rfl, rfl, rfl, rfl, rfl, rfl, rfl, rfl, Or.inr fun _ => by simp⟩
  | subscriberCount again =>
      cases again with
      | true =>
          simp only [Session.act, Option.some.injEq, Prod.mk.injEq] at h
          exact h.2 ▸ .noted _ (.refl w)
      | false =>
          simp only [Session.act, Option.some.injEq, Prod.mk.injEq] at h
          exact h.2 ▸ .noted _ ⟨rfl, rfl, rfl, rfl, rfl, rfl, rfl, rfl, Or.inr fun _ => by simp⟩
  | attempts timeout =>
      simp only [Session.act, Option.ite_none_left_eq_some, Option.some.injEq,
        Prod.mk.injEq] at h
      exact h.2.2 ▸ .noted _ ⟨rfl, rfl, rfl, rfl, rfl, rfl, rfl, rfl, Or.inl rfl⟩
  | subscribe | unsubscribe | won | concluded | setWriterElected =>
      simp only [Session.act, Option.some.injEq, Prod.mk.injEq] at h
      obtain ⟨-, rfl⟩ := h
      constructor
  | setConnection | setPubsub | setThread | startThread | setMode =>
      simp only [Session.act, Attributes.act, Option.map_some, Option.some.injEq,
        Prod.mk.injEq] at h
      obtain ⟨-, rfl⟩ := h
      constructor
  | stopThread =>
      simp only [Session.act, Attributes.act] at h
      split at h
      · simp only [Option.map_some, Option.some.injEq, Prod.mk.injEq] at h
        exact h.2 ▸ .noted _ (.refl w)
      · simp only [Option.map_some, Option.some.injEq, Prod.mk.injEq] at h
        exact h.2 ▸ .stopThread .ended

/-! ## The invariant -/

/-- No command raises. -/
def SessionConfig.Reliable (cfg : SessionConfig) : Prop := ∀ o e, cfg.mayRaise o e = false

/-- What holds between any two operations. -/
structure Consistent (cfg : SessionConfig) (w : Session) : Prop where
  inactive : w.attributes.pubsub = none → w.attributes.thread = none ∧ w.subscribed = false
  kind : w.attributes.mode = .shared ↔ cfg.lock.flags = SHARED
  exclusive : w.subscribed = true → w.attributes.mode = .exclusive → w.owns = true
  owns : w.owns = true → w.subscribed = true
  writerElected : w.attributes.writerElected = true → w.elected = true
  elected : w.elected = true → w.subscribed = true ∧ cfg.lock.flags = EXCLUSIVE

/-- How a call has left the lock. -/
structure Settled (cfg : SessionConfig) (ending : Ending) (w : Session) : Prop where
  returned : ending.call ≠ .release → ending.outcome = none → w.subscribed = true
  refused : ending.outcome = some .alreadyLocked → ending.raised = none →
    w.attributes.pubsub = none
  released : ending.call = .release → ending.outcome = none ∧ w.attributes.pubsub = none
  raised : ∀ o e, ending.raised = some (o, e) → ending.outcome = some e ∧
    (w.attributes.pubsub = none ↔ o.startsSubscription = true ∧ e.isException = true)
  once : ∀ timeout checkInterval failWhenLocked,
    ending.call = .acquire timeout checkInterval failWhenLocked →
    failWhenLocked.getD cfg.lock.failWhenLocked = true → ending.raised = none →
    ending.outcome = some .assertionError ∨ ending.tries = 1
  reliable : cfg.Reliable → ending.raised = none

/-- What holds between two calls. -/
structure Rest (cfg : SessionConfig) (w : Session) : Prop where
  thread : w.attributes.thread ≠ some .created
  observation : w.observation = .nothing
  tries : w.tries = 0
  allowed : w.allowed = none
  backOffs : w.backOffs = 0
  raised : w.raised = none
  settled : ∀ ending, w.last = some ending → Settled cfg ending w
  owner : cfg.Reliable → w.subscribed = true → w.owns = true

/-- Why a subscription may end. -/
def MayLeave (cfg : SessionConfig) (w : Session) : RedisLock.Call → Prop
  | .acquire _ _ failWhenLocked => w.owns = false ∧ (w.elected = true →
      failWhenLocked.getD cfg.lock.failWhenLocked = true ∨ w.allowed = some w.tries ∨
        ∃ holders, w.observation = .listed holders ∧
          cfg.lock.writerIsElected holders = false)
  | .release => w.observation = .nothing ∧ (cfg.Reliable → w.subscribed = true → w.owns = true)

/-- The permission to perform an operation in call `c`. -/
def Allowed (cfg : SessionConfig) (c : RedisLock.Call) (w : Session) : Op → Prop
  | .setConnection _ => w.attributes.pubsub = none
  | .setPubsub none => w.subscribed = false ∧ w.attributes.thread = none
  | .setPubsub (some connection) => cfg.lock.closeConnection = false ∨ w.backOffs = 0 →
      w.attributes.connection = some connection
  | .setThread value => value = true → w.attributes.pubsub ≠ none
  | .startThread => w.attributes.pubsub ≠ none
  | .stopThread => w.attributes.pubsub ≠ none
  | .setMode mode => cfg.lock.flags = EXCLUSIVE ∧ mode ≠ .shared ∧
      (mode = .exclusive → w.owns = true)
  | .setWriterElected true => w.subscribed = true ∧ cfg.lock.flags = EXCLUSIVE
  | .subscribe => w.attributes.pubsub ≠ none ∧ w.attributes.mode ≠ .exclusive
  | .unsubscribe => w.attributes.writerElected = false ∧ MayLeave cfg w c
  | .concluded _ => w.attributes.mode ≠ .exclusive
  | .won none => w.subscribed = true ∧ w.observation = .counted 1
  | .won (some holders) => w.subscribed = true ∧ w.observation = .listed holders
  | .ended outcome => Settled cfg ⟨c, outcome, w.raised, w.tries⟩ w
  | _ => True

section Invariant

variable {cfg : SessionConfig} {c : RedisLock.Call} {answer : Answer} {w w' : Session} {o : Op}
  {r : Except Exc (Val o)}

theorem Consistent.raise (h : Consistent cfg w) (o : Op) (e : Exc) : Consistent cfg (w.raise o e) :=
  ⟨h.inactive, h.kind, h.exclusive, h.owns, h.writerElected, h.elected⟩

theorem Consistent.unchanged (h : Consistent cfg w) (hsame : w.Unchanged w') :
    Consistent cfg w' where
  inactive := by rw [hsame.pubsub, hsame.thread, hsame.subscribed]; exact h.inactive
  kind := by rw [hsame.mode]; exact h.kind
  exclusive := by rw [hsame.subscribed, hsame.mode, hsame.owns]; exact h.exclusive
  owns := by rw [hsame.owns, hsame.subscribed]; exact h.owns
  writerElected := by rw [hsame.writerElected, hsame.elected]; exact h.writerElected
  elected := by rw [hsame.elected, hsame.subscribed]; exact h.elected

/-- Every permitted operation keeps the invariant. -/
theorem Consistent.change (h : Consistent cfg w) (hpre : Allowed cfg c w o)
    (hc : w.Change o w') : Consistent cfg w' := by
  cases hc with
  | noted o hsame => exact h.unchanged hsame
  | concluded holders | setConnection value =>
      exact ⟨h.inactive, h.kind, h.exclusive, h.owns, h.writerElected, h.elected⟩
  | subscribe =>
      exact ⟨fun hnone => absurd hnone hpre.1, h.kind, fun _ hmode => absurd hmode hpre.2,
        fun _ => rfl, h.writerElected, fun helected => ⟨rfl, (h.elected helected).2⟩⟩
  | unsubscribe =>
      refine ⟨fun hnone => ⟨(h.inactive hnone).1, rfl⟩, h.kind, ?_, ?_, ?_, ?_⟩
      · intro hsubscribed
        cases hsubscribed
      · intro howns
        cases howns
      · intro helected
        rw [Session.unsubscribe_attributes, hpre.1] at helected
        cases helected
      · intro helected
        cases helected
  | won view =>
      have hsubscribed : w.subscribed = true := by
        cases view with
        | none => exact hpre.1
        | some holders => exact hpre.1
      exact ⟨h.inactive, h.kind, fun _ _ => rfl, fun _ => hsubscribed, h.writerElected, h.elected⟩
  | setWriterElected value =>
      refine ⟨h.inactive, h.kind, h.exclusive, h.owns, fun helected => ?_, fun helected => ?_⟩
      · obtain rfl : value = true := helected
        exact Bool.or_true _
      · rcases Bool.or_eq_true_iff.1 helected with hold | rfl
        · exact h.elected hold
        · exact hpre
  | setMode mode =>
      obtain ⟨hflags, hmode, howns⟩ := hpre
      refine ⟨h.inactive, ?_, fun _ => howns, h.owns, h.writerElected, h.elected⟩
      simp only [hmode, hflags, false_iff]
      decide
  | setPubsub value =>
      refine ⟨fun hnone => ?_, h.kind, h.exclusive, h.owns, h.writerElected, h.elected⟩
      obtain rfl : value = none := hnone
      exact ⟨hpre.2, hpre.1⟩
  | setThread value =>
      refine ⟨fun hnone => ?_, h.kind, h.exclusive, h.owns, h.writerElected, h.elected⟩
      cases value with
      | true => exact absurd hnone (hpre rfl)
      | false => exact ⟨rfl, (h.inactive hnone).2⟩
  | startThread | stopThread worker =>
      exact ⟨fun hnone => absurd hnone hpre, h.kind, h.exclusive, h.owns, h.writerElected,
        h.elected⟩

/-- An operation takes effect, or it is a command that raises. -/
theorem SessionConfig.performOp_cases (h : cfg.performOp answer c w o = some (r, w')) :
    w.act c answer o = some (r, w') ∨
      ∃ e, o.isCommand = true ∧ cfg.mayRaise o e = true ∧ r = .error e ∧
        (w' = w.raise o e ∨ ∃ r' w'', w.act c answer o = some (r', w'') ∧ w' = w''.raise o e) := by
  unfold SessionConfig.performOp at h
  cases hf : answer.fault with
  | none => exact Or.inl (by simpa [hf] using h)
  | some e =>
      simp only [hf, Option.ite_none_right_eq_some] at h
      obtain ⟨⟨hcommand, hraise⟩, h⟩ := h
      refine Or.inr ⟨e, hcommand, hraise, ?_⟩
      split at h
      · obtain ⟨rw, hact, heq⟩ := Option.map_eq_some_iff.1 h
        obtain ⟨rfl, rfl⟩ := Prod.mk.inj heq
        exact ⟨rfl, Or.inr ⟨rw.1, rw.2, hact, rfl⟩⟩
      · simp only [Option.some.injEq, Prod.mk.injEq] at h
        obtain ⟨rfl, rfl⟩ := h
        exact ⟨rfl, Or.inl rfl⟩

theorem Consistent.perform (h : Consistent cfg w) (hpre : Allowed cfg c w o)
    (hperform : cfg.performOp answer c w o = some (r, w')) : Consistent cfg w' := by
  rcases SessionConfig.performOp_cases hperform with hact | ⟨e, -, -, -, rfl | ⟨r', w'', hact, rfl⟩⟩
  · exact h.change hpre (Session.act_change hact)
  · exact h.raise o e
  · exact (h.change hpre (Session.act_change hact)).raise o e

end Invariant

/-- The contract of a lock with itself: nobody else changes its session. -/
def sessionContract (cfg : SessionConfig) (g : Guard cfg.machine) : Discipline cfg.machine g where
  inv := Consistent cfg
  rely _ w w' := w' = w
  pre _ c w o := Allowed cfg c w o
  idle _ := Rest cfg
  rely_refl := fun _ _ => rfl
  rely_trans := fun h₁ h₂ => h₂.trans h₁
  inv_perform := fun hw hpre _ h => hw.perform hpre h
  rely_perform := fun _ _ _ _ q hq => absurd (Subsingleton.elim q _) hq
  inv_event := fun {e} => e.elim
  rely_event := fun {e} => e.elim
  idle_stable := fun _ _ h hrest => h ▸ hrest

end Portalocker.Redis
