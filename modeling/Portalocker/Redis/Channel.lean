import Mathlib.Tactic.Common
import Portalocker.Foundation.Discipline
import Portalocker.Redis.Lock
set_option autoImplicit false
set_option linter.unusedSectionVars false

/-!
# One channel and the locks on it

The server side of `redis.py`: any number of `RedisLock`s and of other subscribers
share one channel.  A command is one step of the server, but nobody waits for the
confirmation of a SUBSCRIBE: it may be carried out at once, or stay on its way while
the lock goes on and counts over another connection.  A ping is delivered to
every current subscriber, and each answers it later, in any order: the worker
thread of a lock reads its mode and publishes the reply in two steps of its own.

A release is reduced to what the other locks can see of it.  The worker closes the
subscription's connection when it stops, and `unsubscribe` is where the subscription
ends here; and a connection that has been killed stays closed, although `PubSub` may
connect and subscribe again when it is used next.

The last fields of the world are history: no answer depends on them.
-/

namespace Portalocker.Redis

open Interleaving

/-! ## The world -/

/-- A subscriber of the channel: a lock, or something else, such as a lock of an
older release. -/
inductive Subscriber (ι : Type)
  | lock (p : ι)
  | stranger (n : Nat)
  deriving DecidableEq

/-- How far the ping of a prober has got with one subscriber. -/
inductive Stage
  | idle
  | pinged
  /-- its worker has read the mode and is about to publish it -/
  | answering (mode : RedisLockMode)
  | answered (data : Option Json)
  | read

namespace Stage

def isPinged : Stage → Bool
  | pinged => true
  | _ => false

def isIdle : Stage → Bool
  | idle => true
  | _ => false

def isRead : Stage → Bool
  | read => true
  | _ => false

/-- The reply has reached the prober, which may not have read it. -/
def hasArrived : Stage → Bool
  | answered _ | read => true
  | _ => false

theorem isRead_iff {stage : Stage} : stage.isRead = true ↔ stage = read := by
  cases stage <;> simp [isRead]

end Stage

/-- The response channel of a prober. -/
inductive Response
  | closed
  | requested
  | active
  deriving DecidableEq, Repr

structure World (ι : Type) where
  attributes : ι → Attributes
  clients : List (Client × Subscriber ι)
  nextClient : Nat
  subscribers : List (Subscriber ι)
  /-- its SUBSCRIBE is still on its way -/
  requested : ι → Bool
  response : ι → Response
  mail : ι → Subscriber ι → Stage
  /-- whose ping the worker of a lock is answering -/
  busy : ι → Option ι
  /-- history: what the lock counted last, outside of a probe -/
  counted : ι → Nat
  /-- history: whom its last ping reached -/
  pinged : ι → List (Subscriber ι)
  /-- history: `arrived p s`, the reply of `s` had arrived when `p` last looked for one -/
  arrived : ι → Subscriber ι → Bool
  /-- history: `stayed p q`, `q` has been subscribed since that count -/
  stayed : ι → ι → Bool
  /-- history: `remained p q`, it was so at the last re-count -/
  remained : ι → ι → Bool
  /-- history: the modes `q` has had since that count -/
  had : ι → ι → RedisLockMode → Bool
  /-- history: `preceded p q`, `q` was subscribed when the subscription of `p`
  started, and still is -/
  preceded : ι → ι → Bool
  /-- history: the lock is between the decision that makes `acquire` return and its
  release -/
  owns : ι → Bool
  /-- history: how its last call ended -/
  outcome : ι → Option (Option Exc)

namespace World

variable {ι : Type} [DecidableEq ι] (w : World ι)

@[simps clients nextClient subscribers requested response mail busy counted pinged arrived stayed
  remained had preceded owns outcome]
def setAttributes (p : ι) (a : Attributes) : World ι :=
  { w with attributes := Function.update w.attributes p a }

@[simp] theorem setAttributes_attributes (p : ι) (a : Attributes) :
    (w.setAttributes p a).attributes = Function.update w.attributes p a := rfl

/-- A lock announces another mode. -/
@[simps]
def setMode (p : ι) (mode : RedisLockMode) : World ι :=
  { w with
    attributes := Function.update w.attributes p { w.attributes p with mode := mode }
    had := fun q r m => w.had q r m || (r = p && m = mode) }

@[simps]
def setName (p : ι) (name : Text) : World ι :=
  { w with
    clients := (⟨w.nextClient, name⟩, .lock p) :: w.clients
    nextClient := w.nextClient + 1 }

/-- A SUBSCRIBE is sent. -/
@[simps]
def sendSubscribe (p : ι) : World ι :=
  { w with requested := Function.update w.requested p true }

/-- A subscription starts. -/
@[simps]
def subscribe (p : ι) : World ι :=
  { w with
    subscribers := .lock p :: w.subscribers
    requested := Function.update w.requested p false
    stayed := fun q r => q ≠ p && w.stayed q r
    preceded := fun q r => if q = p then .lock r ∈ w.subscribers else w.preceded q r }

/-- A subscription ends, or one that is still on its way is given up; the pings that
wait in it are lost. -/
@[simps]
def leave (s : Subscriber ι) : World ι :=
  { w with
    subscribers := w.subscribers.filter (· ≠ s)
    requested := fun q => w.requested q && .lock q ≠ s
    mail := fun p t => if t = s ∧ (w.mail p t).isPinged then .idle else w.mail p t
    stayed := fun p q => w.stayed p q && .lock p ≠ s && .lock q ≠ s
    preceded := fun p q => w.preceded p q && .lock p ≠ s && .lock q ≠ s }

@[simps]
def unsubscribe (p : ι) : World ι :=
  { w.leave (.lock p) with owns := Function.update w.owns p false }

@[simps]
def closePubsub (p : ι) : World ι :=
  { w with clients := w.clients.filter (·.2 ≠ .lock p) }

/-- `CLIENT KILL`. -/
def kill (id : Nat) : World ι :=
  match w.clients.find? (·.1.id = id) with
  | some client => { w with clients := w.clients.filter (·.1.id ≠ id) }.leave client.2
  | none => w

/-- The count that starts an attempt. -/
@[simps]
def count (p : ι) : World ι :=
  { w with
    counted := Function.update w.counted p w.subscribers.length
    stayed := fun q r => if q = p then .lock r ∈ w.subscribers else w.stayed q r
    had := fun q r m => if q = p then (w.attributes r).mode = m else w.had q r m }

/-- The count that ends a probe. -/
@[simps]
def recount (p : ι) : World ι :=
  { w with remained := fun q r => if q = p then w.stayed p r else w.remained q r }

@[simps]
def setResponse (p : ι) (response : Response) : World ι :=
  { w with response := Function.update w.response p response }

/-- The probe is over: what is still on its way to its response channel is lost. -/
@[simps]
def closeProbe (p : ι) : World ι :=
  { w with
    response := Function.update w.response p .closed
    mail := fun q s => if q = p then .idle else w.mail q s
    busy := fun q => if w.busy q = some p then none else w.busy q }

@[simps]
def setMail (p : ι) (s : Subscriber ι) (stage : Stage) : World ι :=
  { w with mail := fun q t => if q = p ∧ t = s then stage else w.mail q t }

/-- The prober looks for a reply. -/
@[simps]
def listen (p : ι) : World ι :=
  { w with arrived := fun q s => if q = p then (w.mail p s).hasArrived else w.arrived q s }

@[simps]
def setBusy (q : ι) (prober : Option ι) : World ι :=
  { w with busy := Function.update w.busy q prober }

/-- Every current subscriber receives the ping. -/
@[simps]
def publish (p : ι) : World ι :=
  { w with
    mail := fun q s => if q = p ∧ s ∈ w.subscribers then .pinged else w.mail q s
    pinged := Function.update w.pinged p w.subscribers }

@[simps]
def win (p : ι) : World ι :=
  { w with owns := Function.update w.owns p true }

@[simps]
def stop (p : ι) (outcome : Option Exc) : World ι :=
  { w with outcome := Function.update w.outcome p (some outcome) }

end World

/-! ## What an operation does -/

/-- The locks of one channel, and the exceptions their operations may raise. -/
structure Config (ι : Type) where
  channel : Text
  lock : ι → RedisLock
  onChannel : ∀ p, (lock p).channel = channel
  mayRaise : ι → Op → Exc → Bool

/-- What the environment decides when an operation is performed: the number of
further rounds, which message is received, whether a SUBSCRIBE is still on its way
when the lock goes on, and an exception that is raised, before the operation takes
effect or after it. -/
structure Choice (ι : Type) where
  count : Nat := 0
  message : Option (Option (Subscriber ι)) := none
  inFlight : Bool := false
  fault : Option Exc := none
  late : Bool := false

/-- What happens on its own: a SUBSCRIBE is carried out, a response channel becomes
active, a worker takes a ping or publishes its reply, and strangers come, go and
answer. -/
inductive Event (ι : Type)
  | arrive (p : ι)
  | activate (p : ι)
  | handle (q p : ι)
  | answer (q : ι)
  | join (n : Nat) (name : Text)
  | part (n : Nat)
  | reply (n : Nat) (p : ι) (data : Option Json)

section Effects

variable {ι : Type} [DecidableEq ι]

/-- `get_message`: nothing, the confirmation, or a reply that has arrived. -/
def receive (choice : Choice ι) (p : ι) (w : World ι) :
    Option (Except Exc (Option Message) × World ι) :=
  match choice.message with
  | none => some (.ok none, w.listen p)
  | some none =>
      if w.response p = .active then some (.ok (some .subscribed), w.listen p) else none
  | some (some s) =>
      match w.mail p s with
      | .answered data => some (.ok (some (.reply data)), (w.setMail p s .read).listen p)
      | _ => none

/-- The effect of an operation; `none` while it waits. -/
def act (choice : Choice ι) (p : ι) (w : World ι) :
    (o : Op) → Option (Except Exc (Val o) × World ι)
  | .setMode mode => some (.ok (), w.setMode p mode)
  | .setName name => some (.ok (), w.setName p name)
  | .parseResponse => some (.ok (), w)
  | .subscribe => some (.ok (), if .lock p ∈ w.subscribers then w else
      if choice.inFlight then w.sendSubscribe p else w.subscribe p)
  | .unsubscribe => some (.ok (), w.unsubscribe p)
  | .closePubsub => some (.ok (), w.closePubsub p)
  | .closeConnection => some (.ok (), w)
  | .subscriberCount again =>
      some (.ok w.subscribers.length, if again then w.recount p else w.count p)
  | .subscribeResponse => some (.ok (), w.setResponse p .requested)
  | .getMessage => receive choice p w
  | .closeProbe => some (.ok (), w.closeProbe p)
  | .publish => some (.ok (), w.publish p)
  | .clientList => some (.ok (w.clients.map Prod.fst), w)
  | .clientKill id => some (.ok (), w.kill id)
  | .attempts timeout =>
      if timeout ≤ 0 ∧ choice.count ≠ 0 then none else some (.ok choice.count, w)
  | .sleep _ => some (.ok (), w)
  | .won _ => some (.ok (), w.win p)
  | .concluded _ => some (.ok (), w)
  | .ended outcome => some (.ok (), w.stop p outcome)
  -- a thread is joined when it has answered what it was answering
  | .stopThread =>
      if (w.busy p).isSome then none
      else ((w.attributes p).act .stopThread).map fun ra => (ra.1, w.setAttributes p ra.2)
  | o => ((w.attributes p).act o).map fun ra => (ra.1, w.setAttributes p ra.2)

/-- Closing a probe that raises has closed it. -/
def Op.closes : Op → Bool
  | .closeProbe => true
  | _ => false

/-- The worker of `q` takes the ping of `p`: `channel_handler` up to the reading of
the mode.  Without a connection its assertion fails, which ends the thread. -/
def handle (q p : ι) (w : World ι) : Option (World ι) :=
  if (w.mail p (.lock q)).isPinged ∧ w.busy q = none ∧
      (w.attributes q).thread = some .running then
    if (w.attributes q).connection = none then
      some ((w.setMail p (.lock q) .idle).setAttributes q
        { w.attributes q with thread := some .ended })
    else some ((w.setMail p (.lock q) (.answering (w.attributes q).mode)).setBusy q (some p))
  else none

/-- A stranger answers with something that is not a record of this protocol. -/
def strangerReply (n : Nat) (p : ι) (data : Option Json) (w : World ι) : Option (World ι) :=
  if (w.mail p (.stranger n)).isPinged ∧ w.response p = .active ∧
      (data.bind parseRecord).isNone then
    some (w.setMail p (.stranger n) (.answered data))
  else none

/-- A stranger subscribes. -/
def World.join (w : World ι) (n : Nat) (name : Text) : World ι :=
  { w with
    clients := (⟨w.nextClient, name⟩, .stranger n) :: w.clients
    nextClient := w.nextClient + 1
    subscribers := .stranger n :: w.subscribers }

end Effects

namespace Config

variable {ι : Type} [DecidableEq ι] (cfg : Config ι)

/-- Perform an operation: it takes effect, or raises an exception that the
configuration allows there, before it takes effect or after it. -/
def performOp (choice : Choice ι) (p : ι) (w : World ι) (o : Op) :
    Option (Except Exc (Val o) × World ι) :=
  match choice.fault with
  | none => act choice p w o
  | some e =>
      if cfg.mayRaise p o e then
        if choice.late ∨ o.closes then
          (act choice p w o).map fun rw => (.error e, rw.2)
        else some (.error e, w)
      else none

/-- It publishes the reply, which arrives when the response channel is active. -/
def answer (q : ι) (w : World ι) : Option (World ι) :=
  match w.busy q with
  | none => none
  | some p =>
      match w.mail p (.lock q) with
      | .answering mode =>
          let stage := if w.response p = .active then
            Stage.answered (some (reply (cfg.lock q).holderId mode)) else .idle
          some ((w.setMail p (.lock q) stage).setBusy q none)
      | _ => none

/-- What happens on its own. -/
def event (e : Event ι) (w : World ι) : Option (World ι) :=
  match e with
  | .arrive p => if w.requested p then some (w.subscribe p) else none
  | .activate p => if w.response p = .requested then some (w.setResponse p .active) else none
  | .handle q p => handle q p w
  | .answer q => cfg.answer q w
  | .join n name =>
      if .stranger n ∈ w.subscribers then none
      else some (w.join n name)
  | .part n => some { (w.leave (.stranger n)) with
      clients := w.clients.filter (·.2 ≠ .stranger n) }
  | .reply n p data => strangerReply n p data w

/-- Nobody has done anything yet. -/
def start : World ι where
  attributes p := (cfg.lock p).attributes
  clients := []
  nextClient := 0
  subscribers := []
  requested _ := false
  response _ := .closed
  mail _ _ := .idle
  busy _ := none
  counted _ := 0
  pinged _ := []
  arrived _ _ := false
  stayed _ _ := false
  remained _ _ := false
  had _ _ _ := false
  preceded _ _ := false
  owns _ := false
  outcome _ := none

/-- Any number of locks on one channel. -/
def channelMachine : Machine ι where
  World := World ι
  Op := Op
  Res := fun o => Except Exc (Val o)
  Call := RedisLock.Call
  Choice := Choice ι
  Event := Event ι
  perform := fun choice p _ w o => cfg.performOp choice p w o
  event := cfg.event
  body := fun p c => ((cfg.lock p).call c).toCall

end Config

/-- The world of a state of the machine. -/
abbrev server {ι : Type} [DecidableEq ι] {cfg : Config ι} (s : cfg.channelMachine.State) :
    World ι := s.world

end Portalocker.Redis
