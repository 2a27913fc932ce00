import Mathlib.Algebra.Order.Ring.Unbundled.Rat
import Portalocker.Redis.Holder
set_option autoImplicit false

/-!
# `RedisLock`

The methods of `redis.py` as code over atomic operations: reading or writing an
attribute, one Redis command, or one question to the clock.  Nothing here says
what the server answers; the same code runs on the machine of
`Redis/Channel.lean`, where any number of locks share a channel, and on the one of
`Redis/Session.lean`, where every command may answer anything.
-/

namespace Portalocker.Redis

open Interleaving

/-! ## Operations -/

/-- A connection object, by the number it was created under. -/
abbrev Connection : Type := Nat

/-- An entry of `CLIENT LIST`. -/
structure Client where
  id : Nat
  name : Text
  deriving DecidableEq, Repr

/-- What `get_message` returns from the probe's own subscription. -/
inductive Message
  | subscribed
  | reply (data : Option Json)

/-- The atomic operations of one lock. -/
inductive Op
  /-- `self.connection`, and its assignment -/
  | connection
  | setConnection (value : Option Connection)
  /-- `redis.client.Redis(**self.redis_kwargs)` -/
  | newConnection
  /-- `self.pubsub`, by the connection it was created on -/
  | pubsub
  | setPubsub (value : Option Connection)
  /-- whether `self.thread` is set; its assignment makes a thread or forgets it -/
  | thread
  | setThread (value : Bool)
  | setMode (mode : RedisLockMode)
  | writerElected
  | setWriterElected (value : Bool)
  /-- `CLIENT SETNAME`, and reading its reply -/
  | setName (name : Text)
  | parseResponse
  /-- subscribing to the channel of the lock, and the keep-alive thread -/
  | subscribe
  | startThread
  /-- `thread.stop()` and `thread.join()` -/
  | stopThread
  | unsubscribe
  | closePubsub
  | closeConnection
  /-- `PUBSUB NUMSUB`, before a probe and again at its end -/
  | subscriberCount (again : Bool)
  /-- the probe's own subscription, to its response channel -/
  | subscribeResponse
  | getMessage
  | closeProbe
  /-- the ping -/
  | publish
  | clientList
  | clientKill (id : Nat)
  /-- how many more rounds the clock allows within the timeout -/
  | attempts (timeout : Rat)
  | sleep (interval : Rat)
  /-- history: the decision that makes `acquire` return, with the probe it rests on -/
  | won (holders : Option (List RedisLockHolder))
  /-- history: a probe is about to return a list -/
  | concluded (holders : List RedisLockHolder)
  /-- history: how a call ends -/
  | ended (outcome : Option Exc)

/-- What an operation answers with. -/
abbrev Val : Op → Type
  | .connection | .pubsub => Option Connection
  | .newConnection => Connection
  | .thread | .writerElected => Bool
  | .subscriberCount _ | .attempts _ => Nat
  | .getMessage => Option Message
  | .clientList => List Client
  | _ => Unit

/-- Code of a `RedisLock`. -/
abbrev Py (α : Type) : Type := Code Exc Op Val α

/-- Perform one operation. -/
abbrev perform (o : Op) : Py (Val o) := Code.call o

/-- What `self.thread` is doing. -/
inductive Worker
  | created
  | running
  | ended
  deriving DecidableEq, Repr

/-- The attributes of a `RedisLock` that change.  `created` counts the connections
it has made. -/
structure Attributes where
  connection : Option Connection
  pubsub : Option Connection := none
  thread : Option Worker := none
  mode : RedisLockMode
  writerElected : Bool := false
  created : Nat := 0

/-- What an operation does that only concerns the attributes; joining a thread that
has not been started raises.  `none` for the commands. -/
def Attributes.act (a : Attributes) : (o : Op) → Option (Except Exc (Val o) × Attributes)
  | .connection => some (.ok a.connection, a)
  | .setConnection value => some (.ok (), { a with connection := value })
  | .newConnection => some (.ok a.created, { a with created := a.created + 1 })
  | .pubsub => some (.ok a.pubsub, a)
  | .setPubsub value => some (.ok (), { a with pubsub := value })
  | .thread => some (.ok a.thread.isSome, a)
  | .setThread value => some (.ok (), { a with thread := if value then some .created else none })
  | .setMode mode => some (.ok (), { a with mode := mode })
  | .writerElected => some (.ok a.writerElected, a)
  | .setWriterElected value => some (.ok (), { a with writerElected := value })
  | .startThread => some (.ok (), { a with thread := some .running })
  | .stopThread =>
      if a.thread = some .created then some (.error .runtimeError, a)
      else some (.ok (), { a with thread := some .ended })
  | _ => none

/-- The attributes a constructor leaves; `0` is a connection given to it. -/
def RedisLock.attributes (self : RedisLock) : Attributes where
  connection := if self.closeConnection then none else some 0
  mode := self.initialMode
  created := 1

namespace RedisLock

variable (self : RedisLock)

/-! ## The retry loop -/

section Loop

variable {σ α : Type}

/-- The rounds of the loop: each sleeps and then runs the body, which ends the
loop with a value or goes on with a new state. -/
def timeoutGenerator.again (interval : Rat) (body : σ → Py (α ⊕ σ)) : Nat → σ → Py (α ⊕ σ)
  | 0, s => return .inr s
  | remaining + 1, s => do
      perform (.sleep interval)
      match ← body s with
      | .inl a => return .inl a
      | .inr s => again interval body remaining s

/-- `for _ in self._timeout_generator(timeout, check_interval)`: at least one
round. -/
def timeoutGenerator (timeout checkInterval : Rat) (body : σ → Py (α ⊕ σ)) (s : σ) :
    Py (α ⊕ σ) := do
  let more ← perform (.attempts timeout)
  timeoutGenerator.again (if 0 < checkInterval then checkInterval else self.threadSleepTime) body
    (more + 1) s

end Loop

/-! ## `release` -/

/-- `if self.thread`. -/
def releaseThread : Py Unit := do
  if ← perform .thread then do
    perform .stopThread
    perform (.setThread false)
    perform (.sleep (1 / 100))
  else return ()

/-- `if self.pubsub`. -/
def releasePubsub : Py Unit := do
  if (← perform .pubsub).isSome then do
    perform .unsubscribe
    perform .closePubsub
    perform (.setPubsub none)
  else return ()

/-- `if self.close_connection and self.connection is not None`. -/
def releaseConnection : Py Unit := do
  if self.closeConnection then do
    if (← perform .connection).isSome then do
      perform .closeConnection
      perform (.setConnection none)
    else return ()
  else return ()

/-- `release`. -/
def release : Py Unit := do
  perform (.setWriterElected false)
  releaseThread
  releasePubsub
  self.releaseConnection

/-! ## `acquire` -/

/-- `get_connection`. -/
def getConnection : Py Connection := do
  match ← perform .connection with
  | some connection => return connection
  | none => do
      let connection ← perform .newConnection
      perform (.setConnection (some connection))
      return connection

/-- `_start_subscription`. -/
def startSubscription (connection : Connection) : Py Unit := do
  perform (.setPubsub (some connection))
  tryCatch (do
    perform (.setName self.clientName)
    perform .parseResponse
    perform .subscribe
    perform (.setThread true)
    perform .startThread
    perform (.sleep (1 / 100))) fun e =>
      if e.isException then do
        self.release
        throw e
      else throw e

/-- One round of the wait for the confirmation of the probe's subscription. -/
def awaitConfirmation (_ : Unit) : Py (Unit ⊕ Unit) := do
  match ← perform .getMessage with
  | some .subscribed => return .inl ()
  | _ => return .inr ()

/-- One round of the collection: the records so far, and how many of the replies
had no identity. -/
def collectReply (expectedSubscribers : Nat) (state : List RedisLockHolder × Nat) :
    Py (List RedisLockHolder ⊕ List RedisLockHolder × Nat) := do
  match ← perform .getMessage with
  | some (.reply data) =>
      let holder := parseLockResponse data state.2
      let holders := upsert holder state.1
      if expectedSubscribers ≤ holders.length then return .inl holders
      else return .inr (holders, state.2 + if holder.legacy then 1 else 0)
  | _ => return .inr state

/-- The loop of `_kill_unavailable_locks`. -/
def killClients (respondingHolders : List RedisLockHolder) : List Client → Py Unit
  | [] => return ()
  | client :: rest => do
      if self.unavailable respondingHolders client.name then do
        perform (.clientKill client.id)
        killClients respondingHolders rest
      else killClients respondingHolders rest

/-- `_kill_unavailable_locks`. -/
def killUnavailableLocks (respondingHolders : List RedisLockHolder) : Py Unit := do
  let clients ← perform .clientList
  self.killClients respondingHolders clients

/-- The end of a probe: the count again, and what the replies are worth. -/
def concludeProbe (expectedSubscribers : Nat) (holders : List RedisLockHolder) :
    Py (Option (List RedisLockHolder)) := do
  let currentSubscribers ← perform (.subscriberCount true)
  if currentSubscribers ≠ expectedSubscribers then return none
  else if holders.length < expectedSubscribers then do
    self.killUnavailableLocks holders
    return none
  else do
    perform (.concluded holders)
    return some holders

/-- The body of `_collect_lock_holders`. -/
def probe (expectedSubscribers : Nat) (timeout : Rat) : Py (Option (List RedisLockHolder)) := do
  let checkInterval := min self.threadSleepTime (timeout / 10)
  perform .subscribeResponse
  let _ ← self.timeoutGenerator timeout checkInterval awaitConfirmation ()
  perform .publish
  let collected ← self.timeoutGenerator timeout checkInterval (collectReply expectedSubscribers)
    ([], 0)
  self.concludeProbe expectedSubscribers (collected.elim id Prod.fst)

/-- `_collect_lock_holders`. -/
def collectLockHolders (expectedSubscribers : Nat) (timeout : Rat) :
    Py (Option (List RedisLockHolder)) := do
  let (holders, _) ← Code.withFinally (self.probe expectedSubscribers timeout)
    (perform .closeProbe)
  return holders

/-- Give the attempt up. -/
def backOff (failWhenLocked : Bool) : Py Bool := do
  self.release
  if failWhenLocked then throw .alreadyLocked else return false

/-- The branch of an elected writer in `_resolve_lock_holders`. -/
def takeElected (holders : List RedisLockHolder) (failWhenLocked : Bool) : Py Bool := do
  perform (.setWriterElected true)
  if failWhenLocked then do
    self.release
    throw .alreadyLocked
  else if anyShared holders then return false
  else do
    perform (.won (some holders))
    perform (.setMode .exclusive)
    return true

/-- `_resolve_lock_holders`. -/
def resolveLockHolders (holders : Option (List RedisLockHolder)) (failWhenLocked : Bool) :
    Py Bool := do
  match holders with
  | some holders =>
      if self.holdersAreCompatible holders then do
        perform (.won (some holders))
        return true
      else if self.flags = EXCLUSIVE && self.writerIsElected holders then
        self.takeElected holders failWhenLocked
      else self.backOff failWhenLocked
  | none => do
      if ← perform .writerElected then return false else self.backOff failWhenLocked

/-- `if self.pubsub is None`. -/
def ensureSubscription (connection : Connection) : Py Unit := do
  match ← perform .pubsub with
  | some _ => return ()
  | none => self.startSubscription connection

/-- Being the only subscriber. -/
def takeAlone : Py Bool := do
  perform (.won none)
  if self.flags = EXCLUSIVE then do
    perform (.setMode .exclusive)
    return true
  else return true

/-- What the number of subscribers leads to. -/
def takeOrProbe (failWhenLocked : Bool) (subscribers : Nat) : Py Bool :=
  if subscribers = 1 then self.takeAlone else do
    let holders ← self.collectLockHolders subscribers self.unavailableTimeout
    self.resolveLockHolders holders failWhenLocked

/-- One round of `acquire`. -/
def attempt (connection : Connection) (failWhenLocked : Bool) (_ : Unit) : Py (Unit ⊕ Unit) := do
  self.ensureSubscription connection
  let subscribers ← perform (.subscriberCount false)
  let held ← self.takeOrProbe failWhenLocked subscribers
  return if held then .inl () else .inr ()

/-- A writer starts every acquisition as a waiting one. -/
def resetWriter : Py Unit := do
  if self.flags = EXCLUSIVE then do
    perform (.setMode .pending)
    perform (.setWriterElected false)
  else return ()

/-- `acquire`; an argument that is not given is taken from the instance. -/
def acquire (timeout checkInterval : Option Rat) (failWhenLocked : Option Bool) : Py Unit := do
  if (← perform .pubsub).isSome then throw .assertionError
  else do
    self.resetWriter
    let connection ← getConnection
    match ← self.timeoutGenerator (timeout.getD self.timeout)
        (checkInterval.getD self.checkInterval)
        (self.attempt connection (failWhenLocked.getD self.failWhenLocked)) () with
    | .inl _ => return ()
    | .inr _ => do
        self.release
        throw .alreadyLocked

/-! ## Calls -/

/-- The calls a client makes. -/
inductive Call
  | acquire (timeout checkInterval : Option Rat) (failWhenLocked : Option Bool)
  | release
  deriving DecidableEq

/-- A call from outside; how it ends is recorded. -/
def observed (body : Py Unit) : Py Unit := do
  match ← Code.attempt body with
  | .ok _ => perform (.ended none)
  | .error e => perform (.ended (some e))

/-- What a call does; `__del__` and the `atexit` handler call `release`. -/
def call : Call → Py Unit
  | .acquire timeout checkInterval failWhenLocked =>
      observed (self.acquire timeout checkInterval failWhenLocked)
  | .release => observed self.release

end RedisLock

end Portalocker.Redis
