import Portalocker.Redis.Lifecycle
set_option autoImplicit false
set_option linter.unusedSectionVars false

/-!
# What the calls of a lock leave behind

The results about one `RedisLock` over all runs of its calls and all answers to its
commands: when a failed acquisition leaves the lock inactive, when a subscription
has the connection its worker needs, and the states the lock goes through.
-/

namespace Portalocker.Redis

open Interleaving Interleaving.Machine

variable {cfg : SessionConfig} {g : Guard cfg.machine}

/-! ## Scripts -/

namespace SessionConfig

variable (cfg)

/-- The next operations, which answer nothing in particular. -/
def rounds (n : Nat) : List cfg.machine.Label := List.replicate n (.op () {})

/-- The state before any call. -/
def idle : cfg.machine.State := ⟨cfg.start, fun _ => none⟩

end SessionConfig

theorem idle_constructed (g : Guard cfg.machine) : Reach (Constructed cfg) g cfg.idle :=
  Reach.start (show Constructed cfg cfg.start from rfl)

/-! ## Failed acquisitions -/

/-- The lock has no subscription, and nothing is left of one. -/
def Inactive (w : Session) : Prop :=
  w.attributes.pubsub = none ∧ w.attributes.thread = none ∧ w.subscribed = false

theorem Consistent.inactive_iff {w : Session} (hw : Consistent cfg w) :
    Inactive w ↔ w.attributes.pubsub = none :=
  ⟨fun h => h.1, fun h => ⟨h, hw.inactive h⟩⟩

/-- When a command of an acquisition raises, its exception ends the acquisition, and
the lock is inactive afterwards exactly when it was a command that starts the
subscription and the exception is one `except Exception` catches. -/
theorem failed_acquire_inactive {s : cfg.machine.State}
    (hs : Reach (Constructed cfg) (Guard.free cfg.machine) s) (hidle : s.thread () = none)
    {ending : Ending} (hlast : (session s).last = some ending) {o : Op} {e : Exc}
    (hraised : ending.raised = some (o, e)) :
    ending.outcome = some e ∧ (Inactive (session s) ↔
      o.startsSubscription = true ∧ e.isException = true) := by
  have hhold := session_holds hs
  have hrest : Rest cfg (session s) := hhold.idle hidle
  obtain ⟨houtcome, hpubsub⟩ := (hrest.settled ending hlast).raised o e hraised
  exact ⟨houtcome, hhold.1.inactive_iff.trans hpubsub⟩

/-- A lock with a connection of its caller, whose server may fail any command. -/
def failing : SessionConfig where
  lock := { channel := ['c'], holderId := ['a'], closeConnection := false }
  mayRaise _ e := e = .other 0

/-- The first `n` operations of an acquisition; the next one is a command that
raises. -/
def failing.acquires (n m : Nat) : List failing.machine.Label :=
  .call () (.acquire none none none) :: failing.rounds n ++
    [.op () { fault := some (.other 0) }] ++ failing.rounds m

/-- Subscribing fails: the lock is rolled back. -/
theorem failed_acquire_inactive_run :
    ∃ s, run (failing.acquires 10 7) failing.idle = some s ∧ s.thread () = none ∧
      ((session s).last.map (·.outcome)) = some (some (.other 0)) ∧ Inactive (session s) := by
  have hobserve : (run (failing.acquires 10 7) failing.idle).bind (fun s =>
      (session s).last.bind fun ending => ending.raised.map fun raised =>
        ((s.thread ()).isNone, raised.1.startsSubscription, raised.2)) =
      some (true, true, .other 0) := by rfl
  obtain ⟨s, hrun, hrest⟩ := Option.bind_eq_some_iff.1 hobserve
  obtain ⟨ending, hlast, hrest⟩ := Option.bind_eq_some_iff.1 hrest
  obtain ⟨⟨o, e⟩, hraised, hs⟩ := Option.map_eq_some_iff.1 hrest
  obtain ⟨hidle, hs⟩ := Prod.mk.inj hs
  obtain ⟨hstart, rfl⟩ := Prod.mk.inj hs
  have hthread : s.thread () = none := Option.isNone_iff_eq_none.1 hidle
  obtain ⟨houtcome, hinactive⟩ := failed_acquire_inactive
    ((idle_constructed _).run hrun) hthread hlast hraised
  refine ⟨s, hrun, hthread, ?_, hinactive.2 ⟨hstart, rfl⟩⟩
  rw [hlast, Option.map_some, houtcome]

/-- Counting the subscribers fails: the lock stays subscribed, and the next
acquisition fails its assertion. -/
theorem failed_count_stays_subscribed :
    ∃ s s', run (failing.acquires 14 1) failing.idle = some s ∧ s.thread () = none ∧
      ((session s).last.map (·.outcome)) = some (some (.other 0)) ∧ ¬ Inactive (session s) ∧
      run (.call () (RedisLock.Call.acquire none none none) :: failing.rounds 2) s = some s' ∧
      s'.thread () = none ∧
      ((session s').last.map (·.outcome)) = some (some .assertionError) := by
  have hobserve : (run (failing.acquires 14 1) failing.idle).bind (fun s =>
      (run (.call () (RedisLock.Call.acquire none none none) :: failing.rounds 2) s).map fun s' =>
        ((s.thread ()).isNone, (session s).last.map (·.outcome), (session s).subscribed,
          (s'.thread ()).isNone, (session s').last.map (·.outcome))) =
      some (true, some (some (.other 0)), true, true, some (some .assertionError)) := by rfl
  obtain ⟨s, hfirst, hrest⟩ := Option.bind_eq_some_iff.1 hobserve
  obtain ⟨s', hsecond, hs⟩ := Option.map_eq_some_iff.1 hrest
  obtain ⟨hidle, hs⟩ := Prod.mk.inj hs
  obtain ⟨houtcome, hs⟩ := Prod.mk.inj hs
  obtain ⟨hsubscribed, hs⟩ := Prod.mk.inj hs
  obtain ⟨hidle', houtcome'⟩ := Prod.mk.inj hs
  refine ⟨s, s', hfirst, Option.isNone_iff_eq_none.1 hidle, houtcome, fun hinactive => ?_, hsecond,
    Option.isNone_iff_eq_none.1 hidle', houtcome'⟩
  rw [hinactive.2.2] at hsubscribed
  cases hsubscribed

/-! ## The connection of a subscription -/

/-- Runs in which every subscription is started on a connection the caller supplied,
or in an acquisition that has not backed off yet. -/
def firstSubscriptions (cfg : SessionConfig) : Guard cfg.machine where
  call _ _ _ := True
  op _ _ o w := match o with
    | .setPubsub (some _) => cfg.lock.closeConnection = false ∨ Session.backOffs w = 0
    | _ => True

/-- The subscription was made on the connection the lock stores. -/
def Connected (w : Session) : Prop :=
  ∀ connection, w.attributes.pubsub = some connection → w.attributes.connection = some connection

theorem Connected.change {c : RedisLock.Call} {w w' : Session} {o : Op} (h : Connected w)
    (hpre : Allowed cfg c w o) (hg : (firstSubscriptions cfg).op () c o w)
    (hc : w.Change o w') : Connected w' := by
  cases hc with
  | noted o hsame =>
      intro connection hpubsub
      rw [hsame.connection]
      exact h connection (hsame.pubsub ▸ hpubsub)
  | concluded | setThread | startThread | stopThread | setMode | setWriterElected | subscribe
    | unsubscribe | won => exact h
  | setConnection value =>
      intro connection hpubsub
      cases hpre.symm.trans hpubsub
  | setPubsub value =>
      intro connection hpubsub
      obtain rfl : value = some connection := hpubsub
      exact hpre hg

/-- Whenever such a lock is subscribed, it stores a connection, the one its
subscription was made on. -/
theorem subscription_connected {s : cfg.machine.State}
    (hs : Reach (Constructed cfg) (firstSubscriptions cfg) s)
    (hsubscribed : (session s).subscribed = true) :
    ∃ connection, (session s).attributes.connection = some connection ∧
      (session s).attributes.pubsub = some connection := by
  have hconnected : Connected (session s) := by
    refine (session_verified cfg (firstSubscriptions cfg)).keeps (J := Connected) ?_ ?_
      (fun {e} => e.elim) hs
    · rintro w rfl
      exact ⟨⟨start_consistent cfg, fun _ => start_rest cfg⟩, fun _ h => by cases h⟩
    · rintro ⟨⟩ c o answer w r w' - h hpre hg hperform
      rcases SessionConfig.performOp_cases hperform with
        hact | ⟨e, -, -, -, rfl | ⟨r', w'', hact, rfl⟩⟩
      · exact h.change hpre hg (Session.act_change hact)
      · exact h
      · have h' : Connected w'' := h.change hpre hg (Session.act_change hact)
        exact h'
  have hw : Consistent cfg (session s) := (session_holds hs).1
  cases hpubsub : (session s).attributes.pubsub with
  | none =>
      rw [(hw.inactive hpubsub).2] at hsubscribed
      cases hsubscribed
  | some connection => exact ⟨connection, hconnected connection hpubsub, rfl⟩

/-- A lock that makes its own connections. -/
def connecting : SessionConfig where
  lock := { channel := ['c'], holderId := ['a'] }
  mayRaise _ _ := false

/-- As far as its first subscription. -/
def connecting.subscribes : List connecting.machine.Label :=
  .call () (.acquire none none none) :: connecting.rounds 6 ++ [.op () { count := 1 }] ++
    connecting.rounds 9

/-- Then a probe during which somebody else joins: the lock backs off, and subscribes
again in its second round. -/
def connecting.retries : List connecting.machine.Label :=
  [.op () { count := 2 }] ++ connecting.rounds 8 ++ [.op () { count := 3 }] ++
    connecting.rounds 22

/-- The guard is one on the operation that is about to be performed. -/
def startsFirst (_ : Unit) (o : Op) (w : Session) : Bool :=
  match o with
  | .setPubsub (some _) => w.backOffs = 0
  | _ => true

/-- The first subscription has the connection of the lock. -/
theorem subscription_connected_run :
    ∃ s, runChecked startsFirst connecting.subscribes connecting.idle = some s ∧
      (session s).subscribed = true ∧ ∃ connection,
        (session s).attributes.connection = some connection ∧
          (session s).attributes.pubsub = some connection := by
  have hobserve : (runChecked startsFirst connecting.subscribes connecting.idle).map (fun s =>
      (session s).subscribed) = some true := by rfl
  obtain ⟨s, hrun, hsubscribed⟩ := Option.map_eq_some_iff.1 hobserve
  have hop : ∀ p c o w, startsFirst p o w = true →
      (firstSubscriptions connecting).op p c o w := by
    intro p c o w hcheck
    cases o with
    | setPubsub value =>
        cases value with
        | none => trivial
        | some connection => exact Or.inr (of_decide_eq_true hcheck)
    | _ => trivial
  exact ⟨s, hrun, hsubscribed, subscription_connected
    ((idle_constructed (firstSubscriptions connecting)).checked (fun _ _ _ => trivial) hop hrun)
    hsubscribed⟩

/-- In its second round the lock is subscribed and stores no connection. -/
theorem retry_disconnected :
    ∃ s, run (connecting.subscribes ++ connecting.retries) connecting.idle = some s ∧
      (session s).subscribed = true ∧ (session s).attributes.thread = some .running ∧
      (session s).attributes.connection = none := by
  have hobserve : (run (connecting.subscribes ++ connecting.retries) connecting.idle).map (fun s =>
      ((session s).subscribed, (session s).attributes.thread,
        (session s).attributes.connection)) = some (true, some .running, none) := by rfl
  obtain ⟨s, hrun, hs⟩ := Option.map_eq_some_iff.1 hobserve
  obtain ⟨hsubscribed, hs⟩ := Prod.mk.inj hs
  obtain ⟨hthread, hconnection⟩ := Prod.mk.inj hs
  exact ⟨s, hrun, hsubscribed, hthread, hconnection⟩

/-! ## The states of a lock -/

/-- Runs in which every list a probe returns has the current record of the lock
itself. -/
def truthful (cfg : SessionConfig) : Guard cfg.machine where
  call _ _ _ := True
  op _ _ o w := match o with
    | .concluded holders =>
        ⟨cfg.lock.holderId, (Session.attributes w).mode, false⟩ ∈ holders
    | _ => True

/-- The list that was observed last shows an owner, or a waiting writer that sorts
before this one. -/
def Outranked (cfg : SessionConfig) (w : Session) : Prop :=
  ∃ holders, w.observation = .listed holders ∧ ∃ holder ∈ holders, holder.mode = .exclusive ∨
    (holder.mode = .pending ∧ holder.holderId < cfg.lock.holderId)

/-- The call gives up instead of retrying. -/
def RedisLock.Call.FailsWhenLocked (cfg : SessionConfig) : RedisLock.Call → Prop
  | .acquire _ _ failWhenLocked => failWhenLocked.getD cfg.lock.failWhenLocked = true
  | .release => False

/-- A list a writer acts on has its record, as a waiting one. -/
def OwnRecord (cfg : SessionConfig) (w : Session) : Prop :=
  ∀ holders, w.observation = .listed holders → cfg.lock.flags = EXCLUSIVE →
    ⟨cfg.lock.holderId, .pending, false⟩ ∈ holders

theorem OwnRecord.change {c : RedisLock.Call} {w w' : Session} {o : Op} (hw : Consistent cfg w)
    (h : OwnRecord cfg w) (hpre : Allowed cfg c w o) (hg : (truthful cfg).op () c o w)
    (hc : w.Change o w') : OwnRecord cfg w' := by
  cases hc with
  | noted o hsame =>
      intro holders hlisted
      rcases hsame.observation with heq | hnot
      · exact h holders (heq ▸ hlisted)
      · exact absurd hlisted (hnot holders)
  | setConnection | setPubsub | setThread | startThread | stopThread | setMode
    | setWriterElected | subscribe | unsubscribe | won => exact h
  | concluded holders =>
      intro holders' hlisted hflags
      obtain rfl := Observation.listed.inj hlisted
      have hmode : w.attributes.mode = .pending := by
        cases hm : w.attributes.mode with
        | shared =>
            have hreader := hw.kind.1 hm
            rw [hflags] at hreader
            exact absurd hreader (by decide)
        | pending => rfl
        | exclusive => exact absurd hm hpre
      have hmem : ⟨cfg.lock.holderId, w.attributes.mode, false⟩ ∈ holders := hg
      exact hmode ▸ hmem

/-- A writer that is not elected by a list with its own record is outranked. -/
theorem outranked_of_not_elected {w : Session} (h : OwnRecord cfg w)
    (hflags : cfg.lock.flags = EXCLUSIVE) {holders : List RedisLockHolder}
    (hlisted : w.observation = .listed holders)
    (hnot : cfg.lock.writerIsElected holders = false) : Outranked cfg w := by
  refine ⟨holders, hlisted, ?_⟩
  rcases RedisLock.not_elected_spec (h holders hlisted hflags) hnot with
    ⟨holder, hmem, hexclusive⟩ | ⟨holder, hmem, hpending, hlt⟩
  · exact ⟨holder, hmem, Or.inl hexclusive⟩
  · exact ⟨holder, hmem, Or.inr ⟨hpending, hlt⟩⟩

/-- Without a command that raises, a step is a call, or an operation that takes
effect. -/
theorem reliable_step (hreliable : cfg.Reliable) {s s' : cfg.machine.State}
    {l : cfg.machine.Label} (hn : next s l = some s') :
    session s' = session s ∨ ∃ c o k, s.thread () = some (c, .op o k) ∧
      (session s).Change o (session s') := by
  cases l with
  | call p c =>
      obtain ⟨-, rfl⟩ := next_call hn
      exact Or.inl rfl
  | op p answer =>
      obtain ⟨c, o, k, r, hthread, hperform, -⟩ := next_op hn
      refine Or.inr ⟨c, o, k, hthread, ?_⟩
      rcases SessionConfig.performOp_cases hperform with hact | ⟨e, -, hmay, -⟩
      · exact Session.act_change hact
      · cases (hreliable o e).symm.trans hmay
  | event e => exact e.elim

/-- The lock becomes an owner by a decision that rests on being counted alone or on
the list of a probe. -/
theorem Session.Change.wins {c : RedisLock.Call} {w w' : Session} {o : Op} (hc : w.Change o w')
    (hpre : Allowed cfg c w o) (hbefore : w.owns = false) (hafter : w'.owns = true) :
    w.observation = .counted 1 ∨ ∃ holders, w.observation = .listed holders := by
  cases hc with
  | won view =>
      cases view with
      | none => exact Or.inl hpre.2
      | some holders => exact Or.inr ⟨holders, hpre.2⟩
  | unsubscribe => cases hafter
  | noted o hsame =>
      rw [hsame.owns, hbefore] at hafter
      cases hafter
  | concluded | setConnection | setPubsub | setThread | startThread | stopThread | setMode
    | setWriterElected | subscribe =>
      rw [hbefore] at hafter
      cases hafter

/-- A subscription ends by unsubscribing only. -/
theorem Session.Change.leaves {w w' : Session} {o : Op} (hc : w.Change o w')
    (hbefore : w.subscribed = true) (hafter : w'.subscribed = false) : o = .unsubscribe := by
  cases hc with
  | unsubscribe => rfl
  | subscribe => cases hafter
  | noted o hsame =>
      rw [hsame.subscribed, hbefore] at hafter
      cases hafter
  | concluded | setConnection | setPubsub | setThread | startThread | stopThread | setMode
    | setWriterElected | won =>
      rw [hbefore] at hafter
      cases hafter

/-- What a lock promises in every state of its life. -/
structure Lawful (cfg : SessionConfig) (s : cfg.machine.State) : Prop where
  /-- after `acquire` has returned the lock is subscribed -/
  returned : ∀ ending, s.thread () = none → (session s).last = some ending →
    ending.call ≠ .release → ending.outcome = none → (session s).subscribed = true
  /-- after `AlreadyLocked` or `release` it is not -/
  left : ∀ ending, s.thread () = none → (session s).last = some ending →
    ending.outcome = some .alreadyLocked ∨ ending.call = .release →
    (session s).subscribed = false
  /-- an inconclusive probe does not lead to ownership -/
  wins : ∀ l s', next s l = some s' → (session s).owns = false → (session s').owns = true →
    (session s).observation = .counted 1 ∨
      ∃ holders, (session s).observation = .listed holders
  /-- a subscribed writer is EXCLUSIVE only between the decision and the release -/
  exclusive : (session s).subscribed = true → (session s).attributes.mode = .exclusive →
    (session s).owns = true
  /-- a reader is always SHARED -/
  shared : cfg.lock.flags = SHARED → (session s).attributes.mode = .shared
  /-- an elected writer is subscribed -/
  elected : (session s).attributes.writerElected = true →
    (session s).elected = true ∧ (session s).subscribed = true
  /-- and gives its subscription up for one of these reasons -/
  keeps : ∀ l s', next s l = some s' → (session s).elected = true → (session s).owns = false →
    (session s').subscribed = false → ∃ c k, s.thread () = some (c, .op .unsubscribe k) ∧
      (c.FailsWhenLocked cfg ∨ (session s).allowed = some (session s).tries ∨
        Outranked cfg (session s))
  /-- with `fail_when_locked`, a lock that is not active makes exactly one attempt -/
  once : ∀ ending, s.thread () = none → (session s).last = some ending →
    ending.call.FailsWhenLocked cfg →
    ending.outcome = some .assertionError ∨ ending.tries = 1

/-- Every sequence of calls of a lock, with all counts, probes and deadlines and
without a command that raises, goes through such states only. -/
theorem lock_lawful (hreliable : cfg.Reliable) {s : cfg.machine.State}
    (hs : Reach (Constructed cfg) (truthful cfg) s) : Lawful cfg s := by
  have hhold := session_holds hs
  have hw : Consistent cfg (session s) := hhold.1
  have hunraised : ∀ ending, s.thread () = none → (session s).last = some ending →
      Settled cfg ending (session s) ∧ ending.raised = none := by
    intro ending hidle hlast
    have hsettled := (hhold.idle hidle).settled ending hlast
    exact ⟨hsettled, hsettled.reliable hreliable⟩
  have hown : OwnRecord cfg (session s) := by
    refine (session_verified cfg (truthful cfg)).keeps (J := OwnRecord cfg) ?_ ?_
      (fun {e} => e.elim) hs
    · rintro w rfl
      exact ⟨⟨start_consistent cfg, fun _ => start_rest cfg⟩, fun _ h => by cases h⟩
    · rintro ⟨⟩ c o answer w r w' hw h hpre hg hperform
      rcases SessionConfig.performOp_cases hperform with hact | ⟨e, -, hmay, -⟩
      · exact h.change hw hpre hg (Session.act_change hact)
      · cases (hreliable o e).symm.trans hmay
  have hstep : ∀ l s', next s l = some s' → session s' = session s ∨
      ∃ c o k, s.thread () = some (c, .op o k) ∧ Allowed cfg c (session s) o ∧
        (session s).Change o (session s') := by
    intro l s' hn
    refine (reliable_step hreliable hn).imp_right fun ⟨c, o, k, hthread, hc⟩ => ?_
    exact ⟨c, o, k, hthread, hhold.permitted hthread, hc⟩
  constructor
  · intro ending hidle hlast hcall houtcome
    exact (hunraised ending hidle hlast).1.returned hcall houtcome
  · rintro ending hidle hlast (hrefused | hreleased)
    · obtain ⟨hsettled, hnone⟩ := hunraised ending hidle hlast
      exact (hw.inactive (hsettled.refused hrefused hnone)).2
    · exact (hw.inactive ((hunraised ending hidle hlast).1.released hreleased).2).2
  · intro l s' hn hbefore hafter
    rcases hstep l s' hn with heq | ⟨c, o, k, -, hpre, hc⟩
    · rw [heq, hbefore] at hafter
      cases hafter
    · exact hc.wins hpre hbefore hafter
  · exact hw.exclusive
  · exact hw.kind.2
  · exact fun h => ⟨hw.writerElected h, (hw.elected (hw.writerElected h)).1⟩
  · intro l s' hn helected howns hafter
    have hsubscribed := (hw.elected helected).1
    rcases hstep l s' hn with heq | ⟨c, o, k, hthread, hpre, hc⟩
    · rw [heq, hsubscribed] at hafter
      cases hafter
    · obtain rfl := hc.leaves hsubscribed hafter
      refine ⟨c, k, hthread, ?_⟩
      cases c with
      | release =>
          rw [hpre.2.2 hreliable hsubscribed] at howns
          cases howns
      | acquire timeout checkInterval failWhenLocked =>
          refine (hpre.2.2 helected).imp id (Or.imp id ?_)
          rintro ⟨holders, hlisted, hnot⟩
          exact outranked_of_not_elected hown (hw.elected helected).2 hlisted hnot
  · intro ending hidle hlast hfails
    obtain ⟨hsettled, hnone⟩ := hunraised ending hidle hlast
    cases hcall : ending.call with
    | release =>
        rw [hcall] at hfails
        exact hfails.elim
    | acquire timeout checkInterval failWhenLocked =>
        rw [hcall] at hfails
        exact hsettled.once _ _ _ hcall hfails hnone

/-- A writer with a connection of its caller, whose server fails nothing. -/
def writing : SessionConfig where
  lock := { channel := ['c'], holderId := ['a'], closeConnection := false }
  mayRaise _ _ := false

/-- Every list has the record of the lock. -/
def showsItself (_ : Unit) (o : Op) (w : Session) : Bool :=
  match o with
  | .concluded holders => ⟨['a'], w.attributes.mode, false⟩ ∈ holders
  | _ => true

theorem truthful_of_showsItself {c : RedisLock.Call} {o : Op} {w : Session}
    (h : showsItself () o w = true) : (truthful writing).op () c o w := by
  cases o with
  | concluded holders =>
      have hmem : ⟨['a'], w.attributes.mode, false⟩ ∈ holders := of_decide_eq_true h
      exact hmem
  | _ => trivial

theorem writing_reach {ls : List writing.machine.Label} {s : writing.machine.State}
    (h : runChecked showsItself ls writing.idle = some s) :
    Reach (Constructed writing) (truthful writing) s :=
  (idle_constructed (truthful writing)).checked (fun _ _ _ => trivial)
    (fun _ _ _ _ hcheck => truthful_of_showsItself hcheck) h

/-- The writer has two rounds and finds another waiting writer, whose id sorts after its own:
it is elected, and takes the lock. -/
def writing.electsItself : List writing.machine.Label :=
  .call () (.acquire none none (some false)) :: writing.rounds 4 ++ [.op () { count := 1 }] ++
    writing.rounds 9 ++ [.op () { count := 2 }] ++ writing.rounds 5 ++
    [.op () { count := 1 }, .op () {},
      .op () { message := some (.reply (some (reply ['a'] .pending))) }, .op () {},
      .op () { message := some (.reply (some (reply ['b'] .pending))) },
      .op () { count := 2 }] ++ writing.rounds 6

/-- An acquisition by a probe that elects the writer. -/
theorem lock_lawful_run :
    ∃ s, runChecked showsItself writing.electsItself writing.idle = some s ∧
      s.thread () = none ∧ (session s).owns = true ∧ (session s).elected = true ∧
      (session s).subscribed = true ∧ Lawful writing s := by
  have hobserve : (runChecked showsItself writing.electsItself writing.idle).map (fun s =>
      ((s.thread ()).isNone, (session s).owns, (session s).attributes.writerElected)) =
      some (true, true, true) := by rfl
  obtain ⟨s, hrun, hs⟩ := Option.map_eq_some_iff.1 hobserve
  obtain ⟨hidle, hs⟩ := Prod.mk.inj hs
  obtain ⟨howns, hwriter⟩ := Prod.mk.inj hs
  have hlawful := lock_lawful (fun _ _ => rfl) (writing_reach hrun)
  obtain ⟨helected, hsubscribed⟩ := hlawful.elected hwriter
  exact ⟨s, hrun, Option.isNone_iff_eq_none.1 hidle, howns, helected, hsubscribed, hlawful⟩

/-- The writer is alone on its channel. -/
def writing.acquires : List writing.machine.Label :=
  .call () (.acquire none none (some true)) :: writing.rounds 14 ++ [.op () { count := 1 }] ++
    writing.rounds 3

/-- It has two rounds and finds another waiting writer, whose id sorts after its own:
it is elected, and gives up since it is not to wait. -/
def writing.elected : List writing.machine.Label :=
  .call () (.acquire none none (some true)) :: writing.rounds 4 ++ [.op () { count := 1 }] ++
    writing.rounds 9 ++ [.op () { count := 2 }] ++ writing.rounds 5 ++
    [.op () { count := 1 }, .op () {},
      .op () { message := some (.reply (some (reply ['a'] .pending))) }, .op () {},
      .op () { message := some (.reply (some (reply ['b'] .pending))) },
      .op () { count := 2 }] ++ writing.rounds 9

/-- The list a lock has observed last. -/
def Observation.list : Observation → Option (List RedisLockHolder)
  | .listed holders => some holders
  | _ => none

/-- An elected writer that is not to wait gives its subscription up, although its
deadline has not passed and nobody outranks it; and an acquisition of an active lock
makes no attempt. -/
theorem impatient_writer_leaves :
    (∃ s s' answer, Reach (Constructed writing) (truthful writing) s ∧
      next s (.op () answer) = some s' ∧ (session s).elected = true ∧
      (session s).owns = false ∧ (session s).subscribed = true ∧
      (session s').subscribed = false ∧ (session s).allowed ≠ some (session s).tries ∧
      ¬ Outranked writing (session s)) ∧
    ∃ s ending, Reach (Constructed writing) (truthful writing) s ∧ s.thread () = none ∧
      (session s).last = some ending ∧ ending.call.FailsWhenLocked writing ∧
      ending.tries = 0 := by
  constructor
  · have hobserve : (runChecked showsItself writing.elected writing.idle).bind (fun s =>
        (next s (.op () {})).map fun s' => ((session s).elected, (session s).owns,
          (session s).subscribed, (session s').subscribed, (session s).allowed,
          (session s).tries, (session s).observation.list)) =
        some (true, false, true, false, some 2, 1,
          some [⟨['a'], .pending, false⟩, ⟨['b'], .pending, false⟩]) := by rfl
    obtain ⟨s, hrun, hrest⟩ := Option.bind_eq_some_iff.1 hobserve
    obtain ⟨s', hnext, hs⟩ := Option.map_eq_some_iff.1 hrest
    obtain ⟨helected, hs⟩ := Prod.mk.inj hs
    obtain ⟨howns, hs⟩ := Prod.mk.inj hs
    obtain ⟨hbefore, hs⟩ := Prod.mk.inj hs
    obtain ⟨hafter, hs⟩ := Prod.mk.inj hs
    obtain ⟨hallowed, hs⟩ := Prod.mk.inj hs
    obtain ⟨htries, hlist⟩ := Prod.mk.inj hs
    refine ⟨s, s', {}, writing_reach hrun, hnext, helected, howns, hbefore, hafter, ?_, ?_⟩
    · rw [hallowed, htries]
      decide
    · rintro ⟨holders, hlisted, hrival⟩
      rw [hlisted] at hlist
      obtain rfl := Option.some.inj hlist
      revert hrival
      decide
  · have hobserve : (runChecked showsItself (writing.acquires ++
        .call () (.acquire none none (some true)) :: writing.rounds 2) writing.idle).bind
        (fun s => (session s).last.map fun ending =>
          ((s.thread ()).isNone, ending.call, ending.tries)) =
        some (true, .acquire none none (some true), 0) := by rfl
    obtain ⟨s, hrun, hrest⟩ := Option.bind_eq_some_iff.1 hobserve
    obtain ⟨ending, hlast, hs⟩ := Option.map_eq_some_iff.1 hrest
    obtain ⟨hidle, hs⟩ := Prod.mk.inj hs
    obtain ⟨hcall, htries⟩ := Prod.mk.inj hs
    refine ⟨s, ending, writing_reach hrun, Option.isNone_iff_eq_none.1 hidle, hlast, ?_, htries⟩
    rw [hcall]
    rfl

end Portalocker.Redis
