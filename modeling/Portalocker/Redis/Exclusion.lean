import Portalocker.Redis.Probe
set_option autoImplicit false
set_option linter.unusedSectionVars false

/-!
# Exclusion between the locks of a channel

The results of the contract of `Redis/Protocol.lean` over whole runs in which no
live subscription is dropped: when a conclusive probe is complete, and that readers
and writers exclude each other when the probes they rest on are and nobody counts the
channel while its own SUBSCRIBE is still on its way.
-/

namespace Portalocker.Redis

open Interleaving Interleaving.Machine World

variable {ι : Type} [DecidableEq ι]

/-- The world nobody has changed yet. -/
def Untouched (cfg : Config ι) (w : World ι) : Prop := w = cfg.start

theorem start_sound (cfg : Config ι) : Sound cfg cfg.start where
  pubsub _ h := by cases h
  nodup := List.nodup_nil
  pinged _ := List.nodup_nil
  owner h := by cases h
  kind p := by
    simp only [Config.start, RedisLock.attributes, RedisLock.initialMode]
    split <;> simp_all
  stayed h := by cases h
  current h := by cases h
  had h := by cases h
  mail h := by cases h
  answering h := by cases h
  answered h := by cases h
  stranger h := by cases h
  preceded h := by cases h
  total h := by cases h
  counted h := by cases h
  requested h := by cases h

theorem start_quiet (cfg : Config ι) (p : ι) : Quiet p cfg.start := fun _ => rfl

section Runs

variable {cfg : Config ι} {g : Guard cfg.channelMachine}

/-- The contract holds in every orderly run. -/
theorem protocol_holds (horderly : ∀ p c o w, g.op p c o w → Orderly p w o)
    {s : cfg.channelMachine.State} (hs : Reach (Untouched cfg) g s) :
    (protocol cfg g horderly).Holds s := by
  refine (protocol_verified horderly).sound ?_ hs
  rintro w rfl
  exact ⟨start_sound cfg, start_quiet cfg⟩

/-- Runs in which no live subscription of a lock is dropped, and a SUBSCRIBE has been
carried out when its lock counts. -/
def undropped (cfg : Config ι) : Guard cfg.channelMachine :=
  ⟨fun _ _ _ => True, fun p _ o w => Orderly p w o⟩

/-! ## Scripts

The pieces the example runs are put together from. -/

namespace Config

variable (cfg)

/-- The next operations of lock `p`, undisturbed. -/
def rounds (p : ι) (n : Nat) : List cfg.channelMachine.Label := List.replicate n (.op p {})

/-- A lock starts to acquire, as far as its subscription. -/
def subscribes (p : ι) : List cfg.channelMachine.Label :=
  .call p (.acquire none none none) ::
    cfg.rounds p (if (cfg.lock p).flags = EXCLUSIVE then 14 else 12)

/-- The same, but its SUBSCRIBE is still on its way. -/
def subscribesLate (p : ι) : List cfg.channelMachine.Label :=
  .call p (.acquire none none none) ::
    (cfg.rounds p (if (cfg.lock p).flags = EXCLUSIVE then 10 else 8) ++
      .op p { inFlight := true } :: cfg.rounds p 3)

/-- A probe as far as its ping. -/
def pings (p : ι) : List cfg.channelMachine.Label :=
  cfg.rounds p 3 ++ [.event (.activate p), .op p { message := some none }] ++ cfg.rounds p 1

/-- The worker of `q` answers the ping of `p`. -/
def answers (q p : ι) : List cfg.channelMachine.Label :=
  [.event (.handle q p), .event (.answer q)]

/-- The probe of `p` reads these replies. -/
def collects (p : ι) (replies : List ι) : List cfg.channelMachine.Label :=
  .op p { count := replies.length - 1 } ::
    replies.flatMap fun q => [.op p {}, .op p { message := some (some (.lock q)) }]

/-- The state before any call. -/
def idle : cfg.channelMachine.State := ⟨cfg.start, fun _ => none⟩

/-- The list a probe is about to return. -/
def concluding : cfg.channelMachine.Thread → Option (List RedisLockHolder)
  | some (_, .op (.concluded holders) _) => some holders
  | _ => none

theorem concluding_eq_some {t : cfg.channelMachine.Thread} {holders : List RedisLockHolder}
    (h : cfg.concluding t = some holders) :
    ∃ c k, t = some (c, .op (.concluded holders) k) := by
  unfold concluding at h
  split at h
  · obtain rfl := Option.some.inj h
    exact ⟨_, _, rfl⟩
  · cases h

end Config

/-- No connection is killed at all, and nobody counts before it is subscribed. -/
def keepsOrder (p : ι) (o : Op) (w : World ι) : Bool :=
  match o with
  | .clientKill _ => false
  | .subscriberCount false => w.subscribers.any fun s => decide (s = .lock p)
  | _ => true

theorem orderly_of_keepsOrder {p : ι} {o : Op} {w : World ι} (h : keepsOrder p o w = true) :
    Orderly p w o := by
  cases o with
  | clientKill id => cases h
  | subscriberCount again =>
      cases again with
      | true => exact ⟨trivial, trivial⟩
      | false =>
          obtain ⟨s, hmem, hs⟩ := List.any_eq_true.1 h
          obtain rfl : s = .lock p := of_decide_eq_true hs
          exact ⟨trivial, hmem⟩
  | _ => exact ⟨trivial, trivial⟩

theorem idle_reach (g : Guard cfg.channelMachine) : Reach (Untouched cfg) g cfg.idle :=
  Reach.start (show Untouched cfg cfg.start from rfl)

/-- A run that passes this check drops no live subscription. -/
theorem undropped_reach {ls : List cfg.channelMachine.Label} {s : cfg.channelMachine.State}
    (h : runChecked keepsOrder ls cfg.idle = some s) : Reach (Untouched cfg) (undropped cfg) s :=
  (idle_reach (undropped cfg)).checked (fun _ _ _ => trivial)
    (fun _ _ _ _ hcheck => orderly_of_keepsOrder hcheck) h

/-! ## What a conclusive probe says -/

/-- A probe whose ping reached no more subscribers than its caller had counted
returns a list that has a record of the prober and of every other lock that was
subscribed from that count to the re-count. -/
theorem conclusive_probe_complete (hids : Distinct cfg)
    (hlegacy : ∀ p n, (cfg.lock p).holderId ≠ legacyId n) {s : cfg.channelMachine.State}
    (hs : Reach (Untouched cfg) (undropped cfg) s) {p : ι} {c : RedisLock.Call}
    {holders : List RedisLockHolder} {k : Except Exc Unit → Program Op _ Unit}
    (hconcludes : s.thread p = some (c, .op (.concluded holders) k))
    (htight : Tight (server s) p) :
    (server s).remained p p = true ∧ Lists cfg (server s) p holders := by
  have hhold := protocol_holds (fun _ _ _ _ h => h) hs
  obtain ⟨hself, hnamed, hcovers⟩ := hhold.permitted hconcludes
  refine ⟨hself, fun q hq => (hcovers hids htight q hq).resolve_right fun hlost => ?_⟩
  obtain ⟨n, hn⟩ := hnamed _ hlost rfl
  exact hlegacy q n hn

/-- Three writers on one channel. -/
def threeWriters : Config (Fin 3) where
  channel := ['c']
  lock p :=
    { channel := ['c'], holderId := [['a'], ['b'], ['c']].getD p [], closeConnection := false }
  onChannel _ := rfl
  mayRaise _ _ _ := false

theorem threeWriters_distinct : Distinct threeWriters := by
  unfold Distinct
  decide

/-- A writer probes another one. -/
def threeWriters.probed : List threeWriters.channelMachine.Label :=
  threeWriters.subscribes 0 ++ threeWriters.subscribes 1 ++ threeWriters.rounds 0 1 ++
    threeWriters.pings 0 ++ threeWriters.answers 0 0 ++ threeWriters.answers 1 0 ++
    threeWriters.collects 0 [0, 1] ++ threeWriters.rounds 0 1

/-- The probe of one writer shows it the other. -/
theorem conclusive_probe_complete_run :
    ∃ s c holders k, runChecked keepsOrder threeWriters.probed threeWriters.idle = some s ∧
      s.thread 0 = some (c, .op (.concluded holders) k) ∧
      HasRecord threeWriters (server s) 0 1 holders := by
  have hobserve : (runChecked keepsOrder threeWriters.probed threeWriters.idle).bind (fun s =>
      (threeWriters.concluding (s.thread 0)).map fun _ =>
        (((server s).pinged 0).length, (server s).counted 0, (server s).remained 0 1)) =
      some (2, 2, true) := by rfl
  obtain ⟨s, hrun, hrest⟩ := Option.bind_eq_some_iff.1 hobserve
  obtain ⟨holders, hconcludes, hs⟩ := Option.map_eq_some_iff.1 hrest
  obtain ⟨hpinged, hs⟩ := Prod.mk.inj hs
  obtain ⟨hcounted, hremained⟩ := Prod.mk.inj hs
  have htight : Tight (server s) 0 := by
    unfold Tight
    rw [hpinged, hcounted]
  obtain ⟨c, k, hthread⟩ := threeWriters.concluding_eq_some hconcludes
  have hlegacy : ∀ p n, (threeWriters.lock p).holderId ≠ legacyId n := by
    intro p n heq
    have hone : ∀ p, (threeWriters.lock p).holderId.length ≤ 1 := by decide
    exact absurd (heq ▸ one_lt_length_legacyId n) (Nat.not_lt.2 (hone p))
  obtain ⟨-, hlists⟩ := conclusive_probe_complete threeWriters_distinct hlegacy
    (undropped_reach hrun) hthread htight
  exact ⟨s, c, holders, k, hrun, hthread, hlists 1 hremained⟩

/-- A third writer subscribes after the count of the first, answers its ping, and
leaves before the re-count. -/
def threeWriters.churn : List threeWriters.channelMachine.Label :=
  threeWriters.subscribes 0 ++ threeWriters.subscribes 1 ++ threeWriters.rounds 0 1 ++
    threeWriters.subscribes 2 ++ threeWriters.pings 0 ++ threeWriters.answers 0 0 ++
    threeWriters.answers 2 0 ++ threeWriters.answers 1 0 ++
    threeWriters.rounds 2 1 ++ threeWriters.pings 2 ++ threeWriters.answers 0 2 ++
    threeWriters.answers 1 2 ++ threeWriters.answers 2 2 ++ threeWriters.collects 2 [0, 1, 2] ++
    threeWriters.rounds 2 10 ++ threeWriters.collects 0 [0, 2] ++ threeWriters.rounds 0 1

/-- Its reply takes the place of the one that is still on its way: the probe returns
a list without a lock that has been subscribed all the time. -/
theorem churn_hides_holder :
    ∃ s c holders k, Reach (Untouched threeWriters) (undropped threeWriters) s ∧
      s.thread 0 = some (c, .op (.concluded holders) k) ∧ (server s).remained 0 1 = true ∧
      ∀ holder ∈ holders, holder.holderId ≠ (threeWriters.lock 1).holderId := by
  have hobserve : (runChecked keepsOrder threeWriters.churn threeWriters.idle).bind (fun s =>
      (threeWriters.concluding (s.thread 0)).map fun holders =>
        (holders.map (·.holderId), (server s).remained 0 1)) =
      some ([['a'], ['c']], true) := by rfl
  obtain ⟨s, hrun, hrest⟩ := Option.bind_eq_some_iff.1 hobserve
  obtain ⟨holders, hconcludes, hs⟩ := Option.map_eq_some_iff.1 hrest
  obtain ⟨hlisted, hremained⟩ := Prod.mk.inj hs
  obtain ⟨c, k, hthread⟩ := threeWriters.concluding_eq_some hconcludes
  refine ⟨s, c, holders, k, undropped_reach hrun, hthread, hremained, fun holder hmem => ?_⟩
  have hid : holder.holderId ∈ holders.map (·.holderId) := List.mem_map_of_mem hmem
  rw [hlisted] at hid
  have hnone : ∀ id ∈ ([['a'], ['c']] : List Text), id ≠ (threeWriters.lock 1).holderId := by decide
  exact hnone _ hid

/-! ## Readers and writers -/

/-- Runs in which no live subscription of a lock is dropped, and a list that an
acquisition rests on has a record of every lock that was subscribed from the count to
the re-count, with a mode it had in between. -/
def documented (cfg : Config ι) : Guard cfg.channelMachine where
  call _ _ _ := True
  op p _ o w := SparesLocks w o ∧ match o with
    | .won (some holders) => Lists cfg w p holders
    | _ => True

/-- Runs in which, besides, a SUBSCRIBE has been carried out when its lock counts. -/
def punctual (cfg : Config ι) : Guard cfg.channelMachine where
  call _ _ _ := True
  op p c o w := (documented cfg).op p c o w ∧ CountsItself p w o

/-- An owner found none of the other kind on the channel when it subscribed that is
still there. -/
def Gated (cfg : Config ι) (w : World ι) : Prop :=
  ∀ p q, w.owns p = true → w.preceded p q = true →
    ((cfg.lock p).flags = SHARED ↔ (cfg.lock q).flags = SHARED)

theorem Gated.mono {w w' : World ι} (h : Gated cfg w)
    (howns : ∀ p, w'.owns p = true → w.owns p = true)
    (hpreceded : ∀ p q, w'.owns p = true → w'.preceded p q = true → w.preceded p q = true) :
    Gated cfg w' :=
  fun p q hp hq => h p q (howns p hp) (hpreceded p q hp hq)

/-- What a list that grants the lock says of the locks it has a record of. -/
theorem Grants.kind {p q : ι} {w : World ι} {holders : List RedisLockHolder} (hw : Sound cfg w)
    (h : Grants (cfg.lock p) holders) (hrecord : HasRecord cfg w p q holders) :
    (cfg.lock p).flags = SHARED ↔ (cfg.lock q).flags = SHARED := by
  obtain ⟨m, hhad, hmem⟩ := hrecord
  rw [← hw.had hhad]
  rcases h with hcompatible | ⟨hflags, -, hshared⟩
  · obtain ⟨hflags, hall⟩ := RedisLock.holdersAreCompatible_spec hcompatible
    exact ⟨fun _ => hall _ hmem, fun _ => hflags⟩
  · constructor
    · intro hp
      rw [hflags] at hp
      exact absurd hp (by decide)
    · rintro rfl
      have hany : RedisLock.anyShared holders = true := List.any_eq_true.2 ⟨_, hmem, by simp⟩
      rw [hshared] at hany
      cases hany

/-- The decision of an owner keeps the gate. -/
theorem Gated.win {p : ι} {w : World ι} {view : Option (List RedisLockHolder)} (hw : Sound cfg w)
    (h : Gated cfg w) (hpre : Permitted cfg p w (.won view))
    (hlists : ∀ holders, view = some holders → Lists cfg w p holders) : Gated cfg (w.win p) := by
  intro q r hq hr
  by_cases hqp : q = p
  · subst hqp
    cases view with
    | none =>
        have hstayed : w.stayed q r = true := hw.counted hpre.1 hr
        rw [hpre.2 r hstayed]
    | some holders =>
        have hstayed : w.stayed q r = true := hw.counted hpre.1 hr
        exact hpre.2.2.1.kind hw (hlists holders rfl r (hpre.2.1 r hstayed))
  · exact h q r (by simpa [Function.update_of_ne hqp] using hq) hr

/-- A subscription that starts opens no gate: its lock owns nothing. -/
theorem Gated.subscribe {p : ι} {w : World ι} (hw : Sound cfg w) (h : Gated cfg w)
    (hnew : .lock p ∉ w.subscribers) : Gated cfg (w.subscribe p) := by
  refine h.mono (fun _ hp => hp) fun q r hq hr => ?_
  have hne : q ≠ p := fun heq => hnew (heq ▸ hw.owner hq)
  simpa [hne] using hr

theorem Gated.change {p : ι} {o : Op} {w w' : World ι} (hw : Sound cfg w) (h : Gated cfg w)
    (hpre : Permitted cfg p w o)
    (hlists : ∀ holders, o = .won (some holders) → Lists cfg w p holders)
    (hc : Change p w o w') : Gated cfg w' := by
  cases hc with
  | same | attributes | setPubsub | setMode | setName | sendSubscribe | closePubsub | count
    | recount | request | listen | receive | closeProbe | publish | ended =>
      exact h.mono (fun _ hp => hp) fun _ _ _ hq => hq
  | subscribe hnew => exact h.subscribe hw hnew
  | unsubscribe =>
      refine h.mono (fun q hq => ?_) fun q r _ hr => ?_
      · by_cases hqp : q = p
        · simp [hqp] at hq
        · simpa [Function.update_of_ne hqp] using hq
      · simp only [unsubscribe_preceded, leave_preceded, Bool.and_eq_true] at hr
        exact hr.1.1
  | clientKill id =>
      rcases w.kill_cases id with heq | ⟨client, -, -, heq⟩
      · rw [heq]
        exact h
      · rw [heq]
        refine h.mono (fun _ hp => hp) fun q r _ hr => ?_
        simp only [leave_preceded, Bool.and_eq_true] at hr
        exact hr.1.1
  | won view => exact h.win hw hpre fun holders heq => hlists holders (heq ▸ rfl)

theorem Gated.event {e : Event ι} {w w' : World ι} (hw : Sound cfg w) (h : Gated cfg w)
    (he : cfg.event e w = some w') : Gated cfg w' := by
  cases e with
  | arrive p =>
      simp only [Config.event, Option.ite_none_right_eq_some, Option.some.injEq] at he
      obtain ⟨hsent, rfl⟩ := he
      exact h.subscribe hw (hw.requested hsent).1
  | activate p =>
      simp only [Config.event, Option.ite_none_right_eq_some, Option.some.injEq] at he
      obtain ⟨-, rfl⟩ := he
      exact h
  | handle q p =>
      rcases (handle_cases he).2 with rfl | rfl
      · exact h
      · exact h
  | answer q =>
      obtain ⟨p, m, stage, -, -, rfl⟩ := answer_cases he
      exact h
  | join n name =>
      simp only [Config.event, Option.ite_none_left_eq_some, Option.some.injEq] at he
      obtain ⟨-, rfl⟩ := he
      exact h
  | part n =>
      simp only [Config.event, Option.some.injEq] at he
      subst he
      refine h.mono (fun _ hp => hp) fun q r _ hr => ?_
      simp only [leave_preceded, Bool.and_eq_true] at hr
      exact hr.1.1
  | reply n p data =>
      simp only [Config.event, strangerReply, Option.ite_none_right_eq_some,
        Option.some.injEq] at he
      obtain ⟨-, rfl⟩ := he
      exact h

/-- When everybody is subscribed before it counts, no reader and writer own the channel
at the same time, and a reader whose subscription started while a writer was subscribed
does not own it before that writer unsubscribes. -/
theorem readers_writers_exclude {s : cfg.channelMachine.State}
    (hs : Reach (Untouched cfg) (punctual cfg) s) {r q : ι}
    (hreader : (cfg.lock r).flags = SHARED) (hwriter : (cfg.lock q).flags = EXCLUSIVE) :
    ¬ ((server s).owns r = true ∧ (server s).owns q = true) ∧
      ((server s).preceded r q = true → (server s).owns r = false) := by
  have horderly : ∀ p c o w, (punctual cfg).op p c o w → Orderly p w o :=
    fun _ _ _ _ h => ⟨h.1.1, h.2⟩
  have hw : Sound cfg (server s) := (protocol_holds horderly hs).1
  have hgated : Gated cfg (server s) := by
    refine (protocol_verified horderly).keeps (J := Gated cfg) ?_ ?_ ?_ hs
    · rintro w rfl
      exact ⟨⟨start_sound cfg, start_quiet cfg⟩, fun p q hp => by cases hp⟩
    · intro p c o choice w r w' hw h hpre hg hperform
      refine h.change hw hpre (fun holders heq => ?_) (Config.performOp_change hperform)
      subst heq
      exact hg.1.2
    · exact fun hw h he => h.event hw he
  have hne : ¬ ((cfg.lock r).flags = SHARED ↔ (cfg.lock q).flags = SHARED) := by
    rw [hwriter]
    exact fun h => absurd (h.1 hreader) (by decide)
  constructor
  · rintro ⟨hr, hq⟩
    have hrq : r ≠ q := fun heq => hne (by rw [heq])
    rcases hw.total (hw.owner hr) (hw.owner hq) hrq with hbefore | hbefore
    · exact hne (hgated r q hr hbefore)
    · exact hne (hgated q r hq hbefore).symm
  · exact fun hbefore => Bool.eq_false_iff.2 fun hr => hne (hgated r q hr hbefore)

/-- A writer and two readers on one channel. -/
def twoReaders : Config (Fin 3) where
  channel := ['c']
  lock p :=
    { channel := ['c'], holderId := [['a'], ['b'], ['c']].getD p [], closeConnection := false
      flags := if p = 0 then EXCLUSIVE else SHARED
      flags_valid := by revert p; decide }
  onChannel _ := rfl
  mayRaise _ _ _ := false

/-- The list has a record of each of these locks that was subscribed from the count to
the re-count. -/
def listsAll (cfg : Config ι) (locks : List ι) (p : ι) (holders : List RedisLockHolder)
    (w : World ι) : Bool :=
  locks.all fun q => !w.remained p q || holders.any fun holder =>
    w.had p q holder.mode && decide (holder = ⟨(cfg.lock q).holderId, holder.mode, false⟩)

theorem lists_of_listsAll {locks : List ι} {p : ι} {holders : List RedisLockHolder} {w : World ι}
    (hall : ∀ q, q ∈ locks) (h : listsAll cfg locks p holders w = true) :
    Lists cfg w p holders := by
  intro q hq
  have hlisted := List.all_eq_true.1 h q (hall q)
  rw [hq, Bool.not_true, Bool.false_or] at hlisted
  obtain ⟨holder, hmem, hrecord⟩ := List.any_eq_true.1 hlisted
  obtain ⟨hhad, heq⟩ := Bool.and_eq_true_iff.1 hrecord
  exact ⟨holder.mode, hhad, of_decide_eq_true heq ▸ hmem⟩

/-- Besides, every list that an acquisition rests on is complete. -/
def keepsLists (p : Fin 3) (o : Op) (w : World (Fin 3)) : Bool :=
  match o with
  | .won (some holders) => listsAll twoReaders [0, 1, 2] p holders w
  | o => keepsOrder p o w

theorem punctual_of_keepsLists {p : Fin 3} {c : RedisLock.Call} {o : Op} {w : World (Fin 3)}
    (h : keepsLists p o w = true) : (punctual twoReaders).op p c o w := by
  cases o with
  | won view =>
      cases view with
      | none => exact ⟨⟨trivial, trivial⟩, trivial⟩
      | some holders => exact ⟨⟨trivial, lists_of_listsAll (by decide) h⟩, trivial⟩
  | clientKill id => cases h
  | subscriberCount again =>
      have horderly := orderly_of_keepsOrder (o := .subscriberCount again) h
      exact ⟨⟨horderly.1, trivial⟩, horderly.2⟩
  | _ => exact ⟨⟨trivial, trivial⟩, trivial⟩

/-- A reader takes the channel alone, and the other one after a probe; a writer
subscribes; the first reader releases the channel and subscribes again. -/
def twoReaders.gated : List twoReaders.channelMachine.Label :=
  twoReaders.subscribes 1 ++ twoReaders.rounds 1 3 ++ twoReaders.subscribes 2 ++
    twoReaders.rounds 2 1 ++ twoReaders.pings 2 ++ twoReaders.answers 2 2 ++
    twoReaders.answers 1 2 ++ twoReaders.collects 2 [2, 1] ++ twoReaders.rounds 2 5 ++
    twoReaders.subscribes 0 ++ .call 1 .release :: twoReaders.rounds 1 10 ++
    twoReaders.subscribes 1

/-- The second reader owns the channel; the writer does not, and the first reader waits
at the gate. -/
theorem readers_writers_exclude_run :
    ∃ s, runChecked keepsLists twoReaders.gated twoReaders.idle = some s ∧
      (server s).owns 2 = true ∧ (server s).owns 0 = false ∧
      .lock 1 ∈ (server s).subscribers ∧ (server s).owns 1 = false := by
  have hobserve : (runChecked keepsLists twoReaders.gated twoReaders.idle).map (fun s =>
      ((server s).owns 2, decide (.lock 1 ∈ (server s).subscribers),
        (server s).preceded 1 0)) = some (true, true, true) := by rfl
  obtain ⟨s, hrun, hs⟩ := Option.map_eq_some_iff.1 hobserve
  obtain ⟨howns, hs⟩ := Prod.mk.inj hs
  obtain ⟨hsubscribed, hpreceded⟩ := Prod.mk.inj hs
  have hreach : Reach (Untouched twoReaders) (punctual twoReaders) s :=
    (idle_reach (punctual twoReaders)).checked (fun _ _ _ => trivial)
      (fun _ _ _ _ hcheck => punctual_of_keepsLists hcheck) hrun
  have hsecond := readers_writers_exclude hreach (r := 2) (q := 0) rfl rfl
  have hfirst := readers_writers_exclude hreach (r := 1) (q := 0) rfl rfl
  exact ⟨s, hrun, howns, Bool.eq_false_iff.2 fun howns' => hsecond.1 ⟨howns, howns'⟩,
    of_decide_eq_true hsubscribed, hfirst.2 hpreceded⟩

/-- A writer and a reader on one channel. -/
def writerReader : Config Bool where
  channel := ['c']
  lock p :=
    { channel := ['c'], holderId := if p then ['b'] else ['a'], closeConnection := false
      flags := if p then SHARED else EXCLUSIVE, flags_valid := by cases p <;> decide }
  onChannel _ := rfl
  mayRaise _ _ _ := false

/-- No connection is killed, and no acquisition rests on a list. -/
def takesAlone (_ : Bool) (o : Op) (_ : World Bool) : Bool :=
  match o with
  | .won (some _) | .clientKill _ => false
  | _ => true

/-- The reader owns the channel; the writer sends SUBSCRIBE and counts before it is
carried out. -/
def writerReader.overtakes : List writerReader.channelMachine.Label :=
  writerReader.subscribes true ++ writerReader.rounds true 3 ++
    writerReader.subscribesLate false ++ writerReader.rounds false 2

/-- The writer counts the reader alone, takes it for itself, and owns the channel too:
nobody waits for the confirmation of a SUBSCRIBE before the count. -/
theorem uncounted_subscriber_owns :
    ∃ s, Reach (Untouched writerReader) (documented writerReader) s ∧
      (writerReader.lock true).flags = SHARED ∧ (writerReader.lock false).flags = EXCLUSIVE ∧
      (server s).owns true = true ∧ (server s).owns false = true := by
  have hobserve : (runChecked takesAlone writerReader.overtakes writerReader.idle).map
      (fun s => ((server s).owns true, (server s).owns false)) = some (true, true) := by rfl
  obtain ⟨s, hrun, hs⟩ := Option.map_eq_some_iff.1 hobserve
  obtain ⟨hreader, hwriter⟩ := Prod.mk.inj hs
  have hop : ∀ p c o w, takesAlone p o w = true → (documented writerReader).op p c o w := by
    intro p c o w hcheck
    cases o with
    | won view =>
        cases view with
        | none => exact ⟨trivial, trivial⟩
        | some holders => cases hcheck
    | clientKill id => cases hcheck
    | _ => exact ⟨trivial, trivial⟩
  have hreach : Reach (Untouched writerReader) (documented writerReader) s :=
    (idle_reach (documented writerReader)).checked (fun _ _ _ => trivial) hop hrun
  exact ⟨s, hreach, rfl, rfl, hreader, hwriter⟩

end Runs

end Portalocker.Redis
