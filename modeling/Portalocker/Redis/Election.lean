import Portalocker.Redis.Exclusion
set_option autoImplicit false
set_option linter.unusedSectionVars false

/-!
# Exclusion between the writers of a channel

A writer decides from a count, or from a probe that began with one, and announces
its mode EXCLUSIVE afterwards.  In runs in which nobody comes in between, the owner
outranks everybody else who has counted; a writer that comes in between may be elected
as well.
-/

namespace Portalocker.Redis

open Interleaving Interleaving.Machine World

variable {ι : Type} [DecidableEq ι]

section Runs

variable {cfg : Config ι}

/-- Runs in which, besides, every lock on the channel at a winning decision was
already there when the winner counted, the ping of its probe reached no more
subscribers than that count, and whoever counts for the first time since it subscribed
finds every owner either announced or with a smaller id. -/
def timely (cfg : Config ι) : Guard cfg.channelMachine where
  call _ _ _ := True
  op p _ o w := Orderly p w o ∧ match o with
    | .won view => (∀ q, .lock q ∈ w.subscribers → w.stayed p q = true) ∧
        (view ≠ none → Tight w p)
    | .subscriberCount false => w.stayed p p = false → ∀ q, w.owns q = true →
        (w.attributes q).mode = .exclusive ∨ (cfg.lock q).holderId < (cfg.lock p).holderId
    | _ => True

/-- What keeps lock `q` from being elected while `p` owns the channel: a smaller id,
or a mode that every list of `q` will show. -/
def Outranks (cfg : Config ι) (w : World ι) (p q : ι) : Prop :=
  (cfg.lock p).holderId < (cfg.lock q).holderId ∨
    ((w.attributes p).mode = .exclusive ∧
      (w.stayed q p = true → w.had q p .pending = false))

/-- The owner of a channel of writers outranks everybody else who has counted it. -/
structure Elected (cfg : Config ι) (w : World ι) : Prop where
  alone : ∀ {p q}, w.owns p = true → w.owns q = true → p = q
  outranks : ∀ {p q}, w.owns p = true → w.stayed q q = true → q ≠ p → Outranks cfg w p q

theorem Outranks.mono {p q : ι} {w w' : World ι} (h : Outranks cfg w p q)
    (hmode : (w.attributes p).mode = .exclusive → (w'.attributes p).mode = .exclusive)
    (hhad : w'.stayed q p = true → w.stayed q p = true ∧
      (w'.had q p .pending = true → w.had q p .pending = true)) : Outranks cfg w' p q := by
  rcases h with hid | ⟨hexclusive, hpending⟩
  · exact Or.inl hid
  · refine Or.inr ⟨hmode hexclusive, fun hs => Bool.eq_false_iff.2 fun hh => ?_⟩
    rw [hpending (hhad hs).1] at hhad
    cases (hhad hs).2 hh

theorem Elected.mono {w w' : World ι} (h : Elected cfg w)
    (howns : ∀ {p}, w'.owns p = true → w.owns p = true)
    (hself : ∀ {q}, w'.stayed q q = true → w.stayed q q = true)
    (hmode : ∀ {p}, w'.owns p = true → (w.attributes p).mode = .exclusive →
      (w'.attributes p).mode = .exclusive)
    (hhad : ∀ {p q}, w'.owns p = true → w'.stayed q p = true → w.stayed q p = true ∧
      (w'.had q p .pending = true → w.had q p .pending = true)) : Elected cfg w' :=
  ⟨fun hp hq => h.alone (howns hp) (howns hq), fun hp hq hne =>
    (h.outranks (howns hp) (hself hq) hne).mono (hmode hp) (hhad hp)⟩

/-- An elected writer was shown every other lock that is on the channel, waiting
and with a larger id. -/
theorem Grants.waiting {p q : ι} {w : World ι} {holders : List RedisLockHolder}
    (hw : Sound cfg w) (hids : Distinct cfg) (hwriters : ∀ p, (cfg.lock p).flags = EXCLUSIVE)
    (h : Grants (cfg.lock p) holders) (hne : q ≠ p)
    (hcovers : HasRecord cfg w p q holders ∨ Overwritten cfg q holders) :
    (cfg.lock p).holderId < (cfg.lock q).holderId ∧ w.had p q .pending = true := by
  have helected : (cfg.lock p).writerIsElected holders = true := by
    rcases h with hcompatible | ⟨-, helected, -⟩
    · have hflags := (RedisLock.holdersAreCompatible_spec hcompatible).1
      rw [hwriters p] at hflags
      exact absurd hflags (by decide)
    · exact helected
  rcases hcovers with ⟨m, hhad, hmem⟩ | hmem
  · obtain ⟨hexclusive, hpending⟩ := RedisLock.writerIsElected_spec helected _ hmem
    have hm : m = .pending := by
      cases m with
      | shared =>
          have hflags := (hw.had hhad).1 rfl
          rw [hwriters q] at hflags
          exact absurd hflags (by decide)
      | pending => rfl
      | exclusive => exact absurd rfl hexclusive
    subst hm
    exact ⟨lt_of_le_of_ne (hpending rfl) fun heq => hne (hids _ _ heq).symm, hhad⟩
  · exact absurd rfl (RedisLock.writerIsElected_spec helected _ hmem).1

/-- The decision of a writer finds nobody who owns the channel. -/
theorem Elected.win {p : ι} {w : World ι} {view : Option (List RedisLockHolder)} (hw : Sound cfg w)
    (hids : Distinct cfg) (hwriters : ∀ p, (cfg.lock p).flags = EXCLUSIVE) (h : Elected cfg w)
    (hpre : Permitted cfg p w (.won view))
    (hsettled : ∀ q, .lock q ∈ w.subscribers → w.stayed p q = true)
    (htight : view ≠ none → Tight w p) : Elected cfg (w.win p) := by
  have hwaiting : ∀ q, .lock q ∈ w.subscribers → q ≠ p →
      (cfg.lock p).holderId < (cfg.lock q).holderId ∧ w.had p q .pending = true := by
    intro q hq hne
    have hstayed := hsettled q hq
    cases view with
    | none => exact absurd (hpre.2 q hstayed) hne
    | some holders =>
        obtain ⟨-, hremained, hgrants, hcovers⟩ := hpre
        exact hgrants.waiting hw hids hwriters hne
          (hcovers hids (htight (by simp)) q (hremained q hstayed))
  have hself : w.stayed p p = true := by
    cases view with
    | none => exact hpre.1
    | some holders => exact hpre.1
  have hfree : ∀ q, w.owns q = true → q = p := by
    intro q hq
    by_contra hne
    obtain ⟨hlater, hpending⟩ := hwaiting q (hw.owner hq) hne
    rcases h.outranks hq hself (Ne.symm hne) with hearlier | ⟨-, hshown⟩
    · exact lt_asymm hlater hearlier
    · rw [hshown (hsettled q (hw.owner hq))] at hpending
      cases hpending
  have howner : ∀ {q}, (w.win p).owns q = true → q = p := by
    intro q hq
    by_cases hqp : q = p
    · exact hqp
    · exact hfree q (by simpa [Function.update_of_ne hqp] using hq)
  constructor
  · intro q r hq hr
    rw [howner hq, howner hr]
  · intro q r hq hr hne
    obtain rfl := howner hq
    exact Or.inl (hwaiting r (hw.stayed hr) hne).1

theorem Elected.leave {w : World ι} (h : Elected cfg w) (s : Subscriber ι) :
    Elected cfg (w.leave s) := by
  have hstayed : ∀ {q r}, (w.leave s).stayed q r = true → w.stayed q r = true := by
    intro q r hs
    simp only [leave_stayed, Bool.and_eq_true] at hs
    exact hs.1.1
  exact h.mono (fun hp => hp) hstayed (fun _ hm => hm) fun _ hs => ⟨hstayed hs, fun hh => hh⟩

/-- A subscription that starts has counted nothing yet. -/
theorem Elected.subscribe {p : ι} {w : World ι} (h : Elected cfg w) :
    Elected cfg (w.subscribe p) := by
  have hstayed : ∀ {q r}, (w.subscribe p).stayed q r = true → w.stayed q r = true := by
    intro q r hs
    simp only [subscribe_stayed, Bool.and_eq_true] at hs
    exact hs.2
  exact h.mono (fun hp => hp) hstayed (fun _ hm => hm) fun _ hs => ⟨hstayed hs, fun hh => hh⟩

/-- Whoever counts is shown every owner that has announced itself, and is outranked by
the others. -/
theorem Elected.count {p : ι} {w : World ι} (h : Elected cfg w)
    (hfirst : w.stayed p p = false → ∀ q, w.owns q = true →
      (w.attributes q).mode = .exclusive ∨ (cfg.lock q).holderId < (cfg.lock p).holderId) :
    Elected cfg (w.count p) := by
  refine ⟨h.alone, fun {q r} hq hr hne => ?_⟩
  by_cases hrp : r = p
  · subst hrp
    have hranked : (w.attributes q).mode = .exclusive ∨
        (cfg.lock q).holderId < (cfg.lock r).holderId := by
      cases hcounted : w.stayed r r with
      | false => exact hfirst hcounted q hq
      | true => exact (h.outranks hq hcounted hne).symm.imp_left fun hright => hright.1
    rcases hranked with hexclusive | hid
    · refine Or.inr ⟨hexclusive, fun _ => ?_⟩
      simp only [count_had, if_true, decide_eq_false_iff_not]
      rw [hexclusive]
      decide
    · exact Or.inl hid
  · have hself : w.stayed r r = true := by simpa [hrp] using hr
    refine (h.outranks hq hself hne).mono (fun hm => hm) fun hs => ⟨?_, fun hh => ?_⟩
    · simpa [hrp] using hs
    · simpa [hrp] using hh

theorem Elected.change {p : ι} {o : Op} {w w' : World ι} (hw : Sound cfg w) (hids : Distinct cfg)
    (hwriters : ∀ p, (cfg.lock p).flags = EXCLUSIVE) (h : Elected cfg w)
    (hpre : Permitted cfg p w o) {c : RedisLock.Call} (hg : (timely cfg).op p c o w)
    (hc : Change p w o w') : Elected cfg w' := by
  cases hc with
  | same | setName | sendSubscribe | closePubsub | recount | request | listen | receive | closeProbe
    | publish | ended =>
      exact h.mono (fun hp => hp) (fun hq => hq) (fun _ hm => hm) fun _ hs => ⟨hs, fun hh => hh⟩
  | attributes o a hpubsub hmode =>
      refine h.mono (fun hp => hp) (fun hq => hq) (fun {q} _ hm => ?_) fun _ hs =>
        ⟨hs, fun hh => hh⟩
      by_cases hq : q = p
      · subst hq
        simpa [hmode] using hm
      · simpa [Function.update_of_ne hq] using hm
  | setPubsub value =>
      refine h.mono (fun hp => hp) (fun hq => hq) (fun {q} _ hm => ?_) fun _ hs =>
        ⟨hs, fun hh => hh⟩
      by_cases hq : q = p
      · subst hq
        simpa using hm
      · simpa [Function.update_of_ne hq] using hm
  | setMode mode =>
      -- an owner that changes its mode changes it to EXCLUSIVE
      have hexclusive : w.owns p = true → mode = .exclusive := fun hp =>
        (hpre.2.resolve_left fun hleft => hleft.2 (hw.owner hp)).1
      refine h.mono (fun hp => hp) (fun hq => hq) (fun {q} hq hm => ?_) fun {q r} hq hs =>
        ⟨hs, fun hh => ?_⟩
      · by_cases hqp : q = p
        · subst hqp
          simpa using hexclusive hq
        · simpa [Function.update_of_ne hqp] using hm
      · simp only [setMode_had, Bool.or_eq_true, Bool.and_eq_true, decide_eq_true_eq] at hh
        rcases hh with hh | ⟨rfl, hpending⟩
        · exact hh
        · rw [hexclusive hq] at hpending
          cases hpending
  | subscribe hnew => exact h.subscribe
  | unsubscribe =>
      refine (h.leave (.lock p)).mono (fun {q} hq => ?_) (fun hq => hq) (fun _ hm => hm)
        fun _ hs => ⟨hs, fun hh => hh⟩
      by_cases hqp : q = p
      · simp [hqp] at hq
      · simpa [Function.update_of_ne hqp] using hq
  | count => exact h.count hg.2
  | clientKill id =>
      rcases w.kill_cases id with heq | ⟨client, -, -, heq⟩
      · rw [heq]
        exact h
      · rw [heq]
        exact (h.leave client.2).mono (fun hp => hp) (fun hq => hq) (fun _ hm => hm)
          fun _ hs => ⟨hs, fun hh => hh⟩
  | won view => exact h.win hw hids hwriters hpre hg.2.1 hg.2.2

theorem Elected.event {e : Event ι} {w w' : World ι} (h : Elected cfg w)
    (he : cfg.event e w = some w') : Elected cfg w' := by
  have hsame : ∀ {w'' : World ι}, w''.owns = w.owns →
      (∀ q, (w''.attributes q).mode = (w.attributes q).mode) → w''.stayed = w.stayed →
      w''.had = w.had → Elected cfg w'' := by
    intro w'' howns hmode hstayed hhad
    refine h.mono (fun hp => howns ▸ hp) (fun hq => hstayed ▸ hq)
      (fun _ hm => by rw [hmode, hm]) fun _ hs => ⟨hstayed ▸ hs, fun hh => hhad ▸ hh⟩
  cases e with
  | arrive p =>
      simp only [Config.event, Option.ite_none_right_eq_some, Option.some.injEq] at he
      obtain ⟨-, rfl⟩ := he
      exact h.subscribe
  | activate p =>
      simp only [Config.event, Option.ite_none_right_eq_some, Option.some.injEq] at he
      obtain ⟨-, rfl⟩ := he
      exact hsame rfl (fun _ => rfl) rfl rfl
  | handle q p =>
      rcases (handle_cases he).2 with rfl | rfl
      · refine hsame rfl (fun r => ?_) rfl rfl
        by_cases hr : r = q
        · simp [hr]
        · simp [Function.update_of_ne hr]
      · exact hsame rfl (fun _ => rfl) rfl rfl
  | answer q =>
      obtain ⟨p, m, stage, -, -, rfl⟩ := answer_cases he
      exact hsame rfl (fun _ => rfl) rfl rfl
  | join n name =>
      simp only [Config.event, Option.ite_none_left_eq_some, Option.some.injEq] at he
      obtain ⟨-, rfl⟩ := he
      exact hsame rfl (fun _ => rfl) rfl rfl
  | part n =>
      simp only [Config.event, Option.some.injEq] at he
      subst he
      exact (h.leave (.stranger n)).mono (fun hp => hp) (fun hq => hq) (fun _ hm => hm)
        fun _ hs => ⟨hs, fun hh => hh⟩
  | reply n p data =>
      simp only [Config.event, strangerReply, Option.ite_none_right_eq_some,
        Option.some.injEq] at he
      obtain ⟨-, rfl⟩ := he
      exact hsame rfl (fun _ => rfl) rfl rfl

/-- At most one writer is between the decision that makes its `acquire` return and
its release. -/
theorem writers_exclude (hids : Distinct cfg) (hwriters : ∀ p, (cfg.lock p).flags = EXCLUSIVE)
    {s : cfg.channelMachine.State} (hs : Reach (Untouched cfg) (timely cfg) s) {p q : ι}
    (hp : (server s).owns p = true) (hq : (server s).owns q = true) : p = q := by
  have horderly : ∀ p c o w, (timely cfg).op p c o w → Orderly p w o := fun _ _ _ _ h => h.1
  have helected : Elected cfg (server s) := by
    refine (protocol_verified horderly).keeps (J := Elected cfg) ?_ ?_ ?_ hs
    · rintro w rfl
      exact ⟨⟨start_sound cfg, start_quiet cfg⟩, ⟨fun hp => (by cases hp), fun hp => (by cases hp)⟩⟩
    · exact fun hw h hpre hg hperform =>
        h.change hw hids hwriters hpre hg (Config.performOp_change hperform)
    · exact fun _ h he => h.event he
  exact helected.alone hp hq

/-- Two writers; the id of the second is the smaller one. -/
def twoWriters : Config Bool where
  channel := ['c']
  lock p := { channel := ['c'], holderId := if p then ['a'] else ['b'], closeConnection := false }
  onChannel _ := rfl
  mayRaise _ _ _ := false

theorem twoWriters_distinct : Distinct twoWriters := by
  unfold Distinct
  decide

/-- The conditions of a timely run, without a kill, and nobody counts while the channel
is owned. -/
def settles (p : Bool) (o : Op) (w : World Bool) : Bool :=
  match o with
  | .won view => decide (∀ q, .lock q ∈ w.subscribers → w.stayed p q = true) &&
      (view.isNone || decide (Tight w p))
  | .subscriberCount false => decide (.lock p ∈ w.subscribers) && !w.owns false && !w.owns true
  | o => keepsOrder p o w

theorem timely_of_settles {p : Bool} {c : RedisLock.Call} {o : Op} {w : World Bool}
    (h : settles p o w = true) : (timely twoWriters).op p c o w := by
  cases o with
  | won view =>
      simp only [settles, Bool.and_eq_true, Bool.or_eq_true, decide_eq_true_eq] at h
      refine ⟨⟨trivial, trivial⟩, h.1, fun hview => h.2.resolve_left fun hnone => ?_⟩
      exact hview (Option.isNone_iff_eq_none.1 hnone)
  | subscriberCount again =>
      cases again with
      | true => exact ⟨⟨trivial, trivial⟩, trivial⟩
      | false =>
          simp only [settles, Bool.and_eq_true, Bool.not_eq_true', decide_eq_true_eq] at h
          refine ⟨⟨trivial, h.1.1⟩, fun _ q hq => ?_⟩
          cases q with
          | false => exact absurd hq (Bool.eq_false_iff.1 h.1.2)
          | true => exact absurd hq (Bool.eq_false_iff.1 h.2)
  | clientKill id => cases h
  | _ => exact ⟨⟨trivial, trivial⟩, trivial⟩

/-- The second writer probes both and is elected, as far as its decision. -/
def twoWriters.elects : List twoWriters.channelMachine.Label :=
  twoWriters.rounds true 1 ++ twoWriters.pings true ++ twoWriters.answers false true ++
    twoWriters.answers true true ++ twoWriters.collects true [false, true] ++
    twoWriters.rounds true 5

/-- The first writer waits, the second one is elected. -/
def twoWriters.election : List twoWriters.channelMachine.Label :=
  twoWriters.subscribes false ++ twoWriters.subscribes true ++ twoWriters.elects

/-- The elected writer is the only owner. -/
theorem writers_exclude_run :
    ∃ s, runChecked settles twoWriters.election twoWriters.idle = some s ∧
      (server s).owns true = true ∧ ∀ q, (server s).owns q = true → q = true := by
  have hobserve : (runChecked settles twoWriters.election twoWriters.idle).map
      (fun s => (server s).owns true) = some true := by rfl
  obtain ⟨s, hrun, howns⟩ := Option.map_eq_some_iff.1 hobserve
  have hreach : Reach (Untouched twoWriters) (timely twoWriters) s :=
    (idle_reach (timely twoWriters)).checked (fun _ _ _ => trivial)
      (fun _ _ _ _ hcheck => timely_of_settles hcheck) hrun
  exact ⟨s, hrun, howns, fun q hq =>
    writers_exclude twoWriters_distinct (fun _ => rfl) hreach hq howns⟩

/-- The first writer counts itself alone; before it announces its mode the second
one subscribes, finds it waiting, and is elected. -/
def twoWriters.race : List twoWriters.channelMachine.Label :=
  twoWriters.subscribes false ++ twoWriters.rounds false 1 ++ twoWriters.subscribes true ++
    twoWriters.elects ++ twoWriters.rounds false 1

/-- Two writers own the channel at the same time, although no subscription is
dropped. -/
theorem late_subscriber_elected :
    ∃ s, Reach (Untouched twoWriters) (undropped twoWriters) s ∧
      (server s).owns false = true ∧ (server s).owns true = true := by
  have hobserve : (runChecked keepsOrder twoWriters.race twoWriters.idle).map
      (fun s => ((server s).owns false, (server s).owns true)) = some (true, true) := by rfl
  obtain ⟨s, hrun, hs⟩ := Option.map_eq_some_iff.1 hobserve
  obtain ⟨hfirst, hsecond⟩ := Prod.mk.inj hs
  exact ⟨s, undropped_reach hrun, hfirst, hsecond⟩

end Runs

end Portalocker.Redis
