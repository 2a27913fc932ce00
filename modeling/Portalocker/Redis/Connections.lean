import Portalocker.Foundation.Arbiter
import Portalocker.Foundation.Crash
import Portalocker.Redis.Election
set_option autoImplicit false
set_option linter.unusedSectionVars false

/-!
# The locks of a channel are readers-writers locks

A `RedisLock` is its subscription: when a process dies the server closes its connections,
and the lock is gone with them.  Here any lock may crash at any moment, readers and writers
share the channel, and any command may raise.  In runs in which nobody comes in between a
decision and what it rests on, the locks of the channel refine the arbiter of readers and
writers.
-/

namespace Portalocker.Redis

open Interleaving Interleaving.Machine World

variable {ι : Type} [DecidableEq ι]

/-! ## Crashes -/

/-- The process of a lock dies.  Its connections are closed, and with them the subscription
and the probe; what its worker was about to answer is never published. -/
def World.crash (p : ι) (w : World ι) : World ι :=
  (((w.unsubscribe p).closePubsub p).closeProbe p).setBusy p none

section Crashes

variable {cfg : Config ι} {p q : ι} {w : World ι}

@[simp] theorem crash_subscribers :
    (w.crash p).subscribers = w.subscribers.filter (· ≠ .lock p) := rfl

@[simp] theorem crash_owns : (w.crash p).owns = Function.update w.owns p false := rfl

@[simp] theorem crash_attributes : (w.crash p).attributes = w.attributes := rfl

@[simp] theorem crash_had : (w.crash p).had = w.had := rfl

theorem stayed_of_crash {r : ι} (h : (w.crash p).stayed q r = true) : w.stayed q r = true := by
  have hleft : (w.leave (.lock p)).stayed q r = true := h
  simp only [leave_stayed, Bool.and_eq_true] at hleft
  exact hleft.1.1

theorem preceded_of_crash {r : ι} (h : (w.crash p).preceded q r = true) :
    w.preceded q r = true := by
  have hleft : (w.leave (.lock p)).preceded q r = true := h
  simp only [leave_preceded, Bool.and_eq_true] at hleft
  exact hleft.1.1

theorem owns_of_crash (h : (w.crash p).owns q = true) : w.owns q = true := by
  by_cases hq : q = p
  · simp [hq] at h
  · simpa [Function.update_of_ne hq] using h

/-- Nothing is left of a lock that has crashed. -/
theorem crash_gone (p : ι) (w : World ι) :
    (w.crash p).owns p = false ∧ Absent p (w.crash p) := by
  refine ⟨by simp, by simp, ?_⟩
  show (w.leave (.lock p)).requested p = false
  simp

theorem Sound.unsubscribe (h : Sound cfg w) : Sound cfg (w.unsubscribe p) :=
  h.change (o := .unsubscribe) trivial trivial .unsubscribe

theorem Sound.closePubsub (h : Sound cfg w) : Sound cfg (w.closePubsub p) :=
  h.change (o := .closePubsub) trivial trivial .closePubsub

/-- A crash is a release as far as the invariant goes. -/
theorem Sound.crash (h : Sound cfg w) : Sound cfg (w.crash p) :=
  h.unsubscribe.closePubsub.closeProbe.setBusy none

/-- It leaves the other locks what they rely on. -/
theorem undisturbed_of_crash (h : Sound cfg w) (hq : q ≠ p) : Undisturbed q w (w.crash p) := by
  have hleft : Sound cfg (w.unsubscribe p) := h.unsubscribe
  have hunsubscribe : Undisturbed q w (w.unsubscribe p) :=
    undisturbed_of_change h (o := .unsubscribe) trivial .unsubscribe hq
  have hpubsub : Undisturbed q (w.unsubscribe p) ((w.unsubscribe p).closePubsub p) :=
    undisturbed_of_change hleft (o := .closePubsub) trivial .closePubsub hq
  have hprobe : Undisturbed q ((w.unsubscribe p).closePubsub p)
      (((w.unsubscribe p).closePubsub p).closeProbe p) :=
    undisturbed_of_change hleft.closePubsub (o := .closeProbe) trivial .closeProbe hq
  refine (hunsubscribe.trans hpubsub).trans (hprobe.trans ?_)
  exact ⟨rfl, fun h => h, fun h => h, rfl, rfl, rfl, rfl, rfl, fun h => h, fun h => h,
    fun h => h, fun h => h⟩

theorem protocol_survives {g : Guard cfg.channelMachine}
    (horderly : ∀ p c o w, g.op p c o w → Orderly p w o) :
    (protocol cfg g horderly).Survives World.crash where
  inv := fun h => Sound.crash h
  rely := fun h _ hq => undisturbed_of_crash h hq

end Crashes

/-! ## Readers and writers -/

/-- The lock is a writer. -/
def Writes (cfg : Config ι) (p : ι) : Prop := (cfg.lock p).flags = EXCLUSIVE

/-- One of them writes. -/
def Compete (cfg : Config ι) (p q : ι) : Prop := Writes cfg p ∨ Writes cfg q

/-- One writer, or several readers. -/
def channelArbiter (cfg : Config ι) : Arbiter ι := .exclusion (Compete cfg)

/-- Runs in which no live subscription is dropped and nobody counts before it is
subscribed; the ping of a probe that an acquisition rests on reached no more subscribers
than its lock had counted; no other writer comes between the count of a writer and its
decision; and a writer that counts for the first time since it subscribed finds every
writer that owns the channel either announced or with a smaller id. -/
def steady (cfg : Config ι) : Guard cfg.channelMachine where
  call _ _ _ := True
  op p _ o w := Orderly p w o ∧ match o with
    | .won view => (view ≠ none → Tight w p) ∧
        (Writes cfg p → ∀ q, Writes cfg q → .lock q ∈ w.subscribers → w.stayed p q = true)
    | .subscriberCount false => Writes cfg p → w.stayed p p = false →
        ∀ q, Writes cfg q → w.owns q = true →
          (w.attributes q).mode = .exclusive ∨ (cfg.lock q).holderId < (cfg.lock p).holderId
    | _ => True

section Ranks

variable {cfg : Config ι}

/-- A list that grants the lock has no made-up id, so it has a record of every lock that
was subscribed from the count to the re-count. -/
theorem Grants.lists {p : ι} {w : World ι} {holders : List RedisLockHolder}
    (h : Grants (cfg.lock p) holders) (hids : Distinct cfg) (hcovers : Covers cfg w p holders)
    (htight : Tight w p) : Lists cfg w p holders := by
  intro q hq
  apply (hcovers hids htight q hq).resolve_right
  intro hmem
  rcases h with hcompatible | ⟨-, helected, -⟩
  · have hshared := (RedisLock.holdersAreCompatible_spec hcompatible).2 _ hmem
    cases hshared
  · exact absurd rfl (RedisLock.writerIsElected_spec helected _ hmem).1

/-- A writer that is granted the lock found every other writer waiting, with a larger id. -/
theorem Grants.pending {p q : ι} {w : World ι} {holders : List RedisLockHolder}
    (hw : Sound cfg w) (hids : Distinct cfg) (hp : Writes cfg p) (hq : Writes cfg q)
    (h : Grants (cfg.lock p) holders) (hne : q ≠ p) (hrecord : HasRecord cfg w p q holders) :
    (cfg.lock p).holderId < (cfg.lock q).holderId ∧ w.had p q .pending = true := by
  obtain ⟨m, hhad, hmem⟩ := hrecord
  rcases h with hcompatible | ⟨-, helected, -⟩
  · have hreads := (RedisLock.holdersAreCompatible_spec hcompatible).1
    rw [show (cfg.lock p).flags = EXCLUSIVE from hp] at hreads
    exact absurd hreads (by decide)
  · obtain ⟨hexclusive, hsmaller⟩ := RedisLock.writerIsElected_spec helected _ hmem
    cases m with
    | shared =>
        have hreads := (hw.had hhad).1 rfl
        rw [show (cfg.lock q).flags = EXCLUSIVE from hq] at hreads
        exact absurd hreads (by decide)
    | pending => exact ⟨lt_of_le_of_ne (hsmaller rfl) fun heq => hne (hids _ _ heq).symm, hhad⟩
    | exclusive => exact absurd rfl hexclusive

/-- No writer can be elected while another one owns the channel. -/
structure Ranked (cfg : Config ι) (w : World ι) : Prop where
  alone : ∀ {p q}, Writes cfg p → Writes cfg q → w.owns p = true → w.owns q = true → p = q
  outranks : ∀ {p q}, Writes cfg p → Writes cfg q → w.owns p = true → w.stayed q q = true →
    q ≠ p → Outranks cfg w p q

theorem Ranked.mono {w w' : World ι} (h : Ranked cfg w)
    (howns : ∀ {p}, Writes cfg p → w'.owns p = true → w.owns p = true)
    (hself : ∀ {q}, w'.stayed q q = true → w.stayed q q = true)
    (hmode : ∀ {p}, w'.owns p = true → (w.attributes p).mode = .exclusive →
      (w'.attributes p).mode = .exclusive)
    (hhad : ∀ {p q}, w'.owns p = true → w'.stayed q p = true → w.stayed q p = true ∧
      (w'.had q p .pending = true → w.had q p .pending = true)) : Ranked cfg w' where
  alone := fun hwp hwq hp hq => h.alone hwp hwq (howns hwp hp) (howns hwq hq)
  outranks := fun hwp hwq hp hq hne =>
    (h.outranks hwp hwq (howns hwp hp) (hself hq) hne).mono (hmode hp) (hhad hp)

/-- Nothing has changed that it speaks of. -/
theorem Ranked.congr {w w' : World ι} (h : Ranked cfg w) (howns : w'.owns = w.owns)
    (hattributes : w'.attributes = w.attributes) (hstayed : w'.stayed = w.stayed)
    (hhad : w'.had = w.had) : Ranked cfg w' := by
  refine h.mono (fun _ hp => ?_) (fun hq => ?_) (fun _ hm => ?_) fun _ hs => ⟨?_, fun hh => ?_⟩
  · rwa [← howns]
  · rwa [← hstayed]
  · rwa [hattributes]
  · rwa [← hstayed]
  · rwa [← hhad]

/-- The decision of a writer finds no writer that owns the channel. -/
theorem Ranked.win {p : ι} {w : World ι} {view : Option (List RedisLockHolder)}
    (hw : Sound cfg w) (hids : Distinct cfg) (h : Ranked cfg w)
    (hpre : Permitted cfg p w (.won view)) (htight : view ≠ none → Tight w p)
    (hsettled : Writes cfg p → ∀ q, Writes cfg q → .lock q ∈ w.subscribers →
      w.stayed p q = true) : Ranked cfg (w.win p) := by
  have hothers : ∀ {q}, q ≠ p → (w.win p).owns q = true → w.owns q = true := by
    intro q hq howns
    simpa [Function.update_of_ne hq] using howns
  by_cases hwrites : Writes cfg p
  · have hwaiting : ∀ q, Writes cfg q → .lock q ∈ w.subscribers → q ≠ p →
        (cfg.lock p).holderId < (cfg.lock q).holderId ∧ w.had p q .pending = true := by
      intro q hwq hq hne
      have hstayed := hsettled hwrites q hwq hq
      cases view with
      | none => exact absurd (hpre.2 q hstayed) hne
      | some holders =>
          obtain ⟨-, hremained, hgrants, hcovers⟩ := hpre
          have hlists := hgrants.lists hids hcovers (htight (by simp))
          exact hgrants.pending hw hids hwrites hwq hne (hlists q (hremained q hstayed))
    have hself : w.stayed p p = true := by
      cases view with
      | none => exact hpre.1
      | some holders => exact hpre.1
    have howner : ∀ {q}, Writes cfg q → (w.win p).owns q = true → q = p := by
      intro q hwq howns
      by_contra hne
      have hq := hothers hne howns
      obtain ⟨hlater, hpending⟩ := hwaiting q hwq (hw.owner hq) hne
      rcases h.outranks hwq hwrites hq hself (Ne.symm hne) with hearlier | ⟨-, hshown⟩
      · exact lt_asymm hlater hearlier
      · rw [hshown (hsettled hwrites q hwq (hw.owner hq))] at hpending
        cases hpending
    constructor
    · intro q r hwq hwr hq hr
      rw [howner hwq hq, howner hwr hr]
    · intro q r hwq hwr hq hr hne
      obtain rfl := howner hwq hq
      exact Or.inl (hwaiting r hwr (hw.stayed hr) hne).1
  · -- the decision of a reader makes no writer an owner
    have howner : ∀ {q}, Writes cfg q → (w.win p).owns q = true → w.owns q = true :=
      fun hwq howns => hothers (fun heq => hwrites (heq ▸ hwq)) howns
    exact h.mono howner (fun hq => hq) (fun _ hm => hm) fun _ hs => ⟨hs, fun hh => hh⟩

theorem Ranked.leave {w : World ι} (h : Ranked cfg w) (s : Subscriber ι) :
    Ranked cfg (w.leave s) := by
  have hstayed : ∀ {q r}, (w.leave s).stayed q r = true → w.stayed q r = true := by
    intro q r hs
    simp only [leave_stayed, Bool.and_eq_true] at hs
    exact hs.1.1
  exact h.mono (fun _ hp => hp) hstayed (fun _ hm => hm) fun _ hs => ⟨hstayed hs, fun hh => hh⟩

/-- A subscription that starts has counted nothing yet. -/
theorem Ranked.subscribe {p : ι} {w : World ι} (h : Ranked cfg w) : Ranked cfg (w.subscribe p) := by
  have hstayed : ∀ {q r}, (w.subscribe p).stayed q r = true → w.stayed q r = true := by
    intro q r hs
    simp only [subscribe_stayed, Bool.and_eq_true] at hs
    exact hs.2
  exact h.mono (fun _ hp => hp) hstayed (fun _ hm => hm) fun _ hs => ⟨hstayed hs, fun hh => hh⟩

/-- Whoever counts is shown every owner that has announced itself, and is outranked by
the others. -/
theorem Ranked.count {p : ι} {w : World ι} (h : Ranked cfg w)
    (hfirst : Writes cfg p → w.stayed p p = false → ∀ q, Writes cfg q → w.owns q = true →
      (w.attributes q).mode = .exclusive ∨ (cfg.lock q).holderId < (cfg.lock p).holderId) :
    Ranked cfg (w.count p) := by
  refine ⟨h.alone, fun {q r} hwq hwr hq hr hne => ?_⟩
  by_cases hrp : r = p
  · subst hrp
    have hranked : (w.attributes q).mode = .exclusive ∨
        (cfg.lock q).holderId < (cfg.lock r).holderId := by
      cases hcounted : w.stayed r r with
      | false => exact hfirst hwr hcounted q hwq hq
      | true => exact (h.outranks hwq hwr hq hcounted hne).symm.imp_left fun hright => hright.1
    rcases hranked with hexclusive | hid
    · refine Or.inr ⟨hexclusive, fun _ => ?_⟩
      simp only [count_had, if_true, decide_eq_false_iff_not]
      rw [hexclusive]
      decide
    · exact Or.inl hid
  · have hself : w.stayed r r = true := by simpa [hrp] using hr
    refine (h.outranks hwq hwr hq hself hne).mono (fun hm => hm) fun hs => ⟨?_, fun hh => ?_⟩
    · simpa [hrp] using hs
    · simpa [hrp] using hh

/-- An owner that changes its mode announces itself. -/
theorem Ranked.setMode {p : ι} {w : World ι} {mode : RedisLockMode} (h : Ranked cfg w)
    (hexclusive : w.owns p = true → mode = .exclusive) : Ranked cfg (w.setMode p mode) := by
  refine h.mono (fun _ hp => hp) (fun hq => hq) (fun {q} hq hm => ?_) fun {q r} hq hs =>
    ⟨hs, fun hh => ?_⟩
  · by_cases hqp : q = p
    · subst hqp
      simpa using hexclusive hq
    · simpa [Function.update_of_ne hqp] using hm
  · simp only [setMode_had, Bool.or_eq_true, Bool.and_eq_true, decide_eq_true_eq] at hh
    rcases hh with hh | ⟨rfl, hpending⟩
    · exact hh
    · rw [hexclusive hq] at hpending
      cases hpending

/-- Attributes that change without the mode. -/
theorem Ranked.setAttributes {p : ι} {w : World ι} {a : Attributes} (h : Ranked cfg w)
    (hmode : a.mode = (w.attributes p).mode) : Ranked cfg (w.setAttributes p a) := by
  refine h.mono (fun _ hp => hp) (fun hq => hq) (fun {q} _ hm => ?_) fun _ hs => ⟨hs, fun hh => hh⟩
  by_cases hq : q = p
  · subst hq
    simpa [hmode] using hm
  · simpa [Function.update_of_ne hq] using hm

theorem Ranked.change {p : ι} {o : Op} {w w' : World ι} (hw : Sound cfg w) (hids : Distinct cfg)
    (h : Ranked cfg w) (hpre : Permitted cfg p w o) {c : RedisLock.Call}
    (hg : (steady cfg).op p c o w) (hc : Change p w o w') : Ranked cfg w' := by
  cases hc with
  | same | setName | sendSubscribe | closePubsub | recount | request | listen | receive | closeProbe
    | publish | ended =>
      exact h.congr rfl rfl rfl rfl
  | attributes o a hpubsub hmode => exact h.setAttributes hmode
  | setPubsub value => exact h.setAttributes rfl
  | setMode mode =>
      exact h.setMode fun hp => (hpre.2.resolve_left fun hleft => hleft.2 (hw.owner hp)).1
  | subscribe hnew => exact h.subscribe
  | unsubscribe =>
      refine (h.leave (.lock p)).mono (fun {q} _ hq => ?_) (fun hq => hq) (fun _ hm => hm)
        fun _ hs => ⟨hs, fun hh => hh⟩
      by_cases hqp : q = p
      · simp [hqp] at hq
      · simpa [Function.update_of_ne hqp] using hq
  | count => exact h.count hg.2
  | clientKill id =>
      rcases w.kill_cases id with heq | ⟨client, -, -, heq⟩
      · rw [heq]
        exact h
      · rw [heq]
        exact (h.leave client.2).congr rfl rfl rfl rfl
  | won view => exact h.win hw hids hpre hg.2.1 hg.2.2

theorem Ranked.event {e : Event ι} {w w' : World ι} (h : Ranked cfg w)
    (he : cfg.event e w = some w') : Ranked cfg w' := by
  cases e with
  | arrive p =>
      simp only [Config.event, Option.ite_none_right_eq_some, Option.some.injEq] at he
      obtain ⟨-, rfl⟩ := he
      exact h.subscribe
  | activate p =>
      simp only [Config.event, Option.ite_none_right_eq_some, Option.some.injEq] at he
      obtain ⟨-, rfl⟩ := he
      exact h.congr rfl rfl rfl rfl
  | handle q p =>
      have hmail : Ranked cfg (w.setMail p (.lock q) .idle) := h.congr rfl rfl rfl rfl
      rcases (handle_cases he).2 with rfl | rfl
      · exact hmail.setAttributes rfl
      · exact h.congr rfl rfl rfl rfl
  | answer q =>
      obtain ⟨p, m, stage, -, -, rfl⟩ := answer_cases he
      exact h.congr rfl rfl rfl rfl
  | join n name =>
      simp only [Config.event, Option.ite_none_left_eq_some, Option.some.injEq] at he
      obtain ⟨-, rfl⟩ := he
      exact h.congr rfl rfl rfl rfl
  | part n =>
      simp only [Config.event, Option.some.injEq] at he
      subst he
      exact (h.leave (.stranger n)).congr rfl rfl rfl rfl
  | reply n p data =>
      simp only [Config.event, strangerReply, Option.ite_none_right_eq_some,
        Option.some.injEq] at he
      obtain ⟨-, rfl⟩ := he
      exact h.congr rfl rfl rfl rfl

theorem Ranked.crash {p : ι} {w : World ι} (h : Ranked cfg w) : Ranked cfg (w.crash p) := by
  exact h.mono (fun _ hq => owns_of_crash hq) stayed_of_crash (fun _ hm => hm) fun _ hs =>
    ⟨stayed_of_crash hs, fun hh => hh⟩

theorem Gated.crash {p : ι} {w : World ι} (h : Gated cfg w) : Gated cfg (w.crash p) :=
  h.mono (fun _ hq => owns_of_crash hq) fun _ _ _ hq => preceded_of_crash hq

end Ranks

/-! ## The channel -/

section Channel

variable {cfg : Config ι}

/-- The channel, whose locks may crash. -/
abbrev crashableChannel (cfg : Config ι) : Machine ι := cfg.channelMachine.crashing World.crash

/-- Nobody has done anything. -/
def UntouchedChannel (cfg : Config ι) (W : (crashableChannel cfg).World) : Prop :=
  Untouched cfg W.1 ∧ ∀ p, W.2 p = false

/-- The locks between the decision that makes `acquire` return and their release or crash. -/
def owners (cfg : Config ι) (W : (crashableChannel cfg).World) : Set ι :=
  {p | World.owns W.1 p = true}

/-- A lock that has crashed owns nothing, and is not subscribed. -/
def Gone (W : (crashableChannel cfg).World) : Prop :=
  ∀ p, W.2 p = true → World.owns W.1 p = false ∧ Absent p W.1

/-- What leaves a lock undisturbed leaves it as gone as it was. -/
theorem gone_of_undisturbed {p : ι} {w w' : World ι} (hu : Undisturbed p w w')
    (h : w.owns p = false ∧ Absent p w) : w'.owns p = false ∧ Absent p w' :=
  ⟨hu.owns ▸ h.1, hu.absent h.2⟩

/-! ### What holds in every orderly run -/

section Spared

variable {g : Guard cfg.channelMachine} (horderly : ∀ p c o w, g.op p c o w → Orderly p w o)

/-- The contract of the locks, with crashes. -/
abbrev crashingProtocol : Discipline (crashableChannel cfg) (g.crashing World.crash) :=
  (protocol cfg g horderly).crashing (protocol_survives horderly)

theorem crashingProtocol_verified : (crashingProtocol horderly).Verified :=
  (protocol_verified horderly).crashing (protocol_survives horderly)

theorem untouched_holds {W : (crashableChannel cfg).World} (h0 : UntouchedChannel cfg W) :
    (crashingProtocol horderly).inv W ∧ ∀ p, (crashingProtocol horderly).idle p W := by
  have hstart : W.1 = cfg.start := h0.1
  have hsound : Sound cfg W.1 := hstart ▸ start_sound cfg
  have hquiet : ∀ p, Quiet p W.1 := fun p => hstart ▸ start_quiet cfg p
  exact ⟨hsound, fun p => Or.inr (hquiet p)⟩

variable {s s' : (crashableChannel cfg).State}

include horderly

theorem crashing_holds (hs : Reach (UntouchedChannel cfg) (g.crashing World.crash) s) :
    (crashingProtocol horderly).Holds s :=
  (crashingProtocol_verified horderly).sound (fun _ h0 => untouched_holds horderly h0) hs

theorem gone_of_reach (hs : Reach (UntouchedChannel cfg) (g.crashing World.crash) s) :
    Gone s.world := by
  refine (crashingProtocol_verified horderly).keeps (J := Gone) ?_ ?_ ?_ hs
  · intro W h0
    refine ⟨untouched_holds horderly h0, fun p hp => ?_⟩
    rw [h0.2 p] at hp
    cases hp
  · intro p c o choice W r W' hw h _ hg hperform q hq
    obtain ⟨hlive, hperform, hsame⟩ := perform_crashing hperform
    have hsound : Sound cfg W.1 := hw
    rw [hsame] at hq
    have hqp : q ≠ p := fun heq => by
      rw [heq, hlive] at hq
      cases hq
    exact gone_of_undisturbed (undisturbed_of_change hsound (horderly _ _ _ _ hg).1
      (Config.performOp_change hperform) hqp) (h q hq)
  · intro e W W' hw h he q hq
    have hsound : Sound cfg W.1 := hw
    rcases event_crashing he with ⟨e', -, he, hsame⟩ | ⟨p, -, heq, hcrashed⟩
    · rw [hsame] at hq
      exact gone_of_undisturbed (undisturbed_of_event hsound he q) (h q hq)
    · rw [heq]
      by_cases hqp : q = p
      · subst hqp
        exact crash_gone q W.1
      · rw [hcrashed, Function.update_of_ne hqp] at hq
        exact gone_of_undisturbed (undisturbed_of_crash hsound hqp) (h q hq)

/-- A lock becomes an owner, or ceases to be one, by its own transitions only. -/
theorem owners_own {l : (crashableChannel cfg).Label}
    (hs : Reach (UntouchedChannel cfg) (g.crashing World.crash) s)
    (hg : (g.crashing World.crash).Allows s l) (hn : next s l = some s') {q : ι}
    (hq : l.client crashOf ≠ some q) : q ∈ owners cfg s'.world ↔ q ∈ owners cfg s.world := by
  have hsound : Sound cfg s.world.1 := (crashing_holds horderly hs).1
  have hsame : Undisturbed q (s.world.1 : World ι) (s'.world.1 : World ι) →
      (q ∈ owners cfg s'.world ↔ q ∈ owners cfg s.world) := by
    intro hu
    simp only [owners, Set.mem_ofPred_eq, hu.owns]
  cases l with
  | call p c =>
      obtain ⟨-, rfl⟩ := next_call hn
      rfl
  | op p choice =>
      have hqp : q ≠ p := fun heq => hq (congrArg some heq.symm)
      obtain ⟨c, o, k, r, hthread, hperform, -⟩ := next_op hn
      obtain ⟨-, hperform, -⟩ := perform_crashing hperform
      exact hsame (undisturbed_of_change hsound (horderly _ _ _ _ (hg c o k hthread)).1
        (Config.performOp_change hperform) hqp)
  | event e =>
      rcases event_crashing (next_event hn).1 with ⟨e', -, he, -⟩ | ⟨p, rfl, heq, -⟩
      · exact hsame (undisturbed_of_event hsound he q)
      · have hqp : q ≠ p := fun h' => hq (congrArg some h'.symm)
        exact hsame (heq ▸ undisturbed_of_crash hsound hqp)

end Spared

/-! ### Steady runs -/

/-- Steady runs with crashes. -/
abbrev steadyWithCrashes (cfg : Config ι) : Guard (crashableChannel cfg) :=
  (steady cfg).crashing World.crash

theorem steady_orderly (p : ι) (c : RedisLock.Call) (o : Op) (w : World ι)
    (h : (steady cfg).op p c o w) : Orderly p w o := h.1

/-- Readers and writers stay apart, and so do writers. -/
structure Apart (cfg : Config ι) (w : World ι) : Prop where
  gated : Gated cfg w
  ranked : Ranked cfg w

theorem start_apart (cfg : Config ι) : Apart cfg cfg.start where
  gated _ _ hp := by cases hp
  ranked := ⟨fun _ _ hp => (by cases hp), fun _ _ hp => (by cases hp)⟩

theorem Apart.perform (hids : Distinct cfg) {p : ι} {c : RedisLock.Call} {o : Op}
    {w w' : World ι} (hw : Sound cfg w) (h : Apart cfg w) (hpre : Permitted cfg p w o)
    (hg : (steady cfg).op p c o w) (hchange : Change p w o w') : Apart cfg w' where
  gated := h.gated.change hw hpre (fun holders heq => by
    subst heq
    exact hpre.2.2.1.lists hids hpre.2.2.2 (hg.2.1 (by simp))) hchange
  ranked := h.ranked.change hw hids hpre hg hchange

theorem apart_of_reach (hids : Distinct cfg) {s : (crashableChannel cfg).State}
    (hs : Reach (UntouchedChannel cfg) (steadyWithCrashes cfg) s) : Apart cfg s.world.1 := by
  refine (crashingProtocol_verified steady_orderly).keeps (J := fun W => Apart cfg W.1) ?_ ?_ ?_ hs
  · intro W h0
    have hstart : W.1 = cfg.start := h0.1
    exact ⟨untouched_holds steady_orderly h0, hstart ▸ start_apart cfg⟩
  · intro p c o choice W r W' hw h hpre hg hperform
    obtain ⟨hlive, hperform, -⟩ := perform_crashing hperform
    exact h.perform (c := c) hids hw (hpre.resolve_left (by simp [hlive])) hg
      (Config.performOp_change hperform)
  · intro e W W' hw h he
    rcases event_crashing he with ⟨e', -, he, -⟩ | ⟨p, -, heq, -⟩
    · exact ⟨h.gated.event hw he, h.ranked.event he⟩
    · rw [heq]
      exact ⟨h.gated.crash, h.ranked.crash⟩

/-- Owners that compete are one. -/
theorem Apart.admits {W : (crashableChannel cfg).World} (hw : Sound cfg W.1)
    (h : Apart cfg W.1) : (channelArbiter cfg).admits (owners cfg W) := by
  intro p hp q hq hcompete
  have hp : World.owns W.1 p = true := hp
  have hq : World.owns W.1 q = true := hq
  by_contra hne
  have hkind : (cfg.lock p).flags = SHARED ↔ (cfg.lock q).flags = SHARED := by
    rcases hw.total (hw.owner hp) (hw.owner hq) hne with hbefore | hbefore
    · exact h.gated p q hp hbefore
    · exact (h.gated q p hq hbefore).symm
  have hwriter : ∀ r, (cfg.lock r).flags ≠ SHARED → Writes cfg r := fun r =>
    (cfg.lock r).flags_eq_exclusive
  have hreads : ∀ r, Writes cfg r → (cfg.lock r).flags ≠ SHARED := fun r hr heq => by
    rw [show (cfg.lock r).flags = EXCLUSIVE from hr] at heq
    exact absurd heq (by decide)
  have hboth : Writes cfg p ∧ Writes cfg q := by
    rcases hcompete with hp' | hq'
    · exact ⟨hp', hwriter q fun heq => hreads p hp' (hkind.2 heq)⟩
    · exact ⟨hwriter p fun heq => hreads q hq' (hkind.1 heq), hq'⟩
  exact hne (h.ranked.alone hboth.1 hboth.2 hp hq)

/-- The locks of a channel refine the arbiter of readers and writers. -/
theorem channel_refines (hids : Distinct cfg) :
    Refines (channelArbiter cfg) crashOf (owners cfg) (UntouchedChannel cfg)
      (steadyWithCrashes cfg) where
  start := fun W h0 => Set.eq_empty_of_forall_notMem fun p hp => by
    have hstart : W.1 = cfg.start := h0.1
    have hp : World.owns W.1 p = true := hp
    rw [hstart] at hp
    cases hp
  admits := fun hs => (apart_of_reach hids hs).admits (crashing_holds steady_orderly hs).1
  own := fun hs hg hn _ hq => owners_own steady_orderly hs hg hn hq

/-- Readers and writers of one channel, whatever raises and whoever crashes: what can be
seen of a steady run is a history in which a writer has the channel alone until it releases
it or crashes.  Owners are alive and subscribed, and a crash leaves no subscription. -/
theorem redis_locks_refine_readers_writers (hids : Distinct cfg)
    {s : (crashableChannel cfg).State}
    (hs : Reach (UntouchedChannel cfg) (steadyWithCrashes cfg) s) :
    (∃ history, Observed crashOf (owners cfg) (UntouchedChannel cfg) (steadyWithCrashes cfg)
      history s) ∧
    (∀ history, Observed crashOf (owners cfg) (UntouchedChannel cfg) (steadyWithCrashes cfg)
        history s →
      (channelArbiter cfg).Legal history (owners cfg s.world) ∧
      ∀ after between before p q,
        history = after ++ .grant q :: (between ++ .grant p :: before) →
        Compete cfg p q → .revoke p ∈ between) ∧
    (∀ p ∈ owners cfg s.world, .lock p ∈ World.subscribers s.world.1 ∧ s.world.2 p = false) ∧
    ∀ p, s.world.2 p = true → .lock p ∉ World.subscribers s.world.1 := by
  have hrefines := channel_refines hids
  have hgone := gone_of_reach steady_orderly hs
  have hsound : Sound cfg s.world.1 := (crashing_holds steady_orderly hs).1
  refine ⟨hrefines.observed hs, fun history hobserved => ?_, fun p hp => ⟨hsound.owner hp, ?_⟩,
    fun p hp => (hgone p hp).2.1⟩
  · have hlegal := hrefines.legal hobserved
    refine ⟨hlegal, ?_⟩
    rintro after between before p q rfl hcompete
    exact hlegal.excludes hcompete
  · apply Bool.eq_false_iff.2
    intro hcrashed
    have hp : World.owns s.world.1 p = true := hp
    rw [(hgone p hcrashed).1] at hp
    cases hp

end Channel

/-- The conditions of a steady run without a probe and without a kill, when the writer is
`false`. -/
def steadily (p : Bool) (o : Op) (W : (crashableChannel writerReader).World) : Bool :=
  match o with
  | .won none => p || World.stayed W.1 false false
  | .won (some _) => false
  | .subscriberCount false => keepsOrder p o W.1 && (p || !World.owns W.1 false)
  | o => keepsOrder p o W.1

theorem writerReader_writes {p : Bool} (h : Writes writerReader p) : p = false := by
  cases p with
  | false => rfl
  | true => exact absurd (show SHARED = EXCLUSIVE from h) (by decide)

theorem steady_of_steadily {p : Bool} {c : RedisLock.Call} {o : Op}
    {W : (crashableChannel writerReader).World} (h : steadily p o W = true) :
    (steadyWithCrashes writerReader).op p c o W := by
  cases o with
  | won view =>
      cases view with
      | none =>
          refine ⟨⟨trivial, trivial⟩, fun hview => absurd rfl hview, fun hp q hq _ => ?_⟩
          obtain rfl := writerReader_writes hp
          obtain rfl := writerReader_writes hq
          exact h
      | some holders => cases h
  | subscriberCount again =>
      cases again with
      | true => exact ⟨⟨trivial, trivial⟩, trivial⟩
      | false =>
          obtain ⟨horder, hfree⟩ := Bool.and_eq_true_iff.1 h
          refine ⟨orderly_of_keepsOrder horder, fun hp _ q hq howns => ?_⟩
          obtain rfl := writerReader_writes hp
          obtain rfl := writerReader_writes hq
          rw [howns] at hfree
          cases hfree
  | clientKill id => cases h
  | _ => exact ⟨⟨trivial, trivial⟩, trivial⟩

/-- The writer takes the channel and crashes, and the reader takes it. -/
def writerReader.crashes : List (crashableChannel writerReader).Label :=
  .call false (.acquire none none none) :: List.replicate 18 (.op false {}) ++
    .event (.inr false) :: .call true (.acquire none none none) :: List.replicate 15 (.op true {})

/-- The state before any call. -/
def writerReader.alive : (crashableChannel writerReader).State :=
  ⟨(writerReader.start, fun _ => false), fun _ => none⟩

theorem writerReader_distinct : Distinct writerReader := by
  unfold Distinct
  decide

/-- The reader owns the channel, of which nothing but its own subscription is left. -/
theorem redis_locks_refine_readers_writers_run :
    ∃ s, runChecked steadily writerReader.crashes writerReader.alive = some s ∧
      (∃ history, Observed crashOf (owners writerReader) (UntouchedChannel writerReader)
        (steadyWithCrashes writerReader) history s ∧
        (channelArbiter writerReader).Legal history (owners writerReader s.world)) ∧
      true ∈ owners writerReader s.world ∧ .lock false ∉ World.subscribers s.world.1 := by
  have hobserve : (runChecked steadily writerReader.crashes writerReader.alive).map (fun s =>
      (World.owns s.world.1 true, s.world.2 false)) = some (true, true) := by rfl
  obtain ⟨s, hrun, hs⟩ := Option.map_eq_some_iff.1 hobserve
  obtain ⟨howns, hcrashed⟩ := Prod.mk.inj hs
  have hreach : Reach (UntouchedChannel writerReader) (steadyWithCrashes writerReader) s :=
    (Reach.start (show UntouchedChannel writerReader writerReader.alive.world from
      ⟨rfl, fun _ => rfl⟩)).checked (fun _ _ _ => trivial)
        (fun _ _ _ _ hcheck => steady_of_steadily hcheck) hrun
  obtain ⟨⟨history, hobserved⟩, hlegal, -, hgone⟩ :=
    redis_locks_refine_readers_writers writerReader_distinct hreach
  exact ⟨s, hrun, ⟨history, hobserved, (hlegal history hobserved).1⟩, howns,
    hgone false hcrashed⟩

end Portalocker.Redis
