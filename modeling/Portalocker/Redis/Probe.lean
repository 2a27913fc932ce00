import Portalocker.Redis.Protocol
set_option autoImplicit false
set_option linter.unusedSectionVars false

/-!
# `RedisLock` keeps the contract

Triples for the methods of `redis.py` under the contract of `Redis/Protocol.lean`:
what a probe has heard, why a list that is long enough is complete when the ping
reached nobody who had not been counted, and what a decision rests on.  Every
operation may raise anything.
-/

namespace Portalocker.Redis

open Interleaving Interleaving.Machine World

variable {ι : Type} [DecidableEq ι]

section Triples

variable {cfg : Config ι} {g : Guard cfg.channelMachine}
  {horderly : ∀ p c o w, g.op p c o w → Orderly p w o} {p : ι} {c : RedisLock.Call}

/-- The context of one call of a lock. -/
abbrev ctx (cfg : Config ι) (g : Guard cfg.channelMachine)
    (horderly : ∀ p c o w, g.op p c o w → Orderly p w o) (p : ι) (c : RedisLock.Call) :
    Context (World ι) Op (fun o => Except Exc (Val o)) :=
  (protocol cfg g horderly).context p c

/-! ## Assertions -/

/-- It has counted `n` subscribers. -/
def Counted (p : ι) (n : Nat) (w : World ι) : Prop :=
  w.stayed p p = true ∧ w.counted p = n ∧ (n = 1 → ∀ q, w.stayed p q = true → q = p)

/-- The ping has reached every lock that was counted and has stayed. -/
def Reached (p : ι) (n : Nat) (w : World ι) : Prop :=
  w.stayed p p = true ∧ w.counted p = n ∧ ∀ q, w.stayed p q = true → .lock q ∈ w.pinged p

/-- The records come from different subscribers that were pinged. -/
def Heard (cfg : Config ι) (p : ι) (holders : List RedisLockHolder) (w : World ι) : Prop :=
  LegacyNamed holders ∧ ∃ readers : List (Subscriber ι), readers.Nodup ∧
    holders.length ≤ readers.length ∧ (∀ s ∈ readers, w.mail p s = .read ∧ s ∈ w.pinged p) ∧
    (Distinct cfg → ∀ q, .lock q ∈ readers →
      (w.stayed p q = true → HasRecord cfg w p q holders) ∨ Overwritten cfg q holders)

/-- The probe has counted again; `holders` are what it has collected. -/
def Recounted (cfg : Config ι) (p : ι) (n : Nat) (holders : List RedisLockHolder) (w : World ι) :
    Prop :=
  w.stayed p p = true ∧ w.remained p p = true ∧
    (∀ q, w.stayed p q = true → w.remained p q = true) ∧ LegacyNamed holders ∧
    (n ≤ holders.length → Covers cfg w p holders)

/-- What a probe that has returned says: nothing, or a list. -/
def Concluded (cfg : Config ι) (p : ι) (w : World ι) : Option (List RedisLockHolder) → Prop
  | none => w.stayed p p = true
  | some holders => Recounted cfg p 0 holders w

/-- A record stays truthful. -/
theorem HasRecord.undisturbed {q : ι} {holders : List RedisLockHolder} {w w' : World ι}
    (h : HasRecord cfg w p q holders) (hu : Undisturbed p w w') : HasRecord cfg w' p q holders := by
  obtain ⟨m, hhad, hmem⟩ := h
  exact ⟨m, hu.had hhad, hmem⟩

section Stable

theorem stable_of {P : World ι → Prop}
    (h : ∀ {w w'}, Undisturbed p w w' → P w → P w') : (ctx cfg g horderly p c).Stable P :=
  ⟨fun _ _ hr hP => h hr hP⟩

instance stable_quiet : (ctx cfg g horderly p c).Stable (Quiet p) :=
  stable_of fun hu h s => hu.idle (h s)

instance stable_pubsub (v : Option Connection) :
    (ctx cfg g horderly p c).Stable fun w => (w.attributes p).pubsub = v :=
  stable_of fun hu h => hu.pubsub.trans h

instance stable_absent : (ctx cfg g horderly p c).Stable (Absent p) :=
  stable_of fun hu h => hu.absent h

instance stable_counted (n : Nat) : (ctx cfg g horderly p c).Stable (Counted p n) :=
  stable_of fun hu h => ⟨hu.self.trans h.1, hu.counted.trans h.2.1, fun hn q hs =>
    h.2.2 hn q (hu.stayed hs)⟩

instance stable_reached (n : Nat) : (ctx cfg g horderly p c).Stable (Reached p n) :=
  stable_of fun hu h => ⟨hu.self.trans h.1, hu.counted.trans h.2.1, fun q hs =>
    hu.pinged ▸ h.2.2 q (hu.stayed hs)⟩

instance stable_heard (holders : List RedisLockHolder) :
    (ctx cfg g horderly p c).Stable (Heard cfg p holders) := by
  refine stable_of ?_
  rintro w w' hu ⟨hnamed, readers, hnodup, hlength, hread, hlisted⟩
  refine ⟨hnamed, readers, hnodup, hlength, fun s hs => ?_, fun hids q hq => ?_⟩
  · exact ⟨hu.read (hread s hs).1, hu.pinged ▸ (hread s hs).2⟩
  · exact (hlisted hids q hq).imp_left fun hrecord hs => (hrecord (hu.stayed hs)).undisturbed hu

instance stable_recounted (n : Nat) (holders : List RedisLockHolder) :
    (ctx cfg g horderly p c).Stable (Recounted cfg p n holders) := by
  refine stable_of ?_
  rintro w w' hu ⟨hself, hremained, hsub, hnamed, hcovers⟩
  refine ⟨hu.self.trans hself, hu.remained ▸ hremained, fun q hs => ?_, hnamed,
    fun hn hids htight q hq => ?_⟩
  · exact hu.remained ▸ hsub q (hu.stayed hs)
  · have htight' : Tight w p := by simpa [Tight, hu.pinged, hu.counted] using htight
    exact (hcovers hn hids htight' q (hu.remained ▸ hq)).imp_left fun hrecord =>
      hrecord.undisturbed hu

instance stable_concluded (view : Option (List RedisLockHolder)) :
    (ctx cfg g horderly p c).Stable fun w => Concluded cfg p w view := by
  cases view with
  | none => exact stable_of fun hu h => hu.self.trans h
  | some holders => exact stable_recounted 0 holders

instance stable_owns : (ctx cfg g horderly p c).Stable fun w => w.owns p = true :=
  stable_of fun hu h => hu.owns.trans h

end Stable

/-! ## One operation -/

/-- One operation: its effect leads to the postconditions, and so does every
exception, whether it is raised before the effect or after it. -/
theorem op_rule {o : Op} {P : World ι → Prop} {Q : Val o → World ι → Prop}
    {E : Exc → World ι → Prop} [hP : (ctx cfg g horderly p c).Stable P]
    [hQ : ∀ v, (ctx cfg g horderly p c).Stable (Q v)]
    [hE : ∀ e, (ctx cfg g horderly p c).Stable (E e)]
    (hpre : ∀ w, Sound cfg w → P w → Permitted cfg p w o)
    (hact : ∀ w choice r w', Sound cfg w → P w → act choice p w o = some (r, w') → Ends Q E r w')
    (hfault : ∀ w e w', Sound cfg w → P w →
      (w' = w ∧ o.closes = false) ∨ (∃ choice r, act choice p w o = some (r, w')) → E e w') :
    Hoare (ctx cfg g horderly p c) P (perform o) Q E :=
  channel_rule hpre (fun w choice r w' hw hp _ h => hact w choice r w' hw hp h) hfault

/-- The operations that change nothing the lock's own assertions are about. -/
def Neutral : Op → Prop
  | .setPubsub _ | .subscribe | .unsubscribe | .subscriberCount _ | .getMessage | .closeProbe
  | .publish | .won _ => False
  | _ => True

theorem Change.undisturbed {o : Op} {w w' : World ι} (h : Sound cfg w) (hspares : SparesLocks w o)
    (hc : Change p w o w') (hn : Neutral o) : Undisturbed p w w' := by
  cases hc with
  | same => exact .refl p w
  | attributes o a hpubsub hmode =>
      refine ⟨?_, fun h => h, fun h => h, rfl, rfl, rfl, rfl, rfl, fun h => h, fun h => h,
        fun h => h, fun h => h⟩
      simpa using hpubsub
  | setMode mode =>
      refine ⟨?_, fun h => h, fun h => h, rfl, rfl, rfl, rfl, rfl, fun h => h, fun hh => ?_,
        fun h => h,
        fun h => h⟩
      · simp
      · simp [hh]
  | setName name | closePubsub | request | ended outcome =>
      exact ⟨rfl, fun h => h, fun h => h, rfl, rfl, rfl, rfl, rfl, fun h => h, fun h => h,
        fun h => h,
        fun h => h⟩
  | clientKill id => exact undisturbed_of_kill h hspares
  | setPubsub | sendSubscribe | subscribe | unsubscribe | count | recount | listen | receive
    | closeProbe | publish | won => exact hn.elim

/-- An operation that changes none of this. -/
theorem neutral_rule {o : Op} {P : World ι → Prop} {E : Exc → World ι → Prop}
    [hP : (ctx cfg g horderly p c).Stable P] [hE : ∀ e, (ctx cfg g horderly p c).Stable (E e)]
    (hn : Neutral o) (hpre : ∀ w, Sound cfg w → P w → Permitted cfg p w o)
    (hraise : ∀ e w, P w → E e w) : Hoare (ctx cfg g horderly p c) P (perform o) (fun _ => P) E := by
  have hkeep : ∀ w w' r, Sound cfg w → Sound cfg w' → P w →
      (ctx cfg g horderly p c).step w o r w' → P w' := by
    rintro w w' r hw hw' hp ⟨hg, choice, h⟩
    exact hP.keep hw hw' ((Config.performOp_change h).undisturbed hw (horderly _ _ _ _ hg).1 hn) hp
  refine Hoare.call (fun w hw hp => hpre w hw hp) ?_ ?_
  · exact fun w v w' hw hw' hp hs => hkeep w w' _ hw hw' hp hs
  · exact fun w e w' hw hw' hp hs => hraise e w' (hkeep w w' _ hw hw' hp hs)

/-- A triple whose exceptions leave nothing on its way. -/
abbrev Triple (cfg : Config ι) (g : Guard cfg.channelMachine)
    (horderly : ∀ p c o w, g.op p c o w → Orderly p w o) (p : ι) (c : RedisLock.Call) {α : Type}
    (P : World ι → Prop) (x : Py α) (Q : α → World ι → Prop) : Prop :=
  Hoare (ctx cfg g horderly p c) P x Q fun _ => Quiet p

/-- An operation of that kind that needs no permission. -/
theorem free_rule {o : Op} {P : World ι → Prop} [(ctx cfg g horderly p c).Stable P]
    (hn : Neutral o) (hfree : ∀ w, Permitted cfg p w o) (hquiet : ∀ w, P w → Quiet p w) :
    Triple cfg g horderly p c P (perform o) fun _ => P :=
  neutral_rule hn (fun w _ _ => hfree w) fun _ w hp => hquiet w hp

@[simp] theorem World.setAttributes_self (w : World ι) (p : ι) :
    w.setAttributes p (w.attributes p) = w := by
  simp [World.setAttributes]

/-- Reading the subscription. -/
theorem pubsub_rule {P : World ι → Prop} [(ctx cfg g horderly p c).Stable P]
    (hquiet : ∀ w, P w → Quiet p w) :
    Triple cfg g horderly p c P (perform .pubsub) fun v w => (w.attributes p).pubsub = v ∧ P w := by
  have hsame : ∀ {choice w r w'}, act choice p w .pubsub = some (r, w') →
      w' = w ∧ r = .ok (w.attributes p).pubsub := by
    intro choice w r w' h
    simp only [act, Attributes.act, Option.map_some, Option.some.injEq, Prod.mk.injEq,
      setAttributes_self] at h
    exact ⟨h.2.symm, h.1.symm⟩
  refine op_rule (fun _ _ _ => trivial) ?_ ?_
  · intro w choice r w' _ hp h
    obtain ⟨rfl, rfl⟩ := hsame h
    exact ⟨rfl, hp⟩
  · rintro w e w' - hp (⟨rfl, -⟩ | ⟨choice, r, h⟩)
    · exact hquiet w' hp
    · exact (hsame h).1 ▸ hquiet w hp

/-! ## `release` -/

theorem releaseThread_rule :
    Triple cfg g horderly p c (Quiet p) RedisLock.releaseThread fun _ => Quiet p := by
  refine Hoare.bind (free_rule trivial (fun _ => trivial) fun _ h => h) fun b => ?_
  cases b with
  | false => exact Hoare.pure fun _ _ h => h
  | true =>
      refine Hoare.bind (free_rule trivial (fun _ => trivial) fun _ h => h) fun _ => ?_
      refine Hoare.bind (free_rule trivial (fun _ => trivial) fun _ h => h) fun _ => ?_
      exact free_rule trivial (fun _ => trivial) fun _ h => h

/-- Storing a subscription, or that there is none. -/
theorem setPubsub_rule (v : Option Connection) :
    Triple cfg g horderly p c (fun w => Quiet p w ∧ (v = none → Absent p w))
      (perform (.setPubsub v)) fun _ w => (w.attributes p).pubsub = v ∧ Quiet p w := by
  have hstores : ∀ {choice w r w'}, act choice p w (.setPubsub v) = some (r, w') →
      w' = w.setAttributes p { w.attributes p with pubsub := v } ∧ r = .ok () := by
    intro choice w r w' h
    simp only [act, Attributes.act, Option.map_some, Option.some.injEq, Prod.mk.injEq] at h
    exact ⟨h.2.symm, h.1.symm⟩
  refine op_rule ?_ ?_ ?_
  · rintro w - ⟨-, hnone⟩
    cases v with
    | none => exact hnone rfl
    | some connection => trivial
  · rintro w choice r w' - ⟨hquiet, -⟩ h
    obtain ⟨rfl, rfl⟩ := hstores h
    exact ⟨by simp, hquiet⟩
  · rintro w e w' - ⟨hquiet, -⟩ (⟨rfl, -⟩ | ⟨choice, r, h⟩)
    · exact hquiet
    · obtain ⟨rfl, -⟩ := hstores h
      exact hquiet

theorem unsubscribe_rule :
    Triple cfg g horderly p c (Quiet p) (perform .unsubscribe)
      fun _ w => Quiet p w ∧ Absent p w := by
  have hleaves : ∀ {choice w r w'}, Quiet p w → act choice p w .unsubscribe = some (r, w') →
      (Quiet p w' ∧ Absent p w') ∧ r = .ok () := by
    intro choice w r w' hquiet h
    simp only [act, Option.some.injEq, Prod.mk.injEq] at h
    obtain ⟨rfl, rfl⟩ := h
    refine ⟨⟨fun s => ?_, by simp, by simp⟩, rfl⟩
    simp only [unsubscribe_mail, leave_mail]
    split
    · rfl
    · exact hquiet s
  refine op_rule (fun _ _ _ => trivial) ?_ ?_
  · intro w choice r w' _ hquiet h
    obtain ⟨hleft, rfl⟩ := hleaves hquiet h
    exact hleft
  · rintro w e w' - hquiet (⟨rfl, -⟩ | ⟨choice, r, h⟩)
    · exact hquiet
    · exact (hleaves hquiet h).1.1

theorem releasePubsub_rule :
    Triple cfg g horderly p c (Quiet p) RedisLock.releasePubsub
      fun _ w => (w.attributes p).pubsub = none ∧ Quiet p w := by
  refine Hoare.bind (pubsub_rule fun _ h => h) fun v => ?_
  cases v with
  | none => exact Hoare.pure fun _ _ h => h
  | some connection =>
      refine Hoare.bind (unsubscribe_rule.of_pre fun _ _ h => h.2) fun _ => ?_
      refine Hoare.bind (free_rule trivial (fun _ => trivial) fun _ h => h.1) fun _ => ?_
      exact (setPubsub_rule none).of_pre fun _ _ h => ⟨h.1, fun _ => h.2⟩

theorem releaseConnection_rule (self : RedisLock) {P : World ι → Prop}
    [(ctx cfg g horderly p c).Stable P] (hquiet : ∀ w, P w → Quiet p w) :
    Triple cfg g horderly p c P self.releaseConnection fun _ => P := by
  unfold RedisLock.releaseConnection
  split
  · refine Hoare.bind (free_rule trivial (fun _ => trivial) hquiet) fun v => ?_
    cases v with
    | none => exact Hoare.pure fun _ _ h => h
    | some connection =>
        refine Hoare.bind (free_rule trivial (fun _ => trivial) hquiet) fun _ => ?_
        exact free_rule trivial (fun _ => trivial) hquiet
  · exact Hoare.pure fun _ _ h => h

/-- After a release the lock stores no subscription. -/
theorem release_rule (self : RedisLock) :
    Triple cfg g horderly p c (Quiet p) self.release
      fun _ w => (w.attributes p).pubsub = none ∧ Quiet p w := by
  refine Hoare.bind (free_rule trivial (fun _ => trivial) fun _ h => h) fun _ => ?_
  refine Hoare.bind releaseThread_rule fun _ => ?_
  refine Hoare.bind releasePubsub_rule fun _ => ?_
  exact releaseConnection_rule self fun _ h => h.2

/-! ## Subscribing -/

theorem getConnection_rule {P : World ι → Prop} [(ctx cfg g horderly p c).Stable P]
    (hquiet : ∀ w, P w → Quiet p w) :
    Triple cfg g horderly p c P RedisLock.getConnection fun _ => P := by
  refine Hoare.bind (free_rule trivial (fun _ => trivial) hquiet) fun v => ?_
  cases v with
  | some connection => exact Hoare.pure fun _ _ h => h
  | none =>
      refine Hoare.bind (free_rule trivial (fun _ => trivial) hquiet) fun connection => ?_
      refine Hoare.bind (free_rule trivial (fun _ => trivial) hquiet) fun _ => ?_
      exact Hoare.pure fun _ _ h => h

/-- The SUBSCRIBE may still be on its way. -/
theorem subscribe_rule (connection : Connection) :
    Triple cfg g horderly p c (fun w => (w.attributes p).pubsub = some connection ∧ Quiet p w)
      (perform .subscribe) fun _ => Quiet p := by
  have hsubscribes : ∀ {choice w r w'}, Quiet p w → act choice p w .subscribe = some (r, w') →
      Quiet p w' ∧ r = .ok () := by
    intro choice w r w' hquiet h
    simp only [act, Option.some.injEq, Prod.mk.injEq] at h
    obtain ⟨rfl, rfl⟩ := h
    refine ⟨?_, rfl⟩
    split
    · exact hquiet
    · split
      · exact hquiet
      · exact hquiet
  refine op_rule ?_ ?_ ?_
  · rintro w - ⟨hpubsub, -⟩ hnone
    rw [hpubsub] at hnone
    cases hnone
  · rintro w choice r w' - ⟨-, hquiet⟩ h
    obtain ⟨hdone, rfl⟩ := hsubscribes hquiet h
    exact hdone
  · rintro w e w' - ⟨-, hquiet⟩ (⟨rfl, -⟩ | ⟨choice, r, h⟩)
    · exact hquiet
    · exact (hsubscribes hquiet h).1

theorem startSubscription_rule (self : RedisLock) (connection : Connection) :
    Triple cfg g horderly p c (fun w => (w.attributes p).pubsub = none ∧ Quiet p w)
      (self.startSubscription connection) fun _ => Quiet p := by
  refine Hoare.bind ((setPubsub_rule (some connection)).of_pre fun _ _ h =>
    ⟨h.2, fun hnone => by cases hnone⟩) fun _ => ?_
  refine Hoare.tryCatch (F := fun _ => Quiet p) ?_ fun e => ?_
  · refine Hoare.bind (free_rule trivial (fun _ => trivial) fun _ h => h.2) fun _ => ?_
    refine Hoare.bind (free_rule trivial (fun _ => trivial) fun _ h => h.2) fun _ => ?_
    refine Hoare.bind (subscribe_rule connection) fun _ => ?_
    refine Hoare.bind (free_rule trivial (fun _ => trivial) fun _ h => h) fun _ => ?_
    refine Hoare.bind (free_rule trivial (fun _ => trivial) fun _ h => h) fun _ => ?_
    exact free_rule trivial (fun _ => trivial) fun _ h => h
  · split
    · exact Hoare.bind (release_rule self) fun _ => Hoare.throw fun _ _ h => h.2
    · exact Hoare.throw fun _ _ h => h

theorem ensureSubscription_rule (self : RedisLock) (connection : Connection) :
    Triple cfg g horderly p c (Quiet p) (self.ensureSubscription connection)
      fun _ => Quiet p := by
  refine Hoare.bind (pubsub_rule fun _ h => h) fun v => ?_
  cases v with
  | some connection' => exact Hoare.pure fun w _ h => h.2
  | none => exact startSubscription_rule self connection

/-- The count that starts an attempt: the lock is among those it counts. -/
theorem count_rule :
    Triple cfg g horderly p c (Quiet p) (perform (.subscriberCount false))
      fun n w => Quiet p w ∧ Counted p n w := by
  have hcounts : ∀ {choice w r w'}, act choice p w (.subscriberCount false) = some (r, w') →
      w' = w.count p ∧ r = .ok w.subscribers.length := by
    intro choice w r w' h
    simp only [act, Option.some.injEq, Prod.mk.injEq] at h
    exact ⟨h.2.symm, h.1.symm⟩
  refine channel_rule (fun _ _ h => h) ?_ ?_
  · intro (w : World ι) choice r w' _ hquiet hg h
    obtain ⟨rfl, rfl⟩ := hcounts h
    have hmem : .lock p ∈ w.subscribers := (horderly _ _ _ _ hg).2
    refine ⟨hquiet, by simpa using hmem, by simp, fun hone q hq => ?_⟩
    obtain ⟨s, hs⟩ := List.length_eq_one_iff.1 hone
    have hq : .lock q ∈ w.subscribers := by simpa using hq
    rw [hs, List.mem_singleton] at hmem hq
    exact Subscriber.lock.inj (hq.trans hmem.symm)
  · rintro w e w' - hquiet (⟨rfl, -⟩ | ⟨choice, r, h⟩)
    · exact hquiet
    · obtain ⟨rfl, -⟩ := hcounts h
      exact hquiet

/-! ## The probe -/

section Loop

variable {W : Type} {C : Context W Op fun o => Except Exc (Val o)} {σ α : Type}
  {I : σ → W → Prop} {Q : α → W → Prop} {E : Exc → W → Prop}
  [∀ s, C.Stable (I s)] [∀ a, C.Stable (Q a)] [∀ e, C.Stable (E e)]

/-- The outcome of a round or of a loop: a value, or another round from a state. -/
def Goes (Q : α → W → Prop) (I : σ → W → Prop) : α ⊕ σ → W → Prop
  | .inl a => Q a
  | .inr s => I s

instance stable_goes (r : α ⊕ σ) : C.Stable (Goes Q I r) := by
  cases r with
  | inl a => exact inferInstanceAs (Context.Stable _ (Q a))
  | inr s => exact inferInstanceAs (Context.Stable _ (I s))

/-- The operations of the generator itself. -/
def Waits : Op → Prop
  | .attempts _ | .sleep _ => True
  | _ => False

theorem again_rule {interval : Rat} {body : σ → Py (α ⊕ σ)}
    (hwait : ∀ s o, Waits o → Hoare C (I s) (perform o) (fun _ => I s) E)
    (hbody : ∀ s, Hoare C (I s) (body s) (Goes Q I) E) (remaining : Nat) (s : σ) :
    Hoare C (I s) (RedisLock.timeoutGenerator.again interval body remaining s) (Goes Q I) E := by
  induction remaining generalizing s with
  | zero => exact Hoare.pure fun _ _ h => h
  | succ remaining ih =>
      refine Hoare.bind (hwait s _ trivial) fun _ => ?_
      refine Hoare.bind (hbody s) fun r => ?_
      cases r with
      | inl a => exact Hoare.pure fun _ _ h => h
      | inr s => exact ih s

/-- `for _ in self._timeout_generator(...)`. -/
theorem timeoutGenerator_rule (self : RedisLock) {timeout checkInterval : Rat}
    {body : σ → Py (α ⊕ σ)}
    (hwait : ∀ s o, Waits o → Hoare C (I s) (perform o) (fun _ => I s) E)
    (hbody : ∀ s, Hoare C (I s) (body s) (Goes Q I) E) (s : σ) :
    Hoare C (I s) (self.timeoutGenerator timeout checkInterval body s) (Goes Q I) E :=
  Hoare.bind (hwait s _ trivial) fun more => again_rule hwait hbody (more + 1) s

/-- Waiting is neutral. -/
theorem wait_rule {P : World ι → Prop} {F : Exc → World ι → Prop}
    [(ctx cfg g horderly p c).Stable P] [∀ e, (ctx cfg g horderly p c).Stable (F e)]
    (hraise : ∀ e w, P w → F e w) (o : Op) (ho : Waits o) :
    Hoare (ctx cfg g horderly p c) P (perform o) (fun _ => P) F := by
  cases o with
  | attempts _ | sleep _ => exact neutral_rule trivial (fun _ _ _ => trivial) hraise
  | _ => exact ho.elim

end Loop

/-- What `get_message` can return. -/
theorem receive_cases {choice : Choice ι} {w w' : World ι} {r : Except Exc (Option Message)}
    (h : act choice p w .getMessage = some (r, w')) :
    (w' = w.listen p ∧ (r = .ok none ∨ r = .ok (some .subscribed))) ∨
      ∃ s data, w.mail p s = .answered data ∧ r = .ok (some (.reply data)) ∧
        w' = (w.setMail p s .read).listen p := by
  simp only [act, receive] at h
  split at h
  · simp only [Option.some.injEq, Prod.mk.injEq] at h
    exact Or.inl ⟨h.2.symm, Or.inl h.1.symm⟩
  · simp only [Option.ite_none_right_eq_some, Option.some.injEq, Prod.mk.injEq] at h
    exact Or.inl ⟨h.2.2.symm, Or.inr h.2.1.symm⟩
  · split at h
    · simp only [Option.some.injEq, Prod.mk.injEq] at h
      exact Or.inr ⟨_, _, ‹_›, h.1.symm, h.2.symm⟩
    · cases h

/-- Before the ping only the confirmation can arrive. -/
theorem awaitConfirmation_rule {P : World ι → Prop} [(ctx cfg g horderly p c).Stable P] (u : Unit) :
    Hoare (ctx cfg g horderly p c) (fun w => Quiet p w ∧ P w) (RedisLock.awaitConfirmation u)
      (Goes (fun _ w => Quiet p w ∧ P w) fun _ w => Quiet p w ∧ P w) fun _ _ => True := by
  have hget : Hoare (ctx cfg g horderly p c) (fun w => Quiet p w ∧ P w) (perform .getMessage)
      (fun _ w => Quiet p w ∧ P w) fun _ _ => True := by
    have hstable : (ctx cfg g horderly p c).Stable fun w => Quiet p w ∧ P w := inferInstance
    refine op_rule (fun _ _ _ => trivial) ?_ (fun _ _ _ _ _ _ => trivial)
    intro w choice r w' hw hp h
    rcases receive_cases h with ⟨rfl, rfl | rfl⟩ | ⟨s, data, hm, -, -⟩
    · exact hstable.keep hw hw.listen .listen hp
    · exact hstable.keep hw hw.listen .listen hp
    · have hidle := hp.1 s
      rw [hm] at hidle
      cases hidle
  refine Hoare.bind hget fun message => ?_
  cases message with
  | none => exact Hoare.pure fun _ _ h => h
  | some message =>
      cases message with
      | subscribed => exact Hoare.pure fun _ _ h => h
      | reply data => exact Hoare.pure fun _ _ h => h

/-- One more record. -/
theorem Heard.read {w : World ι} {holders : List RedisLockHolder} {s : Subscriber ι}
    {data : Option Json} (h : Sound cfg w) (hheard : Heard cfg p holders w)
    (hm : w.mail p s = .answered data) (legacyIndex : Nat) :
    Heard cfg p (upsert (parseLockResponse data legacyIndex) holders) (w.setMail p s .read) := by
  obtain ⟨hnamed, readers, hnodup, hlength, hread, hlisted⟩ := hheard
  obtain ⟨holder, hholder⟩ : ∃ holder, holder = parseLockResponse data legacyIndex := ⟨_, rfl⟩
  rw [← hholder]
  have hnew : s ∉ readers := fun hs => by
    rw [(hread s hs).1] at hm
    cases hm
  refine ⟨fun other hmem => ?_, s :: readers, List.nodup_cons.2 ⟨hnew, hnodup⟩, ?_, ?_, ?_⟩
  · rcases mem_of_mem_upsert hmem with rfl | hold
    · rw [hholder]
      exact parseLockResponse_legacy data legacyIndex
    · exact hnamed other hold
  · have := length_upsert_le holder holders
    simp only [List.length_cons]
    omega
  · intro t ht
    by_cases hts : t = s
    · subst hts
      exact ⟨by simp, h.mail (by rw [hm]; rfl)⟩
    · have hold := hread t ((List.mem_cons.1 ht).resolve_left hts)
      exact ⟨by simpa [hts] using hold.1, hold.2⟩
  · intro hids q hq
    rcases List.mem_cons.1 hq with rfl | hold
    · obtain ⟨m, rfl, hhad⟩ := h.answered hm
      have hmem : ⟨(cfg.lock q).holderId, m, false⟩ ∈ upsert holder holders := by
        simpa [hholder, parseLockResponse] using mem_upsert_self holder holders
      exact Or.inl fun hs => ⟨m, hhad hs, hmem⟩
    · by_cases hid : (cfg.lock q).holderId = holder.holderId
      · -- a record with the id of another lock has a made-up id
        cases s with
        | lock r =>
            obtain ⟨m, rfl, -⟩ := h.answered hm
            have heq : (cfg.lock q).holderId = (cfg.lock r).holderId := by
              simpa [hholder, parseLockResponse] using hid
            exact absurd (hids q r heq ▸ hold) hnew
        | stranger n =>
            have heq : holder = ⟨(cfg.lock q).holderId, .exclusive, true⟩ := by
              rw [hid]
              simp [hholder, parseLockResponse, h.stranger hm]
            refine Or.inr ?_
            unfold Overwritten
            rw [← heq]
            exact mem_upsert_self holder holders
      · refine (hlisted hids q hold).imp (fun hrecord hs => ?_) fun hlegacy => ?_
        · obtain ⟨m, hhad, hmem⟩ := hrecord hs
          exact ⟨m, hhad, mem_upsert_of_ne hmem hid⟩
        · exact mem_upsert_of_ne hlegacy hid

/-- The records after another message. -/
def heardIn (state : List RedisLockHolder × Nat) : Option Message → List RedisLockHolder
  | some (.reply data) => upsert (parseLockResponse data state.2) state.1
  | _ => state.1

/-- One round of the collection. -/
theorem collectReply_rule (n expected : Nat)
    (state : List RedisLockHolder × Nat) :
    Hoare (ctx cfg g horderly p c) (fun w => Reached p n w ∧ Heard cfg p state.1 w)
      (RedisLock.collectReply expected state)
      (Goes (fun holders w => Reached p n w ∧ Heard cfg p holders w)
        fun state w => Reached p n w ∧ Heard cfg p state.1 w) fun _ _ => True := by
  have hget : Hoare (ctx cfg g horderly p c) (fun w => Reached p n w ∧ Heard cfg p state.1 w)
      (perform .getMessage)
      (fun message w => Reached p n w ∧ Heard cfg p (heardIn state message) w)
      fun _ _ => True := by
    refine op_rule (fun _ _ _ => trivial) ?_ (fun _ _ _ _ _ _ => trivial)
    intro w choice r w' hw hp h
    rcases receive_cases h with ⟨rfl, rfl | rfl⟩ | ⟨s, data, hm, rfl, rfl⟩
    · exact hp
    · exact hp
    · exact ⟨hp.1, hp.2.read hw hm state.2⟩
  refine Hoare.bind hget fun message => ?_
  cases message with
  | none => exact Hoare.pure fun _ _ h => h
  | some message =>
      cases message with
      | subscribed => exact Hoare.pure fun _ _ h => h
      | reply data =>
          dsimp only
          split
          · exact Hoare.pure fun _ _ h => h
          · exact Hoare.pure fun _ _ h => h

/-- The ping. -/
theorem publish_rule (n : Nat) :
    Hoare (ctx cfg g horderly p c) (fun w => Quiet p w ∧ Counted p n w) (perform .publish)
      (fun _ w => Reached p n w ∧ Heard cfg p [] w) fun _ _ => True := by
  refine op_rule (fun _ _ h => h.1) ?_ fun _ _ _ _ _ _ => trivial
  rintro w choice r w' hw ⟨-, hself, hcounted, -⟩ h
  simp only [act, Option.some.injEq, Prod.mk.injEq] at h
  obtain ⟨rfl, rfl⟩ := h
  refine ⟨⟨hself, hcounted, fun q hq => ?_⟩, ?_, [], List.nodup_nil, le_refl _, ?_, ?_⟩
  · simpa using hw.stayed hq
  · simp [LegacyNamed]
  · simp
  · simp

/-- When the ping reached no more subscribers than were counted, as many records as
that are the records of all of them. -/
theorem Heard.complete {w : World ι} {n : Nat} {holders : List RedisLockHolder}
    (hreached : Reached p n w) (hheard : Heard cfg p holders w)
    (hlength : n ≤ holders.length) (hids : Distinct cfg) (htight : Tight w p) {q : ι}
    (hq : w.stayed p q = true) :
    HasRecord cfg w p q holders ∨ Overwritten cfg q holders := by
  obtain ⟨-, readers, hnodup, hle, hread, hlisted⟩ := hheard
  have hsub : readers ⊆ w.pinged p := fun s hs => (hread s hs).2
  have hlen : (w.pinged p).length ≤ readers.length :=
    calc (w.pinged p).length ≤ w.counted p := htight
      _ = n := hreached.2.1
      _ ≤ holders.length := hlength
      _ ≤ readers.length := hle
  have hperm : readers.Perm (w.pinged p) := (List.subperm_of_subset hnodup hsub).perm_of_length_le hlen
  exact (hlisted hids q (hperm.mem_iff.2 (hreached.2.2 q hq))).imp_left fun hrecord => hrecord hq

/-- The count that ends a probe. -/
theorem recount_rule (n : Nat) (holders : List RedisLockHolder) :
    Hoare (ctx cfg g horderly p c) (fun w => Reached p n w ∧ Heard cfg p holders w)
      (perform (.subscriberCount true)) (fun _ => Recounted cfg p n holders) fun _ _ => True := by
  refine op_rule (fun _ _ _ => trivial) ?_ fun _ _ _ _ _ _ => trivial
  rintro w choice r w' hw ⟨hreached, hheard⟩ h
  simp only [act, if_true, Option.some.injEq, Prod.mk.injEq] at h
  obtain ⟨rfl, rfl⟩ := h
  refine ⟨hreached.1, by simpa using hreached.1, fun q hq => by simpa using hq, hheard.1,
    fun hlength hids htight q hq => ?_⟩
  exact hheard.complete hreached hlength hids htight (by simpa using hq)

theorem killClients_rule (self : RedisLock) {P : World ι → Prop}
    [(ctx cfg g horderly p c).Stable P] (respondingHolders : List RedisLockHolder)
    (clients : List Client) :
    Hoare (ctx cfg g horderly p c) P (self.killClients respondingHolders clients) (fun _ => P)
      fun _ _ => True := by
  induction clients with
  | nil => exact Hoare.pure fun _ _ h => h
  | cons client rest ih =>
      unfold RedisLock.killClients
      split
      · exact Hoare.bind (neutral_rule trivial (fun _ _ _ => trivial) fun _ _ _ => trivial)
          fun _ => ih
      · exact ih

theorem concludeProbe_rule (self : RedisLock) (n : Nat) (holders : List RedisLockHolder) :
    Hoare (ctx cfg g horderly p c) (fun w => Reached p n w ∧ Heard cfg p holders w)
      (self.concludeProbe n holders) (fun view w => Concluded cfg p w view) fun _ _ => True := by
  refine Hoare.bind (recount_rule n holders) fun current => ?_
  split
  · exact Hoare.pure fun _ _ h => h.1
  · split
    · refine Hoare.bind (R := fun _ => Recounted cfg p n holders) ?_ fun _ =>
        Hoare.pure fun _ _ h => h.1
      exact Hoare.bind (neutral_rule trivial (fun _ _ _ => trivial) fun _ _ _ => trivial)
        fun clients => killClients_rule self holders clients
    · have hlength : n ≤ holders.length := Nat.le_of_not_lt ‹_›
      refine Hoare.bind (R := fun _ => Recounted cfg p n holders) (neutral_rule trivial ?_
        fun _ _ _ => trivial) fun _ => Hoare.pure fun w _ h => ?_
      · exact fun w _ h => ⟨h.2.1, h.2.2.2.1, h.2.2.2.2 hlength⟩
      · exact ⟨h.1, h.2.1, h.2.2.1, h.2.2.2.1, fun _ => h.2.2.2.2 hlength⟩

theorem collectLockHolders_rule (self : RedisLock) (n : Nat) (timeout : Rat) :
    Triple cfg g horderly p c (fun w => Quiet p w ∧ Counted p n w)
      (self.collectLockHolders n timeout) fun view w => Quiet p w ∧ Concluded cfg p w view := by
  have hclose : ∀ {P : World ι → Prop} [(ctx cfg g horderly p c).Stable P],
      (∀ w, P w → P (w.closeProbe p)) →
      Triple cfg g horderly p c P (perform .closeProbe) fun _ w => Quiet p w ∧ P w := by
    intro P _ hP
    have hcloses : ∀ {choice w r w'}, act choice p w .closeProbe = some (r, w') →
        w' = w.closeProbe p ∧ r = .ok () := by
      intro choice w r w' h
      simp only [act, Option.some.injEq, Prod.mk.injEq] at h
      exact ⟨h.2.symm, h.1.symm⟩
    have hquiet : ∀ w : World ι, Quiet p (w.closeProbe p) := fun w s => by simp [Stage.isIdle]
    refine op_rule (fun _ _ _ => trivial) ?_ ?_
    · intro w choice r w' _ hp h
      obtain ⟨rfl, rfl⟩ := hcloses h
      exact ⟨hquiet w, hP w hp⟩
    · rintro w e w' - hp (⟨-, hnot⟩ | ⟨choice, r, h⟩)
      · cases hnot
      · exact (hcloses h).1 ▸ hquiet w
  refine Hoare.bind (R := fun (r : Option (List RedisLockHolder) × Unit) w =>
      Quiet p w ∧ Concluded cfg p w r.1)
    (Hoare.withFinally (R := fun view w => Concluded cfg p w view) (F := fun _ _ => True) ?_ ?_ ?_)
    fun r => Hoare.pure fun _ _ h => h
  · refine Hoare.bind (R := fun _ w => Quiet p w ∧ Counted p n w)
      (neutral_rule trivial (fun _ _ _ => trivial) fun _ _ _ => trivial) fun _ => ?_
    refine Hoare.bind (timeoutGenerator_rule self (I := fun _ w => Quiet p w ∧ Counted p n w)
      (Q := fun _ w => Quiet p w ∧ Counted p n w) (fun _ => wait_rule fun _ _ _ => trivial)
      awaitConfirmation_rule ()) fun r => ?_
    refine Hoare.bind ((publish_rule n).of_pre fun w _ h => ?_) fun _ => ?_
    · cases r with
      | inl _ => exact h
      | inr _ => exact h
    · refine Hoare.bind ((timeoutGenerator_rule self
        (I := fun state w => Reached p n w ∧ Heard cfg p state.1 w)
        (Q := fun holders w => Reached p n w ∧ Heard cfg p holders w)
        (fun _ => wait_rule fun _ _ _ => trivial) (collectReply_rule n n) ([], 0))) fun r => ?_
      cases r with
      | inl holders => exact concludeProbe_rule self n holders
      | inr state => exact concludeProbe_rule self n state.1
  · intro view
    refine hclose fun w h => ?_
    cases view with
    | none => exact h
    | some holders => exact h
  · exact fun e => (hclose fun _ _ => trivial).of_post fun _ _ _ h => h.1

/-! ## The decision -/

/-- The decision to take the lock. -/
theorem won_rule (view : Option (List RedisLockHolder)) {P : World ι → Prop}
    [(ctx cfg g horderly p c).Stable P]
    (hP : ∀ w, Sound cfg w → P w → Quiet p w ∧ Permitted cfg p w (.won view)) :
    Triple cfg g horderly p c P (perform (.won view))
      fun _ w => Quiet p w ∧ w.owns p = true := by
  have hwins : ∀ {choice w r w'}, Sound cfg w → P w → act choice p w (.won view) = some (r, w') →
      (Quiet p w' ∧ w'.owns p = true) ∧ r = .ok () := by
    intro choice w r w' hw hp h
    simp only [act, Option.some.injEq, Prod.mk.injEq] at h
    obtain ⟨rfl, rfl⟩ := h
    exact ⟨⟨(hP w hw hp).1, by simp⟩, rfl⟩
  refine op_rule (fun w hw hp => (hP w hw hp).2) ?_ ?_
  · intro w choice r w' hw hp h
    obtain ⟨hwon, rfl⟩ := hwins hw hp h
    exact hwon
  · rintro w e w' hw hp (⟨rfl, -⟩ | ⟨choice, r, h⟩)
    · exact (hP w' hw hp).1
    · exact (hwins hw hp h).1.1

/-- The owner announces itself. -/
theorem setExclusive_rule (hflags : (cfg.lock p).flags = EXCLUSIVE) :
    Triple cfg g horderly p c (fun w => Quiet p w ∧ w.owns p = true)
      (perform (.setMode .exclusive)) fun _ => Quiet p := by
  have hkeeps : Triple cfg g horderly p c (fun w => Quiet p w ∧ w.owns p = true)
      (perform (.setMode .exclusive)) fun _ w => Quiet p w ∧ w.owns p = true :=
    neutral_rule trivial (fun _ _ h => ⟨hflags, Or.inr ⟨rfl, h.2⟩⟩) fun _ _ h => h.1
  exact hkeeps.of_post fun _ _ _ h => h.1

theorem takeAlone_rule :
    Triple cfg g horderly p c (fun w => Quiet p w ∧ Counted p 1 w) (cfg.lock p).takeAlone
      fun _ => Quiet p := by
  refine Hoare.bind (won_rule none fun w hw h => ⟨h.1, h.2.1, h.2.2.2 rfl⟩) fun _ => ?_
  split
  · exact Hoare.bind (setExclusive_rule ‹_›) fun _ => Hoare.pure fun _ _ h => h
  · exact Hoare.pure fun _ _ h => h.1

/-- Giving the attempt up. -/
theorem backOff_rule (self : RedisLock) (failWhenLocked : Bool) :
    Triple cfg g horderly p c (Quiet p) (self.backOff failWhenLocked) fun _ => Quiet p := by
  refine Hoare.bind (release_rule self) fun _ => ?_
  split
  · exact Hoare.throw fun _ _ h => h.2
  · exact Hoare.pure fun _ _ h => h.2

theorem takeElected_rule {holders : List RedisLockHolder} (failWhenLocked : Bool)
    (hflags : (cfg.lock p).flags = EXCLUSIVE)
    (helected : (cfg.lock p).writerIsElected holders = true) :
    Triple cfg g horderly p c (fun w => Quiet p w ∧ Concluded cfg p w (some holders))
      ((cfg.lock p).takeElected holders failWhenLocked) fun _ => Quiet p := by
  refine Hoare.bind (free_rule trivial (fun _ => trivial) fun _ h => h.1) fun _ => ?_
  split
  · exact Hoare.bind ((release_rule _).of_pre fun _ _ h => h.1) fun _ =>
      Hoare.throw fun _ _ h => h.2
  · split
    · exact Hoare.pure fun _ _ h => h.1
    · have hshared := Bool.eq_false_iff.2 ‹¬ RedisLock.anyShared holders = true›
      refine Hoare.bind (won_rule (some holders) fun w _ h => ?_) fun _ => ?_
      · obtain ⟨hquiet, hself, -, hsub, -, hcovers⟩ := h
        exact ⟨hquiet, hself, hsub, Or.inr ⟨hflags, helected, hshared⟩, hcovers (Nat.zero_le _)⟩
      · exact Hoare.bind (setExclusive_rule hflags) fun _ => Hoare.pure fun _ _ h => h

theorem resolveLockHolders_rule (view : Option (List RedisLockHolder)) (failWhenLocked : Bool) :
    Triple cfg g horderly p c (fun w => Quiet p w ∧ Concluded cfg p w view)
      ((cfg.lock p).resolveLockHolders view failWhenLocked) fun _ => Quiet p := by
  cases view with
  | none =>
      refine Hoare.bind (free_rule trivial (fun _ => trivial) fun _ h => h.1) fun elected => ?_
      cases elected with
      | true => exact Hoare.pure fun _ _ h => h.1
      | false => exact (backOff_rule _ failWhenLocked).of_pre fun _ _ h => h.1
  | some holders =>
      unfold RedisLock.resolveLockHolders
      dsimp only
      split
      · refine Hoare.bind (won_rule (some holders) fun w _ h => ?_) fun _ =>
          Hoare.pure fun _ _ h => h.1
        obtain ⟨hquiet, hself, -, hsub, -, hcovers⟩ := h
        exact ⟨hquiet, hself, hsub, Or.inl ‹_›, hcovers (Nat.zero_le _)⟩
      · split
        · have helected := Bool.and_eq_true_iff.1 ‹(_ && _) = true›
          exact takeElected_rule failWhenLocked (of_decide_eq_true helected.1) helected.2
        · exact (backOff_rule _ failWhenLocked).of_pre fun _ _ h => h.1

theorem takeOrProbe_rule (failWhenLocked : Bool) (subscribers : Nat) :
    Triple cfg g horderly p c (fun w => Quiet p w ∧ Counted p subscribers w)
      ((cfg.lock p).takeOrProbe failWhenLocked subscribers) fun _ => Quiet p := by
  unfold RedisLock.takeOrProbe
  split
  · subst subscribers
    exact takeAlone_rule
  · exact Hoare.bind (collectLockHolders_rule _ subscribers _) fun view =>
      resolveLockHolders_rule view failWhenLocked

/-! ## The calls -/

/-- One round of `acquire`. -/
theorem attempt_rule (connection : Connection) (failWhenLocked : Bool)
    (u : Unit) :
    Triple cfg g horderly p c (Quiet p) ((cfg.lock p).attempt connection failWhenLocked u)
      (Goes (fun _ => Quiet p) fun _ => Quiet p) := by
  refine Hoare.bind (ensureSubscription_rule _ connection) fun _ => ?_
  refine Hoare.bind count_rule fun subscribers => ?_
  refine Hoare.bind (takeOrProbe_rule failWhenLocked subscribers) fun held => ?_
  cases held with
  | true => exact Hoare.pure fun _ _ h => h
  | false => exact Hoare.pure fun _ _ h => h

theorem resetWriter_rule :
    Triple cfg g horderly p c (fun w => (w.attributes p).pubsub = none ∧ Quiet p w)
      (cfg.lock p).resetWriter fun _ w => (w.attributes p).pubsub = none ∧ Quiet p w := by
  unfold RedisLock.resetWriter
  split
  · refine Hoare.bind (neutral_rule trivial (fun w hw h => ?_) fun _ _ h => h.2) fun _ => ?_
    · exact ⟨‹_›, Or.inl ⟨rfl, hw.pubsub h.1⟩⟩
    · exact free_rule trivial (fun _ => trivial) fun _ h => h.2
  · exact Hoare.pure fun _ _ h => h

theorem acquire_rule (timeout checkInterval : Option Rat)
    (failWhenLocked : Option Bool) :
    Triple cfg g horderly p c (Quiet p)
      ((cfg.lock p).acquire timeout checkInterval failWhenLocked) fun _ => Quiet p := by
  refine Hoare.bind (pubsub_rule fun _ h => h) fun v => ?_
  cases v with
  | some connection => exact Hoare.throw fun _ _ h => h.2
  | none =>
      refine Hoare.bind resetWriter_rule fun _ => ?_
      refine Hoare.bind (getConnection_rule fun _ h => h.2) fun connection => ?_
      refine Hoare.bind ((timeoutGenerator_rule (cfg.lock p) (I := fun _ => Quiet p)
        (Q := fun _ => Quiet p) (fun _ => wait_rule fun _ _ h => h)
        (attempt_rule connection _) ()).of_pre fun _ _ h => h.2) fun r => ?_
      cases r with
      | inl _ => exact Hoare.pure fun _ _ h => h
      | inr _ =>
          exact Hoare.bind (release_rule _) fun _ =>
            Hoare.throw fun _ _ h => h.2

theorem observed_rule {body : Py Unit}
    (hbody : Triple cfg g horderly p c (Quiet p) body fun _ => Quiet p) :
    Triple cfg g horderly p c (Quiet p) (RedisLock.observed body) fun _ => Quiet p := by
  refine Hoare.bind (R := Ends (fun _ => Quiet p) fun _ => Quiet p) (Hoare.attempt hbody) fun r => ?_
  cases r with
  | ok _ => exact free_rule trivial (fun _ => trivial) fun _ h => h
  | error e => exact free_rule trivial (fun _ => trivial) fun _ h => h

end Triples

/-- Every call of a `RedisLock` keeps the contract. -/
theorem protocol_verified {cfg : Config ι} {g : Guard cfg.channelMachine}
    (horderly : ∀ p c o w, g.op p c o w → Orderly p w o) :
    (protocol cfg g horderly).Verified := by
  intro p (c : RedisLock.Call) w hw hidle _
  have hstable : (ctx cfg g horderly p c).Stable (Quiet p) := inferInstance
  cases c with
  | acquire timeout checkInterval failWhenLocked =>
      exact Hoare.toCall hstable (observed_rule (acquire_rule _ _ _)) hw hidle
  | release =>
      exact Hoare.toCall hstable
        (observed_rule ((release_rule (cfg.lock p)).of_post fun _ _ _ h => h.2)) hw hidle

end Portalocker.Redis
