import Portalocker.Redis.Session
set_option autoImplicit false
set_option linter.unusedSectionVars false

/-!
# The life of one lock

The methods of a `RedisLock` are executed symbolically from a given session: each
rule moves the session over one operation.
-/

namespace Portalocker.Redis

open Interleaving Interleaving.Machine

/-- The context of one call of the lock. -/
abbrev sessionContext (cfg : SessionConfig) (g : Guard cfg.machine) (c : RedisLock.Call) :
    Context Session Op (fun o => Except Exc (Val o)) :=
  (sessionContract cfg g).context () c

instance stable_session {cfg : SessionConfig} {g : Guard cfg.machine} {c : RedisLock.Call}
    (P : Session → Prop) : (sessionContext cfg g c).Stable P :=
  ⟨fun _ _ h hp => h ▸ hp⟩

/-- The code, started in session `w`, ends in `Q`, or with an exception in `E`. -/
abbrev From (cfg : SessionConfig) (g : Guard cfg.machine) (c : RedisLock.Call) (w : Session)
    {α : Type} (x : Py α) (Q : α → Session → Prop) (E : Exc → Session → Prop) : Prop :=
  Hoare (sessionContext cfg g c) (fun w' => w' = w) x Q E

section Triples

variable {cfg : SessionConfig} {g : Guard cfg.machine} {c : RedisLock.Call} {w : Session}
variable {α β : Type} {Q : α → Session → Prop} {E : Exc → Session → Prop}

/-! ## One operation -/

namespace From

theorem of_inv {x : Py α} (h : Consistent cfg w → From cfg g c w x Q E) : From cfg g c w x Q E :=
  fun w' hw' heq => h (heq ▸ hw') w' hw' heq

theorem ret {a : α} (h : Q a w) : From cfg g c w (Pure.pure a : Py α) Q E :=
  Hoare.pure fun _ _ heq => heq ▸ h

theorem raise {e : Exc} (h : E e w) : From cfg g c w (throw e : Py α) Q E :=
  Hoare.throw fun _ _ heq => heq ▸ h

/-- A triple from an assertion is one from every session that meets it. -/
theorem lift {P : Session → Prop} {x : Py α}
    (h : ∀ w, Consistent cfg w → P w → From cfg g c w x Q E) :
    Hoare (sessionContext cfg g c) P x Q E :=
  fun w hw hp => h w hw hp w hw rfl

theorem bind {x : Py β} {f : β → Py α} {R : β → Session → Prop} (hx : From cfg g c w x R E)
    (hf : ∀ b w', Consistent cfg w' → R b w' → From cfg g c w' (f b) Q E) :
    From cfg g c w (x >>= f) Q E :=
  Hoare.bind hx fun b => lift fun w' hw' h => hf b w' hw' h

/-- An operation that is not a command and whose effect does not depend on the
environment. -/
theorem exact {o : Op} {v : Val o} {w₁ : Session}
    (hact : ∀ answer, w.act c answer o = some (.ok v, w₁)) (hcommand : o.isCommand = false)
    (hpre : Consistent cfg w → Allowed cfg c w o) :
    From cfg g c w (perform o) (fun a w' => a = v ∧ w' = w₁) E := by
  have hstep : ∀ r w', (sessionContext cfg g c).step w o r w' → r = .ok v ∧ w' = w₁ := by
    rintro r w' ⟨-, answer, h⟩
    rcases SessionConfig.performOp_cases h with h | ⟨e, hraises, -⟩
    · obtain ⟨rfl, rfl⟩ := Prod.mk.inj (Option.some.inj (h.symm.trans (hact answer)))
      exact ⟨rfl, rfl⟩
    · rw [hcommand] at hraises
      cases hraises
  refine Hoare.call (fun w' hw' heq => by subst heq; exact hpre hw') ?_ ?_
  · rintro w' a w'' - - rfl hs
    exact ⟨Except.ok.inj (hstep _ _ hs).1, (hstep _ _ hs).2⟩
  · rintro w' e w'' - - rfl hs
    cases (hstep _ _ hs).1

/-- Such an operation, followed by others. -/
theorem act {o : Op} {v : Val o} {w₁ : Session} {k : Val o → Py α}
    (hact : ∀ answer, w.act c answer o = some (.ok v, w₁)) (hcommand : o.isCommand = false)
    (hpre : Consistent cfg w → Allowed cfg c w o) (hk : From cfg g c w₁ (k v) Q E) :
    From cfg g c w (perform o >>= k) Q E :=
  Hoare.bind (exact hact hcommand hpre) fun _ => Hoare.of_fact fun heq => heq ▸ hk

/-- Such an operation at the end of the code. -/
theorem last {o : Op} {Q : Val o → Session → Prop} {v : Val o} {w₁ : Session}
    (hact : ∀ answer, w.act c answer o = some (.ok v, w₁)) (hcommand : o.isCommand = false)
    (hpre : Consistent cfg w → Allowed cfg c w o) (hQ : Q v w₁) :
    From cfg g c w (perform o) Q E :=
  Hoare.of_post (exact hact hcommand hpre) fun _ _ _ h => h.1 ▸ h.2 ▸ hQ

/-- A command, which may raise before it takes effect or after it. -/
theorem command {o : Op} {v : Answer → Val o} {s : Answer → Session} {k : Val o → Py α}
    (hact : ∀ answer, w.act c answer o = some (.ok (v answer), s answer))
    (hpre : Consistent cfg w → Allowed cfg c w o)
    (hk : ∀ answer, From cfg g c (s answer) (k (v answer)) Q E)
    (hbefore : ∀ e, cfg.mayRaise o e = true → E e (w.raise o e))
    (hafter : ∀ answer e, cfg.mayRaise o e = true → E e ((s answer).raise o e)) :
    From cfg g c w (perform o >>= k) Q E := by
  have hdone : ∀ {answer r w'}, w.act c answer o = some (r, w') →
      r = .ok (v answer) ∧ w' = s answer := by
    intro answer r w' h
    obtain ⟨rfl, rfl⟩ := Prod.mk.inj (Option.some.inj (h.symm.trans (hact answer)))
    exact ⟨rfl, rfl⟩
  refine Hoare.bind (R := fun a w' => ∃ answer, a = v answer ∧ w' = s answer)
    (Hoare.call (fun w' hw' heq => by subst heq; exact hpre hw') ?_ ?_) fun a => ?_
  · rintro w' a w'' - - rfl ⟨-, answer, h⟩
    rcases SessionConfig.performOp_cases h with h | ⟨e, -, -, hr, -⟩
    · exact ⟨answer, Except.ok.inj (hdone h).1, (hdone h).2⟩
    · cases hr
  · rintro w' e w'' - - rfl ⟨-, answer, h⟩
    rcases SessionConfig.performOp_cases h with h | ⟨e', -, hraise, he, hw⟩
    · cases (hdone h).1
    · obtain rfl := Except.error.inj he
      rcases hw with rfl | ⟨r, w₂, hdoes, rfl⟩
      · exact hbefore e hraise
      · obtain ⟨-, rfl⟩ := hdone hdoes
        exact hafter answer e hraise
  · rintro w' hw' ⟨answer, rfl, rfl⟩
    exact hk answer _ hw' rfl

end From

/-! ## `release` -/

theorem MayLeave.of_eq {w' : Session} (h : MayLeave cfg w c) (howns : w'.owns = w.owns)
    (helected : w'.elected = w.elected) (hallowed : w'.allowed = w.allowed)
    (htries : w'.tries = w.tries) (hobservation : w'.observation = w.observation)
    (hsubscribed : w'.subscribed = w.subscribed) : MayLeave cfg w' c := by
  cases c with
  | acquire timeout checkInterval failWhenLocked =>
      simpa [MayLeave, howns, helected, hallowed, htries, hobservation] using h
  | release => simpa [MayLeave, howns, hobservation, hsubscribed] using h

/-- What a release leaves as it was, and what it does not. -/
structure Released (cfg : SessionConfig) (w w' : Session) : Prop where
  pubsub : w'.attributes.pubsub = none
  writerElected : w'.attributes.writerElected = false
  mode : w'.attributes.mode = w.attributes.mode
  connection : cfg.lock.closeConnection = false →
    w'.attributes.connection = w.attributes.connection
  observation : w'.observation = w.observation
  tries : w'.tries = w.tries
  allowed : w'.allowed = w.allowed
  raised : w'.raised = w.raised
  last : w'.last = w.last
  backOffs : w.attributes.pubsub ≠ none → w'.backOffs ≠ 0

theorem releaseThread_from (hthread : w.attributes.thread ≠ some .created) :
    From cfg g c w RedisLock.releaseThread
      (fun _ w' => w' = { w with attributes := { w.attributes with thread := none } }) E := by
  refine .of_inv fun hw => .act (fun _ => rfl) rfl (fun _ => trivial) ?_
  cases hsome : w.attributes.thread with
  | none =>
      refine .ret ?_
      rw [← hsome]
  | some worker =>
      have hpubsub : w.attributes.pubsub ≠ none := fun hnone => by
        rw [(hw.inactive hnone).1] at hsome
        cases hsome
      have hstop : ∀ answer, w.act c answer .stopThread =
          some (.ok (), { w with attributes := { w.attributes with thread := some .ended } }) := by
        intro answer
        simp only [Session.act, Attributes.act, if_neg hthread, Option.map_some]
      refine .act hstop rfl (fun _ => hpubsub) ?_
      refine .act (fun _ => rfl) rfl (fun _ hvalue => by cases hvalue) ?_
      exact .last (fun _ => rfl) rfl (fun _ => trivial) rfl

/-- The end of a subscription. -/
def Session.closed (w : Session) : Session :=
  { w.unsubscribe with attributes := { w.attributes with pubsub := none } }

theorem releasePubsub_from (hthread : w.attributes.thread = none)
    (helected : w.attributes.writerElected = false)
    (hleave : w.attributes.pubsub ≠ none → MayLeave cfg w c) :
    From cfg g c w RedisLock.releasePubsub
      (fun _ w' => (w.attributes.pubsub = none ∧ w' = w) ∨
        (w.attributes.pubsub ≠ none ∧ w' = w.closed)) E := by
  refine .act (fun _ => rfl) rfl (fun _ => trivial) ?_
  cases hpubsub : w.attributes.pubsub with
  | none => exact .ret (Or.inl ⟨rfl, rfl⟩)
  | some connection =>
      have hne : w.attributes.pubsub ≠ none := by simp [hpubsub]
      refine .act (fun _ => rfl) rfl (fun _ => ⟨helected, hleave hne⟩) ?_
      refine .act (fun _ => rfl) rfl (fun _ => trivial) ?_
      exact .last (fun _ => rfl) rfl (fun _ => ⟨rfl, hthread⟩) (Or.inr ⟨by simp, rfl⟩)

theorem releaseConnection_from (hpubsub : w.attributes.pubsub = none) :
    From cfg g c w cfg.lock.releaseConnection
      (fun _ w' => ∃ connection, (cfg.lock.closeConnection = false →
          connection = w.attributes.connection) ∧
        w' = { w with attributes := { w.attributes with connection := connection } }) E := by
  unfold RedisLock.releaseConnection
  split
  · have hown : cfg.lock.closeConnection ≠ false := by simp [*]
    refine .act (fun _ => rfl) rfl (fun _ => trivial) ?_
    cases hconnection : w.attributes.connection with
    | none => exact .ret ⟨none, fun _ => rfl, by rw [← hconnection]⟩
    | some connection =>
        refine .act (fun _ => rfl) rfl (fun _ => trivial) ?_
        exact .last (fun _ => rfl) rfl (fun _ => hpubsub)
          ⟨none, fun hsupplied => absurd hsupplied hown, rfl⟩
  · exact .ret ⟨w.attributes.connection, fun _ => rfl, rfl⟩

/-- A release ends the subscription and does not raise. -/
theorem release_from (hthread : w.attributes.thread ≠ some .created)
    (hleave : w.attributes.pubsub ≠ none → MayLeave cfg w c) :
    From cfg g c w cfg.lock.release (fun _ => Released cfg w) E := by
  refine .act (fun _ => rfl) rfl (fun _ => trivial) ?_
  refine .bind (releaseThread_from hthread) fun _ w₁ _ h => ?_
  subst h
  refine .bind (releasePubsub_from rfl rfl fun hne => ?_) fun _ w₂ _ h => ?_
  · exact (hleave hne).of_eq rfl (by simp) rfl rfl rfl rfl
  · rcases h with ⟨hnone, rfl⟩ | ⟨hne, rfl⟩
    · refine Hoare.of_post (releaseConnection_from hnone) fun _ w₃ _ h => ?_
      obtain ⟨connection, hconnection, rfl⟩ := h
      exact ⟨hnone, rfl, rfl, hconnection, rfl, rfl, rfl, rfl, rfl, fun h => absurd hnone h⟩
    · refine Hoare.of_post (releaseConnection_from rfl) fun _ w₃ _ h => ?_
      obtain ⟨connection, hconnection, rfl⟩ := h
      exact ⟨rfl, rfl, rfl, hconnection, rfl, rfl, rfl, rfl, rfl, fun _ => Nat.succ_ne_zero _⟩

/-! ## Loops -/

section Loop

variable {σ : Type} {I : Nat → σ → Session → Prop}

theorem again_from {interval : Rat} {body : σ → Py (α ⊕ σ)}
    (hbody : ∀ n s, Hoare (sessionContext cfg g c) (I (n + 1) s) (body s)
      (Sum.elim Q (I n)) E) (n : Nat) (s : σ) :
    Hoare (sessionContext cfg g c) (I n s) (RedisLock.timeoutGenerator.again interval body n s)
      (Sum.elim Q (I 0)) E := by
  induction n generalizing s with
  | zero => exact Hoare.pure fun _ _ h => h
  | succ n ih =>
      refine From.lift fun w _ h => .act (fun _ => rfl) rfl (fun _ => trivial) ?_
      refine .bind ((hbody n s).of_pre fun w' _ heq => by subst heq; exact h) fun r w' hw' h' => ?_
      cases r with
      | inl a => exact .ret h'
      | inr s => exact (ih s).of_pre fun w'' _ heq => by subst heq; exact h'

/-- `for _ in self._timeout_generator(...)`: the deadline of the call is the one of
its first loop. -/
theorem timeoutGenerator_from {self : RedisLock} {timeout checkInterval : Rat}
    {body : σ → Py (α ⊕ σ)} {s : σ}
    (hbody : ∀ n s, Hoare (sessionContext cfg g c) (I (n + 1) s) (body s) (Sum.elim Q (I n)) E)
    (hstart : ∀ more, I (more + 1) s { w with allowed := some (w.allowed.getD (more + 1)) }) :
    From cfg g c w (self.timeoutGenerator timeout checkInterval body s) (Sum.elim Q (I 0)) E := by
  have hstep : ∀ r w', (sessionContext cfg g c).step w (.attempts timeout) r w' →
      ∃ more, r = .ok more ∧ I (more + 1) s w' := by
    rintro r w' ⟨-, answer, h⟩
    rcases SessionConfig.performOp_cases h with h | ⟨e, hraises, -⟩
    · simp only [Session.act, Option.ite_none_left_eq_some, Option.some.injEq,
        Prod.mk.injEq] at h
      obtain ⟨-, rfl, rfl⟩ := h
      exact ⟨answer.count, rfl, hstart _⟩
    · cases hraises
  refine Hoare.bind (R := fun more => I (more + 1) s)
    (Hoare.call (fun _ _ _ => trivial) ?_ ?_) fun more => again_from hbody (more + 1) s
  · rintro w' v w'' - - rfl hs
    obtain ⟨more, heq, h⟩ := hstep _ _ hs
    obtain rfl := Except.ok.inj heq
    exact h
  · rintro w' e w'' - - rfl hs
    obtain ⟨more, heq, -⟩ := hstep _ _ hs
    cases heq

end Loop

/-! ## The probe -/

/-- Only what has been observed differs. -/
def Probed (w w' : Session) : Prop := ∃ observation, w' = { w with observation := observation }

/-- A command has raised that does not start a subscription. -/
def Broken (cfg : SessionConfig) (w : Session) (e : Exc) (w' : Session) : Prop :=
  ∃ o w'', Probed w w'' ∧ w' = w''.raise o e ∧ o.startsSubscription = false ∧
    cfg.mayRaise o e = true

theorem Probed.refl (w : Session) : Probed w w := ⟨w.observation, rfl⟩

theorem Probed.trans {w₁ w₂ w₃ : Session} (h : Probed w₁ w₂) (h' : Probed w₂ w₃) :
    Probed w₁ w₃ := by
  obtain ⟨_, rfl⟩ := h
  obtain ⟨observation, rfl⟩ := h'
  exact ⟨observation, rfl⟩

/-- The operations of a probe. -/
def Op.probes : Op → Bool
  | .subscriberCount true | .subscribeResponse | .getMessage | .closeProbe | .publish
  | .clientList | .clientKill _ => true
  | _ => false

theorem Session.act_probed {o : Op} {answer : Answer} {r : Except Exc (Val o)} {w' : Session}
    (hprobes : o.probes = true) (h : w.act c answer o = some (r, w')) :
    (∃ v, r = .ok v) ∧ Probed w w' := by
  cases o with
  | subscriberCount again =>
      cases again with
      | false => cases hprobes
      | true =>
          simp only [Session.act, Option.some.injEq, Prod.mk.injEq] at h
          obtain ⟨rfl, rfl⟩ := h
          exact ⟨⟨_, rfl⟩, .refl w⟩
  | getMessage | closeProbe | publish | clientList | clientKill =>
      simp only [Session.act, Option.some.injEq, Prod.mk.injEq] at h
      obtain ⟨rfl, rfl⟩ := h
      exact ⟨⟨_, rfl⟩, .refl w⟩
  | subscribeResponse =>
      simp only [Session.act, Option.some.injEq, Prod.mk.injEq] at h
      obtain ⟨rfl, rfl⟩ := h
      exact ⟨⟨_, rfl⟩, ⟨_, rfl⟩⟩
  | _ => cases hprobes

theorem Op.probes_spec {o : Op} (h : o.probes = true) :
    o.startsSubscription = false ∧
      ∀ (cfg : SessionConfig) (c : RedisLock.Call) (w : Session), Allowed cfg c w o := by
  cases o with
  | subscriberCount again =>
      cases again with
      | false => cases h
      | true => exact ⟨rfl, fun _ _ _ => trivial⟩
  | getMessage | closeProbe | publish | clientList | clientKill | subscribeResponse =>
      exact ⟨rfl, fun _ _ _ => trivial⟩
  | _ => cases h

variable {w₀ : Session}

/-- An operation of the probe. -/
theorem probe_rule {o : Op} (hprobes : o.probes = true) :
    Hoare (sessionContext cfg g c) (Probed w₀) (perform o) (fun _ => Probed w₀)
      (Broken cfg w₀) := by
  obtain ⟨hstart, hfree⟩ := Op.probes_spec hprobes
  refine Hoare.call (fun w' _ _ => hfree cfg c w') ?_ ?_
  · rintro w' v w'' - - hw₀ ⟨-, answer, h⟩
    rcases SessionConfig.performOp_cases h with h | ⟨e, -, -, heq, -⟩
    · exact hw₀.trans (Session.act_probed hprobes h).2
    · cases heq
  · rintro w' e w'' - - hw₀ ⟨-, answer, h⟩
    rcases SessionConfig.performOp_cases h with h | ⟨e', -, hraise, heq, hraised⟩
    · obtain ⟨⟨v, heq⟩, -⟩ := Session.act_probed hprobes h
      cases heq
    · obtain rfl := Except.error.inj heq
      rcases hraised with rfl | ⟨r, w₁, hact, rfl⟩
      · exact ⟨o, w', hw₀, rfl, hstart, hraise⟩
      · exact ⟨o, w₁, hw₀.trans (Session.act_probed hprobes hact).2, rfl, hstart, hraise⟩

/-- A loop of the probe keeps the deadline of the call. -/
theorem probeLoop_rule {σ : Type} {self : RedisLock} {timeout checkInterval : Rat}
    {body : σ → Py (α ⊕ σ)} (hallowed : w₀.allowed ≠ none)
    (hbody : ∀ s, Hoare (sessionContext cfg g c) (Probed w₀) (body s) (fun _ => Probed w₀)
      (Broken cfg w₀)) (s : σ) :
    Hoare (sessionContext cfg g c) (Probed w₀)
      (self.timeoutGenerator timeout checkInterval body s) (fun _ => Probed w₀)
      (Broken cfg w₀) := by
  refine From.lift fun w _ hw => ?_
  refine (timeoutGenerator_from (I := fun _ _ => Probed w₀) (Q := fun _ => Probed w₀)
    (fun _ s => (hbody s).of_post fun r _ _ h => by cases r <;> exact h) fun more => ?_).of_post
      fun r _ _ h => by cases r <;> exact h
  obtain ⟨observation, rfl⟩ := hw
  obtain ⟨n, hn⟩ := Option.ne_none_iff_exists'.1 hallowed
  exact ⟨observation, by simp [hn]⟩

theorem awaitConfirmation_from (u : Unit) :
    Hoare (sessionContext cfg g c) (Probed w₀) (RedisLock.awaitConfirmation u)
      (fun _ => Probed w₀) (Broken cfg w₀) := by
  refine Hoare.bind (probe_rule rfl) fun message => ?_
  cases message with
  | none => exact Hoare.pure fun _ _ h => h
  | some message => cases message <;> exact Hoare.pure fun _ _ h => h

theorem collectReply_from (expected : Nat) (state : List RedisLockHolder × Nat) :
    Hoare (sessionContext cfg g c) (Probed w₀) (RedisLock.collectReply expected state)
      (fun _ => Probed w₀) (Broken cfg w₀) := by
  refine Hoare.bind (probe_rule rfl) fun message => ?_
  cases message with
  | none => exact Hoare.pure fun _ _ h => h
  | some message =>
      cases message with
      | subscribed => exact Hoare.pure fun _ _ h => h
      | reply data =>
          dsimp only
          split <;> exact Hoare.pure fun _ _ h => h

theorem killClients_from (self : RedisLock) (respondingHolders : List RedisLockHolder)
    (clients : List Client) :
    Hoare (sessionContext cfg g c) (Probed w₀) (self.killClients respondingHolders clients)
      (fun _ => Probed w₀) (Broken cfg w₀) := by
  induction clients with
  | nil => exact Hoare.pure fun _ _ h => h
  | cons client rest ih =>
      unfold RedisLock.killClients
      split
      · exact Hoare.bind (probe_rule rfl) fun _ => ih
      · exact ih

/-- What a probe returns is what it has observed. -/
def Viewed (w₀ : Session) (view : Option (List RedisLockHolder)) (w : Session) : Prop :=
  Probed w₀ w ∧ ∀ holders, view = some holders → w.observation = .listed holders

theorem concludeProbe_from (self : RedisLock) (hmode : w₀.attributes.mode ≠ .exclusive)
    (expected : Nat) (holders : List RedisLockHolder) :
    Hoare (sessionContext cfg g c) (Probed w₀) (self.concludeProbe expected holders)
      (Viewed w₀) (Broken cfg w₀) := by
  refine Hoare.bind (probe_rule rfl) fun current => ?_
  split
  · exact Hoare.pure fun _ _ h => ⟨h, fun _ heq => by cases heq⟩
  · split
    · refine Hoare.bind (R := fun _ => Probed w₀) ?_ fun _ =>
        Hoare.pure fun _ _ h => ⟨h, fun _ heq => by cases heq⟩
      exact Hoare.bind (probe_rule rfl) fun clients => killClients_from self holders clients
    · refine From.lift fun w _ hw => ?_
      obtain ⟨observation, rfl⟩ := hw
      refine .act (fun _ => rfl) rfl (fun _ => hmode) (.ret ⟨⟨_, rfl⟩, fun _ heq => ?_⟩)
      rw [Option.some.inj heq]

/-- Closing the probe changes nothing the lock can see. -/
theorem closeProbe_rule {P : Session → Prop}
    (hraise : ∀ w e, P w → cfg.mayRaise .closeProbe e = true → E e (w.raise .closeProbe e)) :
    Hoare (sessionContext cfg g c) P (perform .closeProbe) (fun _ => P) E := by
  have hsame : ∀ {answer : Answer} {w w' : Session} {r : Except Exc (Val .closeProbe)},
      w.act c answer .closeProbe = some (r, w') → r = .ok () ∧ w' = w := by
    intro answer w w' r h
    simp only [Session.act, Option.some.injEq, Prod.mk.injEq] at h
    exact ⟨h.1.symm, h.2.symm⟩
  refine Hoare.call (fun _ _ _ => trivial) ?_ ?_
  · rintro w' v w'' - - hp ⟨-, answer, h⟩
    rcases SessionConfig.performOp_cases h with h | ⟨e, -, -, heq, -⟩
    · exact (hsame h).2 ▸ hp
    · cases heq
  · rintro w' e w'' - - hp ⟨-, answer, h⟩
    rcases SessionConfig.performOp_cases h with h | ⟨e', -, hmay, heq, hraised⟩
    · cases (hsame h).1
    · obtain rfl := Except.error.inj heq
      rcases hraised with rfl | ⟨r, w₁, hact, rfl⟩
      · exact hraise w' e hp hmay
      · obtain rfl := (hsame hact).2
        exact hraise w₁ e hp hmay

theorem collectLockHolders_from (self : RedisLock) (expected : Nat) (timeout : Rat)
    (hallowed : w.allowed ≠ none) (hmode : w.attributes.mode ≠ .exclusive) :
    From cfg g c w (self.collectLockHolders expected timeout) (Viewed w) (Broken cfg w) := by
  have hprobe : Hoare (sessionContext cfg g c) (Probed w) (self.probe expected timeout)
      (Viewed w) (Broken cfg w) := by
    refine Hoare.bind (probe_rule rfl) fun _ => ?_
    refine Hoare.bind (probeLoop_rule hallowed awaitConfirmation_from ()) fun _ => ?_
    refine Hoare.bind (probe_rule rfl) fun _ => ?_
    refine Hoare.bind (probeLoop_rule hallowed (collectReply_from expected) ([], 0)) fun r => ?_
    exact concludeProbe_from self hmode expected _
  refine Hoare.bind (R := fun (r : Option (List RedisLockHolder) × Unit) => Viewed w r.1)
    (Hoare.withFinally (R := Viewed w) (F := Broken cfg w)
      (hprobe.of_pre fun w' _ heq => heq ▸ .refl w) (fun view => ?_) fun e => ?_)
    fun r => Hoare.pure fun _ _ h => h
  · exact closeProbe_rule fun w' e h hmay => ⟨.closeProbe, w', h.1, rfl, rfl, hmay⟩
  · refine closeProbe_rule fun w' e' h hmay => ?_
    obtain ⟨o, w'', hprobed, rfl, -, -⟩ := h
    exact ⟨.closeProbe, w'', hprobed, rfl, rfl, hmay⟩

/-! ## The retry loop -/

end Triples

section Acquisition

variable {cfg : SessionConfig} {g : Guard cfg.machine} {w : Session}
variable {timeout checkInterval : Option Rat} {failWhenLocked : Option Bool}
variable {connection : Connection} {b : Bool} {n : Nat} {E : Exc → Session → Prop}

/-- What a round of the loop starts from: the current call has made `tried` attempts
if it may make one only, and its deadline allows `n` more rounds. -/
structure Trying (cfg : SessionConfig) (b : Bool) (connection : Connection) (tried n : Nat)
    (w : Session) : Prop where
  raised : w.raised = none
  owns : w.owns = false
  mode : w.attributes.mode ≠ .exclusive
  rounds : w.allowed = some (w.tries + n)
  positive : w.allowed ≠ some 0
  once : b = true → w.tries = tried ∧ w.attributes.writerElected = false
  connection : cfg.lock.closeConnection = false ∨ w.backOffs = 0 →
    w.attributes.connection = some connection
  elected : w.elected = true → w.attributes.writerElected = true
  thread : w.attributes.thread ≠ some .created
  live : w.attributes.pubsub ≠ none → w.subscribed = true

/-- How an acquisition that raises leaves the lock. -/
structure Failed (cfg : SessionConfig) (b : Bool) (e : Exc) (w : Session) : Prop where
  thread : w.attributes.thread ≠ some .created
  refused : w.raised = none → w.attributes.pubsub = none ∧ (b = true → w.tries = 1)
  raised : ∀ o e', w.raised = some (o, e') → e' = e ∧ cfg.mayRaise o e' = true ∧
    (w.attributes.pubsub = none ↔ o.startsSubscription = true ∧ e'.isException = true)

/-- How one that returns leaves it. -/
structure Taken (b : Bool) (w : Session) : Prop where
  raised : w.raised = none
  subscribed : w.subscribed = true
  owns : w.owns = true
  thread : w.attributes.thread ≠ some .created
  once : b = true → w.tries = 1

/-- A lock without a subscription may give it up. -/
theorem Consistent.mayLeave (hw : Consistent cfg w) (hpubsub : w.attributes.pubsub = none) :
    w.owns = false ∧ w.elected = false := by
  have hsubscribed := (hw.inactive hpubsub).2
  refine ⟨Bool.eq_false_iff.2 fun howns => ?_, Bool.eq_false_iff.2 fun helected => ?_⟩
  · rw [hw.owns howns] at hsubscribed
    cases hsubscribed
  · rw [(hw.elected helected).1] at hsubscribed
    cases hsubscribed

theorem startSubscription_from (hpubsub : w.attributes.pubsub = none)
    (h : Trying cfg b connection 0 (n + 1) w) :
    From cfg g (.acquire timeout checkInterval failWhenLocked) w
      (cfg.lock.startSubscription connection)
      (fun _ w' => Trying cfg b connection 0 (n + 1) w' ∧ w'.subscribed = true)
      (Failed cfg b) := by
  refine .of_inv fun hw => ?_
  obtain ⟨hthread, hunsubscribed⟩ := hw.inactive hpubsub
  obtain ⟨howns, helected⟩ := hw.mayLeave hpubsub
  obtain ⟨w₁, hw₁⟩ : ∃ w₁ : Session, w₁ =
      { w with attributes := { w.attributes with pubsub := some connection } } := ⟨_, rfl⟩
  refine .act (fun _ => rfl) rfl (fun _ => h.connection) ?_
  rw [← hw₁]
  refine Hoare.tryCatch (F := fun e w' => ∃ o subscribed, o.startsSubscription = true ∧
    cfg.mayRaise o e = true ∧ w' = Session.raise { w₁ with subscribed := subscribed } o e) ?_
    fun e => ?_
  · have hbefore : ∀ o e, Op.startsSubscription o = true → cfg.mayRaise o e = true →
        ∃ o' subscribed, Op.startsSubscription o' = true ∧ cfg.mayRaise o' e = true ∧
          w₁.raise o e = Session.raise { w₁ with subscribed := subscribed } o' e :=
      fun o e hstart hmay => ⟨o, w₁.subscribed, hstart, hmay, rfl⟩
    have hpre : w₁.attributes.pubsub ≠ none ∧ w₁.attributes.mode ≠ .exclusive := by
      subst hw₁
      exact ⟨by simp, h.mode⟩
    refine From.command (fun _ => rfl) (fun _ => trivial) (fun _ => ?_) (fun e => hbefore _ e rfl)
      fun _ e => hbefore _ e rfl
    refine From.command (fun _ => rfl) (fun _ => trivial) (fun _ => ?_) (fun e => hbefore _ e rfl)
      fun _ e => hbefore _ e rfl
    refine From.command (fun _ => rfl) (fun _ => hpre) (fun _ => ?_) (fun e => hbefore _ e rfl)
      fun _ e hmay => ⟨_, true, rfl, hmay, rfl⟩
    refine From.act (fun _ => rfl) rfl (fun _ _ => hpre.1) ?_
    refine From.act (fun _ => rfl) rfl (fun _ => hpre.1) ?_
    refine From.last (fun _ => rfl) rfl (fun _ => trivial) ?_
    subst hw₁
    exact ⟨⟨h.raised, h.owns, h.mode, h.rounds, h.positive, h.once, h.connection, h.elected,
      by simp, fun _ => rfl⟩, rfl⟩
  · refine From.lift ?_
    rintro w' - ⟨o, subscribed, hstart, hmay, rfl⟩
    subst hw₁
    split
    · rename_i hexception
      refine .bind (release_from (by simp [hthread]) fun _ => ⟨howns, fun he => ?_⟩)
        fun _ w' hw' hreleased => .raise ⟨?_, ?_, ?_⟩
      · rw [helected] at he
        cases he
      · rw [(hw'.inactive hreleased.pubsub).1]
        simp
      · intro hnone
        rw [hreleased.raised] at hnone
        cases hnone
      · intro o' e' hraised
        rw [hreleased.raised] at hraised
        obtain ⟨rfl, rfl⟩ := Prod.mk.inj (Option.some.inj hraised)
        exact ⟨rfl, hmay, fun _ => ⟨hstart, hexception⟩, fun _ => hreleased.pubsub⟩
    · rename_i hexception
      refine .raise ⟨by simp [hthread], fun hnone => (by cases hnone), ?_⟩
      intro o' e' hraised
      obtain ⟨rfl, rfl⟩ := Prod.mk.inj (Option.some.inj hraised)
      exact ⟨rfl, hmay, fun hnone => (by cases hnone), fun hboth => absurd hboth.2 hexception⟩

theorem ensureSubscription_from (h : Trying cfg b connection 0 (n + 1) w) :
    From cfg g (.acquire timeout checkInterval failWhenLocked) w
      (cfg.lock.ensureSubscription connection)
      (fun _ w' => Trying cfg b connection 0 (n + 1) w' ∧ w'.subscribed = true)
      (Failed cfg b) := by
  refine .act (fun _ => rfl) rfl (fun _ => trivial) ?_
  cases hpubsub : w.attributes.pubsub with
  | some connection' => exact .ret ⟨h, h.live (by simp [hpubsub])⟩
  | none => exact startSubscription_from hpubsub h

/-- A command that raises while the lock is subscribed leaves it so. -/
theorem Trying.failed {tried : Nat} {o : Op} {e : Exc} (hw : Consistent cfg w)
    (h : Trying cfg b connection tried n w) (hsubscribed : w.subscribed = true)
    (hstart : o.startsSubscription = false) (hmay : cfg.mayRaise o e = true) :
    Failed cfg b e (w.raise o e) := by
  refine ⟨h.thread, fun hnone => (by cases hnone), fun o' e' hraised => ?_⟩
  obtain ⟨rfl, rfl⟩ := Prod.mk.inj (Option.some.inj hraised)
  refine ⟨rfl, hmay, fun hnone => ?_, fun hboth => ?_⟩
  · rw [Session.raise_attributes] at hnone
    rw [(hw.inactive hnone).2] at hsubscribed
    cases hsubscribed
  · rw [hstart] at hboth
    cases hboth.1

/-- Observing something is no change. -/
theorem Trying.probed {tried : Nat} {w' : Session} (h : Trying cfg b connection tried n w)
    (hprobed : Probed w w') : Trying cfg b connection tried n w' := by
  obtain ⟨observation, rfl⟩ := hprobed
  exact ⟨h.raised, h.owns, h.mode, h.rounds, h.positive, h.once, h.connection, h.elected, h.thread,
    h.live⟩

/-- A round that is over, when the call may go on. -/
theorem Trying.again {tried tried' : Nat} (h : Trying cfg b connection tried n w)
    (hb : b = false) : Trying cfg b connection tried' n w :=
  ⟨h.raised, h.owns, h.mode, h.rounds, h.positive, fun hb' => (by rw [hb] at hb'; cases hb'),
    h.connection, h.elected, h.thread, h.live⟩

theorem Trying.taken (h : Trying cfg b connection 1 n w) (hsubscribed : w.subscribed = true) :
    Taken b { w with owns := true } :=
  ⟨h.raised, hsubscribed, rfl, h.thread, fun hb => (h.once hb).1⟩

/-- The end of a round: the lock is taken, or another round may start. -/
def Ended (cfg : SessionConfig) (b : Bool) (connection : Connection) (n : Nat) (held : Bool)
    (w : Session) : Prop :=
  if held then Taken b w else Trying cfg b connection 0 n w

theorem takeAlone_from (h : Trying cfg b connection 1 n w) (hsubscribed : w.subscribed = true)
    (hcounted : w.observation = .counted 1) :
    From cfg g (.acquire timeout checkInterval failWhenLocked) w cfg.lock.takeAlone
      (Ended cfg b connection n) (Failed cfg b) := by
  refine .act (fun _ => rfl) rfl (fun _ => ⟨hsubscribed, hcounted⟩) ?_
  have htaken := h.taken hsubscribed
  split
  · refine .act (fun _ => rfl) rfl (fun _ => ⟨‹_›, by decide, fun _ => rfl⟩) (.ret ?_)
    exact ⟨htaken.raised, htaken.subscribed, rfl, htaken.thread, htaken.once⟩
  · exact .ret htaken

/-- After a back-off the lock starts its next round without a subscription. -/
theorem Trying.released {tried : Nat} {w' : Session} (h : Trying cfg b connection tried n w)
    (hsubscribed : w.attributes.pubsub ≠ none) (hb : b = false) (hw' : Consistent cfg w')
    (hreleased : Released cfg w w') : Trying cfg b connection 0 n w' where
  raised := hreleased.raised.trans h.raised
  owns := (hw'.mayLeave hreleased.pubsub).1
  mode := hreleased.mode ▸ h.mode
  rounds := by rw [hreleased.allowed, hreleased.tries, h.rounds]
  positive := by rw [hreleased.allowed]; exact h.positive
  once := fun hb' => (by rw [hb] at hb'; cases hb')
  connection := fun hor => by
    have hsupplied := hor.resolve_right (hreleased.backOffs hsubscribed)
    rw [hreleased.connection hsupplied]
    exact h.connection (Or.inl hsupplied)
  elected := fun helected => by
    rw [(hw'.mayLeave hreleased.pubsub).2] at helected
    cases helected
  thread := by
    rw [(hw'.inactive hreleased.pubsub).1]
    simp
  live := fun hne => absurd hreleased.pubsub hne

/-- A refusal after the only attempt. -/
theorem Trying.refused {w' : Session} (h : Trying cfg b connection 1 n w)
    (hw' : Consistent cfg w') (hreleased : Released cfg w w') :
    Failed cfg b .alreadyLocked w' where
  thread := by
    rw [(hw'.inactive hreleased.pubsub).1]
    simp
  refused := fun _ => ⟨hreleased.pubsub, fun hb => by rw [hreleased.tries, (h.once hb).1]⟩
  raised := fun o e hraised => by
    rw [hreleased.raised, h.raised] at hraised
    cases hraised

theorem backOff_from (h : Trying cfg b connection 1 n w) (hsubscribed : w.subscribed = true)
    (hleave : MayLeave cfg w (.acquire timeout checkInterval failWhenLocked)) :
    From cfg g (.acquire timeout checkInterval failWhenLocked) w (cfg.lock.backOff b)
      (Ended cfg b connection n) (Failed cfg b) := by
  refine .of_inv fun hw => .bind (release_from h.thread fun _ => hleave) fun _ w' hw' hreleased => ?_
  cases b with
  | true => exact .raise (h.refused hw' hreleased)
  | false =>
      refine .ret (h.released (fun hnone => ?_) rfl hw' hreleased)
      rw [(hw.inactive hnone).2] at hsubscribed
      cases hsubscribed

theorem takeElected_from (hb : failWhenLocked.getD cfg.lock.failWhenLocked = b)
    (hflags : cfg.lock.flags = EXCLUSIVE) {holders : List RedisLockHolder}
    (h : Trying cfg b connection 1 n w) (hsubscribed : w.subscribed = true)
    (hlisted : w.observation = .listed holders) :
    From cfg g (.acquire timeout checkInterval failWhenLocked) w
      (cfg.lock.takeElected holders b) (Ended cfg b connection n) (Failed cfg b) := by
  refine .act (fun _ => rfl) rfl (fun _ => ⟨hsubscribed, hflags⟩) ?_
  cases b with
  | true =>
      -- the state is not `Trying`: the lock is elected and may make one attempt only
      refine .bind (release_from h.thread fun _ => ⟨h.owns, fun _ => Or.inl hb⟩)
        fun _ w' hw' hreleased => .raise ⟨?_, fun _ => ⟨hreleased.pubsub, fun _ => ?_⟩, ?_⟩
      · rw [(hw'.inactive hreleased.pubsub).1]
        simp
      · rw [hreleased.tries]
        exact (h.once rfl).1
      · intro o e hraised
        rw [hreleased.raised, h.raised] at hraised
        cases hraised
  | false =>
      simp only [Bool.false_eq_true, if_false]
      split
      · exact .ret ⟨h.raised, h.owns, h.mode, h.rounds, h.positive, fun hb' => (by cases hb'),
          h.connection, fun _ => rfl, h.thread, h.live⟩
      · refine .act (fun _ => rfl) rfl (fun _ => ⟨hsubscribed, hlisted⟩) ?_
        refine .act (fun _ => rfl) rfl (fun _ => ⟨hflags, by decide, fun _ => rfl⟩) (.ret ?_)
        exact ⟨h.raised, hsubscribed, rfl, h.thread, fun hb' => (by cases hb')⟩

theorem resolveLockHolders_from (hb : failWhenLocked.getD cfg.lock.failWhenLocked = b)
    {view : Option (List RedisLockHolder)} (h : Trying cfg b connection 1 n w)
    (hsubscribed : w.subscribed = true)
    (hview : ∀ holders, view = some holders → w.observation = .listed holders) :
    From cfg g (.acquire timeout checkInterval failWhenLocked) w
      (cfg.lock.resolveLockHolders view b) (Ended cfg b connection n) (Failed cfg b) := by
  refine .of_inv fun hw => ?_
  cases view with
  | none =>
      refine .act (fun _ => rfl) rfl (fun _ => trivial) ?_
      cases hwriter : w.attributes.writerElected with
      | true =>
          refine .ret (h.again (Bool.eq_false_iff.2 fun hb' => ?_))
          rw [(h.once hb').2] at hwriter
          cases hwriter
      | false =>
          refine backOff_from h hsubscribed ⟨h.owns, fun helected => ?_⟩
          rw [h.elected helected] at hwriter
          cases hwriter
  | some holders =>
      have hlisted := hview holders rfl
      unfold RedisLock.resolveLockHolders
      dsimp only
      split
      · refine .act (fun _ => rfl) rfl (fun _ => ⟨hsubscribed, hlisted⟩) (.ret ?_)
        exact h.taken hsubscribed
      · split
        · have hwriter := Bool.and_eq_true_iff.1 ‹(_ && _) = true›
          exact takeElected_from hb (of_decide_eq_true hwriter.1) h hsubscribed hlisted
        · rename_i hnot
          refine backOff_from h hsubscribed ⟨h.owns, fun helected => Or.inr (Or.inr ?_)⟩
          refine ⟨holders, hlisted, Bool.eq_false_iff.2 fun hwriter => hnot ?_⟩
          simp [(hw.elected helected).2, hwriter]

/-- A probe that raises ends the acquisition with the lock still subscribed. -/
theorem Trying.broken {tried : Nat} {w' : Session} {e : Exc} (hw : Consistent cfg w)
    (h : Trying cfg b connection tried n w) (hsubscribed : w.subscribed = true)
    (hbroken : Broken cfg w e w') : Failed cfg b e w' := by
  obtain ⟨o, w'', hprobed, rfl, hstart, hmay⟩ := hbroken
  have h' := h.probed hprobed
  obtain ⟨observation, rfl⟩ := hprobed
  have hw'' : Consistent cfg { w with observation := observation } :=
    ⟨hw.inactive, hw.kind, hw.exclusive, hw.owns, hw.writerElected, hw.elected⟩
  exact h'.failed hw'' hsubscribed hstart hmay

theorem takeOrProbe_from (hb : failWhenLocked.getD cfg.lock.failWhenLocked = b)
    {subscribers : Nat} (h : Trying cfg b connection 1 n w) (hsubscribed : w.subscribed = true)
    (hcounted : w.observation = .counted subscribers) :
    From cfg g (.acquire timeout checkInterval failWhenLocked) w
      (cfg.lock.takeOrProbe b subscribers) (Ended cfg b connection n) (Failed cfg b) := by
  refine .of_inv fun hw => ?_
  unfold RedisLock.takeOrProbe
  split
  · rename_i hone
    exact takeAlone_from h hsubscribed (hone ▸ hcounted)
  · have hallowed : w.allowed ≠ none := by simp [h.rounds]
    refine .bind ((collectLockHolders_from cfg.lock subscribers _ hallowed h.mode).conseq
      (fun _ _ h => h) (fun _ _ _ h => h) fun e w' _ hbroken => ?_) fun view w' _ hview => ?_
    · exact h.broken hw hsubscribed hbroken
    · obtain ⟨hprobed, hlisted⟩ := hview
      refine resolveLockHolders_from hb (h.probed hprobed) ?_ hlisted
      obtain ⟨observation, rfl⟩ := hprobed
      exact hsubscribed

/-- One round of `acquire`. -/
theorem attempt_from (hb : failWhenLocked.getD cfg.lock.failWhenLocked = b) (u : Unit) :
    Hoare (sessionContext cfg g (.acquire timeout checkInterval failWhenLocked))
      (Trying cfg b connection 0 (n + 1)) (cfg.lock.attempt connection b u)
      (Sum.elim (fun _ => Taken b) fun _ => Trying cfg b connection 0 n) (Failed cfg b) := by
  refine From.lift fun w _ h => .bind (ensureSubscription_from h) fun _ w₁ hw₁ h => ?_
  obtain ⟨h, hsubscribed⟩ := h
  obtain ⟨counted, hcounted⟩ : ∃ counted : Nat → Session, counted = fun subscribers =>
      { w₁ with observation := .counted subscribers, tries := w₁.tries + 1 } := ⟨_, rfl⟩
  have htrying : ∀ subscribers, Trying cfg b connection 1 n (counted subscribers) := by
    intro subscribers
    subst hcounted
    exact ⟨h.raised, h.owns, h.mode, by rw [h.rounds, Nat.add_right_comm, Nat.add_assoc],
      h.positive, fun hb' => ⟨by rw [(h.once hb').1], (h.once hb').2⟩, h.connection, h.elected,
      h.thread, h.live⟩
  have hw₂ : ∀ subscribers, Consistent cfg (counted subscribers) := by
    intro subscribers
    subst hcounted
    exact ⟨hw₁.inactive, hw₁.kind, hw₁.exclusive, hw₁.owns, hw₁.writerElected, hw₁.elected⟩
  have hsubscribed₂ : ∀ subscribers, (counted subscribers).subscribed = true := fun _ => by
    subst hcounted
    exact hsubscribed
  refine .command (s := fun answer => counted answer.count) (fun _ => by subst hcounted; rfl)
    (fun _ => trivial) (fun answer => ?_) (fun e hmay => h.failed hw₁ hsubscribed rfl hmay)
    fun answer e hmay => (htrying _).failed (hw₂ _) (hsubscribed₂ _) rfl hmay
  refine .bind (takeOrProbe_from hb (htrying answer.count) (hsubscribed₂ _)
    (by subst hcounted; rfl)) fun held w' _ hended => ?_
  cases held with
  | true => exact .ret hended
  | false => exact .ret hended

/-! ## The calls -/

/-- What `acquire` has set up when its loop starts. -/
structure Ready (cfg : SessionConfig) (w : Session) : Prop where
  pubsub : w.attributes.pubsub = none
  mode : w.attributes.mode ≠ .exclusive
  raised : w.raised = none
  tries : w.tries = 0
  allowed : w.allowed = none

theorem resetWriter_from (hpubsub : w.attributes.pubsub = none) (h : Rest cfg w) :
    From cfg g (.acquire timeout checkInterval failWhenLocked) w cfg.lock.resetWriter
      (fun _ => Ready cfg) E := by
  refine .of_inv fun hw => ?_
  unfold RedisLock.resetWriter
  split
  · refine .act (fun _ => rfl) rfl (fun _ => ⟨‹_›, by decide, fun heq => (by cases heq)⟩) ?_
    refine .last (fun _ => rfl) rfl (fun _ => trivial) ?_
    exact ⟨hpubsub, by simp, h.raised, h.tries, h.allowed⟩
  · refine .ret ⟨hpubsub, fun hmode => ?_, h.raised, h.tries, h.allowed⟩
    have hreader := cfg.lock.flags_valid.resolve_left ‹_›
    rw [hw.kind.2 hreader] at hmode
    cases hmode

theorem getConnection_from (h : Ready cfg w) :
    From cfg g (.acquire timeout checkInterval failWhenLocked) w RedisLock.getConnection
      (fun connection w' => Ready cfg w' ∧ w'.attributes.connection = some connection) E := by
  refine .act (fun _ => rfl) rfl (fun _ => trivial) ?_
  cases hconnection : w.attributes.connection with
  | some connection => exact .ret ⟨h, hconnection⟩
  | none =>
      refine .act (fun _ => rfl) rfl (fun _ => trivial) ?_
      refine .act (fun _ => rfl) rfl (fun _ => h.pubsub) (.ret ?_)
      exact ⟨⟨h.pubsub, h.mode, h.raised, h.tries, h.allowed⟩, rfl⟩

/-- How `acquire` ends with an exception. -/
def Refused (cfg : SessionConfig) (b : Bool) (w : Session) (e : Exc) (w' : Session) : Prop :=
  Failed cfg b e w' ∨ (e = .assertionError ∧ w' = w ∧ w.attributes.pubsub ≠ none)

theorem acquire_from (h : Rest cfg w) (hb : failWhenLocked.getD cfg.lock.failWhenLocked = b) :
    From cfg g (.acquire timeout checkInterval failWhenLocked) w
      (cfg.lock.acquire timeout checkInterval failWhenLocked) (fun _ => Taken b)
      (Refused cfg b w) := by
  refine .act (fun _ => rfl) rfl (fun _ => trivial) ?_
  cases hpubsub : w.attributes.pubsub with
  | some connection => exact .raise (Or.inr ⟨rfl, rfl, by simp [hpubsub]⟩)
  | none =>
      refine .bind (resetWriter_from hpubsub h) fun _ w₁ _ h => ?_
      refine .bind (getConnection_from h) fun connection w₂ hw₂ h => ?_
      obtain ⟨h, hconnection⟩ := h
      obtain ⟨hthread, hunsubscribed⟩ := hw₂.inactive h.pubsub
      obtain ⟨howns, helected⟩ := hw₂.mayLeave h.pubsub
      have hwriter : w₂.attributes.writerElected = false := by
        refine Bool.eq_false_iff.2 fun hwriter => ?_
        rw [hw₂.writerElected hwriter] at helected
        cases helected
      rw [hb]
      refine .bind ((timeoutGenerator_from (I := fun n _ => Trying cfg b connection 0 n)
        (Q := fun _ => Taken b) (fun n u => attempt_from hb u) fun more => ?_).conseq
          (fun _ _ h => h) (fun _ _ _ h => h) fun _ _ _ h => Or.inl h) fun r w₃ _ hr => ?_
      · refine ⟨h.raised, howns, h.mode, ?_, ?_, fun _ => ⟨h.tries, hwriter⟩,
          fun _ => hconnection, fun he => ?_, by simp [hthread], fun hne => absurd h.pubsub hne⟩
        · simp [h.allowed, h.tries]
        · simp [h.allowed]
        · rw [helected] at he
          cases he
      · cases r with
        | inl _ => exact .ret hr
        | inr _ =>
            refine .bind (release_from hr.thread fun _ => ⟨hr.owns, fun _ => Or.inr (Or.inl ?_)⟩)
              fun _ w₄ hw₄ hreleased => .raise (Or.inl ⟨?_, fun _ => ⟨hreleased.pubsub, ?_⟩, ?_⟩)
            · exact hr.rounds
            · rw [(hw₄.inactive hreleased.pubsub).1]
              simp
            · intro hb'
              have hzero := (hr.once hb').1
              exact absurd (by rw [hr.rounds, hzero]) hr.positive
            · intro o e hraised
              rw [hreleased.raised, hr.raised] at hraised
              cases hraised

/-- A call that has settled leaves the lock at rest. -/
theorem Settled.finish {c : RedisLock.Call} {outcome : Option Exc}
    (h : Settled cfg ⟨c, outcome, w.raised, w.tries⟩ w)
    (hthread : w.attributes.thread ≠ some .created)
    (howner : cfg.Reliable → w.subscribed = true → w.owns = true) :
    Rest cfg (w.finish c outcome) := by
  refine ⟨hthread, rfl, rfl, rfl, rfl, rfl, fun ending hlast => ?_, howner⟩
  obtain rfl := Option.some.inj hlast
  exact ⟨h.returned, h.refused, h.released, h.raised, h.once, h.reliable⟩

/-- The record of how a call ends. -/
theorem ended_from {c : RedisLock.Call} {outcome : Option Exc}
    (h : Settled cfg ⟨c, outcome, w.raised, w.tries⟩ w)
    (hthread : w.attributes.thread ≠ some .created)
    (howner : cfg.Reliable → w.subscribed = true → w.owns = true) :
    From cfg g c w (perform (.ended outcome)) (fun _ => Rest cfg) fun _ => Rest cfg :=
  .last (fun _ => rfl) rfl (fun _ => h) (h.finish hthread howner)

theorem Taken.settled (h : Taken b w)
    (hb : failWhenLocked.getD cfg.lock.failWhenLocked = b) :
    Settled cfg ⟨.acquire timeout checkInterval failWhenLocked, none, w.raised, w.tries⟩ w where
  returned := fun _ _ => h.subscribed
  refused := fun hrefused => by cases hrefused
  released := fun hcall => by cases hcall
  raised := fun o e hraised => by
    rw [h.raised] at hraised
    cases hraised
  once := fun timeout' checkInterval' failWhenLocked' hcall hb' _ => by
    obtain ⟨-, -, rfl⟩ := RedisLock.Call.acquire.inj hcall
    exact Or.inr (h.once (hb.symm.trans hb'))
  reliable := fun _ => h.raised

theorem Failed.unraised {e : Exc} (h : Failed cfg b e w) (hreliable : cfg.Reliable) :
    w.raised = none := by
  refine Option.eq_none_iff_forall_ne_some.2 fun raised hraised => ?_
  have hmay := (h.raised raised.1 raised.2 hraised).2.1
  rw [hreliable] at hmay
  cases hmay

theorem Failed.settled {e : Exc} (h : Failed cfg b e w)
    (hb : failWhenLocked.getD cfg.lock.failWhenLocked = b) :
    Settled cfg ⟨.acquire timeout checkInterval failWhenLocked, some e, w.raised, w.tries⟩ w where
  returned := fun _ hnone => by cases hnone
  refused := fun _ hnone => (h.refused hnone).1
  released := fun hcall => by cases hcall
  raised := fun o e' hraised => by
    obtain ⟨rfl, -, hinactive⟩ := h.raised o e' hraised
    exact ⟨rfl, hinactive⟩
  once := fun timeout' checkInterval' failWhenLocked' hcall hb' hnone => by
    obtain ⟨-, -, rfl⟩ := RedisLock.Call.acquire.inj hcall
    exact Or.inr ((h.refused hnone).2 (hb.symm.trans hb'))
  reliable := h.unraised

/-- When no command raises, one that raises has left no subscription. -/
theorem Failed.owner {e : Exc} (hw : Consistent cfg w) (h : Failed cfg b e w)
    (hreliable : cfg.Reliable) (hsubscribed : w.subscribed = true) : w.owns = true := by
  rw [(hw.inactive (h.refused (h.unraised hreliable)).1).2] at hsubscribed
  cases hsubscribed

theorem acquireCall_from (h : Rest cfg w) :
    From cfg g (.acquire timeout checkInterval failWhenLocked) w
      (RedisLock.observed (cfg.lock.acquire timeout checkInterval failWhenLocked))
      (fun _ => Rest cfg) fun _ => Rest cfg := by
  obtain ⟨b, hb⟩ : ∃ b, failWhenLocked.getD cfg.lock.failWhenLocked = b := ⟨_, rfl⟩
  refine .bind (Hoare.attempt (acquire_from h hb)) fun r w' hw' hr => ?_
  cases r with
  | ok _ => exact ended_from (Taken.settled hr hb) hr.thread fun _ _ => hr.owns
  | error e =>
      rcases hr with hr | ⟨rfl, rfl, hpubsub⟩
      · exact ended_from (hr.settled hb) hr.thread (hr.owner hw')
      · refine ended_from ⟨fun _ hnone => (by cases hnone), fun hrefused => (by cases hrefused),
          fun hcall => (by cases hcall), fun o e hraised => ?_, fun _ _ _ _ _ _ => Or.inl rfl,
          fun _ => h.raised⟩ h.thread h.owner
        rw [h.raised] at hraised
        cases hraised

theorem releaseCall_from (h : Rest cfg w) :
    From cfg g .release w (RedisLock.observed cfg.lock.release)
      (fun _ => Rest cfg) fun _ => Rest cfg := by
  refine .bind (Hoare.attempt (E := fun _ _ => False)
    (release_from h.thread fun _ => ⟨h.observation, h.owner⟩)) fun r w' hw' hr => ?_
  cases r with
  | error e => exact hr.elim
  | ok _ =>
      have hinactive := hw'.inactive hr.pubsub
      refine ended_from ⟨fun hcall => absurd rfl hcall, fun _ _ => hr.pubsub,
        fun _ => ⟨rfl, hr.pubsub⟩, fun o e hraised => ?_, fun _ _ _ hcall => (by cases hcall),
        fun _ => hr.raised.trans h.raised⟩ (by simp [hinactive.1]) fun _ hsubscribed => ?_
      · rw [hr.raised, h.raised] at hraised
        cases hraised
      · rw [hinactive.2] at hsubscribed
        cases hsubscribed

end Acquisition

/-- Every call keeps the contract of the lock with itself. -/
theorem session_verified (cfg : SessionConfig) (g : Guard cfg.machine) :
    (sessionContract cfg g).Verified := by
  rintro ⟨⟩ (c : RedisLock.Call) w hw hrest -
  cases c with
  | acquire timeout checkInterval failWhenLocked =>
      exact Hoare.toCall (stable_session (Rest cfg)) (acquireCall_from hrest) hw rfl
  | release => exact Hoare.toCall (stable_session (Rest cfg)) (releaseCall_from hrest) hw rfl

/-- The session of a lock that has just been constructed. -/
def Constructed (cfg : SessionConfig) (w : Session) : Prop := w = cfg.start

theorem start_consistent (cfg : SessionConfig) : Consistent cfg cfg.start where
  inactive := fun _ => ⟨rfl, rfl⟩
  kind := by
    simp only [SessionConfig.start, RedisLock.attributes, RedisLock.initialMode]
    split <;> simp_all
  exclusive := fun h => by cases h
  owns := fun h => by cases h
  writerElected := fun h => by cases h
  elected := fun h => by cases h

theorem start_rest (cfg : SessionConfig) : Rest cfg cfg.start where
  thread := by simp [SessionConfig.start, RedisLock.attributes]
  observation := rfl
  tries := rfl
  allowed := rfl
  backOffs := rfl
  raised := rfl
  settled := fun _ h => by cases h
  owner := fun _ h => by cases h

/-- The contract holds in every run of the lock. -/
theorem session_holds {cfg : SessionConfig} {g : Guard cfg.machine} {s : cfg.machine.State}
    (hs : Reach (Constructed cfg) g s) : (sessionContract cfg g).Holds s := by
  refine (session_verified cfg g).sound ?_ hs
  rintro w rfl
  exact ⟨start_consistent cfg, fun _ => start_rest cfg⟩

end Portalocker.Redis
