import Portalocker.Foundation.Executions
import Portalocker.Redis.LockRules
import Portalocker.Redis.Probe
import Portalocker.Redis.Session
set_option autoImplicit false

/-!
# A `release` whose steps raise

`release` is straight-line code over four resources, and it is the final release, the
back-off between two attempts and the rollback of a subscription that failed halfway.
Here its own steps raise as well, in any state, while an acquisition may be answered with
anything.
-/

namespace Portalocker.Redis

open Interleaving

/-! ## The steps of `release` -/

/-- The steps that may raise: stopping and joining the thread, unsubscribing, and closing
the subscription and the connection. -/
inductive Teardown
  | stopThread
  | unsubscribe
  | closePubsub
  | closeConnection
  deriving DecidableEq

/-- The step an operation is. -/
def Op.teardown : Op → Option Teardown
  | .stopThread => some .stopThread
  | .unsubscribe => some .unsubscribe
  | .closePubsub => some .closePubsub
  | .closeConnection => some .closeConnection
  | _ => none

/-- The steps that raise, and with what. -/
abbrev Failures : Type := Teardown → Option Exc

/-- The operations of `_start_subscription` that may raise. -/
def Op.starts : Op → Bool
  | .setName _ | .parseResponse | .subscribe | .startThread => true
  | _ => false

/-- The attributes of a lock, and the connections that have been closed. -/
structure Held where
  attributes : Attributes
  closed : Connection → Bool := fun _ => false

namespace Held

variable (w : Held)

/-- Change the attributes. -/
def set (a : Attributes) : Held := { w with attributes := a }

/-- The effect of an operation whose answer is not up to the server or the clock. -/
def act : (o : Op) → Option (Except Exc (Val o) × Held)
  | .unsubscribe | .closePubsub | .sleep _ | .won _ | .concluded _ | .ended _ => some (.ok (), w)
  | .closeConnection => some (.ok (),
      { w with closed := fun c => w.closed c || w.attributes.connection = some c })
  | o => (w.attributes.act o).map fun ra => (ra.1, w.set ra.2)

/-- A step of `release` that raises does so before it takes effect or after it; starting the
thread may raise; and a command of an acquisition may be answered with anything. -/
inductive Step (failures : Failures) : (o : Op) → Except Exc (Val o) → Held → Prop
  | act {o : Op} {r : Except Exc (Val o)} {w' : Held} (hquiet : o.teardown.bind failures = none)
      (h : w.act o = some (r, w')) : Step failures o r w'
  | raise {o : Op} {e : Exc} (h : o.teardown.bind failures = some e) : Step failures o (.error e) w
  | raiseLate {o : Op} {e : Exc} {r : Except Exc (Val o)} {w' : Held}
      (h : o.teardown.bind failures = some e) (hact : w.act o = some (r, w')) :
      Step failures o (.error e) w'
  | noThread (e : Exc) : Step failures .startThread (.error e) w
  | clock (timeout : Rat) (more : Nat) : Step failures (.attempts timeout) (.ok more) w
  | answer {o : Op} (r : Except Exc (Val o)) (h : o.isCommand = true) : Step failures o r w

/-- What a command does is not up to the lock. -/
theorem act_of_isCommand {w : Held} {o : Op} (h : o.isCommand = true) : w.act o = none := by
  cases o with
  | setName | parseResponse | subscribe | subscriberCount | subscribeResponse | getMessage
  | closeProbe | publish | clientList | clientKill => rfl
  | _ => cases h

end Held

/-- One lock alone, with these failures. -/
def faulty (failures : Failures) : Context Held Op fun o => Except Exc (Val o) where
  inv _ := True
  rely w w' := w' = w
  pre _ _ := True
  step w o r w' := w.Step failures o r w'
  rely_refl _ := rfl
  rely_trans := fun h₁ h₂ => h₂.trans h₁
  inv_step := fun _ _ _ => trivial

instance stable_faulty {failures : Failures} {P : Held → Prop} : (faulty failures).Stable P :=
  ⟨fun _ _ hr h => (show _ = _ from hr) ▸ h⟩

instance stable_faulty_traced {failures : Failures}
    {P : Held × List (Entry Held Op fun o => Except Exc (Val o)) → Prop} :
    (faulty failures).traced.Stable P := by
  refine ⟨?_⟩
  rintro ⟨w, log⟩ ⟨w', log'⟩ - - ⟨hr, hlog⟩ h
  obtain rfl : w' = w := hr
  obtain rfl : log' = log := hlog
  exact h

/-! ## What is cleared -/

/-- The thread and the subscription are gone, and a connection of the lock's own is closed
and cleared. -/
structure RedisLock.Cleared (lock : RedisLock) (w w' : Held) : Prop where
  thread : w'.attributes.thread = none
  pubsub : w'.attributes.pubsub = none
  connection : lock.closeConnection = true → w'.attributes.connection = none ∧
    ∀ connection, w.attributes.connection = some connection → w'.closed connection = true

section Conditions

variable (failures : Failures) (w : Held)

/-- The thread, if there is one, has been started, and stopping it does not raise. -/
def ThreadClean : Prop :=
  ∀ worker, w.attributes.thread = some worker →
    worker ≠ .created ∧ failures .stopThread = none

/-- Ending and closing the subscription, if there is one, does not raise. -/
def PubsubClean : Prop :=
  w.attributes.pubsub ≠ none → failures .unsubscribe = none ∧ failures .closePubsub = none

/-- Closing a connection of the lock's own, if there is one, does not raise. -/
def ConnectionClean (lock : RedisLock) : Prop :=
  lock.closeConnection = true → w.attributes.connection ≠ none →
    failures .closeConnection = none

end Conditions

/-- None of the steps that `release` attempts in this state raises. -/
structure RedisLock.Clean (lock : RedisLock) (failures : Failures) (w : Held) : Prop where
  thread : ThreadClean failures w
  pubsub : PubsubClean failures w
  connection : ConnectionClean failures w lock

section Release

variable {failures : Failures} {w : Held} {α : Type} {Q : α → Held → Prop}
  {E : Exc → Held → Prop}

/-- An operation on the attributes. -/
theorem attribute_step {o : Op} {v : Val o} {s : Held} (hact : w.act o = some (.ok v, s))
    (hteardown : o.teardown = none) (hstart : o ≠ .startThread) :
    Hoare (faulty failures) (fun w' => w' = w) (perform o) (fun a w' => a = v ∧ w' = s) E := by
  have hstep : ∀ r w', w.Step failures o r w' → r = .ok v ∧ w' = s := by
    intro r w' hs
    cases hs with
    | act _ h => exact Prod.mk.inj (Option.some.inj (h.symm.trans hact))
    | raise h =>
        rw [hteardown] at h
        cases h
    | raiseLate h =>
        rw [hteardown] at h
        cases h
    | noThread e => exact absurd rfl hstart
    | clock timeout more => cases hact
    | answer r h =>
        rw [Held.act_of_isCommand h] at hact
        cases hact
  refine Hoare.call (fun _ _ _ => trivial) ?_ ?_
  · rintro w' a w'' - - rfl hs
    exact ⟨Except.ok.inj (hstep _ _ hs).1, (hstep _ _ hs).2⟩
  · rintro w' e w'' - - rfl hs
    cases (hstep _ _ hs).1

/-- Such an operation, followed by others. -/
theorem attribute_then {o : Op} {v : Val o} {s : Held} {k : Val o → Py α}
    (hact : w.act o = some (.ok v, s)) (hteardown : o.teardown = none)
    (hstart : o ≠ .startThread)
    (hk : Hoare (faulty failures) (fun w' => w' = s) (k v) Q E) :
    Hoare (faulty failures) (fun w' => w' = w) (perform o >>= k) Q E :=
  Hoare.bind (attribute_step hact hteardown hstart) fun _ => Hoare.of_fact fun heq => heq ▸ hk

/-- A step of `release`: it raises when it is one of those that do, before it takes effect
or after it. -/
theorem teardown_then {o : Op} {t : Teardown} {r : Except Exc (Val o)} {s : Held}
    {k : Val o → Py α} (hteardown : o.teardown = some t) (hact : w.act o = some (r, s))
    (hk : ∀ v, r = .ok v → failures t = none →
      Hoare (faulty failures) (fun w' => w' = s) (k v) Q E)
    (hraises : ∀ e, r = .error e → failures t = none → E e s)
    (hfails : ∀ e, failures t = some e → E e w ∧ E e s) :
    Hoare (faulty failures) (fun w' => w' = w) (perform o >>= k) Q E := by
  have hbind : o.teardown.bind failures = failures t := by rw [hteardown, Option.bind_some]
  refine Hoare.bind (R := fun v w' => (r = .ok v ∧ failures t = none) ∧ w' = s)
    (Hoare.call (fun _ _ _ => trivial) ?_ ?_) fun v => Hoare.of_fact fun h => hk v h.1 h.2
  · rintro w' v w'' - - rfl hs
    generalize hanswer : (.ok v : Except Exc (Val o)) = answer at hs
    cases hs with
    | act hquiet h =>
        obtain ⟨rfl, rfl⟩ := Prod.mk.inj (Option.some.inj (h.symm.trans hact))
        exact ⟨⟨rfl, hbind.symm.trans hquiet⟩, rfl⟩
    | raise h => cases hanswer
    | raiseLate h hact => cases hanswer
    | noThread e => cases hanswer
    | clock timeout more => cases hact
    | answer r h =>
        rw [Held.act_of_isCommand h] at hact
        cases hact
  · rintro w' e w'' - - rfl hs
    generalize hanswer : (.error e : Except Exc (Val o)) = answer at hs
    cases hs with
    | act hquiet h =>
        obtain ⟨rfl, rfl⟩ := Prod.mk.inj (Option.some.inj (h.symm.trans hact))
        exact hraises e hanswer.symm (hbind.symm.trans hquiet)
    | raise h =>
        obtain rfl := Except.error.inj hanswer
        exact (hfails e (hbind.symm.trans h)).1
    | raiseLate h hact' =>
        obtain ⟨-, rfl⟩ := Prod.mk.inj (Option.some.inj (hact'.symm.trans hact))
        obtain rfl := Except.error.inj hanswer
        exact (hfails e (hbind.symm.trans h)).2
    | noThread e' => cases hteardown
    | clock timeout more => cases hact
    | answer r h =>
        rw [Held.act_of_isCommand h] at hact
        cases hact

/-- The thread is stopped, joined and forgotten; or it is still there. -/
theorem releaseThread_cleans :
    Hoare (faulty failures) (fun w' => w' = w) RedisLock.releaseThread
      (fun _ w' => ThreadClean failures w ∧ w' = w.set { w.attributes with thread := none })
      (fun _ w' => ¬ ThreadClean failures w ∧ w'.attributes.thread ≠ none) := by
  unfold RedisLock.releaseThread
  refine attribute_then (v := w.attributes.thread.isSome) (s := w) rfl rfl (by simp) ?_
  cases hthread : w.attributes.thread with
  | none =>
      refine Hoare.pure fun w' _ heq => ⟨fun worker h => ?_, ?_⟩
      · rw [hthread] at h
        cases h
      · rw [← hthread]
        exact heq
  | some worker =>
      have hfails : ∀ e, failures .stopThread = some e → ¬ ThreadClean failures w := by
        intro e he hclean
        rw [(hclean worker hthread).2] at he
        cases he
      have hset : w.attributes.thread ≠ none := by
        rw [hthread]
        exact Option.some_ne_none worker
      by_cases hstarted : worker = .created
      · have hact : w.act .stopThread = some (.error .runtimeError, w) := by
          simp [Held.act, Attributes.act, Held.set, hthread, hstarted]
        refine teardown_then (t := .stopThread) rfl hact (fun v h => by cases h) ?_ ?_
        · exact fun e _ _ => ⟨fun hclean => (hclean worker hthread).1 hstarted, hset⟩
        · exact fun e he => ⟨⟨hfails e he, hset⟩, ⟨hfails e he, hset⟩⟩
      · have hact : w.act .stopThread =
            some (.ok (), w.set { w.attributes with thread := some .ended }) := by
          simp [Held.act, Attributes.act, hthread, hstarted]
        refine teardown_then (t := .stopThread) rfl hact ?_ (fun e h => by cases h) ?_
        · intro _ _ hquiet
          refine attribute_then (v := ()) (s := w.set { w.attributes with thread := none }) rfl rfl
            (by simp) ?_
          refine (attribute_step (v := ()) rfl rfl (by simp)).of_post fun _ w' _ h => ⟨?_, h.2⟩
          intro worker' heq
          obtain rfl := Option.some.inj (hthread.symm.trans heq)
          exact ⟨hstarted, hquiet⟩
        · exact fun e he => ⟨⟨hfails e he, hset⟩, hfails e he, Option.some_ne_none _⟩

/-- The subscription is ended, closed and forgotten; or it is still there. -/
theorem releasePubsub_cleans :
    Hoare (faulty failures) (fun w' => w' = w) RedisLock.releasePubsub
      (fun _ w' => PubsubClean failures w ∧ w' = w.set { w.attributes with pubsub := none })
      (fun _ w' => ¬ PubsubClean failures w ∧ w'.attributes.pubsub ≠ none) := by
  unfold RedisLock.releasePubsub
  refine attribute_then (v := w.attributes.pubsub) (s := w) rfl rfl (by simp) ?_
  cases hpubsub : w.attributes.pubsub with
  | none =>
      refine Hoare.pure fun w' _ heq => ⟨fun hset => absurd hpubsub hset, ?_⟩
      rw [← hpubsub]
      exact heq
  | some connection =>
      have hset : w.attributes.pubsub ≠ none := by
        rw [hpubsub]
        exact Option.some_ne_none connection
      refine teardown_then (t := .unsubscribe) rfl rfl ?_ (fun e h => by cases h) ?_
      · intro _ _ hunsubscribe
        refine teardown_then (t := .closePubsub) rfl rfl ?_ (fun e h => by cases h) ?_
        · intro _ _ hclose
          refine (attribute_step (v := ()) rfl rfl (by simp)).of_post fun _ w' _ h => ⟨?_, h.2⟩
          exact fun _ => ⟨hunsubscribe, hclose⟩
        · intro e he
          have hfails : ¬ PubsubClean failures w := fun hclean => by
            rw [(hclean hset).2] at he
            cases he
          exact ⟨⟨hfails, hset⟩, hfails, hset⟩
      · intro e he
        have hfails : ¬ PubsubClean failures w := fun hclean => by
          rw [(hclean hset).1] at he
          cases he
        exact ⟨⟨hfails, hset⟩, hfails, hset⟩

/-- A connection of its own is closed and cleared; or it is still there. -/
theorem releaseConnection_cleans (self : RedisLock) :
    Hoare (faulty failures) (fun w' => w' = w) self.releaseConnection
      (fun _ w' => ConnectionClean failures w self ∧
        w'.attributes.thread = w.attributes.thread ∧ w'.attributes.pubsub = w.attributes.pubsub ∧
        (self.closeConnection = true → w'.attributes.connection = none ∧
          ∀ c, w.attributes.connection = some c → w'.closed c = true))
      (fun _ w' => ¬ ConnectionClean failures w self ∧ self.closeConnection = true ∧
        w'.attributes.connection ≠ none) := by
  unfold RedisLock.releaseConnection
  cases hown : self.closeConnection with
  | false =>
      refine Hoare.pure fun w' _ heq => ?_
      obtain rfl := heq
      refine ⟨fun h => ?_, rfl, rfl, fun h => (by cases h)⟩
      rw [hown] at h
      cases h
  | true =>
      refine attribute_then (v := w.attributes.connection) (s := w) rfl rfl (by simp) ?_
      cases hconnection : w.attributes.connection with
      | none =>
          refine Hoare.pure fun w' _ heq => ?_
          obtain rfl := heq
          exact ⟨fun _ hset => absurd hconnection hset, rfl, rfl,
            fun _ => ⟨hconnection, fun c hc => (by cases hc)⟩⟩
      | some connection =>
          have hset : w.attributes.connection ≠ none := by
            rw [hconnection]
            exact Option.some_ne_none connection
          refine teardown_then (t := .closeConnection) rfl rfl ?_ (fun e h => by cases h) ?_
          · intro _ _ hquiet
            refine (attribute_step (v := ()) rfl rfl (by simp)).of_post fun _ w' _ h => ?_
            obtain rfl := h.2
            refine ⟨fun _ _ => hquiet, rfl, rfl, fun _ => ⟨rfl, fun c hc => ?_⟩⟩
            obtain rfl := Option.some.inj hc
            simp [Held.set, hconnection]
          · intro e he
            have hfails : ¬ ConnectionClean failures w self := fun hclean => by
              rw [hclean hown hset] at he
              cases he
            exact ⟨⟨hfails, rfl, hset⟩, hfails, rfl, hset⟩

/-- `release` returns and has cleared everything, or it raises and has not; and this is up
to its steps. -/
theorem release_cleans (self : RedisLock) :
    Hoare (faulty failures) (fun w' => w' = w) self.release
      (fun _ w' => self.Clean failures w ∧ self.Cleared w w')
      (fun _ w' => ¬ self.Clean failures w ∧ ¬ self.Cleared w w') := by
  unfold RedisLock.release
  refine attribute_then (v := ()) (s := w.set { w.attributes with writerElected := false }) rfl rfl
    (by simp) ?_
  refine Hoare.bind (releaseThread_cleans.conseq (fun _ _ h => h) (fun _ _ _ h => h) ?_)
    fun _ => Hoare.of_fact fun hthread => ?_
  · exact fun e w' _ h => ⟨fun hclean => h.1 hclean.thread, fun hcleared => h.2 hcleared.thread⟩
  refine Hoare.bind (releasePubsub_cleans.conseq (fun _ _ h => h) (fun _ _ _ h => h) ?_)
    fun _ => Hoare.of_fact fun hpubsub => ?_
  · exact fun e w' _ h => ⟨fun hclean => h.1 hclean.pubsub, fun hcleared => h.2 hcleared.pubsub⟩
  refine (releaseConnection_cleans self).conseq (fun _ _ h => h) (fun _ w' _ h => ?_)
    fun e w' _ h => ?_
  · obtain ⟨hconnection, hthread', hpubsub', hclosed⟩ := h
    exact ⟨⟨hthread, hpubsub, hconnection⟩, ⟨hthread', hpubsub', hclosed⟩⟩
  · exact ⟨fun hclean => h.1 hclean.connection, fun hcleared =>
      h.2.2 (hcleared.connection h.2.1).1⟩

end Release

/-! ## The first exception of a call -/

/-- What has happened in a call. -/
abbrev Steps : Type := List (Entry Held Op fun o => Except Exc (Val o))

/-- The exception an operation has raised. -/
def raisedBy (entry : Entry Held Op fun o => Except Exc (Val o)) : Option Exc :=
  match entry.answer with
  | .ok _ => none
  | .error e => some e

/-- The first operation that has raised. -/
def firstRaised (trace : Steps) : Option (Entry Held Op fun o => Except Exc (Val o)) :=
  trace.find? fun entry => (raisedBy entry).isSome

/-- The call has not begun with an `Exception` out of `_start_subscription`. -/
def NotStarting (trace : Steps) : Prop :=
  ∀ entry e, firstRaised trace = some entry → entry.op.starts = true → raisedBy entry = some e →
    e.isException = false

/-- It has, the exception is `e`, and nothing has happened since. -/
def JustRaised (e : Exc) (W : Held × Steps) : Prop :=
  ∃ entry, firstRaised W.2 = some entry ∧ entry.op.starts = true ∧ raisedBy entry = some e ∧
    e.isException = true ∧ entry.after = W.1

/-- It has, and the call has ended with `e`: with the exception that began it, and with
everything cleared, if and only if none of the steps of the rollback raises. -/
def RolledBack (self : RedisLock) (failures : Failures) (e : Exc) (W : Held × Steps) : Prop :=
  ∃ entry e₀, firstRaised W.2 = some entry ∧ entry.op.starts = true ∧
    raisedBy entry = some e₀ ∧ e₀.isException = true ∧
    ((e = e₀ ∧ self.Cleared entry.after W.1) ↔ self.Clean failures entry.after)

section Acquire

variable {failures : Failures} {log trace : Steps} {α : Type}
  {entry : Entry Held Op fun o => Except Exc (Val o)}

theorem firstRaised_append (h : firstRaised log = some entry) :
    firstRaised (log ++ trace) = some entry := by
  unfold firstRaised at h ⊢
  rw [List.find?_append, h]
  rfl

theorem firstRaised_snoc (h : firstRaised log = none) :
    firstRaised (log ++ [entry]) = if (raisedBy entry).isSome then some entry else none := by
  unfold firstRaised at h ⊢
  rw [List.find?_append, h, List.find?_singleton]
  rfl

/-- An operation of another kind changes nothing. -/
theorem NotStarting.snoc (h : NotStarting log) (hstarts : entry.op.starts = false) :
    NotStarting (log ++ [entry]) := by
  intro first e hfirst hop hraised
  cases hlog : firstRaised log with
  | some first' =>
      obtain rfl := Option.some.inj ((firstRaised_append hlog).symm.trans hfirst)
      exact h _ e hlog hop hraised
  | none =>
      rw [firstRaised_snoc hlog] at hfirst
      split at hfirst
      · obtain rfl := Option.some.inj hfirst
        rw [hstarts] at hop
        cases hop
      · cases hfirst

/-- An operation does not raise, or it is not the first, or it has just raised. -/
theorem NotStarting.step (h : NotStarting log) {e : Exc} (hraised : raisedBy entry = some e)
    {w' : Held} (hafter : entry.after = w') :
    NotStarting (log ++ [entry]) ∨ JustRaised e (w', log ++ [entry]) := by
  cases hlog : firstRaised log with
  | some first =>
      refine Or.inl fun first' e' hfirst hop hraised' => ?_
      obtain rfl := Option.some.inj ((firstRaised_append hlog).symm.trans hfirst)
      exact h _ e' hlog hop hraised'
  | none =>
      have hfirst : firstRaised (log ++ [entry]) = some entry := by
        rw [firstRaised_snoc hlog, hraised]
        rfl
      by_cases hjust : entry.op.starts = true ∧ e.isException = true
      · exact Or.inr ⟨entry, hfirst, hjust.1, hraised, hjust.2, hafter⟩
      · refine Or.inl fun first' e' hfirst' hop hraised' => ?_
        obtain rfl := Option.some.inj (hfirst.symm.trans hfirst')
        obtain rfl := Option.some.inj (hraised.symm.trans hraised')
        exact Bool.eq_false_iff.2 fun hexception => hjust ⟨hop, hexception⟩

theorem NotStarting.quiet (h : NotStarting log) (hraised : raisedBy entry = none) :
    NotStarting (log ++ [entry]) := by
  intro first e hfirst hop hraised'
  cases hlog : firstRaised log with
  | some first' =>
      obtain rfl := Option.some.inj ((firstRaised_append hlog).symm.trans hfirst)
      exact h _ e hlog hop hraised'
  | none =>
      rw [firstRaised_snoc hlog, hraised] at hfirst
      cases hfirst

/-- Code without operations of `_start_subscription`. -/
theorem apart_rule {x : Py α} (hx : Code.Within (fun o => o.starts = false) x) :
    Hoare (faulty failures).traced (fun W => NotStarting W.2) x
      (fun _ W => NotStarting W.2) fun _ W => NotStarting W.2 := by
  refine Hoare.within hx fun W o _ h hstarts => ⟨trivial, fun r W' hs => ?_⟩
  rw [hs.2]
  exact h.snoc hstarts

/-- One operation of any kind. -/
theorem starting_rule (o : Op) :
    Hoare (faulty failures).traced (fun W => NotStarting W.2) (perform o)
      (fun _ W => NotStarting W.2) fun e W => NotStarting W.2 ∨ JustRaised e W := by
  refine Hoare.call (fun _ _ _ => trivial) ?_ ?_
  · rintro W v ⟨w', log'⟩ - - h ⟨-, hlog⟩
    dsimp only at hlog ⊢
    rw [hlog]
    exact h.quiet rfl
  · rintro W e ⟨w', log'⟩ - - h ⟨-, hlog⟩
    dsimp only at hlog ⊢
    rw [hlog]
    exact h.step rfl rfl

theorem beside_apart (o : Op) (h : o.Beside) : o.starts = false := by
  cases o with
  | setName | parseResponse | subscribe | startThread => exact h.elim
  | _ => rfl

/-- The rollback, of a subscription that has just failed or for another reason. -/
theorem rollback_rule (self : RedisLock) (e : Exc) :
    Hoare (faulty failures).traced (fun W => NotStarting W.2 ∨ JustRaised e W)
      (if e.isException then do self.release; throw e else throw e : Py Unit)
      (fun _ W => NotStarting W.2)
      (fun e W => NotStarting W.2 ∨ RolledBack self failures e W) := by
  split
  · refine Hoare.of_or ?_ ?_
    · refine Hoare.bind ((apart_rule (self.release_within.mono beside_apart)).conseq
        (fun _ _ h => h) (fun _ _ _ h => h) fun _ _ _ h => Or.inl h) fun _ => ?_
      exact Hoare.throw fun _ _ h => Or.inl h
    · rintro ⟨w, log⟩ hw ⟨entry, hfirst, hop, hraised, hexception, hafter⟩
      dsimp only at hafter hfirst
      subst hafter
      have hcleans : Hoare (faulty failures) (fun w' => w' = entry.after) self.release _ _ :=
        release_cleans self
      have hrelease := hcleans.observed log
      refine Hoare.bind (hrelease.conseq (fun _ _ h => h) (fun _ _ _ h => h) ?_) (fun _ => ?_)
        (entry.after, log) hw ⟨rfl, rfl⟩
      · rintro e' W - ⟨⟨hclean, hcleared⟩, trace, htrace⟩
        refine Or.inr ⟨entry, e, ?_, hop, hraised, hexception, ?_⟩
        · rw [htrace]
          exact firstRaised_append hfirst
        · exact ⟨fun h => absurd h.2 hcleared, fun h => absurd h hclean⟩
      · refine Hoare.throw ?_
        rintro W - ⟨⟨hclean, hcleared⟩, trace, htrace⟩
        refine Or.inr ⟨entry, e, ?_, hop, hraised, hexception, ?_⟩
        · rw [htrace]
          exact firstRaised_append hfirst
        · exact ⟨fun _ => hclean, fun _ => ⟨rfl, hcleared⟩⟩
  · rename_i hexception
    refine Hoare.throw fun W _ h => Or.inl ?_
    rcases h with h | ⟨entry, -, -, -, htrue, -⟩
    · exact h
    · exact absurd htrue hexception

/-- `_start_subscription`. -/
theorem startSubscription_rolls (self : RedisLock) (connection : Connection) :
    Hoare (faulty failures).traced (fun W => NotStarting W.2)
      (self.startSubscription connection) (fun _ W => NotStarting W.2)
      (fun e W => NotStarting W.2 ∨ RolledBack self failures e W) := by
  refine Hoare.bind ((apart_rule (.call rfl)).conseq (fun _ _ h => h) (fun _ _ _ h => h)
    fun _ _ _ h => Or.inl h) fun _ => ?_
  refine Hoare.tryCatch ?_ fun e => rollback_rule self e
  refine Hoare.bind (starting_rule _) fun _ => Hoare.bind (starting_rule _) fun _ => ?_
  refine Hoare.bind (starting_rule _) fun _ => Hoare.bind (starting_rule _) fun _ => ?_
  exact Hoare.bind (starting_rule _) fun _ => starting_rule _

/-- A probe and the decision, without an operation of `_start_subscription`. -/
theorem takeOrProbe_apart (self : RedisLock) (failWhenLocked : Bool) (subscribers : Nat) :
    Code.Within (fun o => o.starts = false) (self.takeOrProbe failWhenLocked subscribers) := by
  have hawait : ∀ u : Unit, Code.Within (fun o => o.starts = false)
      (RedisLock.awaitConfirmation u) := fun _ => by
    refine .step rfl fun message => ?_
    split
    · exact .pure _
    · exact .pure _
  have hcollect : ∀ state, Code.Within (fun o => o.starts = false)
      (RedisLock.collectReply subscribers state) := fun state => by
    refine .step rfl fun message => ?_
    split
    · exact .ite (.pure _) (.pure _)
    · exact .pure _
  have hkill : ∀ holders clients, Code.Within (fun o => o.starts = false)
      (self.killClients holders clients) := by
    intro holders clients
    induction clients with
    | nil => exact .pure _
    | cons client rest ih => exact .ite (.step rfl fun _ => ih) ih
  have hconclude : ∀ holders, Code.Within (fun o => o.starts = false)
      (self.concludeProbe subscribers holders) := fun holders =>
    .step rfl fun _ => .ite (.pure _)
      (.ite (.bind (.step rfl fun clients => hkill holders clients) fun _ => .pure _)
        (.step rfl fun _ => .pure _))
  have hprobe : Code.Within (fun o => o.starts = false)
      (self.probe subscribers self.unavailableTimeout) := by
    refine .step rfl fun _ => .bind ?_ fun _ => .step rfl fun _ => .bind ?_ fun _ => hconclude _
    · exact self.timeoutGenerator_within (fun _ => rfl) (fun _ => rfl) hawait _ _ _
    · exact self.timeoutGenerator_within (fun _ => rfl) (fun _ => rfl) hcollect _ _ _
  refine .ite (self.takeAlone_within.mono beside_apart) (.bind ?_ fun holders => ?_)
  · exact .bind (.withFinally hprobe (.call rfl)) fun _ => .pure _
  · exact (self.resolveLockHolders_within holders failWhenLocked).mono beside_apart

/-- `acquire` ends with an exception of the rollback only if the rollback fails. -/
theorem acquire_rolls (self : RedisLock) (timeout checkInterval : Option Rat)
    (failWhenLocked : Option Bool) :
    Hoare (faulty failures).traced (fun W => NotStarting W.2)
      (self.acquire timeout checkInterval failWhenLocked) (fun _ W => NotStarting W.2)
      (fun e W => NotStarting W.2 ∨ RolledBack self failures e W) := by
  have hbeside : ∀ {β : Type} {x : Py β}, Code.Within (fun o => o.starts = false) x →
      Hoare (faulty failures).traced (fun W => NotStarting W.2) x (fun _ W => NotStarting W.2)
        fun e W => NotStarting W.2 ∨ RolledBack self failures e W :=
    fun hx => (apart_rule hx).conseq (fun _ _ h => h) (fun _ _ _ h => h) fun _ _ _ h => Or.inl h
  refine Hoare.bind (hbeside (.call rfl)) fun pubsub => ?_
  split
  · exact Hoare.throw fun _ _ h => Or.inl h
  · refine Hoare.bind (hbeside (self.resetWriter_within.mono beside_apart)) fun _ => ?_
    refine Hoare.bind (hbeside (RedisLock.getConnection_within.mono beside_apart))
      fun connection => ?_
    have hattempt : ∀ u : Unit, Hoare (faulty failures).traced (fun W => NotStarting W.2)
        (self.attempt connection (failWhenLocked.getD self.failWhenLocked) u)
        (Goes (fun _ W => NotStarting W.2) fun _ W => NotStarting W.2)
        fun e W => NotStarting W.2 ∨ RolledBack self failures e W := by
      intro u
      refine Hoare.bind (R := fun _ W => NotStarting W.2) ?_ fun _ => ?_
      · refine Hoare.bind (hbeside (.call rfl)) fun pubsub => ?_
        split
        · exact Hoare.pure fun _ _ h => h
        · exact startSubscription_rolls self connection
      · refine Hoare.bind (hbeside (.call rfl)) fun subscribers => ?_
        refine Hoare.bind (hbeside (takeOrProbe_apart self _ subscribers)) fun held => ?_
        refine Hoare.pure fun W _ h => ?_
        cases held with
        | true => exact h
        | false => exact h
    refine Hoare.bind (timeoutGenerator_rule self (I := fun _ (W : Held × Steps) => NotStarting W.2)
      (Q := fun _ (W : Held × Steps) => NotStarting W.2) (fun _ o ho => hbeside (.call ?_))
      hattempt ()) fun r => ?_
    · cases o with
      | attempts _ | sleep _ => rfl
      | _ => exact ho.elim
    · cases r with
      | inl _ => exact Hoare.pure fun _ _ h => h
      | inr _ =>
          exact Hoare.bind (hbeside (self.release_within.mono beside_apart)) fun _ =>
            Hoare.throw fun _ _ h => Or.inl h

/-- The list never gets shorter. -/
theorem longer_rule (n : Nat) (x : Py α) :
    Hoare (faulty failures).traced (fun W => n ≤ W.2.length) x (fun _ W => n ≤ W.2.length)
      fun _ W => n ≤ W.2.length := by
  refine Hoare.within (Program.Within.trivial x.run) fun W o _ h _ => ⟨trivial, fun r W' hs => ?_⟩
  rw [hs.2, List.length_append]
  exact Nat.le_add_right_of_le h

/-- An operation makes it longer. -/
theorem longer_step (n : Nat) (o : Op) :
    Hoare (faulty failures).traced (fun W => n ≤ W.2.length) (perform o)
      (fun _ W => n + 1 ≤ W.2.length) fun _ W => n + 1 ≤ W.2.length := by
  have hstep : ∀ {W W' : Held × Steps} {r}, n ≤ W.2.length →
      (faulty failures).traced.step W o r W' → n + 1 ≤ W'.2.length := by
    intro W W' r h hs
    rw [hs.2, List.length_append]
    exact Nat.add_le_add_right h 1
  exact Hoare.call (fun _ _ _ => trivial) (fun _ _ _ _ _ h hs => hstep h hs)
    fun _ _ _ _ _ h hs => hstep h hs

/-- A lock with a subscription refuses to acquire; without one it goes on. -/
theorem acquire_starts (self : RedisLock) (timeout checkInterval : Option Rat)
    (failWhenLocked : Option Bool) (w : Held) :
    Hoare (faulty failures).traced (fun W => W.2 = [] ∧ W.1 = w)
      (self.acquire timeout checkInterval failWhenLocked)
      (fun _ W => w.attributes.pubsub = none ∧ 2 ≤ W.2.length)
      (fun e W => (w.attributes.pubsub = none ∧ 2 ≤ W.2.length) ∨
        (w.attributes.pubsub ≠ none ∧ e = .assertionError ∧ W.1 = w ∧ W.2.length = 1)) := by
  have hread : Hoare (faulty failures).traced (fun W => W.2 = [] ∧ W.1 = w) (perform .pubsub)
      (fun v W => v = w.attributes.pubsub ∧ W.1 = w ∧ W.2.length = 1)
      (fun e W => (w.attributes.pubsub = none ∧ 2 ≤ W.2.length) ∨
        (w.attributes.pubsub ≠ none ∧ e = .assertionError ∧ W.1 = w ∧ W.2.length = 1)) := by
    have hstep : ∀ {r w'}, w.Step failures .pubsub r w' →
        r = .ok w.attributes.pubsub ∧ w' = w := by
      intro r w' hs
      cases hs with
      | act _ h =>
          obtain ⟨rfl, rfl⟩ := Prod.mk.inj (Option.some.inj h)
          exact ⟨rfl, rfl⟩
      | raise h => cases h
      | raiseLate h => cases h
      | answer r h => cases h
    refine Hoare.call (fun _ _ _ => trivial) ?_ ?_
    · rintro ⟨w₀, log⟩ v ⟨w', log'⟩ - - ⟨rfl, rfl⟩ ⟨hs, hlog⟩
      obtain ⟨hv, hw'⟩ := hstep hs
      exact ⟨Except.ok.inj hv, hw', by rw [hlog]; rfl⟩
    · rintro ⟨w₀, log⟩ e ⟨w', log'⟩ - - ⟨rfl, rfl⟩ ⟨hs, -⟩
      cases (hstep hs).1
  refine Hoare.bind hread fun pubsub => Hoare.of_fact fun hpubsub => ?_
  subst hpubsub
  split
  · rename_i hset
    refine Hoare.throw fun W _ h => Or.inr ⟨fun hnone => ?_, rfl, h⟩
    rw [hnone] at hset
    cases hset
  · rename_i hset
    have hnone : w.attributes.pubsub = none := by simpa using hset
    have hreset : Hoare (faulty failures).traced (fun W => 1 ≤ W.2.length) self.resetWriter
        (fun _ W => 1 ≤ W.2.length) fun _ W => 2 ≤ W.2.length := by
      unfold RedisLock.resetWriter
      split
      · exact Hoare.bind (longer_step 1 _) fun _ =>
          (longer_rule 2 _).of_post fun _ _ _ h => Nat.le_of_succ_le h
      · exact Hoare.pure fun _ _ h => h
    refine Hoare.conseq (P := fun W => 1 ≤ W.2.length) (Q := fun _ W => 2 ≤ W.2.length)
      (E := fun _ W => 2 ≤ W.2.length) ?_ (fun W _ h => h.2.symm.le)
      (fun _ W _ h => ⟨hnone, h⟩) fun e W _ h => Or.inl ⟨hnone, h⟩
    refine Hoare.bind hreset fun _ => Hoare.bind (R := fun _ W => 2 ≤ W.2.length) ?_ fun _ =>
      longer_rule 2 _
    exact Hoare.bind (longer_step 1 _) fun _ => longer_rule 2 _

end Acquire

/-- The assertion at the top of `acquire`. -/
def CanStart (w : Held) : Prop := w.attributes.pubsub = none

/-- `release`, in any state and with any of its steps raising.  It clears the thread, the
subscription and a connection of the lock's own if and only if none of the steps that it
attempts raises.  An `acquire` whose first exception comes out of `_start_subscription`
raises that exception, has cleared everything and lets a later `acquire` start, if and only
if none of the steps raises that its rollback attempts; and an `acquire` that cannot start
raises an `AssertionError` at once. -/
theorem release_clears_iff (self : RedisLock) (failures : Failures) :
    (∀ (w w' : Held) (trace : Steps) (outcome : Except Exc Unit),
      (faulty failures).Executes self.release.run w trace outcome w' →
      (self.Cleared w w' ↔ self.Clean failures w)) ∧
    ∀ (timeout checkInterval : Option Rat) (failWhenLocked : Option Bool) (w w' : Held)
        (trace : Steps) (outcome : Except Exc Unit),
      (faulty failures).Executes (self.acquire timeout checkInterval failWhenLocked).run
        w trace outcome w' →
      (∀ entry e, firstRaised trace = some entry → entry.op.starts = true →
        raisedBy entry = some e → e.isException = true →
        ((outcome = .error e ∧ self.Cleared entry.after w' ∧ CanStart w') ↔
          self.Clean failures entry.after)) ∧
      (CanStart w ↔ 2 ≤ trace.length) ∧
      (¬ CanStart w → outcome = .error .assertionError ∧ w' = w) := by
  refine ⟨fun w w' trace outcome hrun => ?_, fun timeout checkInterval failWhenLocked w w' trace
    outcome hrun => ⟨fun entry e hfirst hop hraised hexception => ?_, ?_⟩⟩
  · obtain ⟨-, hends⟩ := (release_cleans self w trivial rfl).executes trivial hrun
    cases outcome with
    | ok u => exact ⟨fun _ => hends.1, fun _ => hends.2⟩
    | error e => exact ⟨fun h => absurd h hends.2, fun h => absurd h hends.1⟩
  · obtain ⟨-, hends⟩ := (acquire_rolls self timeout checkInterval failWhenLocked).executes
      trivial (fun entry e hnone => by cases hnone) hrun
    have hnot : ¬ NotStarting trace := fun h => by
      rw [h entry e hfirst hop hraised] at hexception
      cases hexception
    cases outcome with
    | ok u => exact absurd hends hnot
    | error e' =>
        rcases hends with h | ⟨entry', e₀, hfirst', -, hraised', -, hiff⟩
        · exact absurd h hnot
        · obtain rfl := Option.some.inj (hfirst.symm.trans hfirst')
          obtain rfl := Option.some.inj (hraised.symm.trans hraised')
          rw [← hiff]
          constructor
          · rintro ⟨heq, hcleared, -⟩
            exact ⟨Except.error.inj heq, hcleared⟩
          · rintro ⟨rfl, hcleared⟩
            exact ⟨rfl, hcleared, hcleared.pubsub⟩
  · obtain ⟨-, hends⟩ := (acquire_starts self timeout checkInterval failWhenLocked w).executes
      trivial ⟨rfl, rfl⟩ hrun
    cases outcome with
    | ok u => exact ⟨⟨fun _ => hends.2, fun _ => hends.1⟩, fun h => absurd hends.1 h⟩
    | error e =>
        rcases hends with ⟨hnone, hlength⟩ | ⟨hset, rfl, hw', hlength⟩
        · exact ⟨⟨fun _ => hlength, fun _ => hnone⟩, fun h => absurd hnone h⟩
        · refine ⟨⟨fun h => absurd h hset, fun h => ?_⟩, fun _ => ⟨rfl, hw'⟩⟩
          dsimp only at hlength
          omega

/-! ## A server that goes away -/

namespace outage

/-- The lock, as its constructor leaves it. -/
def lock : RedisLock := { channel := ['c'], holderId := ['a'] }

def start : Held := { attributes := lock.attributes }

/-- One operation: the environment decides what a command raises, and how often the clock
allows another attempt. -/
def answer (failures : Failures) (fault : Option Exc) (w : Held) (o : Op) :
    Option (Except Exc (Val o) × Held) :=
  match o.teardown.bind failures with
  | some e => some (.error e, w)
  | none =>
      match o with
      | .setName _ | .parseResponse | .subscribe =>
          some (match fault with | some e => .error e | none => .ok (), w)
      | .attempts _ => some (.ok 0, w)
      | o => w.act o

theorem answer_step {failures : Failures} {fault : Option Exc} {w w' : Held} {o : Op}
    {r : Except Exc (Val o)} (h : answer failures fault w o = some (r, w')) :
    (faulty failures).step w o r w' := by
  unfold answer at h
  split at h
  · rename_i e hfails
    obtain ⟨rfl, rfl⟩ := Prod.mk.inj (Option.some.inj h)
    exact .raise hfails
  · rename_i hquiet
    split at h
    · obtain ⟨rfl, rfl⟩ := Prod.mk.inj (Option.some.inj h)
      exact .answer _ rfl
    · obtain ⟨rfl, rfl⟩ := Prod.mk.inj (Option.some.inj h)
      exact .answer _ rfl
    · obtain ⟨rfl, rfl⟩ := Prod.mk.inj (Option.some.inj h)
      exact .answer _ rfl
    · obtain ⟨rfl, rfl⟩ := Prod.mk.inj (Option.some.inj h)
      exact .clock _ _
    · exact .act hquiet h

/-- Naming the connection works, and subscribing fails. -/
def subscribing : List (Option Exc) := List.replicate 12 none ++ [some (.other 1)]

/-- Unsubscribing fails. -/
def unreachable : Failures
  | .unsubscribe => some (.other 2)
  | _ => none

end outage

open outage in
theorem release_clears_iff_run :
    ∃ (trace : Steps) (w' : Held),
      (faulty fun _ => none).Executes (lock.acquire none none none).run start trace
        (.error (.other 1)) w' ∧
      (firstRaised trace).bind raisedBy = some (.other 1) ∧ CanStart w' := by
  have hplayed : (Program.play (answer fun _ => none)
      (subscribing ++ List.replicate 9 none) (lock.acquire none none none).run start).map
      (fun r => (r.2.1, (firstRaised r.1).map fun entry =>
        (entry.op.starts, raisedBy entry, entry.after.attributes.thread))) =
      some (.error (.other 1), some (true, some (.other 1), none)) := by rfl
  obtain ⟨⟨trace, outcome, w'⟩, hplay, hobserved⟩ := Option.map_eq_some_iff.1 hplayed
  obtain ⟨houtcome, hfirst⟩ := Prod.mk.inj hobserved
  dsimp only at houtcome hfirst
  subst houtcome
  have hrun := Context.Executes.of_play (C := faulty fun _ => none) answer_step hplay
  obtain ⟨entry, hentry, hfacts⟩ := Option.map_eq_some_iff.1 hfirst
  obtain ⟨hstarts, hrest⟩ := Prod.mk.inj hfacts
  obtain ⟨hraised, hthread⟩ := Prod.mk.inj hrest
  have hclean : lock.Clean (fun _ => none) entry.after := by
    refine ⟨fun worker h => ?_, fun _ => ⟨rfl, rfl⟩, fun _ _ => rfl⟩
    rw [hthread] at h
    cases h
  obtain ⟨hrolled, -⟩ := (release_clears_iff lock fun _ => none).2 none none none _ _ _ _ hrun
  obtain ⟨-, -, hcan⟩ := (hrolled entry (.other 1) hentry hstarts hraised rfl).2 hclean
  refine ⟨trace, w', hrun, ?_, hcan⟩
  rw [hentry, Option.bind_some, hraised]

open outage in
/-- Subscribing fails, and so does the rollback: unsubscribing raises as well.  The call ends
with the second exception, the lock is left with its subscription and its connection, and
the next call is refused. -/
theorem failed_rollback_keeps_lock_active :
    ∃ (trace : Steps) (w' : Held),
      (faulty unreachable).Executes (lock.acquire none none none).run start trace
        (.error (.other 2)) w' ∧
      (firstRaised trace).bind raisedBy = some (.other 1) ∧ ¬ lock.Cleared start w' ∧
      w'.attributes.connection ≠ none ∧
      ∃ trace', (faulty unreachable).Executes (lock.acquire none none none).run w' trace'
        (.error .assertionError) w' := by
  have hplayed : (Program.play (answer unreachable)
      (subscribing ++ List.replicate 4 none) (lock.acquire none none none).run start).map
      (fun r => (r.2.1, (firstRaised r.1).bind raisedBy, r.2.2.attributes)) =
      some (.error (.other 2), some (.other 1),
        ⟨some 1, some 1, none, .pending, false, 2⟩) := by rfl
  obtain ⟨⟨trace, outcome, attributes, closed⟩, hplay, hobserved⟩ :=
    Option.map_eq_some_iff.1 hplayed
  obtain ⟨houtcome, hrest⟩ := Prod.mk.inj hobserved
  obtain ⟨hfirst, hattributes⟩ := Prod.mk.inj hrest
  dsimp only at houtcome hfirst hattributes
  subst houtcome hattributes
  have hrun := Context.Executes.of_play (C := faulty unreachable) answer_step hplay
  have hagain : ∃ trace', Program.play (answer unreachable) [none]
      (lock.acquire none none none).run ⟨⟨some 1, some 1, none, .pending, false, 2⟩, closed⟩ =
      some (trace', .error .assertionError,
        ⟨⟨some 1, some 1, none, .pending, false, 2⟩, closed⟩) := ⟨_, rfl⟩
  obtain ⟨trace', hplay'⟩ := hagain
  exact ⟨trace, _, hrun, hfirst, fun hcleared => (by cases hcleared.pubsub),
    Option.some_ne_none 1, trace',
    Context.Executes.of_play (C := faulty unreachable) answer_step hplay'⟩

end Portalocker.Redis
