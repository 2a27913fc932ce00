import Portalocker.Redis.Connections
set_option autoImplicit false
set_option linter.unusedSectionVars false

/-!
# A channel is free after crashes

No key has to expire and nobody has to be killed: once the holders of a channel have crashed
or let go of their subscriptions, a lock that is left alone, and whose SUBSCRIBE is carried
out at once, acquires it, at its first attempt, whatever its timeout.
-/

namespace Portalocker.Redis

open Interleaving Interleaving.Machine World

variable {ι : Type} [DecidableEq ι]

/-! ## A lock that is left alone -/

section Alone

variable {cfg : Config ι} {p : ι} {c : RedisLock.Call}

/-- Nothing fails, and a SUBSCRIBE is carried out at once. -/
def Prompt (choice : Choice ι) : Prop := choice.fault = none ∧ choice.inFlight = false

/-- Lock `p` runs alone, promptly. -/
abbrev leftAlone (cfg : Config ι) (p : ι) (c : RedisLock.Call) :
    Context (World ι) Op (fun o => Except Exc (Val o)) :=
  cfg.channelMachine.alone p c Prompt (fun _ => True) (fun _ _ => True)
    fun _ _ _ _ _ _ _ _ _ => trivial

/-- Nothing happens in between, so every assertion is stable. -/
instance stable_leftAlone (P : World ι → Prop) : (leftAlone cfg p c).Stable P :=
  ⟨fun _ _ hr hP => hr ▸ hP⟩

/-- A triple about code that is left alone and never raises. -/
abbrev AloneTriple (cfg : Config ι) (p : ι) (c : RedisLock.Call) {α : Type} (P : World ι → Prop)
    (x : Py α) (Q : α → World ι → Prop) : Prop :=
  Hoare (leftAlone cfg p c) P x Q fun _ _ => False

/-- One operation: it is possible, and what it does leads to the postcondition. -/
theorem alone_rule {o : Op} {P : World ι → Prop} {Q : Val o → World ι → Prop}
    (hpossible : ∀ w, P w → ∃ choice : Choice ι, Prompt choice ∧ ∃ rw, act choice p w o = some rw)
    (hact : ∀ w choice r w', Prompt choice → P w → act choice p w o = some (r, w') →
      Ends Q (fun _ _ => False) r w') : AloneTriple cfg p c P (perform o) Q := by
  have hperform : ∀ {choice : Choice ι} {w : World ι} {rw}, Prompt choice →
      (cfg.performOp choice p w o = some rw ↔ act choice p w o = some rw) := by
    intro choice w rw hprompt
    simp [Config.performOp, hprompt.1]
  refine Hoare.step (C := leftAlone cfg p c) ?_ ?_
  · intro w _ hp
    obtain ⟨choice, hprompt, rw, h⟩ := hpossible w hp
    exact ⟨trivial, choice, rw, hprompt, (hperform hprompt).2 h⟩
  · rintro w r w' - - hp ⟨choice, hprompt, h⟩
    exact hact w choice r w' hprompt hp ((hperform hprompt).1 h)

/-- An operation whose answer and effect are functions of the world. -/
theorem alone_effect_rule {o : Op} {P : World ι → Prop} {Q : Val o → World ι → Prop}
    (value : World ι → Val o) (effect : World ι → World ι)
    (hact : ∀ w choice, Prompt choice → act choice p w o = some (.ok (value w), effect w))
    (hQ : ∀ w, P w → Q (value w) (effect w)) : AloneTriple cfg p c P (perform o) Q := by
  refine alone_rule (fun w _ => ⟨{}, ⟨rfl, rfl⟩, _, hact w _ ⟨rfl, rfl⟩⟩) ?_
  intro w choice r w' hprompt hp h
  obtain ⟨rfl, rfl⟩ := Prod.mk.inj (Option.some.inj ((hact w choice hprompt).symm.trans h))
  exact hQ w hp

/-! ## Acquiring a channel without subscribers -/

/-- The subscribers are these, and the lock's attributes are as `φ` says. -/
def Stands (p : ι) (S : List (Subscriber ι)) (φ : Attributes → Prop) (w : World ι) : Prop :=
  w.subscribers = S ∧ φ (w.attributes p)

variable {S : List (Subscriber ι)} {φ : Attributes → Prop}

/-- An operation that only concerns the attributes. -/
theorem attributes_rule {o : Op} {ψ : Val o → Attributes → Prop} (value : Attributes → Val o)
    (effect : Attributes → Attributes)
    (hact : ∀ (w : World ι) choice, act choice p w o =
      some (.ok (value (w.attributes p)), w.setAttributes p (effect (w.attributes p))))
    (h : ∀ a, φ a → ψ (value a) (effect a)) :
    AloneTriple cfg p c (Stands p S φ) (perform o) fun v => Stands p S (ψ v) := by
  refine alone_effect_rule (fun w => value (w.attributes p)) _ (fun w choice _ => hact w choice) ?_
  rintro w ⟨hS, hφ⟩
  refine ⟨hS, ?_⟩
  simpa using h _ hφ

/-- An operation that changes neither. -/
theorem neither_rule {o : Op} (value : World ι → Val o) (effect : World ι → World ι)
    (hact : ∀ w choice, act choice p w o = some (.ok (value w), effect w))
    (hsubscribers : ∀ w, (effect w).subscribers = w.subscribers)
    (hattributes : ∀ w, (effect w).attributes = w.attributes) :
    AloneTriple cfg p c (Stands p S φ) (perform o) fun _ => Stands p S φ := by
  refine alone_effect_rule value effect (fun w choice _ => hact w choice) ?_
  rintro w ⟨hS, hφ⟩
  exact ⟨(hsubscribers w).trans hS, hattributes w ▸ hφ⟩

theorem sleep_alone (interval : Rat) :
    AloneTriple cfg p c (Stands p S φ) (perform (.sleep interval)) fun _ => Stands p S φ :=
  neither_rule (fun _ => ()) id (fun _ _ => rfl) (fun _ => rfl) fun _ => rfl

/-- The attributes store no subscription. -/
def Unsubscribed (a : Attributes) : Prop := a.pubsub = none

/-- The worker runs. -/
def Attended (a : Attributes) : Prop := a.thread = some .running

theorem resetWriter_alone (self : RedisLock) :
    AloneTriple cfg p c (Stands p S Unsubscribed) self.resetWriter
      fun _ => Stands p S Unsubscribed := by
  unfold RedisLock.resetWriter
  split
  · refine Hoare.bind (R := fun _ => Stands p S Unsubscribed) ?_ fun _ => ?_
    · refine alone_effect_rule (fun _ => ()) (fun w => w.setMode p .pending) (fun _ _ _ => rfl) ?_
      rintro w ⟨hS, hφ⟩
      exact ⟨hS, by simpa [Unsubscribed] using hφ⟩
    · exact attributes_rule (fun _ => ()) (fun a => { a with writerElected := false })
        (fun _ _ => rfl) fun _ h => h
  · exact Hoare.pure fun _ _ h => h

theorem getConnection_alone :
    AloneTriple cfg p c (Stands p S Unsubscribed) RedisLock.getConnection
      fun _ => Stands p S Unsubscribed := by
  refine Hoare.bind (R := fun _ => Stands p S Unsubscribed) (attributes_rule (fun a => a.connection)
    id (fun _ _ => rfl) fun _ h => h) fun v => ?_
  cases v with
  | some connection => exact Hoare.pure fun _ _ h => h
  | none =>
      refine Hoare.bind (R := fun _ => Stands p S Unsubscribed) (attributes_rule
        (fun a => a.created) (fun a => { a with created := a.created + 1 }) (fun _ _ => rfl)
        fun _ h => h) fun connection => ?_
      exact Hoare.bind (R := fun _ => Stands p S Unsubscribed) (attributes_rule (fun _ => ())
        (fun a => { a with connection := some connection }) (fun _ _ => rfl) fun _ h => h)
        fun _ => Hoare.pure fun _ _ h => h

/-- The subscription starts. -/
theorem subscribe_alone :
    AloneTriple cfg p c (Stands p [] φ) (perform .subscribe) fun _ => Stands p [.lock p] φ := by
  refine alone_effect_rule (fun _ => ())
    (fun w => if .lock p ∈ w.subscribers then w else w.subscribe p) ?_ ?_
  · intro w choice hprompt
    simp [act, hprompt.2]
  · rintro w ⟨hS, hφ⟩
    rw [if_neg (by simp [hS])]
    exact ⟨by simp [hS], hφ⟩

theorem startSubscription_alone (self : RedisLock) (connection : Connection) :
    AloneTriple cfg p c (Stands p [] Unsubscribed) (self.startSubscription connection)
      fun _ => Stands p [.lock p] Attended := by
  refine Hoare.bind (R := fun _ => Stands p [] fun _ => True) (attributes_rule (fun _ => ())
    (fun a => { a with pubsub := some connection }) (fun _ _ => rfl) fun _ _ => trivial) fun _ => ?_
  refine Hoare.tryCatch (F := fun _ _ => False) ?_ fun e => Hoare.of_false fun _ _ h => h
  refine Hoare.bind (R := fun _ => Stands p [] fun _ => True) (neither_rule (fun _ => ())
    (fun w => w.setName p self.clientName) (fun _ _ => rfl) (fun _ => rfl) fun _ => rfl) fun _ => ?_
  refine Hoare.bind (R := fun _ => Stands p [] fun _ => True) (neither_rule (fun _ => ()) id
    (fun _ _ => rfl) (fun _ => rfl) fun _ => rfl) fun _ => ?_
  refine Hoare.bind subscribe_alone fun _ => ?_
  refine Hoare.bind (R := fun _ => Stands p [.lock p] fun _ => True) (attributes_rule (fun _ => ())
    (fun a => { a with thread := some .created }) (fun _ _ => rfl) fun _ _ => trivial) fun _ => ?_
  refine Hoare.bind (R := fun _ => Stands p [.lock p] Attended) (attributes_rule (fun _ => ())
    (fun a => { a with thread := some .running }) (fun _ _ => rfl) fun _ _ => rfl) fun _ => ?_
  exact sleep_alone _

/-- The lock has just been taken: it owns the channel, of which it is the only subscriber,
and its worker answers for it. -/
def TookOver (cfg : Config ι) (p : ι) (w : World ι) : Prop :=
  Stands p [.lock p] (fun a => a.thread = some .running ∧ (Writes cfg p → a.mode = .exclusive)) w ∧
    w.owns p = true

theorem takeAlone_alone :
    AloneTriple cfg p c (Stands p [.lock p] Attended) (cfg.lock p).takeAlone
      fun held w => held = true ∧ TookOver cfg p w := by
  refine Hoare.bind (R := fun _ w => Stands p [.lock p] Attended w ∧ w.owns p = true) ?_ fun _ => ?_
  · refine alone_effect_rule (fun _ => ()) (fun w => w.win p) (fun _ _ _ => rfl) ?_
    intro w h
    exact ⟨h, by simp⟩
  · split
    · refine Hoare.bind (R := fun _ => TookOver cfg p) ?_ fun _ => Hoare.pure fun _ _ h => ⟨rfl, h⟩
      refine alone_effect_rule (fun _ => ()) (fun w => w.setMode p .exclusive) (fun _ _ _ => rfl) ?_
      rintro w ⟨⟨hS, hthread⟩, howns⟩
      have hthread : (w.attributes p).thread = some .running := hthread
      exact ⟨⟨hS, by simp [hthread]⟩, howns⟩
    · rename_i hreads
      refine Hoare.pure ?_
      rintro w - ⟨⟨hS, hthread⟩, howns⟩
      exact ⟨rfl, ⟨hS, hthread, fun hwrites => absurd hwrites hreads⟩, howns⟩

/-- The first attempt succeeds. -/
theorem attempt_alone (connection : Connection) (failWhenLocked : Bool) :
    AloneTriple cfg p c (Stands p [] Unsubscribed)
      ((cfg.lock p).attempt connection failWhenLocked ())
      fun r w => r = .inl () ∧ TookOver cfg p w := by
  refine Hoare.bind (R := fun _ => Stands p [.lock p] Attended) ?_ fun _ => ?_
  · refine Hoare.bind (R := fun v => Stands p [] fun a => a.pubsub = v ∧ v = none)
      (attributes_rule (fun a => a.pubsub) id (fun _ _ => rfl) fun _ h => ⟨rfl, h⟩) fun v => ?_
    cases v with
    | none => exact (startSubscription_alone _ connection).of_pre fun _ _ h => ⟨h.1, h.2.1⟩
    | some stored => exact Hoare.of_false fun _ _ h => by cases h.2.2
  · refine Hoare.bind (R := fun n w => n = 1 ∧ Stands p [.lock p] Attended w) ?_ fun n => ?_
    · refine alone_effect_rule (fun w => w.subscribers.length) (fun w => w.count p)
        (fun _ _ _ => rfl) ?_
      intro w h
      exact ⟨by simp [h.1], h⟩
    · refine Hoare.of_fact fun hn => ?_
      subst hn
      refine Hoare.bind (R := fun held w => held = true ∧ TookOver cfg p w) takeAlone_alone
        fun held => Hoare.of_fact fun hheld => ?_
      subst hheld
      exact Hoare.pure fun _ _ h => ⟨rfl, h⟩

theorem acquire_alone (timeout checkInterval : Option Rat) (failWhenLocked : Option Bool) :
    AloneTriple cfg p c (Stands p [] Unsubscribed)
      ((cfg.lock p).acquire timeout checkInterval failWhenLocked) fun _ => TookOver cfg p := by
  refine Hoare.bind (R := fun v => Stands p [] fun a => a.pubsub = v ∧ v = none)
    (attributes_rule (fun a => a.pubsub) id (fun _ _ => rfl) fun _ h => ⟨rfl, h⟩) fun v => ?_
  cases v with
  | some stored => exact Hoare.of_false fun _ _ h => by cases h.2.2
  | none =>
      refine Hoare.bind ((resetWriter_alone _).of_pre fun _ _ h => ⟨h.1, h.2.1⟩) fun _ => ?_
      refine Hoare.bind getConnection_alone fun connection => ?_
      refine Hoare.bind (R := fun r w => r = .inl () ∧ TookOver cfg p w) ?_ fun r =>
        Hoare.of_fact fun hr => ?_
      · -- the clock allows at least one round
        refine Hoare.bind (R := fun _ => Stands p [] Unsubscribed) ?_ fun more => ?_
        · refine alone_rule (fun w _ => ⟨{}, ⟨rfl, rfl⟩, (.ok 0, w), by simp [act]⟩) ?_
          intro w choice r w' _ hw h
          simp only [act, Option.ite_none_left_eq_some, Option.some.injEq, Prod.mk.injEq] at h
          obtain ⟨-, rfl, rfl⟩ := h
          exact hw
        · refine Hoare.bind (sleep_alone _) fun _ => ?_
          refine Hoare.bind (attempt_alone connection _) fun r => Hoare.of_fact fun hr => ?_
          subst hr
          exact Hoare.pure fun _ _ h => ⟨rfl, h⟩
      · subst hr
        exact Hoare.pure fun _ _ h => h

/-- The call returns, and the lock is taken. -/
def Acquired (cfg : Config ι) (p : ι) (w : World ι) : Prop :=
  TookOver cfg p w ∧ w.outcome p = some none

theorem call_alone (timeout checkInterval : Option Rat) (failWhenLocked : Option Bool)
    {w : World ι} (hw : Stands p [] Unsubscribed w) :
    (leftAlone cfg p c).Safe
      ((cfg.lock p).call (.acquire timeout checkInterval failWhenLocked)).toCall
      (fun _ => Acquired cfg p) w := by
  have hcall : AloneTriple cfg p c (Stands p [] Unsubscribed)
      (RedisLock.observed ((cfg.lock p).acquire timeout checkInterval failWhenLocked))
      fun _ => Acquired cfg p := by
    refine Hoare.bind (R := Ends (fun _ => TookOver cfg p) fun _ _ => False)
      (Hoare.attempt (acquire_alone timeout checkInterval failWhenLocked)) fun r => ?_
    cases r with
    | error e => exact Hoare.of_false fun _ _ h => h
    | ok u =>
        refine alone_effect_rule (fun _ => ()) (fun w => w.stop p none) (fun _ _ _ => rfl) ?_
        intro w h
        exact ⟨h, by simp⟩
  exact Hoare.toCall inferInstance (hcall.conseq (fun _ _ h => h) (fun _ _ _ h => h)
    fun _ _ _ h => h.elim) trivial hw

end Alone

/-! ## After crashes -/

section System

variable {cfg : Config ι}

/-- The locks that live store no subscription, and nobody else is subscribed: then there is
no subscriber. -/
theorem vacant_of_reach {s : (crashableChannel cfg).State}
    (hs : Reach (UntouchedChannel cfg) ((undropped cfg).crashing World.crash) s)
    (hlocks : ∀ q, s.world.2 q = false → (World.attributes s.world.1 q).pubsub = none)
    (hstrangers : ∀ n, .stranger n ∉ World.subscribers s.world.1) :
    World.subscribers s.world.1 = [] := by
  have horderly : ∀ p c o w, (undropped cfg).op p c o w → Orderly p w o := fun _ _ _ _ h => h
  have hsound : Sound cfg s.world.1 := (crashing_holds horderly hs).1
  apply List.eq_nil_iff_forall_not_mem.2
  intro x hx
  cases x with
  | stranger n => exact hstrangers n hx
  | lock q =>
      cases hq : s.world.2 q with
      | true => exact (gone_of_reach horderly hs q hq).2.1 hx
      | false => exact hsound.pubsub (hlocks q hq) hx

/-- The writer takes the channel and crashes. -/
def writerReader.crash : List (crashableChannel writerReader).Label :=
  .call false (.acquire none none none) :: List.replicate 18 (.op false {}) ++
    [.event (.inr false)]

/-- No connection is killed, and nobody counts before it is subscribed. -/
def sparing (p : Bool) (o : Op) (W : (crashableChannel writerReader).World) : Bool :=
  keepsOrder p o W.1

/-- After crashes.  Once the locks that live have let go of their subscriptions and nobody
else is subscribed, a lock that is left alone and whose SUBSCRIBE is carried out at once
acquires the channel, whatever its timeout and whoever held the channel when it crashed. -/
theorem redis_acquires_after_crashes {s : (crashableChannel cfg).State} {p : ι}
    (hs : Reach (UntouchedChannel cfg) ((undropped cfg).crashing World.crash) s)
    (hlive : s.world.2 p = false) (hidle : s.thread p = none)
    (hlocks : ∀ q, s.world.2 q = false → (World.attributes s.world.1 q).pubsub = none)
    (hstrangers : ∀ n, .stranger n ∉ World.subscribers s.world.1)
    (timeout checkInterval : Option Rat) (failWhenLocked : Option Bool) :
    (∃ ls s', OnlyOps p Prompt ls ∧ s'.thread p = none ∧
      run (.call p (RedisLock.Call.acquire timeout checkInterval failWhenLocked) :: ls) s =
        some s') ∧
    ∀ ls s', OnlyOps p Prompt ls → s'.thread p = none →
      run (.call p (RedisLock.Call.acquire timeout checkInterval failWhenLocked) :: ls) s =
        some s' → Acquired cfg p s'.world.1 := by
  have hvacant := vacant_of_reach hs hlocks hstrangers
  have halone : (leftAlone cfg p (.acquire timeout checkInterval failWhenLocked)).Safe
      ((cfg.lock p).call (.acquire timeout checkInterval failWhenLocked)).toCall
      (fun _ => Acquired cfg p) s.world.1 :=
    call_alone timeout checkInterval failWhenLocked ⟨hvacant, hlocks p hlive⟩
  have hsafe := Context.Safe.after_crashes World.crash halone hlive
  refine ⟨?_, fun ls s' hops hdone hrun => hsafe.call_ends ⟨trivial, hlive⟩ hops hrun hdone⟩
  obtain ⟨ls, s', hops, hrun, hdone, -⟩ := hsafe.call_completes ⟨trivial, hlive⟩ hidle
  exact ⟨ls, s', hops, hdone, hrun⟩

/-- The writer has crashed, and the reader acquires the channel. -/
theorem redis_acquires_after_crashes_run :
    ∃ s s' ls, runChecked sparing writerReader.crash writerReader.alive = some s ∧
      s.world.2 false = true ∧
      run (.call true (RedisLock.Call.acquire none none none) :: ls) s = some s' ∧
      World.owns s'.world.1 true = true ∧ World.subscribers s'.world.1 = [.lock true] := by
  have hobserve : (runChecked sparing writerReader.crash writerReader.alive).map (fun s =>
      (World.subscribers s.world.1, s.world.2 false, s.world.2 true,
        (World.attributes s.world.1 true).pubsub, (s.thread true).map Prod.fst)) =
      some ([], true, false, none, none) := by rfl
  obtain ⟨s, hrun, hs⟩ := Option.map_eq_some_iff.1 hobserve
  obtain ⟨hsubscribers, hs⟩ := Prod.mk.inj hs
  obtain ⟨hcrashed, hs⟩ := Prod.mk.inj hs
  obtain ⟨hlive, hs⟩ := Prod.mk.inj hs
  obtain ⟨hpubsub, hthread⟩ := Prod.mk.inj hs
  have hreach : Reach (UntouchedChannel writerReader)
      ((undropped writerReader).crashing World.crash) s :=
    (Reach.start (show UntouchedChannel writerReader writerReader.alive.world from
      ⟨rfl, fun _ => rfl⟩)).checked (fun _ _ _ => trivial)
        (fun _ _ _ _ hcheck => orderly_of_keepsOrder hcheck) hrun
  have hlocks : ∀ q, s.world.2 q = false → (World.attributes s.world.1 q).pubsub = none := by
    intro q hq
    cases q with
    | true => exact hpubsub
    | false =>
        rw [hcrashed] at hq
        cases hq
  obtain ⟨⟨ls, s', hops, hdone, hacquire⟩, htaken⟩ :=
    redis_acquires_after_crashes hreach hlive (Option.map_eq_none_iff.1 hthread) hlocks
      (fun n hn => by simp [hsubscribers] at hn) none none none
  obtain ⟨⟨⟨halone, -⟩, howns⟩, -⟩ := htaken ls s' hops hdone hacquire
  exact ⟨s, s', ls, hrun, hcrashed, hacquire, howns, halone⟩

end System

end Portalocker.Redis
