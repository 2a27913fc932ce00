import Portalocker.Redis.Channel
set_option autoImplicit false
set_option linter.unusedSectionVars false

/-!
# What the locks of a channel keep

The invariant of every run in which no live subscription is dropped, the
permission each operation needs, and what the steps of the others leave alone:
the contract under which the code of one lock is verified in `Redis/Probe.lean`.
-/

namespace Portalocker.Redis

open Interleaving Interleaving.Machine World

variable {ι : Type} [DecidableEq ι]

/-! ## What one operation can do -/

/-- Every way operation `o` of lock `p` can change the world. -/
inductive Change (p : ι) (w : World ι) : Op → World ι → Prop
  | same (o : Op) : Change p w o w
  /-- an attribute other than the mode and the subscription -/
  | attributes (o : Op) (a : Attributes) (hpubsub : a.pubsub = (w.attributes p).pubsub)
      (hmode : a.mode = (w.attributes p).mode) : Change p w o (w.setAttributes p a)
  | setPubsub (value : Option Connection) :
      Change p w (.setPubsub value)
        (w.setAttributes p { w.attributes p with pubsub := value })
  | setMode (mode : RedisLockMode) : Change p w (.setMode mode) (w.setMode p mode)
  | setName (name : Text) : Change p w (.setName name) (w.setName p name)
  | sendSubscribe (h : .lock p ∉ w.subscribers) : Change p w .subscribe (w.sendSubscribe p)
  | subscribe (h : .lock p ∉ w.subscribers) : Change p w .subscribe (w.subscribe p)
  | unsubscribe : Change p w .unsubscribe (w.unsubscribe p)
  | closePubsub : Change p w .closePubsub (w.closePubsub p)
  | count : Change p w (.subscriberCount false) (w.count p)
  | recount : Change p w (.subscriberCount true) (w.recount p)
  | request : Change p w .subscribeResponse (w.setResponse p .requested)
  | listen : Change p w .getMessage (w.listen p)
  | receive (s : Subscriber ι) (data : Option Json) (h : w.mail p s = .answered data) :
      Change p w .getMessage ((w.setMail p s .read).listen p)
  | closeProbe : Change p w .closeProbe (w.closeProbe p)
  | publish : Change p w .publish (w.publish p)
  | clientKill (id : Nat) : Change p w (.clientKill id) (w.kill id)
  | won (holders : Option (List RedisLockHolder)) : Change p w (.won holders) (w.win p)
  | ended (outcome : Option Exc) : Change p w (.ended outcome) (w.stop p outcome)

section Cases

variable {choice : Choice ι} {p : ι} {w w' : World ι} {o : Op} {r : Except Exc (Val o)}

theorem act_change (h : act choice p w o = some (r, w')) : Change p w o w' := by
  cases o with
  | setMode | setName | unsubscribe | closePubsub | subscribeResponse | closeProbe | publish
    | clientKill | won | ended =>
      simp only [act, Option.some.injEq, Prod.mk.injEq] at h
      obtain ⟨-, rfl⟩ := h
      constructor
  | parseResponse | closeConnection | clientList | sleep | concluded =>
      simp only [act, Option.some.injEq, Prod.mk.injEq] at h
      exact h.2 ▸ .same _
  | subscribe =>
      simp only [act, Option.some.injEq, Prod.mk.injEq] at h
      obtain ⟨-, rfl⟩ := h
      split
      · exact .same _
      · split
        · exact .sendSubscribe ‹_›
        · exact .subscribe ‹_›
  | subscriberCount again =>
      simp only [act, Option.some.injEq, Prod.mk.injEq] at h
      obtain ⟨-, rfl⟩ := h
      cases again with
      | true => exact .recount
      | false => exact .count
  | attempts timeout =>
      simp only [act, Option.ite_none_left_eq_some, Option.some.injEq, Prod.mk.injEq] at h
      exact h.2.2 ▸ .same _
  | getMessage =>
      simp only [act, receive] at h
      split at h
      · simp only [Option.some.injEq, Prod.mk.injEq] at h
        exact h.2 ▸ .listen
      · simp only [Option.ite_none_right_eq_some, Option.some.injEq, Prod.mk.injEq] at h
        exact h.2.2 ▸ .listen
      · split at h
        · simp only [Option.some.injEq, Prod.mk.injEq] at h
          exact h.2 ▸ .receive _ _ ‹_›
        · cases h
  | setPubsub value =>
      simp only [act, Attributes.act, Option.map_some, Option.some.injEq, Prod.mk.injEq] at h
      exact h.2 ▸ .setPubsub value
  | connection | setConnection | newConnection | pubsub | thread | setThread | writerElected
    | setWriterElected | startThread =>
      simp only [act, Attributes.act, Option.map_some, Option.some.injEq, Prod.mk.injEq] at h
      exact h.2 ▸ .attributes _ _ rfl rfl
  | stopThread =>
      simp only [act, Attributes.act, Option.ite_none_left_eq_some] at h
      obtain ⟨-, h⟩ := h
      split at h <;>
        (simp only [Option.map_some, Option.some.injEq, Prod.mk.injEq] at h
         exact h.2 ▸ .attributes _ _ rfl rfl)

/-- Every operation changes the world in one of the listed ways; an exception that
is raised leaves the old world or that one. -/
theorem Config.performOp_cases {cfg : Config ι} (h : cfg.performOp choice p w o = some (r, w')) :
    act choice p w o = some (r, w') ∨
      ∃ e, cfg.mayRaise p o e = true ∧ r = .error e ∧
        ((w' = w ∧ o.closes = false) ∨ ∃ r', act choice p w o = some (r', w')) := by
  unfold Config.performOp at h
  cases hf : choice.fault with
  | none => exact Or.inl (by simpa [hf] using h)
  | some e =>
      simp only [hf, Option.ite_none_right_eq_some] at h
      obtain ⟨hraise, h⟩ := h
      refine Or.inr ⟨e, hraise, ?_⟩
      split at h
      · obtain ⟨rw, hact, heq⟩ := Option.map_eq_some_iff.1 h
        obtain ⟨rfl, rfl⟩ := Prod.mk.inj heq
        exact ⟨rfl, Or.inr ⟨rw.1, hact⟩⟩
      · simp only [Option.some.injEq, Prod.mk.injEq] at h
        obtain ⟨rfl, rfl⟩ := h
        exact ⟨rfl, Or.inl ⟨rfl, by simp_all⟩⟩

theorem Config.performOp_change {cfg : Config ι}
    (h : cfg.performOp choice p w o = some (r, w')) : Change p w o w' := by
  rcases Config.performOp_cases h with h | ⟨e, -, -, ⟨rfl, -⟩ | ⟨r', h⟩⟩
  · exact act_change h
  · exact .same o
  · exact act_change h

/-- A kill hits the connection of one client, or nobody. -/
theorem World.kill_cases (w : World ι) (id : Nat) :
    w.kill id = w ∨ ∃ client ∈ w.clients, client.1.id = id ∧
      w.kill id = { w with clients := w.clients.filter (·.1.id ≠ id) }.leave client.2 := by
  unfold World.kill
  cases hfind : w.clients.find? (·.1.id = id) with
  | none => exact Or.inl rfl
  | some client =>
      exact Or.inr ⟨client, List.mem_of_find?_eq_some hfind, by simpa using List.find?_some hfind,
        rfl⟩

end Cases

/-! ## The invariant -/

/-- What holds of every channel. -/
structure Sound (cfg : Config ι) (w : World ι) : Prop where
  pubsub : ∀ {p}, (w.attributes p).pubsub = none → .lock p ∉ w.subscribers
  nodup : w.subscribers.Nodup
  pinged : ∀ p, (w.pinged p).Nodup
  owner : ∀ {p}, w.owns p = true → .lock p ∈ w.subscribers
  kind : ∀ p, (w.attributes p).mode = .shared ↔ (cfg.lock p).flags = SHARED
  stayed : ∀ {p q}, w.stayed p q = true → .lock q ∈ w.subscribers
  current : ∀ {p q}, w.stayed p q = true → w.had p q (w.attributes q).mode = true
  had : ∀ {p q m}, w.had p q m = true → (m = .shared ↔ (cfg.lock q).flags = SHARED)
  mail : ∀ {p s}, (w.mail p s).isIdle = false → s ∈ w.pinged p
  answering : ∀ {p q m}, w.mail p (.lock q) = .answering m → w.stayed p q = true →
    w.had p q m = true
  answered : ∀ {p q data}, w.mail p (.lock q) = .answered data →
    ∃ m, data = some (reply (cfg.lock q).holderId m) ∧ (w.stayed p q = true → w.had p q m = true)
  stranger : ∀ {p n data}, w.mail p (.stranger n) = .answered data → data.bind parseRecord = none
  preceded : ∀ {p q}, w.preceded p q = true → .lock p ∈ w.subscribers ∧ .lock q ∈ w.subscribers
  total : ∀ {p q}, .lock p ∈ w.subscribers → .lock q ∈ w.subscribers → p ≠ q →
    w.preceded p q = true ∨ w.preceded q p = true
  counted : ∀ {p q}, w.stayed p p = true → w.preceded p q = true → w.stayed p q = true
  requested : ∀ {p}, w.requested p = true →
    .lock p ∉ w.subscribers ∧ (w.attributes p).pubsub ≠ none

/-- The lock is not subscribed, and no SUBSCRIBE of it is on its way. -/
def Absent (p : ι) (w : World ι) : Prop := .lock p ∉ w.subscribers ∧ w.requested p = false

/-- Nothing is on its way to the lock. -/
def Quiet (p : ι) (w : World ι) : Prop := ∀ s, (w.mail p s).isIdle = true

/-- The ping of the lock reached no more subscribers than it had counted. -/
def Tight (w : World ι) (p : ι) : Prop := (w.pinged p).length ≤ w.counted p

instance (w : World ι) (p : ι) : Decidable (Tight w p) :=
  inferInstanceAs (Decidable (_ ≤ _))

/-- The list has a record of lock `q`, with a mode it has had since the count of
`p`. -/
def HasRecord (cfg : Config ι) (w : World ι) (p q : ι) (holders : List RedisLockHolder) : Prop :=
  ∃ m, w.had p q m = true ∧ ⟨(cfg.lock q).holderId, m, false⟩ ∈ holders

/-- It has one of every lock that was subscribed from the count to the re-count. -/
def Lists (cfg : Config ι) (w : World ι) (p : ι) (holders : List RedisLockHolder) : Prop :=
  ∀ q, w.remained p q = true → HasRecord cfg w p q holders

/-- A reply without an identity has been given the id of lock `q`. -/
def Overwritten (cfg : Config ι) (q : ι) (holders : List RedisLockHolder) : Prop :=
  ⟨(cfg.lock q).holderId, .exclusive, true⟩ ∈ holders

/-- The holder ids are pairwise distinct. -/
def Distinct (cfg : Config ι) : Prop :=
  ∀ p q, (cfg.lock p).holderId = (cfg.lock q).holderId → p = q

/-- With distinct ids, the list of a tight probe has a record of every lock that was
subscribed from the count to the re-count, unless a made-up id hides it. -/
def Covers (cfg : Config ι) (w : World ι) (p : ι) (holders : List RedisLockHolder) : Prop :=
  Distinct cfg → Tight w p →
    ∀ q, w.remained p q = true → HasRecord cfg w p q holders ∨ Overwritten cfg q holders

/-- Only replies without an identity have a made-up id. -/
def LegacyNamed (holders : List RedisLockHolder) : Prop :=
  ∀ holder ∈ holders, holder.legacy = true → ∃ n, holder.holderId = legacyId n

/-- What the decision to take the lock rests on. -/
def Grants (self : RedisLock) (holders : List RedisLockHolder) : Prop :=
  self.holdersAreCompatible holders = true ∨
    self.flags = EXCLUSIVE ∧ self.writerIsElected holders = true ∧
      RedisLock.anyShared holders = false

/-- The permission of lock `p` to perform an operation. -/
def Permitted (cfg : Config ι) (p : ι) (w : World ι) : Op → Prop
  | .setMode m => (cfg.lock p).flags = EXCLUSIVE ∧
      ((m = .pending ∧ .lock p ∉ w.subscribers) ∨ (m = .exclusive ∧ w.owns p = true))
  | .setPubsub none => Absent p w
  | .subscribe => (w.attributes p).pubsub ≠ none
  | .subscriberCount false => Quiet p w
  | .publish => Quiet p w
  | .won none => w.stayed p p = true ∧ ∀ q, w.stayed p q = true → q = p
  | .won (some holders) => w.stayed p p = true ∧ (∀ q, w.stayed p q = true → w.remained p q = true) ∧
      Grants (cfg.lock p) holders ∧ Covers cfg w p holders
  | .concluded holders => w.remained p p = true ∧ LegacyNamed holders ∧ Covers cfg w p holders
  | _ => True

/-- No live subscription of a lock is dropped. -/
def SparesLocks (w : World ι) : Op → Prop
  | .clientKill id => ∀ client ∈ w.clients, client.1.id = id →
      ∀ q, client.2 = .lock q → .lock q ∉ w.subscribers
  | _ => True

/-- The SUBSCRIBE of lock `p` has been carried out when the lock counts. -/
def CountsItself (p : ι) (w : World ι) : Op → Prop
  | .subscriberCount false => .lock p ∈ w.subscribers
  | _ => True

/-- Both: no live subscription is dropped, and nobody counts before it is subscribed. -/
def Orderly (p : ι) (w : World ι) (o : Op) : Prop := SparesLocks w o ∧ CountsItself p w o

section Invariant

variable {cfg : Config ι} {p q : ι} {w w' : World ι}

/-- A subscription that ends. -/
theorem Sound.leave (h : Sound cfg w) (s : Subscriber ι)
    (howner : ∀ q, s = .lock q → w.owns q = false) : Sound cfg (w.leave s) := by
  have hmem : ∀ {t}, t ∈ (w.leave s).subscribers ↔ t ∈ w.subscribers ∧ t ≠ s := by simp
  have hstayed : ∀ {p q}, (w.leave s).stayed p q = true → w.stayed p q = true ∧
      .lock p ≠ s ∧ .lock q ≠ s := by
    intro p q hs
    simpa [and_assoc] using hs
  have hpreceded : ∀ {p q}, (w.leave s).preceded p q = true → w.preceded p q = true ∧
      .lock p ≠ s ∧ .lock q ≠ s := by
    intro p q hs
    simpa [and_assoc] using hs
  have hmail : ∀ {p t}, ((w.leave s).mail p t).isIdle = true ∨
      (w.leave s).mail p t = w.mail p t := by
    intro p t
    simp only [leave_mail]
    split
    · exact Or.inl rfl
    · exact Or.inr rfl
  have hmail_eq : ∀ {p t stage}, (w.leave s).mail p t = stage → stage.isIdle = false →
      w.mail p t = stage := by
    intro p t stage heq hstage
    rcases hmail with hidle | hsame
    · rw [heq, hstage] at hidle
      cases hidle
    · exact hsame ▸ heq
  constructor
  · exact fun hp hs => h.pubsub hp (hmem.1 hs).1
  · exact h.nodup.filter _
  · exact h.pinged
  · intro p ho
    refine hmem.2 ⟨h.owner ho, fun heq => ?_⟩
    rw [leave_owns, howner p heq.symm] at ho
    cases ho
  · exact h.kind
  · intro p q hs
    exact hmem.2 ⟨h.stayed (hstayed hs).1, (hstayed hs).2.2⟩
  · exact fun hs => h.current (hstayed hs).1
  · exact h.had
  · intro p t hidle
    exact h.mail (hmail_eq rfl hidle ▸ hidle)
  · exact fun hm hs => h.answering (hmail_eq hm rfl) (hstayed hs).1
  · intro p q data hm
    obtain ⟨m, hdata, hhad⟩ := h.answered (hmail_eq hm rfl)
    exact ⟨m, hdata, fun hs => hhad (hstayed hs).1⟩
  · exact fun hm => h.stranger (hmail_eq hm rfl)
  · intro p q hp
    obtain ⟨hold, hps, hqs⟩ := hpreceded hp
    exact ⟨hmem.2 ⟨(h.preceded hold).1, hps⟩, hmem.2 ⟨(h.preceded hold).2, hqs⟩⟩
  · intro p q hp hq hne
    obtain ⟨hp, hps⟩ := hmem.1 hp
    obtain ⟨hq, hqs⟩ := hmem.1 hq
    exact (h.total hp hq hne).imp (fun ht => by simp [ht, hps, hqs]) fun ht => by
      simp [ht, hps, hqs]
  · intro p q hs hp
    obtain ⟨hold, hps, hqs⟩ := hpreceded hp
    simp [h.counted (hstayed hs).1 hold, hps, hqs]
  · intro p hr
    simp only [leave_requested, Bool.and_eq_true] at hr
    exact ⟨fun hp => (h.requested hr.1).1 (hmem.1 hp).1, (h.requested hr.1).2⟩

/-- Messages that move one step further, as long as they are truthful. -/
theorem Sound.setMail (h : Sound cfg w) {s : Subscriber ι} {stage : Stage}
    (hpinged : stage.isIdle = false → s ∈ w.pinged p)
    (hanswering : ∀ q m, s = .lock q → stage = .answering m → w.stayed p q = true →
      w.had p q m = true)
    (hanswered : ∀ q data, s = .lock q → stage = .answered data →
      ∃ m, data = some (reply (cfg.lock q).holderId m) ∧
        (w.stayed p q = true → w.had p q m = true))
    (hstranger : ∀ n data, s = .stranger n → stage = .answered data →
      data.bind parseRecord = none) :
    Sound cfg (w.setMail p s stage) := by
  have hcases : ∀ p' t, ((w.setMail p s stage).mail p' t = stage ∧ p' = p ∧ t = s) ∨
      (w.setMail p s stage).mail p' t = w.mail p' t := by
    intro p' t
    simp only [setMail_mail]
    split
    · exact Or.inl ⟨rfl, ‹_›⟩
    · exact Or.inr rfl
  refine ⟨h.pubsub, h.nodup, h.pinged, h.owner, h.kind, h.stayed, h.current, h.had, ?_, ?_, ?_,
    ?_, h.preceded, h.total, h.counted, h.requested⟩
  · intro p' t hidle
    rcases hcases p' t with ⟨hnew, rfl, rfl⟩ | hold
    · exact hpinged (hnew ▸ hidle)
    · exact h.mail (hold ▸ hidle)
  · intro p' q m hm hs
    rcases hcases p' (.lock q) with ⟨hnew, rfl, ht⟩ | hold
    · exact hanswering q m ht.symm (hnew.symm.trans hm) hs
    · exact h.answering (hold.symm.trans hm) hs
  · intro p' q data hm
    rcases hcases p' (.lock q) with ⟨hnew, rfl, ht⟩ | hold
    · exact hanswered q data ht.symm (hnew.symm.trans hm)
    · exact h.answered (hold.symm.trans hm)
  · intro p' n data hm
    rcases hcases p' (.stranger n) with ⟨hnew, rfl, ht⟩ | hold
    · exact hstranger n data ht.symm (hnew.symm.trans hm)
    · exact h.stranger (hold.symm.trans hm)

/-- Attributes that change without the mode. -/
theorem Sound.setAttributes (h : Sound cfg w) {a : Attributes}
    (hmode : a.mode = (w.attributes p).mode)
    (hpubsub : a.pubsub = none → Absent p w) : Sound cfg (w.setAttributes p a) := by
  have hmode' : ∀ q, ((w.setAttributes p a).attributes q).mode = (w.attributes q).mode := by
    intro q
    by_cases hq : q = p
    · subst hq
      simpa using hmode
    · simp [Function.update_of_ne hq]
  refine ⟨?_, h.nodup, h.pinged, h.owner, fun q => hmode' q ▸ h.kind q, h.stayed, ?_, h.had, h.mail,
    h.answering, h.answered, h.stranger, h.preceded, h.total, h.counted, ?_⟩
  · intro q hq
    by_cases hqp : q = p
    · subst hqp
      exact (hpubsub (by simpa using hq)).1
    · exact h.pubsub (by simpa [Function.update_of_ne hqp] using hq)
  · intro q r hs
    rw [hmode']
    exact h.current hs
  · intro q hq
    refine ⟨(h.requested hq).1, fun hnone => ?_⟩
    by_cases hqp : q = p
    · subst hqp
      have hidle : w.requested q = false := (hpubsub (by simpa using hnone)).2
      rw [show w.requested q = true from hq] at hidle
      cases hidle
    · exact (h.requested hq).2 (by simpa [Function.update_of_ne hqp] using hnone)

theorem Sound.setMode (h : Sound cfg w) {mode : RedisLockMode}
    (hflags : (cfg.lock p).flags = EXCLUSIVE) (hmode : mode ≠ .shared) :
    Sound cfg (w.setMode p mode) := by
  have hflags' : (cfg.lock p).flags ≠ SHARED := by
    rw [hflags]
    decide
  have hgrow : ∀ {q r m}, w.had q r m = true → (w.setMode p mode).had q r m = true := by
    intro q r m hh
    simp [hh]
  refine ⟨?_, h.nodup, h.pinged, h.owner, ?_, h.stayed, ?_, ?_, h.mail,
    fun hm hs => hgrow (h.answering hm hs), ?_, h.stranger, h.preceded, h.total, h.counted, ?_⟩
  · intro q hq
    by_cases hqp : q = p
    · subst hqp
      exact h.pubsub (by simpa using hq)
    · exact h.pubsub (by simpa [Function.update_of_ne hqp] using hq)
  · intro q
    by_cases hqp : q = p
    · subst hqp
      simp [hflags', hmode]
    · simpa [Function.update_of_ne hqp] using h.kind q
  · intro q r hs
    by_cases hrp : r = p
    · subst hrp
      simp
    · simp [Function.update_of_ne hrp, h.current hs]
  · intro q r m hh
    simp only [setMode_had, Bool.or_eq_true, Bool.and_eq_true, decide_eq_true_eq] at hh
    rcases hh with hh | ⟨rfl, rfl⟩
    · exact h.had hh
    · simp [hflags', hmode]
  · intro q r data hm
    obtain ⟨m, hdata, hhad⟩ := h.answered hm
    exact ⟨m, hdata, fun hs => hgrow (hhad hs)⟩
  · intro q hq
    refine ⟨(h.requested hq).1, fun hnone => (h.requested hq).2 ?_⟩
    by_cases hqp : q = p
    · subst hqp
      simpa using hnone
    · simpa [Function.update_of_ne hqp] using hnone

theorem Sound.subscribe (h : Sound cfg w) (hnew : .lock p ∉ w.subscribers)
    (hpubsub : (w.attributes p).pubsub ≠ none) : Sound cfg (w.subscribe p) := by
  have hne : ∀ {q r}, w.preceded q r = true → q ≠ p ∧ r ≠ p := by
    intro q r hp
    obtain ⟨hq, hr⟩ := h.preceded hp
    exact ⟨fun heq => hnew (heq ▸ hq), fun heq => hnew (heq ▸ hr)⟩
  have hstayed : ∀ {q r}, (w.subscribe p).stayed q r = true → q ≠ p ∧ w.stayed q r = true := by
    intro q r hs
    simpa using hs
  refine ⟨?_, List.nodup_cons.2 ⟨hnew, h.nodup⟩, h.pinged,
    fun ho => List.mem_cons_of_mem _ (h.owner ho), h.kind,
    fun hs => List.mem_cons_of_mem _ (h.stayed (hstayed hs).2), fun hs => h.current (hstayed hs).2,
    h.had, h.mail, fun hm hs => h.answering hm (hstayed hs).2, ?_, h.stranger, ?_, ?_, ?_, ?_⟩
  · intro q hq hmem
    rcases List.mem_cons.1 hmem with heq | hmem
    · obtain rfl : q = p := by simpa using heq
      exact hpubsub hq
    · exact h.pubsub hq hmem
  · intro q r data hm
    obtain ⟨m, hdata, hhad⟩ := h.answered hm
    exact ⟨m, hdata, fun hs => hhad (hstayed hs).2⟩
  · intro q r hp
    simp only [subscribe_preceded] at hp
    simp only [subscribe_subscribers, List.mem_cons]
    split at hp
    · subst q
      exact ⟨Or.inl rfl, Or.inr (by simpa using hp)⟩
    · exact ⟨Or.inr (h.preceded hp).1, Or.inr (h.preceded hp).2⟩
  · intro q r hq hr hqr
    simp only [subscribe_subscribers, List.mem_cons, Subscriber.lock.injEq] at hq hr
    simp only [subscribe_preceded]
    rcases hq with rfl | hq
    · have hr' := hr.resolve_left fun heq => hqr heq.symm
      exact Or.inl (by simp [hr'])
    · rcases hr with rfl | hr
      · exact Or.inr (by simp [hq])
      · have hqp : q ≠ p := fun heq => hnew (heq ▸ hq)
        have hrp : r ≠ p := fun heq => hnew (heq ▸ hr)
        simpa [hqp, hrp] using h.total hq hr hqr
  · intro q r hs hp
    obtain ⟨hqp, hs⟩ := hstayed hs
    have hp : w.preceded q r = true := by simpa [hqp] using hp
    simpa [hqp] using h.counted hs hp
  · intro q hq
    by_cases hqp : q = p
    · simp [hqp] at hq
    · have hq : w.requested q = true := by simpa [Function.update_of_ne hqp] using hq
      exact ⟨by simpa [hqp] using (h.requested hq).1, (h.requested hq).2⟩

theorem Sound.sendSubscribe (h : Sound cfg w) (hnew : .lock p ∉ w.subscribers)
    (hpubsub : (w.attributes p).pubsub ≠ none) : Sound cfg (w.sendSubscribe p) := by
  refine ⟨h.pubsub, h.nodup, h.pinged, h.owner, h.kind, h.stayed, h.current, h.had, h.mail,
    h.answering, h.answered, h.stranger, h.preceded, h.total, h.counted, fun {q} hq => ?_⟩
  by_cases hqp : q = p
  · subst hqp
    exact ⟨hnew, hpubsub⟩
  · exact h.requested (by simpa [Function.update_of_ne hqp] using hq)

theorem Sound.listen (h : Sound cfg w) : Sound cfg (w.listen p) :=
  ⟨h.pubsub, h.nodup, h.pinged, h.owner, h.kind, h.stayed, h.current, h.had, h.mail,
    h.answering, h.answered, h.stranger, h.preceded, h.total, h.counted, h.requested⟩

theorem Sound.count (h : Sound cfg w) (hquiet : Quiet p w) : Sound cfg (w.count p) := by
  have hother : ∀ {q r}, q ≠ p → (w.count p).stayed q r = w.stayed q r := by
    intro q r hq
    simp [hq]
  refine ⟨h.pubsub, h.nodup, h.pinged, h.owner, h.kind, ?_, ?_, ?_, h.mail, ?_, ?_, h.stranger,
    h.preceded, h.total, ?_, h.requested⟩
  · intro q r hs
    by_cases hq : q = p
    · simpa [hq] using hs
    · exact h.stayed (hother hq ▸ hs)
  · intro q r hs
    by_cases hq : q = p
    · simp [hq]
    · simpa [hq] using h.current (hother hq ▸ hs)
  · intro q r m hh
    by_cases hq : q = p
    · have hm : (w.attributes r).mode = m := by simpa [hq] using hh
      exact hm ▸ h.kind r
    · exact h.had (by simpa [hq] using hh)
  · intro q r m hm hs
    by_cases hq : q = p
    · have hidle := hquiet (.lock r)
      rw [← hq, show w.mail q (.lock r) = .answering m from hm] at hidle
      cases hidle
    · simpa [hq] using h.answering hm (hother hq ▸ hs)
  · intro q r data hm
    by_cases hq : q = p
    · have hidle := hquiet (.lock r)
      rw [← hq, show w.mail q (.lock r) = .answered data from hm] at hidle
      cases hidle
    · obtain ⟨m, hdata, hhad⟩ := h.answered hm
      exact ⟨m, hdata, fun hs => by simpa [hq] using hhad (hother hq ▸ hs)⟩
  · intro q r hs hp
    by_cases hq : q = p
    · subst hq
      simpa using (h.preceded hp).2
    · rw [hother hq] at hs ⊢
      exact h.counted hs hp

theorem Sound.closeProbe (h : Sound cfg w) : Sound cfg (w.closeProbe p) := by
  have hmail : ∀ {q t stage}, (w.closeProbe p).mail q t = stage → stage.isIdle = false →
      w.mail q t = stage := by
    intro q t stage heq hstage
    simp only [closeProbe_mail] at heq
    split at heq
    · rw [← heq] at hstage
      cases hstage
    · exact heq
  exact ⟨h.pubsub, h.nodup, h.pinged, h.owner, h.kind, h.stayed, h.current, h.had,
    fun hidle => h.mail (hmail rfl hidle ▸ hidle), fun hm => h.answering (hmail hm rfl),
    fun hm => h.answered (hmail hm rfl), fun hm => h.stranger (hmail hm rfl), h.preceded, h.total,
    h.counted, h.requested⟩

theorem Sound.publish (h : Sound cfg w) (hquiet : Quiet p w) : Sound cfg (w.publish p) := by
  have hmail : ∀ {q t}, ((w.publish p).mail q t = .pinged ∧ q = p ∧ t ∈ w.subscribers) ∨
      (w.publish p).mail q t = w.mail q t := by
    intro q t
    simp only [publish_mail]
    split
    · exact Or.inl ⟨rfl, ‹_›⟩
    · exact Or.inr rfl
  have hold : ∀ {q t stage}, (w.publish p).mail q t = stage → stage ≠ .pinged →
      w.mail q t = stage := by
    intro q t stage heq hstage
    rcases hmail (q := q) (t := t) with ⟨hnew, -⟩ | hsame
    · exact absurd (heq.symm.trans hnew) hstage
    · exact hsame ▸ heq
  refine ⟨h.pubsub, h.nodup, ?_, h.owner, h.kind, h.stayed, h.current, h.had, ?_,
    fun hm => h.answering (hold hm (by simp)), fun hm => h.answered (hold hm (by simp)),
    fun hm => h.stranger (hold hm (by simp)), h.preceded, h.total, h.counted, h.requested⟩
  · intro q
    by_cases hq : q = p
    · subst hq
      simpa using h.nodup
    · simpa [Function.update_of_ne hq] using h.pinged q
  · intro q t hidle
    by_cases hq : q = p
    · subst hq
      rcases hmail (q := q) (t := t) with ⟨-, -, hmem⟩ | hsame
      · simpa using hmem
      · rw [hsame, hquiet t] at hidle
        cases hidle
    · rcases hmail (q := q) (t := t) with ⟨-, heq, -⟩ | hsame
      · exact absurd heq hq
      · simpa [Function.update_of_ne hq] using h.mail (hsame ▸ hidle)

/-- One permitted operation that drops no subscription keeps the invariant. -/
theorem Sound.change {o : Op} (h : Sound cfg w) (hpre : Permitted cfg p w o)
    (hspares : SparesLocks w o) (hc : Change p w o w') : Sound cfg w' := by
  cases hc with
  | same => exact h
  | attributes o a hpubsub hmode =>
      refine h.setAttributes hmode fun hnone => ⟨h.pubsub (hpubsub ▸ hnone), ?_⟩
      exact Bool.eq_false_iff.2 fun hr => (h.requested hr).2 (hpubsub ▸ hnone)
  | setPubsub value =>
      refine h.setAttributes rfl fun hnone => ?_
      cases value with
      | none => exact hpre
      | some c => cases hnone
  | setMode mode =>
      refine h.setMode hpre.1 ?_
      rcases hpre.2 with ⟨rfl, -⟩ | ⟨rfl, -⟩ <;> simp
  | setName name | closePubsub | request | ended outcome =>
      exact ⟨h.pubsub, h.nodup, h.pinged, h.owner, h.kind, h.stayed, h.current, h.had, h.mail,
        h.answering, h.answered, h.stranger, h.preceded, h.total, h.counted, h.requested⟩
  | recount =>
      exact ⟨h.pubsub, h.nodup, h.pinged, h.owner, h.kind, h.stayed, h.current, h.had, h.mail,
        h.answering, h.answered, h.stranger, h.preceded, h.total, h.counted, h.requested⟩
  | sendSubscribe hnew => exact h.sendSubscribe hnew hpre
  | subscribe hnew => exact h.subscribe hnew hpre
  | listen => exact h.listen
  | unsubscribe =>
      have hfree : Sound cfg { w with owns := Function.update w.owns p false } := by
        refine ⟨h.pubsub, h.nodup, h.pinged, ?_, h.kind, h.stayed, h.current, h.had, h.mail,
          h.answering, h.answered, h.stranger, h.preceded, h.total, h.counted, h.requested⟩
        intro q ho
        by_cases hq : q = p
        · simp [hq] at ho
        · exact h.owner (by simpa [Function.update_of_ne hq] using ho)
      refine hfree.leave (.lock p) fun q hq => ?_
      simp [(Subscriber.lock.inj hq).symm]
  | count => exact h.count hpre
  | receive s data hm =>
      refine Sound.listen (h.setMail (fun _ => h.mail (by rw [hm]; rfl)) ?_ ?_ ?_) <;>
        (intros; contradiction)
  | closeProbe => exact h.closeProbe
  | publish => exact h.publish hpre
  | clientKill id =>
      rcases w.kill_cases id with heq | ⟨client, hmem, hid, heq⟩
      · rw [heq]
        exact h
      · have hcut : Sound cfg { w with clients := w.clients.filter (·.1.id ≠ id) } :=
          ⟨h.pubsub, h.nodup, h.pinged, h.owner, h.kind, h.stayed, h.current, h.had, h.mail,
            h.answering, h.answered, h.stranger, h.preceded, h.total, h.counted, h.requested⟩
        rw [heq]
        refine hcut.leave client.2 fun q hq => ?_
        have hnot := hspares client hmem hid q hq
        exact Bool.eq_false_iff.2 fun ho => hnot (h.owner ho)
  | won holders =>
      refine ⟨h.pubsub, h.nodup, h.pinged, ?_, h.kind, h.stayed, h.current, h.had, h.mail,
        h.answering, h.answered, h.stranger, h.preceded, h.total, h.counted, h.requested⟩
      intro q ho
      by_cases hq : q = p
      · have hself : w.stayed p p = true := by
          cases holders with
          | none => exact hpre.1
          | some holders => exact hpre.1
        subst hq
        exact h.stayed hself
      · exact h.owner (by simpa [Function.update_of_ne hq] using ho)

/-! ### Events -/

theorem handle_cases (h : handle q p w = some w') :
    (w.mail p (.lock q)).isPinged = true ∧
      (w' = (w.setMail p (.lock q) .idle).setAttributes q
          { w.attributes q with thread := some .ended } ∨
        w' = (w.setMail p (.lock q) (.answering (w.attributes q).mode)).setBusy q (some p)) := by
  simp only [handle, Option.ite_none_right_eq_some] at h
  obtain ⟨⟨hpinged, -⟩, h⟩ := h
  refine ⟨hpinged, ?_⟩
  split at h
  · exact Or.inl (Option.some.inj h).symm
  · exact Or.inr (Option.some.inj h).symm

theorem answer_cases (h : cfg.answer q w = some w') :
    ∃ p m stage, w.mail p (.lock q) = .answering m ∧
      (stage = .idle ∨ stage = .answered (some (reply (cfg.lock q).holderId m))) ∧
      w' = (w.setMail p (.lock q) stage).setBusy q none := by
  unfold Config.answer at h
  cases hbusy : w.busy q with
  | none => simp [hbusy] at h
  | some p =>
      simp only [hbusy] at h
      split at h
      · refine ⟨p, _, _, ‹_›, ?_, (Option.some.inj h).symm⟩
        split
        · exact Or.inr rfl
        · exact Or.inl rfl
      · cases h

theorem isIdle_of_isPinged {stage : Stage} (h : stage.isPinged = true) : stage.isIdle = false := by
  cases stage <;> simp_all [Stage.isPinged, Stage.isIdle]

theorem Sound.setBusy (h : Sound cfg w) (prober : Option ι) : Sound cfg (w.setBusy q prober) :=
  ⟨h.pubsub, h.nodup, h.pinged, h.owner, h.kind, h.stayed, h.current, h.had, h.mail,
    h.answering, h.answered, h.stranger, h.preceded, h.total, h.counted, h.requested⟩

theorem Sound.join (h : Sound cfg w) {n : Nat} {name : Text}
    (hnew : .stranger n ∉ w.subscribers) : Sound cfg (w.join n name) := by
  have hmem : ∀ {q}, .lock q ∈ (w.join n name).subscribers ↔ .lock q ∈ w.subscribers := by
    simp [World.join]
  refine ⟨fun hq hmem' => h.pubsub hq (hmem.1 hmem'), List.nodup_cons.2 ⟨hnew, h.nodup⟩, h.pinged,
    fun ho => hmem.2 (h.owner ho), h.kind, fun hs => hmem.2 (h.stayed hs), h.current, h.had, h.mail,
    h.answering, h.answered, h.stranger, ?_, fun hq hr => h.total (hmem.1 hq) (hmem.1 hr),
    h.counted, fun hr => ⟨fun hp => (h.requested hr).1 (hmem.1 hp), (h.requested hr).2⟩⟩
  exact fun hp => ⟨hmem.2 (h.preceded hp).1, hmem.2 (h.preceded hp).2⟩

/-- What happens on its own keeps the invariant. -/
theorem Sound.event {e : Event ι} (h : Sound cfg w) (he : cfg.event e w = some w') :
    Sound cfg w' := by
  cases e with
  | arrive p =>
      simp only [Config.event, Option.ite_none_right_eq_some, Option.some.injEq] at he
      obtain ⟨hsent, rfl⟩ := he
      exact h.subscribe (h.requested hsent).1 (h.requested hsent).2
  | activate p =>
      simp only [Config.event, Option.ite_none_right_eq_some, Option.some.injEq] at he
      obtain ⟨-, rfl⟩ := he
      exact ⟨h.pubsub, h.nodup, h.pinged, h.owner, h.kind, h.stayed, h.current, h.had, h.mail,
        h.answering, h.answered, h.stranger, h.preceded, h.total, h.counted, h.requested⟩
  | handle q p =>
      obtain ⟨hpinged, hw⟩ := handle_cases he
      have hmem := h.mail (isIdle_of_isPinged hpinged)
      rcases hw with rfl | rfl
      · have hlost : Sound cfg (w.setMail p (.lock q) .idle) := by
          refine h.setMail (fun hidle => by cases hidle) ?_ ?_ ?_ <;> (intros; contradiction)
        refine hlost.setAttributes rfl fun hnone => ⟨hlost.pubsub hnone, ?_⟩
        exact Bool.eq_false_iff.2 fun hr => (hlost.requested hr).2 hnone
      · refine (h.setMail (fun _ => hmem) ?_ ?_ ?_).setBusy _
        · rintro r m hr hm hs
          obtain rfl := Subscriber.lock.inj hr
          obtain rfl := Stage.answering.inj hm
          exact h.current hs
        · intros
          contradiction
        · intros
          contradiction
  | answer q =>
      obtain ⟨p, m, stage, hm, hstage, rfl⟩ := answer_cases he
      refine (h.setMail (fun _ => h.mail (by rw [hm]; rfl)) ?_ ?_ ?_).setBusy _
      · rintro r m' - rfl
        rcases hstage with hstage | hstage <;> cases hstage
      · rintro r data hr rfl
        obtain rfl := Subscriber.lock.inj hr
        rcases hstage with hstage | hstage
        · cases hstage
        · exact ⟨m, Stage.answered.inj hstage, h.answering hm⟩
      · intros
        contradiction
  | join n name =>
      simp only [Config.event, Option.ite_none_left_eq_some, Option.some.injEq] at he
      obtain ⟨hnew, rfl⟩ := he
      exact h.join hnew
  | part n =>
      simp only [Config.event, Option.some.injEq] at he
      subst he
      have hleft := h.leave (.stranger n) (by intros; contradiction)
      exact ⟨hleft.pubsub, hleft.nodup, hleft.pinged, hleft.owner, hleft.kind, hleft.stayed,
        hleft.current, hleft.had, hleft.mail, hleft.answering, hleft.answered, hleft.stranger,
        hleft.preceded, hleft.total, hleft.counted, hleft.requested⟩
  | reply n p data =>
      simp only [Config.event, strangerReply, Option.ite_none_right_eq_some,
        Option.some.injEq] at he
      obtain ⟨⟨hpinged, -, hdata⟩, rfl⟩ := he
      refine h.setMail (fun _ => h.mail (isIdle_of_isPinged hpinged)) ?_ ?_ ?_
      · intros
        contradiction
      · intros
        contradiction
      · rintro - data' - hstage
        obtain rfl := Stage.answered.inj hstage
        simpa using hdata

end Invariant

/-! ## What the others leave alone -/

/-- What other locks and the environment may do while lock `p` waits. -/
structure Undisturbed (p : ι) (w w' : World ι) : Prop where
  pubsub : (w'.attributes p).pubsub = (w.attributes p).pubsub
  subscribed : .lock p ∈ w.subscribers → .lock p ∈ w'.subscribers
  absent : Absent p w → Absent p w'
  counted : w'.counted p = w.counted p
  pinged : w'.pinged p = w.pinged p
  remained : w'.remained p = w.remained p
  owns : w'.owns p = w.owns p
  self : w'.stayed p p = w.stayed p p
  stayed : ∀ {q}, w'.stayed p q = true → w.stayed p q = true
  had : ∀ {q m}, w.had p q m = true → w'.had p q m = true
  idle : ∀ {s}, (w.mail p s).isIdle = true → (w'.mail p s).isIdle = true
  read : ∀ {s}, w.mail p s = .read → w'.mail p s = .read

section Frame

variable {cfg : Config ι} {p q : ι} {w w' w'' : World ι}

theorem Undisturbed.refl (p : ι) (w : World ι) : Undisturbed p w w :=
  ⟨rfl, fun h => h, fun h => h, rfl, rfl, rfl, rfl, rfl, fun h => h, fun h => h, fun h => h,
    fun h => h⟩

theorem Undisturbed.trans (h₁ : Undisturbed p w w') (h₂ : Undisturbed p w' w'') :
    Undisturbed p w w'' where
  pubsub := h₂.pubsub.trans h₁.pubsub
  subscribed := fun h => h₂.subscribed (h₁.subscribed h)
  absent := fun h => h₂.absent (h₁.absent h)
  counted := h₂.counted.trans h₁.counted
  pinged := h₂.pinged.trans h₁.pinged
  remained := h₂.remained.trans h₁.remained
  owns := h₂.owns.trans h₁.owns
  self := h₂.self.trans h₁.self
  stayed := fun h => h₁.stayed (h₂.stayed h)
  had := fun h => h₂.had (h₁.had h)
  idle := fun h => h₂.idle (h₁.idle h)
  read := fun h => h₂.read (h₁.read h)

/-- The end of somebody else's subscription. -/
theorem Undisturbed.leave {s : Subscriber ι} (hs : s ≠ .lock q ∨ .lock q ∉ w.subscribers)
    (hsound : Sound cfg w) : Undisturbed q w (w.leave s) where
  pubsub := rfl
  subscribed := fun h => by
    rcases hs with hs | hs
    · simp [h, Ne.symm hs]
    · exact absurd h hs
  absent := fun h => ⟨by simp [h.1], by simp [h.2]⟩
  counted := rfl
  pinged := rfl
  remained := rfl
  owns := rfl
  self := by
    rcases hs with hs | hs
    · simp [Ne.symm hs]
    · have hnot : w.stayed q q = false := Bool.eq_false_iff.2 fun hself => hs (hsound.stayed hself)
      simp [hnot]
  stayed := fun h => by
    simp only [leave_stayed, Bool.and_eq_true] at h
    exact h.1.1
  had := fun h => h
  idle := fun {t} h => by
    simp only [leave_mail]
    split
    · rfl
    · exact h
  read := fun {t} h => by
    simp only [leave_mail]
    rw [if_neg]
    · exact h
    · rintro ⟨-, hpinged⟩
      rw [h] at hpinged
      cases hpinged

/-- A message to somebody else's probe, or one that moves on. -/
theorem Undisturbed.setMail {s : Subscriber ι} {stage : Stage}
    (h : p ≠ q ∨ ((w.mail p s).isIdle = false ∧ w.mail p s ≠ .read)) :
    Undisturbed q w (w.setMail p s stage) where
  pubsub := rfl
  subscribed := fun h => h
  absent := fun h => h
  counted := rfl
  pinged := rfl
  remained := rfl
  owns := rfl
  self := rfl
  stayed := fun h => h
  had := fun h => h
  idle := fun {t} hidle => by
    simp only [setMail_mail]
    split
    · obtain ⟨rfl, rfl⟩ := ‹_ ∧ _›
      rw [(h.resolve_left fun hne => hne rfl).1] at hidle
      cases hidle
    · exact hidle
  read := fun {t} hread => by
    simp only [setMail_mail]
    split
    · obtain ⟨rfl, rfl⟩ := ‹_ ∧ _›
      exact absurd hread (h.resolve_left fun hne => hne rfl).2
    · exact hread

/-- Looking for a reply. -/
theorem Undisturbed.listen : Undisturbed q w (w.listen p) :=
  ⟨rfl, fun h => h, fun h => h, rfl, rfl, rfl, rfl, rfl, fun h => h, fun h => h, fun h => h,
    fun h => h⟩

/-- The subscription of another lock starts. -/
theorem Undisturbed.subscribe (hq : q ≠ p) : Undisturbed q w (w.subscribe p) where
  pubsub := rfl
  subscribed := fun h => List.mem_cons_of_mem _ h
  absent := fun h => ⟨by simp [h.1, hq], by simp [Function.update_of_ne hq, h.2]⟩
  counted := rfl
  pinged := rfl
  remained := rfl
  owns := rfl
  self := by simp [hq]
  stayed := fun h => by simpa [hq] using h
  had := fun h => h
  idle := fun h => h
  read := fun h => h

/-- The SUBSCRIBE of the lock itself is carried out. -/
theorem Undisturbed.arrive (h : Sound cfg w) (hsent : w.requested q = true) :
    Undisturbed q w (w.subscribe q) where
  pubsub := rfl
  subscribed := fun hmem => List.mem_cons_of_mem _ hmem
  absent := fun habsent => by
    rw [habsent.2] at hsent
    cases hsent
  counted := rfl
  pinged := rfl
  remained := rfl
  owns := rfl
  self := by
    have hnot : w.stayed q q = false :=
      Bool.eq_false_iff.2 fun hself => (h.requested hsent).1 (h.stayed hself)
    simp [hnot]
  stayed := fun hs => by simp at hs
  had := fun h => h
  idle := fun h => h
  read := fun h => h

/-- A kill that drops no live subscription. -/
theorem undisturbed_of_kill {id : Nat} (h : Sound cfg w) (hspares : SparesLocks w (.clientKill id)) :
    Undisturbed q w (w.kill id) := by
  rcases w.kill_cases id with heq | ⟨client, hmem, hid, heq⟩
  · rw [heq]
    exact .refl q w
  · rw [heq]
    have hcut : Sound cfg { w with clients := w.clients.filter (·.1.id ≠ id) } :=
      ⟨h.pubsub, h.nodup, h.pinged, h.owner, h.kind, h.stayed, h.current, h.had, h.mail,
        h.answering, h.answered, h.stranger, h.preceded, h.total, h.counted, h.requested⟩
    have hleave := Undisturbed.leave (q := q) (s := client.2)
      (w := { w with clients := w.clients.filter (·.1.id ≠ id) })
      (Classical.or_iff_not_imp_left.2 fun heq' =>
        hspares client hmem hid q (Classical.not_not.1 heq')) hcut
    exact ⟨hleave.pubsub, hleave.subscribed, hleave.absent, rfl, rfl, rfl, rfl, hleave.self,
      hleave.stayed, fun h => h, hleave.idle, hleave.read⟩

/-- A permitted operation of another lock. -/
theorem undisturbed_of_change {o : Op} (h : Sound cfg w) (hspares : SparesLocks w o)
    (hc : Change p w o w') (hq : q ≠ p) : Undisturbed q w w' := by
  cases hc with
  | same => exact .refl q w
  | attributes o a hpubsub hmode =>
      refine ⟨?_, fun h => h, fun h => h, rfl, rfl, rfl, rfl, rfl, fun h => h, fun h => h,
        fun h => h, fun h => h⟩
      simp [Function.update_of_ne hq]
  | setPubsub value =>
      refine ⟨?_, fun h => h, fun h => h, rfl, rfl, rfl, rfl, rfl, fun h => h, fun h => h,
        fun h => h, fun h => h⟩
      simp [Function.update_of_ne hq]
  | setMode mode =>
      refine ⟨?_, fun h => h, fun h => h, rfl, rfl, rfl, rfl, rfl, fun h => h, fun hh => ?_,
        fun h => h,
        fun h => h⟩
      · simp [Function.update_of_ne hq]
      · simp [hh]
  | setName name | closePubsub | request | ended outcome =>
      exact ⟨rfl, fun h => h, fun h => h, rfl, rfl, rfl, rfl, rfl, fun h => h, fun h => h,
        fun h => h,
        fun h => h⟩
  | sendSubscribe hnew =>
      refine ⟨rfl, fun h => h, fun habsent => ⟨habsent.1, ?_⟩, rfl, rfl, rfl, rfl, rfl, fun h => h,
        fun h => h, fun h => h, fun h => h⟩
      simpa [Function.update_of_ne hq] using habsent.2
  | subscribe hnew => exact .subscribe hq
  | listen => exact .listen
  | unsubscribe =>
      have hleave := Undisturbed.leave (q := q) (s := .lock p)
        (Or.inl fun heq => hq (Subscriber.lock.inj heq).symm) h
      refine ⟨rfl, hleave.subscribed, hleave.absent, rfl, rfl, rfl, ?_, hleave.self,
        hleave.stayed, fun h => h, hleave.idle, hleave.read⟩
      simp [Function.update_of_ne hq]
  | count =>
      refine ⟨rfl, fun h => h, fun h => h, ?_, rfl, rfl, rfl, ?_, fun hs => ?_, fun hh => ?_,
        fun h => h,
        fun h => h⟩
      · simp [Function.update_of_ne hq]
      · simp [hq]
      · simpa [hq] using hs
      · simpa [hq] using hh
  | recount =>
      refine ⟨rfl, fun h => h, fun h => h, rfl, rfl, funext fun r => ?_, rfl, rfl, fun h => h,
        fun h => h,
        fun h => h, fun h => h⟩
      simp [hq]
  | receive s data hm => exact Undisturbed.trans (.setMail (Or.inl fun heq => hq heq.symm)) .listen
  | closeProbe =>
      refine ⟨rfl, fun h => h, fun h => h, rfl, rfl, rfl, rfl, rfl, fun h => h, fun h => h,
        fun hidle => ?_,
        fun hread => ?_⟩
      · simpa [hq] using hidle
      · simpa [hq] using hread
  | publish =>
      refine ⟨rfl, fun h => h, fun h => h, rfl, ?_, rfl, rfl, rfl, fun h => h, fun h => h,
        fun hidle => ?_,
        fun hread => ?_⟩
      · simp [Function.update_of_ne hq]
      · simpa [hq] using hidle
      · simpa [hq] using hread
  | clientKill id => exact undisturbed_of_kill h hspares
  | won holders =>
      refine ⟨rfl, fun h => h, fun h => h, rfl, rfl, rfl, ?_, rfl, fun h => h, fun h => h,
        fun h => h,
        fun h => h⟩
      simp [Function.update_of_ne hq]

theorem undisturbed_of_event {e : Event ι} (h : Sound cfg w) (he : cfg.event e w = some w')
    (q : ι) : Undisturbed q w w' := by
  have hpinged : ∀ {stage : Stage}, stage.isPinged = true → stage.isIdle = false ∧ stage ≠ .read := by
    intro stage hs
    cases stage <;> simp_all [Stage.isPinged, Stage.isIdle]
  cases e with
  | arrive p =>
      simp only [Config.event, Option.ite_none_right_eq_some, Option.some.injEq] at he
      obtain ⟨hsent, rfl⟩ := he
      by_cases hqp : q = p
      · exact hqp ▸ .arrive h (hqp ▸ hsent)
      · exact .subscribe hqp
  | activate p =>
      simp only [Config.event, Option.ite_none_right_eq_some, Option.some.injEq] at he
      obtain ⟨-, rfl⟩ := he
      exact ⟨rfl, fun h => h, fun h => h, rfl, rfl, rfl, rfl, rfl, fun h => h, fun h => h,
        fun h => h, fun h => h⟩
  | handle r p =>
      obtain ⟨hp, hw⟩ := handle_cases he
      rcases hw with rfl | rfl
      · have hmail : Undisturbed q w (w.setMail p (.lock r) .idle) := .setMail (Or.inr (hpinged hp))
        refine ⟨?_, fun h => h, fun h => h, rfl, rfl, rfl, rfl, rfl, fun h => h, fun h => h,
          hmail.idle,
          hmail.read⟩
        by_cases hqr : q = r
        · simp [hqr]
        · simp [Function.update_of_ne hqr]
      · have hmail : Undisturbed q w (w.setMail p (.lock r) (.answering (w.attributes r).mode)) :=
          .setMail (Or.inr (hpinged hp))
        exact ⟨rfl, fun h => h, fun h => h, rfl, rfl, rfl, rfl, rfl, fun h => h, fun h => h,
          hmail.idle,
          hmail.read⟩
  | answer r =>
      obtain ⟨p, m, stage, hm, -, rfl⟩ := answer_cases he
      have hmail : Undisturbed q w (w.setMail p (.lock r) stage) :=
        .setMail (Or.inr (by rw [hm]; exact ⟨rfl, by simp⟩))
      exact ⟨rfl, fun h => h, fun h => h, rfl, rfl, rfl, rfl, rfl, fun h => h, fun h => h,
        hmail.idle,
        hmail.read⟩
  | join n name =>
      simp only [Config.event, Option.ite_none_left_eq_some, Option.some.injEq] at he
      obtain ⟨-, rfl⟩ := he
      refine ⟨rfl, fun h => List.mem_cons_of_mem _ h, fun h => ⟨?_, h.2⟩, rfl, rfl, rfl, rfl, rfl,
        fun h => h, fun h => h, fun h => h, fun h => h⟩
      simpa [World.join] using h.1
  | part n =>
      simp only [Config.event, Option.some.injEq] at he
      subst he
      have hleave := Undisturbed.leave (q := q) (s := .stranger n) (Or.inl (by simp)) h
      exact ⟨rfl, hleave.subscribed, hleave.absent, rfl, rfl, rfl, rfl, hleave.self,
        hleave.stayed, fun h => h, hleave.idle, hleave.read⟩
  | reply n p data =>
      simp only [Config.event, strangerReply, Option.ite_none_right_eq_some,
        Option.some.injEq] at he
      obtain ⟨⟨hp, -⟩, rfl⟩ := he
      exact .setMail (Or.inr (hpinged hp))

end Frame

/-! ## One operation -/

/-- The context of one call of a lock, under a contract of the locks of a channel. -/
abbrev channelContext {cfg : Config ι} {g : Guard cfg.channelMachine}
    (D : Discipline cfg.channelMachine g) (p : ι) (c : RedisLock.Call) :
    Context (World ι) Op (fun o => Except Exc (Val o)) :=
  D.context p c

/-- One operation: its effect leads to the postconditions, and so does every
exception, whether it is raised before the effect or after it. -/
theorem channel_rule {cfg : Config ι} {g : Guard cfg.channelMachine}
    {D : Discipline cfg.channelMachine g} {p : ι} {c : RedisLock.Call} {o : Op}
    {P : World ι → Prop} {Q : Val o → World ι → Prop} {E : Exc → World ι → Prop}
    [hP : (channelContext D p c).Stable P] [hQ : ∀ v, (channelContext D p c).Stable (Q v)]
    [hE : ∀ e, (channelContext D p c).Stable (E e)]
    (hpre : ∀ w, D.inv w → P w → D.pre p c w o)
    (hact : ∀ w choice r w', D.inv w → P w → g.op p c o w → act choice p w o = some (r, w') →
      Ends Q E r w')
    (hfault : ∀ w e w', D.inv w → P w →
      (w' = w ∧ o.closes = false) ∨ (∃ choice r, act choice p w o = some (r, w')) → E e w') :
    Hoare (channelContext D p c) P (perform o) Q E := by
  have hstep : ∀ w r w', D.inv w → P w → (channelContext D p c).step w o r w' →
      Ends Q E r w' := by
    rintro w r w' hw hp ⟨hg, choice, h⟩
    rcases Config.performOp_cases h with hact' | ⟨e, -, rfl, hraised⟩
    · exact hact w choice r w' hw hp hg hact'
    · exact hfault w e w' hw hp (hraised.imp_right fun ⟨r', h'⟩ => ⟨choice, r', h'⟩)
  exact Hoare.step (fun w hw hp => hpre w hw hp) fun w r w' hw _ hp hs => hstep w r w' hw hp hs

/-! ## The contract -/

/-- The contract of the locks of a channel, for runs in which no live subscription
is dropped and nobody counts before it is subscribed. -/
def protocol (cfg : Config ι) (g : Guard cfg.channelMachine)
    (horderly : ∀ p c o w, g.op p c o w → Orderly p w o) : Discipline cfg.channelMachine g where
  inv := Sound cfg
  rely := Undisturbed
  pre p _ w o := Permitted cfg p w o
  idle := Quiet
  rely_refl := .refl
  rely_trans := .trans
  inv_perform := fun hw hpre hg h =>
    hw.change hpre (horderly _ _ _ _ hg).1 (Config.performOp_change h)
  rely_perform := fun hw _ hg h _ hq =>
    undisturbed_of_change hw (horderly _ _ _ _ hg).1 (Config.performOp_change h) hq
  inv_event := fun hw he => hw.event he
  rely_event := fun hw he q => undisturbed_of_event hw he q
  idle_stable := fun _ _ hr hquiet s => hr.idle (hquiet s)

end Portalocker.Redis
