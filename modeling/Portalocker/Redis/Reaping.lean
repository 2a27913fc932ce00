import Portalocker.Foundation.Kinds
import Portalocker.Redis.Exclusion
import Portalocker.Redis.LockRules
import Portalocker.Redis.Names
set_option autoImplicit false
set_option linter.unusedSectionVars false

/-!
# Whom a probe kills

A probe kills the connections that carry a name of its channel and have not
answered, as far as it can tell.  When every such name belongs to a subscriber its
ping reached, when it has read every answer that had arrived and each came with an
identity, and when its own answer is among them, these are silent locks only.  The runs
here drop subscriptions as they please.
-/

namespace Portalocker.Redis

open Interleaving Interleaving.Machine World

variable {ι : Type} [DecidableEq ι]

/-! ## The invariant -/

/-- The entries of `CLIENT LIST` are named by their locks, and replies are what their
senders say. -/
structure Tagged (cfg : Config ι) (w : World ι) : Prop where
  named : ∀ {client q}, (client, Subscriber.lock q) ∈ w.clients →
    client.name = (cfg.lock q).clientName
  fresh : ∀ {entry}, entry ∈ w.clients → entry.1.id < w.nextClient
  unique : ∀ {entry entry'}, entry ∈ w.clients → entry' ∈ w.clients →
    entry.1.id = entry'.1.id → entry = entry'
  answered : ∀ {p q data}, w.mail p (.lock q) = .answered data →
    ∃ m, data = some (reply (cfg.lock q).holderId m)
  stranger : ∀ {p n data}, w.mail p (.stranger n) = .answered data → data.bind parseRecord = none

/-- The connection with this number belongs to a subscriber that was pinged, whose reply
had not arrived when the prober last looked for one, and that is not the prober. -/
def Silent (p : ι) (id : Nat) (w : World ι) : Prop :=
  ∀ entry ∈ w.clients, entry.1.id = id →
    entry.2 ∈ w.pinged p ∧ w.arrived p entry.2 = false ∧ entry.2 ≠ .lock p

/-- The permission of lock `p` to perform an operation. -/
def Reaps (cfg : Config ι) (p : ι) (w : World ι) : Op → Prop
  | .setName name => name = (cfg.lock p).clientName
  | .clientKill id => Silent p id w
  | _ => True

/-- What the others leave to lock `p`: what it has read, and the clients it knows. -/
structure Unheard (p : ι) (w w' : World ι) : Prop where
  pinged : w'.pinged p = w.pinged p
  arrived : w'.arrived p = w.arrived p
  read : ∀ s, w'.mail p s = .read ↔ w.mail p s = .read
  idle : ∀ s, (w.mail p s).isIdle = true → (w'.mail p s).isIdle = true
  nextClient : w.nextClient ≤ w'.nextClient
  clients : ∀ entry ∈ w'.clients, entry.1.id < w.nextClient → entry ∈ w.clients

section Frame

variable {cfg : Config ι} {p q : ι} {w w' w'' : World ι}

theorem Unheard.refl (p : ι) (w : World ι) : Unheard p w w :=
  ⟨rfl, rfl, fun _ => Iff.rfl, fun _ h => h, le_refl _, fun _ h _ => h⟩

theorem Unheard.trans (h₁ : Unheard p w w') (h₂ : Unheard p w' w'') : Unheard p w w'' where
  pinged := h₂.pinged.trans h₁.pinged
  arrived := h₂.arrived.trans h₁.arrived
  read := fun s => (h₂.read s).trans (h₁.read s)
  idle := fun s hidle => h₂.idle s (h₁.idle s hidle)
  nextClient := h₁.nextClient.trans h₂.nextClient
  clients := fun entry hmem hid =>
    h₁.clients entry (h₂.clients entry hmem (Nat.lt_of_lt_of_le hid h₁.nextClient)) hid

theorem Silent.unheard {id : Nat} (h : Silent p id w) (hid : id < w.nextClient)
    (hu : Unheard p w w') : Silent p id w' := by
  rintro entry hmem rfl
  obtain ⟨hpinged, harrived, hself⟩ := h entry (hu.clients entry hmem hid) rfl
  exact ⟨hu.pinged ▸ hpinged, hu.arrived ▸ harrived, hself⟩

/-- Somebody's subscription ends, and some connections are closed. -/
theorem Unheard.leave (s : Subscriber ι) {clients : List (Client × Subscriber ι)}
    (hsub : ∀ entry ∈ clients, entry ∈ w.clients) :
    Unheard p w { (w.leave s) with clients := clients } where
  pinged := rfl
  arrived := rfl
  read := fun t => by
    simp only [leave_mail]
    split
    · rename_i hleft
      constructor
      · intro heq
        cases heq
      · intro heq
        rw [heq] at hleft
        cases hleft.2
    · exact Iff.rfl
  idle := fun t hidle => by
    simp only [leave_mail]
    split
    · rfl
    · exact hidle
  nextClient := le_refl _
  clients := fun entry hmem _ => hsub entry hmem

theorem Tagged.leave (h : Tagged cfg w) (s : Subscriber ι)
    {clients : List (Client × Subscriber ι)} (hsub : ∀ entry ∈ clients, entry ∈ w.clients) :
    Tagged cfg { (w.leave s) with clients := clients } := by
  have hmail : ∀ {p t stage}, (w.leave s).mail p t = stage → stage.isIdle = false →
      w.mail p t = stage := by
    intro p t stage heq hstage
    simp only [leave_mail] at heq
    split at heq
    · rw [← heq] at hstage
      cases hstage
    · exact heq
  exact ⟨fun hmem => h.named (hsub _ hmem), fun hmem => h.fresh (hsub _ hmem),
    fun hmem hmem' => h.unique (hsub _ hmem) (hsub _ hmem'),
    fun hm => h.answered (hmail hm rfl), fun hm => h.stranger (hmail hm rfl)⟩

/-- A new connection. -/
theorem Tagged.connect (h : Tagged cfg w) {name : Text} {s : Subscriber ι}
    (hname : ∀ q, s = .lock q → name = (cfg.lock q).clientName)
    {subscribers : List (Subscriber ι)} :
    Tagged cfg { w with
      clients := (⟨w.nextClient, name⟩, s) :: w.clients
      nextClient := w.nextClient + 1
      subscribers := subscribers } := by
  have hold : ∀ {entry : Client × Subscriber ι}, entry ∈ w.clients → entry.1.id ≠ w.nextClient :=
    fun hmem => Nat.ne_of_lt (h.fresh hmem)
  refine ⟨fun hmem => ?_, fun hmem => ?_, fun hmem hmem' hid => ?_, h.answered, h.stranger⟩
  · rcases List.mem_cons.1 hmem with heq | hmem
    · obtain ⟨rfl, rfl⟩ := Prod.mk.inj heq
      exact hname _ rfl
    · exact h.named hmem
  · rcases List.mem_cons.1 hmem with rfl | hmem
    · exact Nat.lt_succ_self _
    · exact Nat.lt_succ_of_lt (h.fresh hmem)
  · rcases List.mem_cons.1 hmem with rfl | hmem <;> rcases List.mem_cons.1 hmem' with rfl | hmem'
    · rfl
    · exact absurd hid.symm (hold hmem')
    · exact absurd hid (hold hmem)
    · exact h.unique hmem hmem' hid

theorem Unheard.connect {name : Text} {s : Subscriber ι} {subscribers : List (Subscriber ι)} :
    Unheard p w { w with
      clients := (⟨w.nextClient, name⟩, s) :: w.clients
      nextClient := w.nextClient + 1
      subscribers := subscribers } where
  pinged := rfl
  arrived := rfl
  read := fun _ => Iff.rfl
  idle := fun _ hidle => hidle
  nextClient := Nat.le_succ _
  clients := fun entry hmem hid => by
    rcases List.mem_cons.1 hmem with rfl | hmem
    · exact absurd hid (Nat.lt_irrefl _)
    · exact hmem

/-- Messages that are not new answers. -/
theorem Tagged.mail (h : Tagged cfg w) (hclients : w'.clients = w.clients)
    (hnext : w'.nextClient = w.nextClient)
    (hmail : ∀ p s data, w'.mail p s = .answered data → w.mail p s = .answered data) :
    Tagged cfg w' := by
  refine ⟨fun hmem => h.named (hclients ▸ hmem), fun hmem => ?_, fun hmem hmem' =>
    h.unique (hclients ▸ hmem) (hclients ▸ hmem'), fun hm => h.answered (hmail _ _ _ hm),
    fun hm => h.stranger (hmail _ _ _ hm)⟩
  rw [hnext]
  exact h.fresh (hclients ▸ hmem)

/-- An answer that is what its sender says. -/
theorem Tagged.setMail (h : Tagged cfg w) {s : Subscriber ι} {stage : Stage}
    (hlock : ∀ q data, s = .lock q → stage = .answered data →
      ∃ m, data = some (reply (cfg.lock q).holderId m))
    (hstranger : ∀ n data, s = .stranger n → stage = .answered data →
      data.bind parseRecord = none) : Tagged cfg (w.setMail p s stage) := by
  refine ⟨h.named, h.fresh, h.unique, fun {p' q data} hm => ?_, fun {p' n data} hm => ?_⟩
  · simp only [setMail_mail] at hm
    split at hm
    · rename_i hsame
      exact hlock q data hsame.2.symm hm
    · exact h.answered hm
  · simp only [setMail_mail] at hm
    split at hm
    · rename_i hsame
      exact hstranger n data hsame.2.symm hm
    · exact h.stranger hm

/-- Every permitted operation keeps the invariant. -/
theorem Tagged.change {o : Op} (h : Tagged cfg w) (hpre : Reaps cfg p w o)
    (hc : Change p w o w') : Tagged cfg w' := by
  cases hc with
  | same | attributes | setPubsub | setMode | sendSubscribe | subscribe | count | recount | request
    | listen | won | ended =>
      exact ⟨h.named, h.fresh, h.unique, h.answered, h.stranger⟩
  | setName name =>
      refine h.connect (fun q heq => ?_)
      obtain rfl := Subscriber.lock.inj heq
      exact hpre
  | unsubscribe =>
      have hleft : Tagged cfg { (w.leave (.lock p)) with clients := w.clients } :=
        h.leave _ fun _ hmem => hmem
      exact ⟨hleft.named, hleft.fresh, hleft.unique, hleft.answered, hleft.stranger⟩
  | closePubsub =>
      have hsub : ∀ {entry}, entry ∈ w.clients.filter (·.2 ≠ .lock p) → entry ∈ w.clients :=
        fun hmem => (List.mem_filter.1 hmem).1
      exact ⟨fun hmem => h.named (hsub hmem), fun hmem => h.fresh (hsub hmem),
        fun hmem hmem' => h.unique (hsub hmem) (hsub hmem'), h.answered, h.stranger⟩
  | receive s data hm =>
      have hread : Tagged cfg (w.setMail p s .read) :=
        h.setMail (fun _ _ _ heq => by cases heq) fun _ _ _ heq => by cases heq
      exact ⟨hread.named, hread.fresh, hread.unique, hread.answered, hread.stranger⟩
  | closeProbe =>
      refine h.mail rfl rfl fun q s data hm => ?_
      simp only [closeProbe_mail] at hm
      split at hm
      · cases hm
      · exact hm
  | publish =>
      refine h.mail rfl rfl fun q s data hm => ?_
      simp only [publish_mail] at hm
      split at hm
      · cases hm
      · exact hm
  | clientKill id =>
      rcases w.kill_cases id with heq | ⟨client, -, -, heq⟩
      · rw [heq]
        exact h
      · rw [heq]
        exact h.leave client.2 fun _ hmem => (List.mem_filter.1 hmem).1

theorem Tagged.event {e : Event ι} (h : Tagged cfg w) (he : cfg.event e w = some w') :
    Tagged cfg w' := by
  cases e with
  | arrive p | activate p =>
      simp only [Config.event, Option.ite_none_right_eq_some, Option.some.injEq] at he
      obtain ⟨-, rfl⟩ := he
      exact ⟨h.named, h.fresh, h.unique, h.answered, h.stranger⟩
  | handle q p =>
      rcases (handle_cases he).2 with rfl | rfl
      · have hlost : Tagged cfg (w.setMail p (.lock q) .idle) :=
          h.setMail (fun _ _ _ heq => by cases heq) fun _ _ _ heq => by cases heq
        exact ⟨hlost.named, hlost.fresh, hlost.unique, hlost.answered, hlost.stranger⟩
      · have hbusy : Tagged cfg (w.setMail p (.lock q) (.answering (w.attributes q).mode)) :=
          h.setMail (fun _ _ _ heq => by cases heq) fun _ _ _ heq => by cases heq
        exact ⟨hbusy.named, hbusy.fresh, hbusy.unique, hbusy.answered, hbusy.stranger⟩
  | answer q =>
      obtain ⟨p, m, stage, -, hstage, rfl⟩ := answer_cases he
      have hsent : Tagged cfg (w.setMail p (.lock q) stage) := by
        refine h.setMail (fun r data hr heq => ?_) fun n data hn => by cases hn
        obtain rfl := Subscriber.lock.inj hr
        rcases hstage with rfl | rfl
        · cases heq
        · exact ⟨m, (Stage.answered.inj heq).symm⟩
      exact ⟨hsent.named, hsent.fresh, hsent.unique, hsent.answered, hsent.stranger⟩
  | join n name =>
      simp only [Config.event, Option.ite_none_left_eq_some, Option.some.injEq] at he
      obtain ⟨-, rfl⟩ := he
      exact h.connect fun q heq => by cases heq
  | part n =>
      simp only [Config.event, Option.some.injEq] at he
      subst he
      exact h.leave (.stranger n) fun _ hmem => (List.mem_filter.1 hmem).1
  | reply n p data =>
      simp only [Config.event, strangerReply, Option.ite_none_right_eq_some,
        Option.some.injEq] at he
      obtain ⟨⟨-, -, hdata⟩, rfl⟩ := he
      refine h.setMail (fun _ _ heq => by cases heq) fun m data' _ heq => ?_
      obtain rfl := Stage.answered.inj heq
      simpa using hdata

/-- A message that moves, but not to or from being read. -/
theorem Unheard.setMail {s : Subscriber ι} {stage : Stage}
    (h : q ≠ p ∨ ((w.mail q s).isIdle = false ∧ w.mail q s ≠ .read ∧ stage ≠ .read)) :
    Unheard p w (w.setMail q s stage) where
  pinged := rfl
  arrived := rfl
  read := fun t => by
    simp only [setMail_mail]
    split
    · rename_i hsame
      obtain ⟨rfl, rfl⟩ := hsame
      obtain ⟨-, hold, hnew⟩ := h.resolve_left fun hne => hne rfl
      exact ⟨fun heq => absurd heq hnew, fun heq => absurd heq hold⟩
    · exact Iff.rfl
  idle := fun t hidle => by
    simp only [setMail_mail]
    split
    · rename_i hsame
      obtain ⟨rfl, rfl⟩ := hsame
      rw [(h.resolve_left fun hne => hne rfl).1] at hidle
      cases hidle
    · exact hidle
  nextClient := le_refl _
  clients := fun _ hmem _ => hmem

/-- Another lock looks for a reply. -/
theorem Unheard.listen (h : q ≠ p) : Unheard p w (w.listen q) where
  pinged := rfl
  arrived := funext fun _ => by simp [Ne.symm h]
  read := fun _ => Iff.rfl
  idle := fun _ hidle => hidle
  nextClient := le_refl _
  clients := fun _ hmem _ => hmem

/-- The operations of a lock that leave its own probe alone. -/
def LeavesProbe : Op → Prop
  | .getMessage | .closeProbe | .publish => False
  | _ => True

/-- An operation of another lock, or one that is none of the probe. -/
theorem unheard_of_change {o : Op} (hc : Change q w o w') (hq : q ≠ p ∨ LeavesProbe o) :
    Unheard p w w' := by
  cases hc with
  | same => exact .refl p w
  | attributes | setPubsub | setMode | sendSubscribe | subscribe | count | recount | request | won
    | ended =>
      exact ⟨rfl, rfl, fun _ => Iff.rfl, fun _ h => h, le_refl _, fun _ hmem _ => hmem⟩
  | setName name => exact .connect
  | unsubscribe =>
      have hleft : Unheard p w { (w.leave (.lock q)) with clients := w.clients } :=
        .leave _ fun _ hmem => hmem
      exact ⟨hleft.pinged, hleft.arrived, hleft.read, hleft.idle, hleft.nextClient, hleft.clients⟩
  | closePubsub =>
      exact ⟨rfl, rfl, fun _ => Iff.rfl, fun _ h => h, le_refl _,
        fun _ hmem _ => (List.mem_filter.1 hmem).1⟩
  | listen => exact .listen (hq.resolve_right fun h => h)
  | receive s data hm =>
      have hne := hq.resolve_right fun h => h
      exact Unheard.trans (.setMail (Or.inl hne)) (.listen hne)
  | closeProbe =>
      have hne := hq.resolve_right fun h => h
      exact ⟨rfl, rfl, fun _ => by simp [Ne.symm hne],
        fun _ hidle => by simpa [Ne.symm hne] using hidle,
        le_refl _, fun _ hmem _ => hmem⟩
  | publish =>
      have hne := hq.resolve_right fun h => h
      exact ⟨Function.update_of_ne (Ne.symm hne) .., rfl, fun _ => by simp [Ne.symm hne],
        fun _ hidle => by simpa [Ne.symm hne] using hidle, le_refl _, fun _ hmem _ => hmem⟩
  | clientKill id =>
      rcases w.kill_cases id with heq | ⟨client, -, -, heq⟩
      · rw [heq]
        exact .refl p w
      · rw [heq]
        exact .leave client.2 fun _ hmem => (List.mem_filter.1 hmem).1

theorem unheard_of_event {e : Event ι} (he : cfg.event e w = some w') (p : ι) :
    Unheard p w w' := by
  have hpinged : ∀ {stage : Stage}, stage.isPinged = true →
      stage.isIdle = false ∧ stage ≠ .read := by
    intro stage hs
    cases stage <;> simp_all [Stage.isPinged, Stage.isIdle]
  cases e with
  | arrive q | activate q =>
      simp only [Config.event, Option.ite_none_right_eq_some, Option.some.injEq] at he
      obtain ⟨-, rfl⟩ := he
      exact ⟨rfl, rfl, fun _ => Iff.rfl, fun _ h => h, le_refl _, fun _ hmem _ => hmem⟩
  | handle r q =>
      obtain ⟨hstage, rfl | rfl⟩ := handle_cases he
      · have hlost : Unheard p w (w.setMail q (.lock r) .idle) :=
          .setMail (Or.inr ⟨(hpinged hstage).1, (hpinged hstage).2, by simp⟩)
        exact ⟨hlost.pinged, hlost.arrived, hlost.read, hlost.idle, hlost.nextClient, hlost.clients⟩
      · have hbusy : Unheard p w (w.setMail q (.lock r) (.answering (w.attributes r).mode)) :=
          .setMail (Or.inr ⟨(hpinged hstage).1, (hpinged hstage).2, by simp⟩)
        exact ⟨hbusy.pinged, hbusy.arrived, hbusy.read, hbusy.idle, hbusy.nextClient, hbusy.clients⟩
  | answer r =>
      obtain ⟨q, m, stage, hm, hstage, rfl⟩ := answer_cases he
      have hsent : Unheard p w (w.setMail q (.lock r) stage) := by
        refine .setMail (Or.inr ⟨by simp [hm, Stage.isIdle], by simp [hm], ?_⟩)
        rcases hstage with rfl | rfl <;> simp
      exact ⟨hsent.pinged, hsent.arrived, hsent.read, hsent.idle, hsent.nextClient, hsent.clients⟩
  | join n name =>
      simp only [Config.event, Option.ite_none_left_eq_some, Option.some.injEq] at he
      obtain ⟨-, rfl⟩ := he
      exact .connect
  | part n =>
      simp only [Config.event, Option.some.injEq] at he
      subst he
      exact .leave (.stranger n) fun _ hmem => (List.mem_filter.1 hmem).1
  | reply n q data =>
      simp only [Config.event, strangerReply, Option.ite_none_right_eq_some,
        Option.some.injEq] at he
      obtain ⟨⟨hstage, -⟩, rfl⟩ := he
      exact .setMail (Or.inr ⟨(hpinged hstage).1, (hpinged hstage).2, by simp⟩)

end Frame

/-! ## The contract -/

/-- The contract of the locks of a channel about their reaps. -/
def reaping (cfg : Config ι) (g : Guard cfg.channelMachine) : Discipline cfg.channelMachine g where
  inv := Tagged cfg
  rely := Unheard
  pre p _ w o := Reaps cfg p w o
  idle := Quiet
  rely_refl := .refl
  rely_trans := .trans
  inv_perform := fun hw hpre _ h => hw.change hpre (Config.performOp_change h)
  rely_perform := fun _ _ _ h _ hq =>
    unheard_of_change (Config.performOp_change h) (Or.inl (Ne.symm hq))
  inv_event := fun hw he => hw.event he
  rely_event := fun _ he q => unheard_of_event he q
  idle_stable := fun _ _ hr h s => hr.idle s (h s)

/-! ## Outside of the probe -/

/-- The operations of a lock that are none of its probe; it names itself. -/
def OutsideProbe (self : RedisLock) : Op → Prop
  | .setName name => name = self.clientName
  | .getMessage | .closeProbe | .publish | .clientList | .clientKill _ => False
  | _ => True

namespace RedisLock

open Code

variable (self : RedisLock)

variable {self} in
theorem beside_outside (o : Op) (h : o.Beside) : OutsideProbe self o := by
  cases o with
  | setName | getMessage | closeProbe | publish | clientList | clientKill => exact h.elim
  | _ => trivial

theorem startSubscription_within (connection : Connection) :
    Within (OutsideProbe self) (self.startSubscription connection) := by
  refine .step trivial fun _ => .tryCatch ?_ fun e => ?_
  · exact .step rfl fun _ => .step trivial fun _ => .step trivial fun _ => .step trivial fun _ =>
      .step trivial fun _ => .call trivial
  · exact .ite (.bind (self.release_within.mono beside_outside) fun _ => .throw _) (.throw _)

theorem ensureSubscription_within (connection : Connection) :
    Within (OutsideProbe self) (self.ensureSubscription connection) := by
  refine .step trivial fun pubsub => ?_
  cases pubsub with
  | some _ => exact .pure _
  | none => exact self.startSubscription_within connection

/-- An answer without an identity spares the older name. -/
theorem not_unavailable_of_legacy {holders : List RedisLockHolder} {holder : RedisLockHolder}
    (hmem : holder ∈ holders) (hlegacy : holder.legacy = true) :
    self.unavailable holders self.legacyClientName = false := by
  have hany : holders.any (·.legacy) = true := List.any_eq_true.2 ⟨holder, hmem, hlegacy⟩
  have hprefix : ¬ self.legacyClientName ++ ['-'] <+: self.legacyClientName := fun h => by
    have hlength := h.length_le
    rw [List.length_append] at hlength
    exact absurd hlength (Nat.not_succ_le_self _)
  simp [unavailable, hany, hprefix]

/-- An answer with its identity spares the name of a lock. -/
theorem not_unavailable_of_reply {other : RedisLock} {holders : List RedisLockHolder}
    {holder : RedisLockHolder} (hchannel : self.channel = other.channel) (hmem : holder ∈ holders)
    (hid : holder.holderId = other.holderId) (hlegacy : holder.legacy = false) :
    self.unavailable holders other.clientName = false := by
  have hname : other.clientName = self.legacyClientName ++ ['-'] ++ other.holderId := by
    simp [clientName, legacyClientName, hchannel]
  have hne : self.legacyClientName ++ ['-'] ++ other.holderId ≠ self.legacyClientName := fun h => by
    have hlength := congrArg List.length h
    simp at hlength
  have hreplied : other.holderId ∈ (holders.filter (!·.legacy)).map (·.holderId) := by
    rw [← hid]
    exact List.mem_map_of_mem (List.mem_filter.2 ⟨hmem, by simp [hlegacy]⟩)
  unfold unavailable
  rw [hname]
  simp only [List.drop_left, decide_eq_false hne]
  simp [hreplied]

end RedisLock

/-! ## The probe -/

/-- The context of one call of a lock. -/
abbrev reapingContext (cfg : Config ι) (g : Guard cfg.channelMachine) (p : ι)
    (c : RedisLock.Call) : Context (World ι) Op (fun o => Except Exc (Val o)) :=
  channelContext (reaping cfg g) p c

/-- The records show which locks have been heard, and whether somebody without an
identity has. -/
def Answered (cfg : Config ι) (p : ι) (holders : List RedisLockHolder) (w : World ι) : Prop :=
  LegacyNamed holders ∧
    (∀ q, w.mail p (.lock q) = .read →
      ∃ holder ∈ holders, holder.holderId = (cfg.lock q).holderId ∧ holder.legacy = false) ∧
    ∀ n, w.mail p (.stranger n) = .read → ∃ holder ∈ holders, holder.legacy = true

/-- The clients a list names are known, and those that would be killed are silent. -/
def Condemned (self : RedisLock) (p : ι) (holders : List RedisLockHolder) (clients : List Client)
    (w : World ι) : Prop :=
  ∀ client ∈ clients, client.id < w.nextClient ∧
    (self.unavailable holders client.name = true → Silent p client.id w)

/-- What the end of a probe needs when it kills.  Every name of the channel belongs to
a subscriber the ping reached, whose reply has been read if it had arrived, or is the
older name and somebody without an identity has answered; the prober has read its own
answer; and nobody with a newer name has answered without an identity. -/
def Accounted (cfg : Config ι) (p : ι) (w : World ι) : Prop :=
  ∀ entry ∈ w.clients, (cfg.lock p).Claims entry.1.name →
    (entry.2 ∈ w.pinged p ∧ (w.arrived p entry.2 = true → w.mail p entry.2 = .read) ∨
      entry.1.name = (cfg.lock p).legacyClientName ∧ ∃ n, w.mail p (.stranger n) = .read) ∧
    (entry.2 = .lock p → w.mail p (.lock p) = .read) ∧
    ∀ n, entry.2 = .stranger n → w.mail p (.stranger n) = .read →
      entry.1.name = (cfg.lock p).legacyClientName

section Triples

variable {cfg : Config ι} {g : Guard cfg.channelMachine} {p : ι} {c : RedisLock.Call}

theorem stable_unheard {P : World ι → Prop} (h : ∀ {w w'}, Unheard p w w' → P w → P w') :
    (reapingContext cfg g p c).Stable P :=
  ⟨fun _ _ hu hp => h hu hp⟩

instance stable_quietReaping : (reapingContext cfg g p c).Stable (Quiet p) :=
  stable_unheard fun hu h s => hu.idle s (h s)

instance stable_answered (holders : List RedisLockHolder) :
    (reapingContext cfg g p c).Stable (Answered cfg p holders) :=
  stable_unheard fun hu h => ⟨h.1, fun q hq => h.2.1 q ((hu.read _).1 hq), fun n hn =>
    h.2.2 n ((hu.read _).1 hn)⟩

instance stable_condemned (self : RedisLock) (holders : List RedisLockHolder)
    (clients : List Client) : (reapingContext cfg g p c).Stable (Condemned self p holders clients) :=
  stable_unheard fun hu h client hmem =>
    ⟨Nat.lt_of_lt_of_le (h client hmem).1 hu.nextClient, fun hunavailable =>
      ((h client hmem).2 hunavailable).unheard (h client hmem).1 hu⟩

/-- Code outside of the probe keeps whatever the others keep. -/
theorem outside_rule {α : Type} {P : World ι → Prop} [hP : (reapingContext cfg g p c).Stable P]
    {x : Py α} (hx : Code.Within (OutsideProbe (cfg.lock p)) x) :
    Hoare (reapingContext cfg g p c) P x (fun _ => P) fun _ => P := by
  refine Hoare.within hx fun w o hw hp hkind => ?_
  have hpre : Reaps cfg p w o := by
    cases o with
    | setName name => exact hkind
    | clientKill id => exact hkind.elim
    | _ => trivial
  have hleaves : LeavesProbe o := by
    cases o with
    | getMessage | closeProbe | publish => exact hkind.elim
    | _ => trivial
  refine ⟨hpre, fun r w' hs => ?_⟩
  obtain ⟨-, choice, h⟩ := hs
  have hc := Config.performOp_change h
  exact hP.keep hw (Tagged.change hw hpre hc) (unheard_of_change hc (Or.inr hleaves)) hp

/-- One more record. -/
theorem Answered.read {w : World ι} {holders : List RedisLockHolder} {s : Subscriber ι}
    {data : Option Json} (hlegacy : ∀ q n, (cfg.lock q).holderId ≠ legacyId n) (h : Tagged cfg w)
    (hanswered : Answered cfg p holders w) (hm : w.mail p s = .answered data)
    (legacyIndex : Nat) :
    Answered cfg p (upsert (parseLockResponse data legacyIndex) holders)
      (w.setMail p s .read) := by
  obtain ⟨hnamed, hlocks, hstrangers⟩ := hanswered
  obtain ⟨holder, hholder⟩ : ∃ holder, holder = parseLockResponse data legacyIndex := ⟨_, rfl⟩
  rw [← hholder]
  have hnamed' : ∀ other, other = holder → other.legacy = true →
      ∃ n, other.holderId = legacyId n := by
    rintro other rfl
    rw [hholder]
    exact parseLockResponse_legacy data legacyIndex
  have hself := mem_upsert_self holder holders
  have hheard : ∀ {t}, (w.setMail p s .read).mail p t = .read → t ≠ s → w.mail p t = .read := by
    intro t ht hne
    simpa [hne] using ht
  refine ⟨fun other hmem => ?_, fun q hq => ?_, fun n hn => ?_⟩
  · rcases mem_of_mem_upsert hmem with heq | hold
    · exact hnamed' other heq
    · exact hnamed other hold
  · by_cases hqs : s = .lock q
    · subst hqs
      obtain ⟨m, rfl⟩ := h.answered hm
      exact ⟨holder, hself, by simp [hholder, parseLockResponse]⟩
    · obtain ⟨other, hmem, hid, hother⟩ := hlocks q (hheard hq (Ne.symm hqs))
      by_cases hsame : other.holderId = holder.holderId
      · -- the new record has the id of that lock, so it has an identity
        refine ⟨holder, hself, hsame ▸ hid, Bool.eq_false_iff.2 fun hmade => ?_⟩
        obtain ⟨n, hn⟩ := hnamed' holder rfl hmade
        exact hlegacy q n (hid.symm.trans (hsame.trans hn))
      · exact ⟨other, mem_upsert_of_ne hmem hsame, hid, hother⟩
  · by_cases hns : s = .stranger n
    · subst hns
      exact ⟨holder, hself, by simp [hholder, parseLockResponse, h.stranger hm]⟩
    · obtain ⟨other, hmem, hother⟩ := hstrangers n (hheard hn (Ne.symm hns))
      by_cases hsame : other.holderId = holder.holderId
      · cases hmade : holder.legacy with
        | true => exact ⟨holder, hself, hmade⟩
        | false =>
            -- a record with an identity does not replace one without
            exfalso
            cases s with
            | lock q =>
                obtain ⟨m, rfl⟩ := h.answered hm
                obtain ⟨k, hk⟩ := hnamed other hmem hother
                refine hlegacy q k ?_
                rw [← hk, hsame, hholder]
                simp [parseLockResponse]
            | stranger k =>
                rw [hholder] at hmade
                simp [parseLockResponse, h.stranger hm] at hmade
      · exact ⟨other, mem_upsert_of_ne hmem hsame, hother⟩

/-- Whoever would be killed is silent. -/
theorem Accounted.silent {w : World ι} {holders : List RedisLockHolder}
    {entry : Client × Subscriber ι} (haccounted : Accounted cfg p w) (hw : Tagged cfg w)
    (hanswered : Answered cfg p holders w) (hmem : entry ∈ w.clients)
    (hkills : (cfg.lock p).unavailable holders entry.1.name = true) :
    Silent p entry.1.id w := by
  intro entry' hmem' hid
  obtain rfl := hw.unique hmem' hmem hid
  obtain ⟨hpinged, hself,
    hstranger⟩ := haccounted entry' hmem (RedisLock.claims_of_unavailable hkills)
  obtain ⟨-, hlocks, hstrangers⟩ := hanswered
  have hnamed : ∀ n, w.mail p (.stranger n) = .read →
      entry'.1.name ≠ (cfg.lock p).legacyClientName := by
    intro n hn hname
    obtain ⟨holder, hholder, hlegacy⟩ := hstrangers n hn
    rw [hname, RedisLock.not_unavailable_of_legacy _ hholder hlegacy] at hkills
    cases hkills
  have hread : w.mail p entry'.2 ≠ .read := by
    intro hread
    obtain ⟨client, s⟩ := entry'
    cases s with
    | lock q =>
        obtain ⟨holder, hholder, hreplied, hlegacy⟩ := hlocks q hread
        have hchannel : (cfg.lock p).channel = (cfg.lock q).channel :=
          (cfg.onChannel p).trans (cfg.onChannel q).symm
        have hname : client.name = (cfg.lock q).clientName := hw.named hmem
        rw [hname, RedisLock.not_unavailable_of_reply _ hchannel hholder hreplied hlegacy] at hkills
        cases hkills
    | stranger n => exact hnamed n hread (hstranger n rfl hread)
  obtain ⟨hreached, hlooked⟩ := hpinged.resolve_right fun hlegacy =>
    hnamed _ hlegacy.2.choose_spec hlegacy.1
  exact ⟨hreached, Bool.eq_false_iff.2 fun harrived => hread (hlooked harrived),
    fun heq => hread (heq ▸ hself heq)⟩

/-- An operation of the probe that is none of its messages. -/
theorem beside_rule {o : Op} {P : World ι → Prop} [(reapingContext cfg g p c).Stable P]
    (ho : OutsideProbe (cfg.lock p) o) :
    Hoare (reapingContext cfg g p c) P (perform o) (fun _ => P) fun _ _ => True :=
  (outside_rule (.call ho)).conseq (fun _ _ h => h) (fun _ _ _ h => h) fun _ _ _ _ => trivial

theorem waits_outside {self : RedisLock} {o : Op} (ho : Waits o) : OutsideProbe self o := by
  cases o with
  | attempts _ | sleep _ => trivial
  | _ => exact ho.elim

/-- Before the ping nothing but the confirmation can arrive. -/
theorem awaitConfirmation_reaps (u : Unit) :
    Hoare (reapingContext cfg g p c) (Quiet p) (RedisLock.awaitConfirmation u)
      (Goes (fun _ => Quiet p) fun _ => Quiet p) fun _ _ => True := by
  have hget : Hoare (reapingContext cfg g p c) (Quiet p) (perform .getMessage) (fun _ => Quiet p)
      fun _ _ => True := by
    refine channel_rule (fun _ _ _ => trivial) ?_ fun _ _ _ _ _ _ => trivial
    intro w choice r w' _ hp _ h
    rcases receive_cases h with ⟨rfl, rfl | rfl⟩ | ⟨s, data, hm, -, -⟩
    · exact hp
    · exact hp
    · have hidle := hp s
      rw [hm] at hidle
      cases hidle
  refine Hoare.bind hget fun message => ?_
  cases message with
  | none => exact Hoare.pure fun _ _ h => h
  | some message =>
      cases message with
      | subscribed => exact Hoare.pure fun _ _ h => h
      | reply data => exact Hoare.pure fun _ _ h => h

/-- The ping: nobody has been heard yet. -/
theorem publish_reaps :
    Hoare (reapingContext cfg g p c) (Quiet p) (perform .publish)
      (fun _ => Answered cfg p []) fun _ _ => True := by
  refine channel_rule (fun _ _ _ => trivial) ?_ fun _ _ _ _ _ _ => trivial
  intro (w : World ι) choice r w' _ hquiet _ h
  simp only [act, Option.some.injEq, Prod.mk.injEq] at h
  obtain ⟨rfl, rfl⟩ := h
  have hunread : ∀ s, (w.publish p).mail p s ≠ .read := by
    intro s heq
    simp only [publish_mail] at heq
    split at heq
    · cases heq
    · have hidle := hquiet s
      rw [heq] at hidle
      cases hidle
  refine ⟨fun _ hmem => (by cases hmem), fun q hq => absurd hq (hunread _), fun n hn => ?_⟩
  exact absurd hn (hunread _)

/-- One round of the collection. -/
theorem collectReply_reaps (hlegacy : ∀ q n, (cfg.lock q).holderId ≠ legacyId n) (expected : Nat)
    (state : List RedisLockHolder × Nat) :
    Hoare (reapingContext cfg g p c) (Answered cfg p state.1)
      (RedisLock.collectReply expected state)
      (Goes (fun holders => Answered cfg p holders) fun state => Answered cfg p state.1)
      fun _ _ => True := by
  have hget : Hoare (reapingContext cfg g p c) (Answered cfg p state.1) (perform .getMessage)
      (fun message => Answered cfg p (heardIn state message)) fun _ _ => True := by
    refine channel_rule (fun _ _ _ => trivial) ?_ fun _ _ _ _ _ _ => trivial
    intro w choice r w' hw hp _ h
    rcases receive_cases h with ⟨rfl, rfl | rfl⟩ | ⟨s, data, hm, rfl, rfl⟩
    · exact hp
    · exact hp
    · exact hp.read hlegacy hw hm state.2
  refine Hoare.bind hget fun message => ?_
  cases message with
  | none => exact Hoare.pure fun _ _ h => h
  | some message =>
      cases message with
      | subscribed => exact Hoare.pure fun _ _ h => h
      | reply data =>
          dsimp only
          split
          · exact Hoare.pure fun _ _ h => h
          · exact Hoare.pure fun _ _ h => h

/-- What is killed stays condemned while the others go on, and while others are
killed. -/
theorem killClients_reaps (self : RedisLock) (holders : List RedisLockHolder)
    (clients : List Client) :
    Hoare (reapingContext cfg g p c) (Condemned self p holders clients)
      (self.killClients holders clients) (fun _ _ => True) fun _ _ => True := by
  induction clients with
  | nil => exact Hoare.pure fun _ _ _ => trivial
  | cons client rest ih =>
      have hrest : ∀ w, Condemned self p holders (client :: rest) w →
          Condemned self p holders rest w :=
        fun w h other hmem => h other (List.mem_cons_of_mem _ hmem)
      unfold RedisLock.killClients
      split
      · rename_i hkills
        have hkill : Hoare (reapingContext cfg g p c) (Condemned self p holders (client :: rest))
            (perform (.clientKill client.id)) (fun _ => Condemned self p holders rest)
            fun _ _ => True := by
          refine channel_rule (fun w _ h => (h client (List.mem_cons_self ..)).2 hkills) ?_
            fun _ _ _ _ _ _ => trivial
          intro w choice r w' hw h _ hact
          have hunheard : Unheard p w w' := unheard_of_change (act_change hact) (Or.inr trivial)
          have hstable : (reapingContext cfg g p c).Stable (Condemned self p holders rest) :=
            stable_condemned self holders rest
          simp only [act, Option.some.injEq, Prod.mk.injEq] at hact
          obtain ⟨rfl, rfl⟩ := hact
          exact hstable.keep hw (hw.change (o := .clientKill client.id)
            ((h client (List.mem_cons_self ..)).2 hkills) (.clientKill _)) hunheard (hrest w h)
        exact Hoare.bind hkill fun _ => ih
      · exact ih.of_pre fun w _ h => hrest w h

variable (hlegacy : ∀ q n, (cfg.lock q).holderId ≠ legacyId n)
  (hreaps : ∀ p c w, g.op p c .clientList w → Accounted cfg p w)

include hreaps in
/-- The kills of a probe. -/
theorem killUnavailableLocks_reaps (holders : List RedisLockHolder) :
    Hoare (reapingContext cfg g p c) (Answered cfg p holders)
      ((cfg.lock p).killUnavailableLocks holders) (fun _ _ => True) fun _ _ => True := by
  have hlist : Hoare (reapingContext cfg g p c) (Answered cfg p holders) (perform .clientList)
      (fun clients => Condemned (cfg.lock p) p holders clients) fun _ _ => True := by
    refine channel_rule (fun _ _ _ => trivial) ?_ fun _ _ _ _ _ _ => trivial
    intro w choice r w' hw hanswered hg h
    obtain ⟨rfl, rfl⟩ := Prod.mk.inj (Option.some.inj h)
    intro client hclient
    obtain ⟨entry, hmem, rfl⟩ := List.mem_map.1 hclient
    exact ⟨hw.fresh hmem, fun hkills => (hreaps p c w hg).silent hw hanswered hmem hkills⟩
  exact Hoare.bind hlist fun clients => killClients_reaps _ holders clients

include hreaps in
theorem concludeProbe_reaps (expected : Nat) (holders : List RedisLockHolder) :
    Hoare (reapingContext cfg g p c) (Answered cfg p holders)
      ((cfg.lock p).concludeProbe expected holders) (fun _ _ => True) fun _ _ => True := by
  refine Hoare.bind (beside_rule (P := Answered cfg p holders) trivial) fun current => ?_
  split
  · exact Hoare.pure fun _ _ _ => trivial
  · split
    · exact Hoare.bind (killUnavailableLocks_reaps hreaps holders) fun _ =>
        Hoare.pure fun _ _ _ => trivial
    · exact Hoare.bind (beside_rule (P := Answered cfg p holders) trivial) fun _ =>
        Hoare.pure fun _ _ _ => trivial

include hlegacy hreaps in
theorem collectLockHolders_reaps (expected : Nat) (timeout : Rat) :
    Hoare (reapingContext cfg g p c) (Quiet p) ((cfg.lock p).collectLockHolders expected timeout)
      (fun _ => Quiet p) fun _ => Quiet p := by
  have hclose : Hoare (reapingContext cfg g p c) (fun _ => True) (perform .closeProbe)
      (fun _ => Quiet p) fun _ => Quiet p := by
    have hquiet : ∀ w : World ι, Quiet p (w.closeProbe p) := fun w s => by simp [Stage.isIdle]
    have hcloses : ∀ {choice w r w'}, act choice p w .closeProbe = some (r, w') →
        w' = w.closeProbe p ∧ r = .ok () := by
      intro choice w r w' h
      simp only [act, Option.some.injEq, Prod.mk.injEq] at h
      exact ⟨h.2.symm, h.1.symm⟩
    refine channel_rule (fun _ _ _ => trivial) ?_ ?_
    · intro w choice r w' _ _ _ h
      obtain ⟨rfl, rfl⟩ := hcloses h
      exact hquiet w
    · rintro w e w' - - (⟨-, hnot⟩ | ⟨choice, r, h⟩)
      · cases hnot
      · exact (hcloses h).1 ▸ hquiet w
  refine Hoare.bind (R := fun _ => Quiet p) (Hoare.withFinally (R := fun _ _ => True)
    (F := fun _ _ => True) ?_ (fun _ => hclose) fun _ => hclose) fun _ => Hoare.pure fun _ _ h => h
  refine Hoare.bind (beside_rule (P := Quiet p) trivial) fun _ => ?_
  refine Hoare.bind (timeoutGenerator_rule _ (I := fun _ => Quiet p) (Q := fun _ => Quiet p)
    (fun _ o ho => beside_rule (waits_outside ho)) awaitConfirmation_reaps ()) fun r => ?_
  refine Hoare.bind (publish_reaps.of_pre fun w _ h => ?_) fun _ => ?_
  · cases r with
    | inl _ => exact h
    | inr _ => exact h
  · refine Hoare.bind (timeoutGenerator_rule _ (I := fun state => Answered cfg p state.1)
      (Q := fun holders => Answered cfg p holders) (fun _ o ho => beside_rule (waits_outside ho))
      (collectReply_reaps hlegacy expected) ([], 0)) fun r => ?_
    cases r with
    | inl holders => exact concludeProbe_reaps hreaps expected holders
    | inr state => exact concludeProbe_reaps hreaps expected state.1

/-! ## The calls -/

include hlegacy hreaps in
/-- One round of `acquire`. -/
theorem attempt_reaps (connection : Connection) (failWhenLocked : Bool) (u : Unit) :
    Hoare (reapingContext cfg g p c) (Quiet p) ((cfg.lock p).attempt connection failWhenLocked u)
      (Goes (fun _ => Quiet p) fun _ => Quiet p) fun _ => Quiet p := by
  refine Hoare.bind (outside_rule (RedisLock.ensureSubscription_within _ connection)) fun _ => ?_
  refine Hoare.bind (outside_rule (P := Quiet p) (.call trivial)) fun subscribers => ?_
  refine Hoare.bind (R := fun _ => Quiet p) ?_ fun held => Hoare.pure fun _ _ h => ?_
  · unfold RedisLock.takeOrProbe
    split
    · exact outside_rule ((RedisLock.takeAlone_within _).mono RedisLock.beside_outside)
    · exact Hoare.bind (collectLockHolders_reaps hlegacy hreaps subscribers _) fun view =>
        outside_rule ((RedisLock.resolveLockHolders_within _ view failWhenLocked).mono
          RedisLock.beside_outside)
  · cases held with
    | true => exact h
    | false => exact h

include hlegacy hreaps in
theorem acquire_reaps (timeout checkInterval : Option Rat) (failWhenLocked : Option Bool) :
    Hoare (reapingContext cfg g p c) (Quiet p)
      ((cfg.lock p).acquire timeout checkInterval failWhenLocked) (fun _ => Quiet p)
      fun _ => Quiet p := by
  refine Hoare.bind (outside_rule (P := Quiet p) (.call trivial)) fun pubsub => ?_
  split
  · exact Hoare.throw fun _ _ h => h
  · refine Hoare.bind (outside_rule (P := Quiet p)
      ((RedisLock.resetWriter_within _).mono RedisLock.beside_outside)) fun _ => ?_
    refine Hoare.bind (outside_rule (P := Quiet p)
      (RedisLock.getConnection_within.mono RedisLock.beside_outside)) fun connection => ?_
    refine Hoare.bind (timeoutGenerator_rule _ (I := fun _ => Quiet p) (Q := fun _ => Quiet p)
      (fun _ o ho => outside_rule (.call (waits_outside ho)))
      (attempt_reaps hlegacy hreaps connection _) ()) fun r => ?_
    cases r with
    | inl _ => exact Hoare.pure fun _ _ h => h
    | inr _ =>
        exact Hoare.bind (outside_rule (P := Quiet p)
          ((RedisLock.release_within _).mono RedisLock.beside_outside)) fun _ =>
          Hoare.throw fun _ _ h => h

theorem observed_reaps {body : Py Unit}
    (hbody : Hoare (reapingContext cfg g p c) (Quiet p) body (fun _ => Quiet p) fun _ => Quiet p) :
    Hoare (reapingContext cfg g p c) (Quiet p) (RedisLock.observed body) (fun _ => Quiet p)
      fun _ => Quiet p := by
  refine Hoare.bind (R := Ends (fun _ => Quiet p) fun _ => Quiet p) (Hoare.attempt hbody) fun r => ?_
  cases r with
  | ok _ => exact outside_rule (P := Quiet p) (.call trivial)
  | error e => exact outside_rule (P := Quiet p) (.call trivial)

end Triples

/-- Every call of a `RedisLock` keeps the contract. -/
theorem reaping_verified {cfg : Config ι} {g : Guard cfg.channelMachine}
    (hlegacy : ∀ q n, (cfg.lock q).holderId ≠ legacyId n)
    (hreaps : ∀ p c w, g.op p c .clientList w → Accounted cfg p w) : (reaping cfg g).Verified := by
  intro p (c : RedisLock.Call) w hw hidle _
  have hstable : (reapingContext cfg g p c).Stable (Quiet p) := inferInstance
  cases c with
  | acquire timeout checkInterval failWhenLocked =>
      exact Hoare.toCall hstable (observed_reaps (acquire_reaps hlegacy hreaps _ _ _)) hw hidle
  | release =>
      exact Hoare.toCall hstable
        (observed_reaps (outside_rule
          ((RedisLock.release_within (cfg.lock p)).mono RedisLock.beside_outside))) hw hidle

/-! ## Whom a probe kills -/

/-- Runs in which every probe that kills is accounted for when it lists the clients. -/
def accounted (cfg : Config ι) : Guard cfg.channelMachine where
  call _ _ _ := True
  op p _ o w := o = .clientList → Accounted cfg p w

theorem start_tagged (cfg : Config ι) : Tagged cfg cfg.start where
  named h := by cases h
  fresh h := by cases h
  unique h := by cases h
  answered h := by cases h
  stranger h := by cases h

/-- In the runs in which every probe that kills is accounted for, whoever is about to
be killed was subscribed when the ping was published, its reply had not arrived when the
prober last looked for one, and it is not the prober. -/
theorem silent_locks_reaped {cfg : Config ι} (hlegacy : ∀ q n, (cfg.lock q).holderId ≠ legacyId n)
    {s : cfg.channelMachine.State} (hs : Reach (Untouched cfg) (accounted cfg) s) {p : ι}
    {c : RedisLock.Call} {id : Nat} {k : Except Exc Unit → Program Op _ Unit}
    (hkills : s.thread p = some (c, .op (.clientKill id) k)) : Silent p id (server s) := by
  have hverified : (reaping cfg (accounted cfg)).Verified :=
    reaping_verified hlegacy fun _ _ _ h => h rfl
  have hholds : (reaping cfg (accounted cfg)).Holds s := by
    refine hverified.sound ?_ hs
    rintro w rfl
    exact ⟨start_tagged cfg, start_quiet cfg⟩
  exact hholds.permitted hkills

/-- The connection a probe is about to kill. -/
def Config.killing (cfg : Config ι) : cfg.channelMachine.Thread → Option Nat
  | some (_, .op (.clientKill id) _) => some id
  | _ => none

theorem Config.killing_eq_some {cfg : Config ι} {t : cfg.channelMachine.Thread} {id : Nat}
    (h : cfg.killing t = some id) : ∃ c k, t = some (c, .op (.clientKill id) k) := by
  unfold Config.killing at h
  split at h
  · obtain rfl := Option.some.inj h
    exact ⟨_, _, rfl⟩
  · cases h

/-- Every client is a lock that the ping reached, whose reply has been read if it had
arrived, and the prober has read its own answer. -/
def listsReached (p : Fin 3) (o : Op) (w : World (Fin 3)) : Bool :=
  match o with
  | .clientList => (w.mail p (.lock p)).isRead && w.clients.all fun entry =>
      match entry.2 with
      | .lock q => decide (.lock q ∈ w.pinged p) &&
          (!w.arrived p (.lock q) || (w.mail p (.lock q)).isRead)
      | .stranger _ => false
  | _ => true

theorem listsReached_accounted {cfg : Config (Fin 3)} {p : Fin 3} {w : World (Fin 3)}
    (h : listsReached p .clientList w = true) : Accounted cfg p w := by
  simp only [listsReached, Bool.and_eq_true, List.all_eq_true] at h
  intro entry hmem _
  have hentry := h.2 entry hmem
  cases hs : entry.2 with
  | lock q =>
      simp only [hs, Bool.and_eq_true, Bool.or_eq_true, decide_eq_true_eq] at hentry
      obtain ⟨hpinged, hread⟩ := hentry
      refine ⟨Or.inl ⟨hpinged, fun harrived => ?_⟩, fun _ => Stage.isRead_iff.1 h.1,
        fun n hn => by cases hn⟩
      rw [harrived] at hread
      exact Stage.isRead_iff.1 (hread.resolve_left (by simp))
  | stranger n =>
      rw [hs] at hentry
      cases hentry

/-- A writer finds another one silent. -/
def threeWriters.reaps : List threeWriters.channelMachine.Label :=
  threeWriters.subscribes 0 ++ threeWriters.subscribes 2 ++ threeWriters.rounds 0 1 ++
    threeWriters.pings 0 ++ threeWriters.answers 0 0 ++ threeWriters.collects 0 [0] ++
    threeWriters.rounds 0 2

/-- The silent writer is about to be killed. -/
theorem silent_locks_reaped_run :
    ∃ s id, runChecked listsReached threeWriters.reaps threeWriters.idle = some s ∧
      threeWriters.killing (s.thread 0) = some id ∧ Silent 0 id (server s) := by
  have hobserve : (runChecked listsReached threeWriters.reaps threeWriters.idle).bind (fun s =>
      threeWriters.killing (s.thread 0)) = some 1 := by rfl
  obtain ⟨s, hrun, hkilling⟩ := Option.bind_eq_some_iff.1 hobserve
  obtain ⟨c, k, hthread⟩ := Config.killing_eq_some hkilling
  have hlegacy : ∀ p n, (threeWriters.lock p).holderId ≠ legacyId n := by
    intro p n heq
    have hone : ∀ p, (threeWriters.lock p).holderId.length ≤ 1 := by decide
    exact absurd (heq ▸ one_lt_length_legacyId n) (Nat.not_lt.2 (hone p))
  have hreach : Reach (Untouched threeWriters) (accounted threeWriters) s :=
    (idle_reach _).checked (fun _ _ _ => trivial)
      (fun p c o w hcheck hlist => listsReached_accounted (hlist ▸ hcheck)) hrun
  exact ⟨s, 1, hrun, hkilling, silent_locks_reaped hlegacy hreach hthread⟩

/-- A third writer has named its connection and not subscribed yet, and no answer
arrives before the probe stops waiting. -/
def threeWriters.impatience : List threeWriters.channelMachine.Label :=
  threeWriters.subscribes 0 ++ threeWriters.subscribes 2 ++ threeWriters.rounds 0 1 ++
    .call 1 (.acquire none none none) :: threeWriters.rounds 1 9 ++ threeWriters.pings 0 ++
    threeWriters.rounds 0 5

/-- Whose connection a probe is about to kill, and whether the ping reached it. -/
def Config.victim (cfg : Config ι) (p : ι) (s : cfg.channelMachine.State) :
    Option (Nat × Option (Subscriber ι)) :=
  (cfg.killing (s.thread p)).map fun id =>
    (id, ((server s).clients.find? (·.1.id = id)).map Prod.snd)

theorem Config.victim_spec {cfg : Config ι} {p : ι} {s : cfg.channelMachine.State} {id : Nat}
    {q : Subscriber ι} (h : cfg.victim p s = some (id, some q)) :
    (∃ c k, s.thread p = some (c, .op (.clientKill id) k)) ∧
      ∃ client, (client, q) ∈ (server s).clients ∧ client.id = id := by
  obtain ⟨id', hkilling, hpair⟩ := Option.map_eq_some_iff.1 h
  obtain ⟨rfl, hfound⟩ := Prod.mk.inj hpair
  obtain ⟨entry, hentry, rfl⟩ := Option.map_eq_some_iff.1 hfound
  have hid := List.find?_some hentry
  exact ⟨Config.killing_eq_some hkilling, entry.1, List.mem_of_find?_eq_some hentry,
    of_decide_eq_true hid⟩

/-- The probe kills the writer that was not subscribed, and in the end its own
connection. -/
theorem late_answers_reap :
    ∃ s s' : threeWriters.channelMachine.State,
      Reach (Untouched threeWriters) (Guard.free _) s ∧
      Reach (Untouched threeWriters) (Guard.free _) s' ∧
      (∃ id, (∃ c k, s.thread 0 = some (c, .op (.clientKill id) k)) ∧ .lock 1 ∉ (server s).pinged 0 ∧
        ∃ client, (client, .lock 1) ∈ (server s).clients ∧ client.id = id) ∧
      ∃ id, (∃ c k, s'.thread 0 = some (c, .op (.clientKill id) k)) ∧
        ∃ client, (client, .lock 0) ∈ (server s').clients ∧ client.id = id := by
  have hobserve : (run threeWriters.impatience threeWriters.idle).bind (fun s =>
      (run (threeWriters.rounds 0 2) s).map fun s' => (threeWriters.victim 0 s,
        decide (.lock 1 ∈ (server s).pinged 0), threeWriters.victim 0 s')) =
      some (some (2, some (.lock 1)), false, some (0, some (.lock 0))) := by rfl
  obtain ⟨s, hrun, hrest⟩ := Option.bind_eq_some_iff.1 hobserve
  obtain ⟨s', hrun', hs⟩ := Option.map_eq_some_iff.1 hrest
  obtain ⟨hvictim, hs⟩ := Prod.mk.inj hs
  obtain ⟨hpinged, hvictim'⟩ := Prod.mk.inj hs
  have hreach : Reach (Untouched threeWriters) (Guard.free _) s := (idle_reach _).run hrun
  obtain ⟨hkills, hclient⟩ := Config.victim_spec hvictim
  exact ⟨s, s', hreach, hreach.run hrun', ⟨2, hkills, of_decide_eq_false hpinged, hclient⟩,
    0, Config.victim_spec hvictim'⟩

end Portalocker.Redis
