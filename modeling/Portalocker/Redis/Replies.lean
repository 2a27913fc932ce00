import Mathlib.Data.Finset.Card
import Mathlib.Data.Finset.Range
import Portalocker.Foundation.Executions
import Portalocker.Foundation.Kinds
import Portalocker.Redis.Messages
import Portalocker.Redis.Probe
set_option autoImplicit false

/-!
# From the replies to the decision

The record that `channel_handler` publishes is read back by `_parse_lock_response`, the
loop of `_collect_lock_holders` keeps one record for each identity, and
`_resolve_lock_holders` decides.  A reply that cannot be read counts as an owner.
-/

namespace Portalocker.Redis

open Interleaving

/-! ## Reading a reply -/

/-- `text.encode()`. -/
def utf8 (text : Text) : List UInt8 := text.flatMap String.utf8EncodeChar

namespace Codec

variable (codec : Codec)

/-- What is written is read back, from the text and from its bytes. -/
def RoundTrips (data : Json) : Prop :=
  codec.loads (.str (codec.dumps data)) = .ok data ∧
    codec.loads (.bytes (utf8 (codec.dumps data))) = .ok data

/-- `json.loads` raises only `TypeError` and `ValueError`. -/
def RaisesUnreadable : Prop :=
  ∀ payload e, codec.loads payload = .error e → e.isUnreadable = true

/-- The value of a payload; `none` if it is refused. -/
def decoded (payload : Payload) : Option Json := (codec.loads payload).toOption

/-- The payload is a record of the protocol. -/
def record (payload : Payload) : Option RedisLockHolder := (codec.decoded payload).bind parseRecord

/-- `_parse_lock_response`, with the payload as it arrives. -/
def readReply (payload : Payload) (legacyIndex : Nat) : Except DecodeError RedisLockHolder :=
  match codec.loads payload with
  | .ok data => .ok (parseLockResponse (some data) legacyIndex)
  | .error e =>
      if e.isUnreadable then .ok (parseLockResponse none legacyIndex) else .error e

variable {codec}

theorem readReply_eq (h : codec.RaisesUnreadable) (payload : Payload) (legacyIndex : Nat) :
    codec.readReply payload legacyIndex =
      .ok (parseLockResponse (codec.decoded payload) legacyIndex) := by
  unfold readReply decoded
  cases hloads : codec.loads payload with
  | ok data => rfl
  | error e =>
      dsimp only
      rw [if_pos (h payload e hloads)]
      rfl

end Codec

/-- What the handler publishes is the record of its lock. -/
theorem RedisLock.channelHandler_published {self : RedisLock} {codec : Codec} {publish : Publish}
    {a : Attributes} {message : PubsubMessage} {channel data : Text}
    (h : self.channelHandler codec publish a message = .ok (some (channel, data))) :
    data = codec.dumps (reply self.holderId a.mode) := by
  have hreply : ∀ responseChannel,
      self.publishReply codec publish a responseChannel = .ok (some (channel, data)) →
        data = codec.dumps (reply self.holderId a.mode) := by
    intro responseChannel hpublished
    unfold publishReply at hpublished
    split at hpublished
    · cases hpublished
    · dsimp only at hpublished
      split at hpublished
      · exact (Prod.mk.inj (Option.some.inj (Except.ok.inj hpublished))).2.symm
      · cases hpublished
  unfold channelHandler at h
  split at h
  · cases h
  · split at h
    · cases h
    · split at h
      · cases h
      · split at h
        · split at h <;> cases h
        · split at h
          · split at h
            · cases h
            · exact hreply _ h
          · cases h
        · cases h

/-! ## Identities -/

/-- `uuid.uuid4().hex`: 32 hexadecimal digits, with the version and the variant in their
places. -/
def isUuid4Hex (id : Text) : Bool :=
  id.length = 32 && id.all (· ∈ "0123456789abcdef".toList) && id[12]? = some '4' &&
    (id[16]?).any (· ∈ "89ab".toList)

/-- A made-up id is none. -/
theorem legacyId_not_uuid (n : Nat) : isUuid4Hex (legacyId n) = false := by
  have hletter : 'l' ∈ legacyId n := List.mem_append_left _ (by decide)
  have hall : (legacyId n).all (· ∈ "0123456789abcdef".toList) = false := by
    refine Bool.eq_false_iff.2 fun hall => ?_
    exact absurd (of_decide_eq_true (List.all_eq_true.1 hall 'l' hletter)) (by decide)
  unfold isUuid4Hex
  rw [hall, Bool.and_false, Bool.false_and, Bool.false_and]

/-- Different numbers make different ids. -/
theorem legacyId_injective {m n : Nat} (h : legacyId m = legacyId n) : m = n := by
  have hread : ∀ k, Nat.ofDigitChars 10 (str k) 0 = k := fun k => by simp [str]
  rw [← hread m, List.append_cancel_left h, hread n]

/-- The ids in a dictionary, after a record has been put into it. -/
theorem map_upsert (holder : RedisLockHolder) (holders : List RedisLockHolder) :
    (upsert holder holders).map (·.holderId) =
      if holder.holderId ∈ holders.map (·.holderId) then holders.map (·.holderId)
      else holders.map (·.holderId) ++ [holder.holderId] := by
  induction holders with
  | nil => simp [upsert]
  | cons first rest ih =>
      unfold upsert
      split
      · rename_i heq
        simp [heq]
      · rename_i hne
        rw [List.map_cons, ih, List.map_cons]
        have hmem : holder.holderId ∈ first.holderId :: rest.map (·.holderId) ↔
            holder.holderId ∈ rest.map (·.holderId) := by
          rw [List.mem_cons]
          exact or_iff_right fun heq => hne heq.symm
        simp only [hmem]
        split <;> rfl

/-! ## What the loop has read -/

/-- The ids of the records among the replies. -/
def recordIds (replies : List (Option Json)) : List Text :=
  (replies.filterMap (·.bind parseRecord)).map (·.holderId)

/-- How many of the replies are not records. -/
def unreadable (replies : List (Option Json)) : Nat :=
  replies.countP fun data => (data.bind parseRecord).isNone

/-- The different ids of the records, and the other replies. -/
def identities (replies : List (Option Json)) : Nat :=
  (recordIds replies).dedup.length + unreadable replies

/-- The records carry ids that constructors make. -/
def WithUuids (replies : List (Option Json)) : Prop :=
  ∀ id ∈ recordIds replies, isUuid4Hex id = true

/-- The dictionary and the number of made-up ids after these replies. -/
structure Gathered (replies : List (Option Json)) (state : List RedisLockHolder × Nat) : Prop where
  nodup : (state.1.map (·.holderId)).Nodup
  made : state.2 = unreadable replies
  ids : ∀ id, id ∈ state.1.map (·.holderId) ↔
    id ∈ recordIds replies ∨ ∃ k < state.2, id = legacyId k
  legacy : ∀ k < state.2, (⟨legacyId k, .exclusive, true⟩ : RedisLockHolder) ∈ state.1

section Replies

variable {replies read later : List (Option Json)} {state : List RedisLockHolder × Nat}
  {data : Option Json}

theorem recordIds_append :
    recordIds (read ++ later) = recordIds read ++ recordIds later := by
  simp [recordIds, List.filterMap_append]

theorem unreadable_append :
    unreadable (read ++ later) = unreadable read + unreadable later := by
  simp [unreadable, List.countP_append]

theorem WithUuids.left (h : WithUuids (read ++ later)) : WithUuids read := by
  intro id hid
  refine h id ?_
  rw [recordIds_append]
  exact List.mem_append_left _ hid

theorem gathered_nil : Gathered [] ([], 0) where
  nodup := List.nodup_nil
  made := rfl
  ids id := by simp [recordIds]
  legacy k hk := absurd hk (Nat.not_lt_zero k)

/-- A record takes the place of the one with its id, or comes last. -/
theorem Gathered.upsert_nodup (h : Gathered read state) (holder : RedisLockHolder) :
    ((upsert holder state.1).map (·.holderId)).Nodup := by
  rw [map_upsert]
  split
  · exact h.nodup
  · rename_i hnew
    rw [List.nodup_append]
    refine ⟨h.nodup, List.nodup_singleton _, fun a ha b hb => ?_⟩
    rw [List.mem_singleton] at hb
    subst hb
    intro heq
    exact hnew (heq ▸ ha)

theorem mem_map_upsert (holder : RedisLockHolder) (holders : List RedisLockHolder) (id : Text) :
    id ∈ (upsert holder holders).map (·.holderId) ↔
      id ∈ holders.map (·.holderId) ∨ id = holder.holderId := by
  rw [map_upsert]
  split
  · rename_i hmem
    exact ⟨Or.inl, fun h => h.elim (fun h => h) fun heq => heq ▸ hmem⟩
  · rw [List.mem_append, List.mem_singleton]

/-- One more reply has been read. -/
theorem Gathered.snoc (h : Gathered read state) (huuids : WithUuids (read ++ [data])) :
    Gathered (read ++ [data]) (upsert (parseLockResponse data state.2) state.1,
      state.2 + if (parseLockResponse data state.2).legacy then 1 else 0) := by
  cases hrecord : data.bind parseRecord with
  | some holder =>
      have hids : recordIds (read ++ [data]) = recordIds read ++ [holder.holderId] := by
        simp [recordIds, List.filterMap_append, hrecord]
      have huuid : isUuid4Hex holder.holderId = true := huuids _ (by rw [hids]; simp)
      have hparse : parseLockResponse data state.2 = holder := by
        simp [parseLockResponse, hrecord]
      obtain ⟨value, -, hvalue⟩ := Option.bind_eq_some_iff.1 hrecord
      have hlegacy : holder.legacy = false := parseRecord_legacy hvalue
      rw [hparse, hlegacy]
      refine ⟨h.upsert_nodup holder, ?_, fun id => ?_, fun k hk => ?_⟩
      · rw [unreadable_append, h.made]
        simp [unreadable, hrecord]
      · rw [mem_map_upsert, h.ids, hids, List.mem_append, List.mem_singleton]
        simp only [Bool.false_eq_true, if_false, Nat.add_zero]
        exact or_right_comm
      · refine mem_upsert_of_ne (h.legacy k (by simpa using hk)) fun heq => ?_
        rw [← show legacyId k = holder.holderId from heq, legacyId_not_uuid] at huuid
        cases huuid
  | none =>
      have hids : recordIds (read ++ [data]) = recordIds read := by
        simp [recordIds, List.filterMap_append, hrecord]
      have hparse : parseLockResponse data state.2 = ⟨legacyId state.2, .exclusive, true⟩ := by
        simp [parseLockResponse, hrecord]
      rw [hparse]
      refine ⟨h.upsert_nodup _, ?_, fun id => ?_, fun k hk => ?_⟩
      · rw [unreadable_append, h.made]
        simp [unreadable, hrecord]
      · rw [mem_map_upsert, h.ids, hids]
        simp only [if_true, Nat.lt_succ_iff_lt_or_eq]
        constructor
        · rintro ((hid | ⟨k, hk, rfl⟩) | rfl)
          · exact Or.inl hid
          · exact Or.inr ⟨k, Or.inl hk, rfl⟩
          · exact Or.inr ⟨state.2, Or.inr rfl, rfl⟩
        · rintro (hid | ⟨k, hk | rfl, rfl⟩)
          · exact Or.inl (Or.inl hid)
          · exact Or.inl (Or.inr ⟨k, hk, rfl⟩)
          · exact Or.inr rfl
      · rcases Nat.lt_succ_iff_lt_or_eq.1 hk with hk | rfl
        · refine mem_upsert_of_ne (h.legacy k hk) fun heq => ?_
          exact absurd (legacyId_injective heq) (Nat.ne_of_lt hk)
        · exact mem_upsert_self _ _

/-- One record is kept for each identity. -/
theorem Gathered.length_eq (h : Gathered read state) (huuids : WithUuids read) :
    state.1.length = identities read := by
  have hset : (state.1.map (·.holderId)).toFinset =
      (recordIds read).toFinset ∪ (Finset.range state.2).image legacyId := by
    ext id
    simp only [List.mem_toFinset, h.ids, Finset.mem_union, Finset.mem_image, Finset.mem_range]
    refine or_congr_right (exists_congr fun k => and_congr_right fun _ => ?_)
    exact eq_comm
  have hdisjoint : Disjoint (recordIds read).toFinset ((Finset.range state.2).image legacyId) := by
    rw [Finset.disjoint_left]
    intro id hid hmade
    obtain ⟨k, -, rfl⟩ := Finset.mem_image.1 hmade
    have huuid := huuids _ (List.mem_toFinset.1 hid)
    rw [legacyId_not_uuid] at huuid
    cases huuid
  have hmade : ((Finset.range state.2).image legacyId).card = state.2 := by
    rw [Finset.card_image_of_injective _ fun _ _ => legacyId_injective, Finset.card_range]
  calc state.1.length = (state.1.map (·.holderId)).length := (List.length_map _).symm
    _ = (state.1.map (·.holderId)).toFinset.card := (List.toFinset_card_of_nodup h.nodup).symm
    _ = (recordIds read).toFinset.card + ((Finset.range state.2).image legacyId).card := by
        rw [hset, Finset.card_union_of_disjoint hdisjoint]
    _ = identities read := by
        rw [List.card_toFinset, hmade, h.made]
        rfl

end Replies

/-! ## The loop -/

/-- The replies that have not been read, in the order in which they arrive: reading a
message takes the first of them, unless there is another message, or none yet. -/
def inbox : Context (List (Option Json)) Op fun o => Except Exc (Val o) where
  inv _ := True
  rely w w' := w' = w
  pre _ _ := True
  step
    | w, .getMessage, .ok (some (.reply data)), w' => w = data :: w'
    | w, _, _, w' => w' = w
  rely_refl _ := rfl
  rely_trans := fun h₁ h₂ => h₂.trans h₁
  inv_step := fun _ _ _ => trivial

instance stable_inbox {P : List (Option Json) → Prop} : inbox.Stable P :=
  ⟨fun _ _ hr h => (show _ = _ from hr) ▸ h⟩

/-- The holders with which the loop ends. -/
def holdersOf (collected : List RedisLockHolder ⊕ List RedisLockHolder × Nat) :
    List RedisLockHolder :=
  collected.elim id Prod.fst

/-- Fewer identities than expected after each of the replies so far. -/
def Short (expected : Nat) (read : List (Option Json)) : Prop :=
  ∀ earlier later, read = earlier ++ later → earlier ≠ [] → identities earlier < expected

/-- The loop goes on: what has been read, and what has not. -/
def Going (expected : Nat) (replies : List (Option Json))
    (state : List RedisLockHolder × Nat) (unread : List (Option Json)) : Prop :=
  ∃ read, replies = read ++ unread ∧ Gathered read state ∧ Short expected read

/-- The loop has ended with the last of the replies that were read. -/
def Complete (expected : Nat) (replies : List (Option Json)) (holders : List RedisLockHolder)
    (unread : List (Option Json)) : Prop :=
  ∃ read data made, replies = (read ++ [data]) ++ unread ∧
    Gathered (read ++ [data]) (holders, made) ∧ Short expected read ∧
    expected ≤ identities (read ++ [data])

section Loop

variable {expected : Nat} {replies : List (Option Json)} {state : List RedisLockHolder × Nat}

theorem Short.snoc {read : List (Option Json)} {data : Option Json} (h : Short expected read)
    (hlast : identities (read ++ [data]) < expected) : Short expected (read ++ [data]) := by
  intro earlier later heq hne
  rcases List.eq_nil_or_concat later with rfl | ⟨front, last, rfl⟩
  · rw [List.append_nil] at heq
    rw [← heq]
    exact hlast
  · rw [List.concat_eq_append, ← List.append_assoc] at heq
    exact h earlier front (List.append_inj_left' heq rfl) hne

/-- The loop has asked for a message. -/
def GoingOn (expected : Nat) (replies : List (Option Json))
    (state : List RedisLockHolder × Nat) : Option Message → List (Option Json) → Prop
  | some (.reply data), unread => ∃ read, replies = (read ++ [data]) ++ unread ∧
      Gathered read state ∧ Short expected read
  | _, unread => Going expected replies state unread

/-- One round of the collection. -/
theorem collectReply_gathers (huuids : WithUuids replies)
    (state : List RedisLockHolder × Nat) :
    Hoare inbox (Going expected replies state) (RedisLock.collectReply expected state)
      (Goes (Complete expected replies) (Going expected replies)) fun _ _ => True := by
  have hget : Hoare inbox (Going expected replies state) (perform .getMessage)
      (GoingOn expected replies state) fun _ _ => True := by
    refine Hoare.call (fun _ _ _ => trivial) ?_ fun _ _ _ _ _ _ _ => trivial
    intro unread message unread' _ _ hgoing hstep
    cases message with
    | none => exact (show unread' = unread from hstep) ▸ hgoing
    | some message =>
        cases message with
        | subscribed => exact (show unread' = unread from hstep) ▸ hgoing
        | reply data =>
            obtain ⟨read, hreplies, hrest⟩ := hgoing
            obtain rfl : unread = data :: unread' := hstep
            exact ⟨read, by rw [hreplies]; simp, hrest⟩
  refine Hoare.bind hget fun message => ?_
  cases message with
  | none => exact Hoare.pure fun _ _ h => h
  | some message =>
      cases message with
      | subscribed => exact Hoare.pure fun _ _ h => h
      | reply data =>
          refine Hoare.of_exists fun read => ?_
          have hnext : ∀ unread, replies = (read ++ [data]) ++ unread → Gathered read state →
              WithUuids (read ++ [data]) ∧ Gathered (read ++ [data])
                (upsert (parseLockResponse data state.2) state.1,
                  state.2 + if (parseLockResponse data state.2).legacy then 1 else 0) := by
            intro unread hreplies hgathered
            have huuids' : WithUuids (read ++ [data]) := (hreplies ▸ huuids).left
            exact ⟨huuids', hgathered.snoc huuids'⟩
          dsimp only
          split
          · rename_i henough
            refine Hoare.pure fun unread _ h => ?_
            obtain ⟨hreplies, hgathered, hshort⟩ := h
            obtain ⟨huuids', hgathered'⟩ := hnext unread hreplies hgathered
            refine ⟨read, data, _, hreplies, hgathered', hshort, ?_⟩
            rw [← hgathered'.length_eq huuids']
            exact henough
          · rename_i hfew
            refine Hoare.pure fun unread _ h => ?_
            obtain ⟨hreplies, hgathered, hshort⟩ := h
            obtain ⟨huuids', hgathered'⟩ := hnext unread hreplies hgathered
            refine ⟨read ++ [data], hreplies, hgathered', hshort.snoc ?_⟩
            rw [← hgathered'.length_eq huuids']
            exact Nat.lt_of_not_le hfew

/-- The whole loop. -/
theorem collect_gathers (self : RedisLock) (timeout checkInterval : Rat)
    (huuids : WithUuids replies) :
    Hoare inbox (fun unread => unread = replies)
      (self.timeoutGenerator timeout checkInterval (RedisLock.collectReply expected) ([], 0))
      (Goes (Complete expected replies) (Going expected replies)) fun _ _ => True := by
  have hwait : ∀ state o, Waits o → Hoare inbox (Going expected replies state) (perform o)
      (fun _ => Going expected replies state) fun _ _ => True := by
    intro state o ho
    refine Hoare.call (fun _ _ _ => trivial) ?_ fun _ _ _ _ _ _ _ => trivial
    intro unread v unread' _ _ hgoing hstep
    cases o with
    | attempts _ | sleep _ => exact (show unread' = unread from hstep) ▸ hgoing
    | _ => exact ho.elim
  refine (timeoutGenerator_rule self hwait (collectReply_gathers huuids) ([], 0)).of_pre ?_
  intro unread _ heq
  refine ⟨[], heq.symm, gathered_nil, fun earlier later h hne => ?_⟩
  exact absurd (List.append_eq_nil_iff.1 h.symm).1 hne

/-- What both ways out of the loop have in common, and what tells them apart. -/
theorem gathered_of_goes {collected : List RedisLockHolder ⊕ List RedisLockHolder × Nat}
    {unread : List (Option Json)}
    (h : Goes (Complete expected replies) (Going expected replies) collected unread) :
    ∃ read made, replies = read ++ unread ∧ Gathered read (holdersOf collected, made) ∧
      (∀ earlier later, read = earlier ++ later → earlier ≠ [] → later ≠ [] →
        identities earlier < expected) ∧
      ((∃ holders, collected = .inl holders) ↔
        read ≠ [] ∧ expected ≤ identities read) := by
  cases collected with
  | inl holders =>
      obtain ⟨read, data, made, hreplies, hgathered, hshort, henough⟩ := h
      refine ⟨read ++ [data], made, hreplies, hgathered, fun earlier later heq hne hlater => ?_,
        fun _ => ⟨by simp, henough⟩, fun _ => ⟨holders, rfl⟩⟩
      rcases List.eq_nil_or_concat later with rfl | ⟨front, last, rfl⟩
      · exact absurd rfl hlater
      · rw [List.concat_eq_append, ← List.append_assoc] at heq
        exact hshort earlier front (List.append_inj_left' heq rfl) hne
  | inr state =>
      obtain ⟨read, hreplies, hgathered, hshort⟩ := h
      refine ⟨read, state.2, hreplies, hgathered, fun earlier later heq hne _ =>
        hshort earlier later heq hne, ?_, fun hreached => ?_⟩
      · rintro ⟨holders, hholders⟩
        cases hholders
      · have hfew := hshort read [] (List.append_nil read).symm hreached.1
        exact absurd hreached.2 (Nat.not_le_of_lt hfew)

/-- A reply that is not a record has made an owner. -/
theorem Gathered.owner {read : List (Option Json)} (h : Gathered read state) {data : Option Json}
    (hmem : data ∈ read) (hdata : data.bind parseRecord = none) :
    ∃ owner ∈ state.1, owner.mode = .exclusive := by
  have hpositive : 0 < state.2 := by
    rw [h.made]
    exact List.countP_pos_iff.2 ⟨data, hmem, by rw [hdata]; rfl⟩
  exact ⟨_, h.legacy 0 hpositive, rfl⟩

/-- Whatever `inbox` does with a code, nothing is asked of it. -/
theorem inbox_rule {α : Type} (x : Py α) :
    Hoare inbox (fun _ => True) x (fun _ _ => True) fun _ _ => True :=
  Hoare.within (Program.Within.trivial x.run) fun _ _ _ _ _ => ⟨trivial, fun _ _ _ => trivial⟩

/-- With an owner among the holders nobody takes the lock. -/
theorem resolve_with_owner (self : RedisLock) {holders : List RedisLockHolder}
    {owner : RedisLockHolder} (hmem : owner ∈ holders) (howner : owner.mode = .exclusive)
    (failWhenLocked : Bool) :
    Hoare inbox (fun _ => True) (self.resolveLockHolders (some holders) failWhenLocked)
      (fun held _ => held = false) fun _ _ => True := by
  have hincompatible : self.holdersAreCompatible holders = false := by
    refine Bool.eq_false_iff.2 fun h => ?_
    have hshared := (RedisLock.holdersAreCompatible_spec h).2 owner hmem
    rw [howner] at hshared
    cases hshared
  have hunelected : self.writerIsElected holders = false := by
    refine Bool.eq_false_iff.2 fun h => ?_
    exact (RedisLock.writerIsElected_spec h owner hmem).1 howner
  have hbackOff : Hoare inbox (fun _ => True) (self.backOff failWhenLocked)
      (fun held _ => held = false) fun _ _ => True := by
    refine Hoare.bind (inbox_rule self.release) fun _ => ?_
    split
    · exact Hoare.throw fun _ _ _ => trivial
    · exact Hoare.pure fun _ _ _ => rfl
  simpa [RedisLock.resolveLockHolders, hincompatible, hunelected] using hbackOff

end Loop

/-! ## The codec and the count -/

/-- The replies of a probe, from the record that is published to the decision.

What the handler of a lock publishes is read back as its id and its mode, and not as the
reply of an older version.  Of any sequence of replies whose records carry ids of
constructors the loop reads the beginning: as long as there are fewer identities than
expected, and no further.  It keeps one holder for each identity; and if one of the replies
it has read is not a record, no lock that decides on these holders takes the lock. -/
theorem replies_read_pessimistically (codec : Codec) (hraises : codec.RaisesUnreadable) :
    (∀ (self : RedisLock) (a : Attributes) (publish : Publish) (message : PubsubMessage)
        (channel data : Text) (payload : Payload) (legacyIndex : Nat),
      self.channelHandler codec publish a message = .ok (some (channel, data)) →
      codec.RoundTrips (reply self.holderId a.mode) →
      payload = .str data ∨ payload = .bytes (utf8 data) →
      codec.readReply payload legacyIndex = .ok ⟨self.holderId, a.mode, false⟩) ∧
    (∀ payload legacyIndex, codec.readReply payload legacyIndex =
      .ok (parseLockResponse (codec.decoded payload) legacyIndex)) ∧
    ∀ (self : RedisLock) (expected : Nat) (timeout checkInterval : Rat) (payloads : List Payload)
        (trace : List (Entry (List (Option Json)) Op fun o => Except Exc (Val o)))
        (collected : List RedisLockHolder ⊕ List RedisLockHolder × Nat)
        (unread : List (Option Json)),
      WithUuids (payloads.map codec.decoded) →
      inbox.Executes
        (self.timeoutGenerator timeout checkInterval (RedisLock.collectReply expected) ([], 0)).run
        (payloads.map codec.decoded) trace (.ok collected) unread →
      ∃ read rest, payloads = read ++ rest ∧ unread = rest.map codec.decoded ∧
        (holdersOf collected).length = identities (read.map codec.decoded) ∧
        (∀ earlier later, read = earlier ++ later → earlier ≠ [] → later ≠ [] →
          identities (earlier.map codec.decoded) < expected) ∧
        ((∃ holders, collected = .inl holders) ↔
          read ≠ [] ∧ expected ≤ identities (read.map codec.decoded)) ∧
        ((∃ payload ∈ read, codec.record payload = none) →
          ∀ (decider : RedisLock) (failWhenLocked : Bool) (w w' : List (Option Json))
            (trace' : List (Entry (List (Option Json)) Op fun o => Except Exc (Val o))),
          ¬ inbox.Executes
            (decider.resolveLockHolders (some (holdersOf collected)) failWhenLocked).run
            w trace' (.ok true) w') := by
  refine ⟨?_, codec.readReply_eq hraises, ?_⟩
  · intro self a publish message channel data payload legacyIndex hpublished hround hpayload
    obtain rfl := RedisLock.channelHandler_published hpublished
    have hloads : codec.loads payload = .ok (reply self.holderId a.mode) := by
      rcases hpayload with rfl | rfl
      · exact hround.1
      · exact hround.2
    unfold Codec.readReply
    rw [hloads]
    simp [parseLockResponse]
  · intro self expected timeout checkInterval payloads trace collected unread huuids hrun
    obtain ⟨-, hgoes⟩ :=
      (collect_gathers self timeout checkInterval huuids _ trivial rfl).executes trivial hrun
    obtain ⟨seen, made, hreplies, hgathered, hshort, hreached⟩ := gathered_of_goes hgoes
    obtain ⟨read, rest, rfl, rfl, rfl⟩ := List.map_eq_append_iff.1 hreplies
    rw [List.map_append] at huuids
    refine ⟨read, rest, rfl, rfl, hgathered.length_eq huuids.left, ?_, ?_, ?_⟩
    · rintro earlier later rfl hne hlater
      exact hshort (earlier.map codec.decoded) (later.map codec.decoded) List.map_append
        (by simpa using hne) (by simpa using hlater)
    · rw [hreached, ne_eq, List.map_eq_nil_iff]
    · rintro ⟨payload, hmem, hrecord⟩ decider failWhenLocked w w' trace' hrun'
      obtain ⟨owner, howner, hmode⟩ := hgathered.owner
        (List.mem_map_of_mem hmem) hrecord
      obtain ⟨-, hheld⟩ := (resolve_with_owner decider howner hmode failWhenLocked w trivial
        trivial).executes trivial hrun'
      cases (show (true = false) from hheld)

/-! ## Two readers and an older lock -/

namespace twoReaders

/-- The ids of two locks. -/
def firstId : Text := "aaaaaaaaaaaa4aaa8aaaaaaaaaaaaaaa".toList

def secondId : Text := "bbbbbbbbbbbb4bbb8bbbbbbbbbbbbbbb".toList

/-- The record of a reader, as it travels. -/
def recordText (holderId : Text) : Text :=
  "\x7b\"holder_id\": \"".toList ++ holderId ++
    "\", \"mode\": \"shared\", \"protocol\": 1\x7d".toList

/-- The bare timestamp with which an older lock answers. -/
def timestamp : Text := "1700000000".toList

/-- A ping that asks for a reply. -/
def ping : Text := "\x7b\"message\": \"ping\", \"response_channel\": \"r\"\x7d".toList

/-- What the `json` module does with these four texts, and with the records of readers. -/
def codec : Codec where
  loads payload :=
    if payload = .str (recordText firstId) ∨ payload = .bytes (utf8 (recordText firstId)) then
      .ok (reply firstId .shared)
    else if payload = .str (recordText secondId) ∨
        payload = .bytes (utf8 (recordText secondId)) then .ok (reply secondId .shared)
    else if payload = .str timestamp then .ok (.number 1700000000)
    else if payload = .str ping then
      .ok (.object [("message".toList, .text "ping".toList),
        ("response_channel".toList, .text ['r'])])
    else .error .jsonDecodeError
  dumps
    | .object ((_, .text holderId) :: _) => recordText holderId
    | _ => []
  loads_empty payload hempty := by
    cases payload with
    | str text =>
        obtain rfl : text = [] := List.isEmpty_iff.1 hempty
        rfl
    | bytes data =>
        obtain rfl : data = [] := List.isEmpty_iff.1 hempty
        rfl

theorem raisesUnreadable : codec.RaisesUnreadable := by
  intro payload e h
  unfold codec at h
  dsimp only at h
  split at h
  · cases h
  · split at h
    · cases h
    · split at h
      · cases h
      · split at h
        · cases h
        · obtain rfl := Except.error.inj h
          rfl

/-- The lock that probes. -/
def reader : RedisLock where
  channel := ['c']
  holderId := firstId
  flags := SHARED

/-- The next reply is read at once, and the clock allows one round more than the first. -/
def answer (_ : Unit) (w : List (Option Json)) :
    (o : Op) → Option (Except Exc (Val o) × List (Option Json))
  | .attempts _ => some (.ok 1, w)
  | .sleep _ | .won _ => some (.ok (), w)
  | .getMessage =>
      match w with
      | [] => some (.ok none, [])
      | data :: rest => some (.ok (some (.reply data)), rest)
  | _ => none

theorem answer_step {choice : Unit} {w w' : List (Option Json)} {o : Op}
    {r : Except Exc (Val o)} (h : answer choice w o = some (r, w')) : inbox.step w o r w' := by
  cases o with
  | getMessage =>
      cases w with
      | nil =>
          obtain ⟨rfl, rfl⟩ := Prod.mk.inj (Option.some.inj h)
          rfl
      | cons data rest =>
          obtain ⟨rfl, rfl⟩ := Prod.mk.inj (Option.some.inj h)
          rfl
  | attempts _ | sleep _ | won _ =>
      obtain ⟨rfl, rfl⟩ := Prod.mk.inj (Option.some.inj h)
      rfl
  | _ => cases h

/-- The loop that collects the replies, when two subscribers have been counted. -/
def collecting : Py (List RedisLockHolder ⊕ List RedisLockHolder × Nat) :=
  reader.timeoutGenerator 1 (1 / 10) (RedisLock.collectReply 2) ([], 0)

end twoReaders

open twoReaders in
theorem replies_read_pessimistically_run :
    codec.readReply (.bytes (utf8 (recordText firstId))) 0 = .ok ⟨firstId, .shared, false⟩ ∧
    ∃ trace collected unread,
      inbox.Executes collecting.run
        ([.str (recordText firstId), .str timestamp].map codec.decoded) trace (.ok collected)
        unread ∧
      (holdersOf collected).length = 2 ∧
      ∀ w w' trace', ¬ inbox.Executes
        (reader.resolveLockHolders (some (holdersOf collected)) false).run w trace' (.ok true)
        w' := by
  have hpublished : reader.channelHandler codec (fun _ _ => none)
      { connection := some 0, mode := .shared } (.published (.str ping)) =
      .ok (some (['r'], recordText firstId)) := by rfl
  have hround : codec.RoundTrips (reply firstId .shared) := ⟨by rfl, by rfl⟩
  have hdecoded : [Payload.str (recordText firstId), .str timestamp].map codec.decoded =
      [some (reply firstId .shared), some (.number 1700000000)] := by rfl
  have huuids : WithUuids
      ([Payload.str (recordText firstId), .str timestamp].map codec.decoded) := by
    rw [hdecoded]
    intro id hid
    obtain rfl : id = firstId := List.mem_singleton.1 hid
    rfl
  have hplayed : (Program.play answer [(), (), (), (), ()] collecting.run
      ([Payload.str (recordText firstId), .str timestamp].map codec.decoded)).map
      (fun r => (r.2.1, r.2.2)) =
      some (.ok (.inl [⟨firstId, .shared, false⟩, ⟨legacyId 0, .exclusive, true⟩]), []) := by
    rfl
  obtain ⟨⟨trace, outcome, unread⟩, hplay, hobserved⟩ := Option.map_eq_some_iff.1 hplayed
  obtain ⟨houtcome, hempty⟩ := Prod.mk.inj hobserved
  dsimp only at houtcome hempty
  subst houtcome
  have hrun := Context.Executes.of_play (C := inbox) answer_step hplay
  obtain ⟨hread, -, hcollect⟩ := replies_read_pessimistically codec raisesUnreadable
  obtain ⟨read, rest, hreplies, hunread, -, -, -, hblocked⟩ :=
    hcollect reader 2 1 (1 / 10) _ _ _ _ huuids hrun
  have hrest : rest = [] := List.map_eq_nil_iff.1 (hunread.symm.trans hempty)
  rw [hrest, List.append_nil] at hreplies
  refine ⟨hread reader _ _ _ _ _ _ 0 hpublished hround (Or.inr rfl), trace, _, unread, hrun, rfl,
    fun w w' trace' => hblocked ⟨.str timestamp, ?_, rfl⟩ reader false w w' trace'⟩
  rw [← hreplies]
  exact List.mem_cons_of_mem _ (List.mem_singleton_self _)

open twoReaders in
/-- Once there is a record for each of the expected subscribers the loop ends, and a reply
that comes later and cannot be read has no say: the reader takes the lock. -/
theorem late_reply_is_not_read :
    ¬ ∀ (codec : Codec) (expected : Nat) (timeout checkInterval : Rat) (payloads : List Payload)
        (trace trace' : List (Entry (List (Option Json)) Op fun o => Except Exc (Val o)))
        (collected : List RedisLockHolder ⊕ List RedisLockHolder × Nat)
        (unread w w' : List (Option Json)),
      codec.RaisesUnreadable → WithUuids (payloads.map codec.decoded) →
      (∃ payload ∈ payloads, codec.record payload = none) →
      inbox.Executes
        (reader.timeoutGenerator timeout checkInterval (RedisLock.collectReply expected)
          ([], 0)).run (payloads.map codec.decoded) trace (.ok collected) unread →
      ¬ inbox.Executes (reader.resolveLockHolders (some (holdersOf collected)) false).run
        w trace' (.ok true) w' := by
  intro hclaim
  have huuids : WithUuids ([Payload.str (recordText firstId), .str (recordText secondId),
      .str timestamp].map codec.decoded) := by
    intro id hid
    have hids : id ∈ [firstId, secondId] := hid
    rcases List.mem_cons.1 hids with rfl | hid
    · rfl
    · obtain rfl := List.mem_singleton.1 hid
      rfl
  have hplayed : (Program.play answer [(), (), (), (), ()] collecting.run
      ([Payload.str (recordText firstId), .str (recordText secondId),
        .str timestamp].map codec.decoded)).map (fun r => r.2.1) =
      some (.ok (.inl [⟨firstId, .shared, false⟩, ⟨secondId, .shared, false⟩])) := by rfl
  have hdecided : (Program.play answer [()]
      (reader.resolveLockHolders
        (some [⟨firstId, .shared, false⟩, ⟨secondId, .shared, false⟩]) false).run []).map
      (fun r => r.2.1) = some (.ok true) := by rfl
  obtain ⟨⟨trace, outcome, unread⟩, hplay, houtcome⟩ := Option.map_eq_some_iff.1 hplayed
  obtain ⟨⟨trace', outcome', w'⟩, hplay', houtcome'⟩ := Option.map_eq_some_iff.1 hdecided
  dsimp only at houtcome houtcome'
  subst houtcome houtcome'
  have hrun := Context.Executes.of_play (C := inbox) answer_step hplay
  have hrun' := Context.Executes.of_play (C := inbox) answer_step hplay'
  exact hclaim codec 2 1 (1 / 10) _ _ _ _ _ _ _ raisesUnreadable huuids
    ⟨.str timestamp, by simp, rfl⟩ hrun hrun'

end Portalocker.Redis
