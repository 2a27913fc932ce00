import Mathlib.Data.List.Lex
import Mathlib.Data.List.Sort
import Mathlib.Data.Char
import Portalocker.Types
set_option autoImplicit false

/-!
# Holder records and the decisions made from them

What travels on the channel of a `RedisLock`, how a reply is read, and the pure
part of every decision: who may join, which writer is elected and which
connections belong to silent holders.
-/

namespace Portalocker.Redis

/-! ## Records -/

abbrev Text : Type := List Char

/-- `RedisLockMode`. -/
inductive RedisLockMode
  | exclusive
  | pending
  | shared
  deriving DecidableEq, Repr

/-- The value of a member, as it travels. -/
def RedisLockMode.value : RedisLockMode → Text
  | exclusive => "exclusive".toList
  | pending => "pending".toList
  | shared => "shared".toList

/-- `RedisLockMode(value)`; `none` for the `ValueError`. -/
def RedisLockMode.ofValue (value : Text) : Option RedisLockMode :=
  if value = exclusive.value then some exclusive
  else if value = pending.value then some pending
  else if value = shared.value then some shared
  else none

/-- `RedisLockHolder`. -/
structure RedisLockHolder where
  holderId : Text
  mode : RedisLockMode
  legacy : Bool := false
  deriving DecidableEq, Repr

/-- A value `json.loads` returns.  `other` is an array, whose elements are never
looked at, or a number that is not finite. -/
inductive Json
  | null
  | bool (value : Bool)
  | number (value : Rat)
  | text (value : Text)
  | object (entries : List (Text × Json))
  | other

namespace Json

/-- `data.get(key)` of a mapping; a missing key reads as `None`. -/
def get (entries : List (Text × Json)) (key : String) : Json :=
  (entries.lookup key.toList).getD null

/-- `== REDIS_LOCK_PROTOCOL_VERSION`; in Python `True == 1`. -/
def isProtocolVersion : Json → Bool
  | number value => value = 1
  | bool value => value
  | _ => false

end Json

/-- The record `channel_handler` publishes. -/
def reply (holderId : Text) (mode : RedisLockMode) : Json :=
  .object [("holder_id".toList, .text holderId), ("mode".toList, .text mode.value),
    ("protocol".toList, .number 1)]

/-- The part of `_parse_lock_response` inside the `try`. -/
def parseRecord : Json → Option RedisLockHolder
  | .object entries =>
      match Json.get entries "holder_id", Json.get entries "mode" with
      | .text holderId, .text mode =>
          if (Json.get entries "protocol").isProtocolVersion then
            (RedisLockMode.ofValue mode).map fun mode => ⟨holderId, mode, false⟩
          else none
      | _, _ => none
  | _ => none

/-- A record of the protocol is never marked as legacy. -/
theorem parseRecord_legacy {data : Json} {holder : RedisLockHolder}
    (h : parseRecord data = some holder) : holder.legacy = false := by
  unfold parseRecord at h
  split at h
  · split at h
    · split at h
      · obtain ⟨mode, -, rfl⟩ := Option.map_eq_some_iff.1 h
        rfl
      · cases h
    · cases h
  · cases h

/-- The id made up for reply number `n` without one. -/
def legacyId (n : Nat) : Text := "legacy-".toList ++ str n

theorem one_lt_length_legacyId (n : Nat) : 1 < (legacyId n).length := by
  have hprefix : ("legacy-".toList).length = 7 := by decide
  unfold legacyId
  rw [List.length_append, hprefix]
  exact Nat.lt_of_lt_of_le (by decide) (Nat.le_add_right 7 _)

/-- `_parse_lock_response`; `none` is a payload `json.loads` refuses. -/
def parseLockResponse (rawData : Option Json) (legacyIndex : Nat) : RedisLockHolder :=
  (rawData.bind parseRecord).getD ⟨legacyId legacyIndex, .exclusive, true⟩

/-- A record that was published is read back. -/
@[simp] theorem parseRecord_reply (holderId : Text) (mode : RedisLockMode) :
    parseRecord (reply holderId mode) = some ⟨holderId, mode, false⟩ := by
  cases mode <;> rfl

/-- Only a reply without an identity is marked, and has a made-up id. -/
theorem parseLockResponse_legacy (rawData : Option Json) (legacyIndex : Nat)
    (h : (parseLockResponse rawData legacyIndex).legacy = true) :
    ∃ n, (parseLockResponse rawData legacyIndex).holderId = legacyId n := by
  unfold parseLockResponse at h ⊢
  cases hrecord : rawData.bind parseRecord with
  | none => exact ⟨legacyIndex, rfl⟩
  | some holder =>
      obtain ⟨data, -, hparse⟩ := Option.bind_eq_some_iff.1 hrecord
      rw [hrecord, Option.getD_some, parseRecord_legacy hparse] at h
      cases h

/-- `holders[holder.holder_id] = holder`, in a dictionary that keeps its order. -/
def upsert (holder : RedisLockHolder) : List RedisLockHolder → List RedisLockHolder
  | [] => [holder]
  | first :: rest =>
      if first.holderId = holder.holderId then holder :: rest else first :: upsert holder rest

theorem length_upsert_le (holder : RedisLockHolder) (holders : List RedisLockHolder) :
    (upsert holder holders).length ≤ holders.length + 1 := by
  induction holders with
  | nil => simp [upsert]
  | cons first rest ih =>
      unfold upsert
      split
      · simp
      · simpa using ih

theorem mem_upsert_self (holder : RedisLockHolder) (holders : List RedisLockHolder) :
    holder ∈ upsert holder holders := by
  induction holders with
  | nil => simp [upsert]
  | cons first rest ih =>
      unfold upsert
      split
      · simp
      · exact List.mem_cons_of_mem _ ih

theorem mem_of_mem_upsert {holder other : RedisLockHolder} {holders : List RedisLockHolder}
    (h : other ∈ upsert holder holders) : other = holder ∨ other ∈ holders := by
  induction holders with
  | nil => exact Or.inl (List.mem_singleton.1 h)
  | cons first rest ih =>
      unfold upsert at h
      split at h
      · exact (List.mem_cons.1 h).imp_right (List.mem_cons_of_mem _)
      · rcases List.mem_cons.1 h with rfl | hrest
        · exact Or.inr (List.mem_cons_self ..)
        · exact (ih hrest).imp_right (List.mem_cons_of_mem _)

/-- A record is only replaced by one with the same id. -/
theorem mem_upsert_of_ne {holder other : RedisLockHolder} {holders : List RedisLockHolder}
    (h : other ∈ holders) (hne : other.holderId ≠ holder.holderId) :
    other ∈ upsert holder holders := by
  induction holders with
  | nil => cases h
  | cons first rest ih =>
      unfold upsert
      split
      · rcases List.mem_cons.1 h with rfl | hrest
        · exact absurd ‹_› hne
        · exact List.mem_cons_of_mem _ hrest
      · rcases List.mem_cons.1 h with rfl | hrest
        · exact List.mem_cons_self ..
        · exact List.mem_cons_of_mem _ (ih hrest)

/-! ## `RedisLock` -/

/-- The two flags a `RedisLock` accepts. -/
def EXCLUSIVE : LockFlags := ⟨true, false, false⟩

def SHARED : LockFlags := ⟨false, true, false⟩

/-- The default is one of them. -/
theorem exclusive_valid : EXCLUSIVE = EXCLUSIVE ∨ EXCLUSIVE = SHARED := Or.inl rfl

/-- `DEFAULT_UNAVAILABLE_TIMEOUT`, in seconds. -/
def defaultUnavailableTimeout : Rat := 1

/-- `DEFAULT_THREAD_SLEEP_TIME`, in seconds. -/
def defaultThreadSleepTime : Rat := 1 / 10

/-- What the constructor of a `RedisLock` records.  Other flags raise there, so
such a lock does not exist. -/
structure RedisLock where
  channel : Text
  holderId : Text
  flags : LockFlags := EXCLUSIVE
  /-- whether the lock creates its own connection -/
  closeConnection : Bool := true
  timeout : Rat := defaultTimeout
  checkInterval : Rat := defaultCheckInterval
  failWhenLocked : Bool := false
  threadSleepTime : Rat := defaultThreadSleepTime
  unavailableTimeout : Rat := defaultUnavailableTimeout
  flags_valid : flags = EXCLUSIVE ∨ flags = SHARED := by first | exact exclusive_valid | decide

namespace RedisLock

variable (self : RedisLock)

/-- The mode a lock starts in. -/
def initialMode : RedisLockMode :=
  if self.flags = SHARED then .shared else .pending

/-- `legacy_client_name`. -/
def legacyClientName : Text := self.channel ++ "-lock".toList

/-- `client_name`. -/
def clientName : Text := self.legacyClientName ++ '-' :: self.holderId

/-- `_holders_are_compatible`. -/
def holdersAreCompatible (holders : List RedisLockHolder) : Bool :=
  self.flags = SHARED && holders.all (·.mode = .shared)

/-- The ids of the waiting writers, sorted. -/
def pendingHolderIds (holders : List RedisLockHolder) : List Text :=
  ((holders.filter (·.mode = .pending)).map (·.holderId)).insertionSort (· ≤ ·)

/-- `_writer_is_elected`. -/
def writerIsElected (holders : List RedisLockHolder) : Bool :=
  if holders.any (·.mode = .exclusive) then false
  else (pendingHolderIds holders).head? = some self.holderId

/-- `any(holder.mode is RedisLockMode.SHARED for holder in holders)`. -/
def anyShared (holders : List RedisLockHolder) : Bool :=
  holders.any (·.mode = .shared)

/-- The connection has a name of this channel's locks and its holder has not
answered. -/
def unavailable (respondingHolders : List RedisLockHolder) (name : Text) : Bool :=
  let respondingHolderIds := (respondingHolders.filter (!·.legacy)).map (·.holderId)
  let legacyResponded := respondingHolders.any (·.legacy)
  let clientNamePrefix := self.legacyClientName ++ ['-']
  (name = self.legacyClientName && !legacyResponded) ||
    (clientNamePrefix.isPrefixOf name &&
      !respondingHolderIds.contains (name.drop clientNamePrefix.length))

/-- A lock with other flags than `SHARED` is a writer. -/
theorem flags_eq_exclusive (h : self.flags ≠ SHARED) : self.flags = EXCLUSIVE :=
  self.flags_valid.resolve_right h

variable {self} {holders : List RedisLockHolder}

/-- An elected writer saw no owner, and no waiting writer with a smaller id. -/
theorem writerIsElected_spec (h : self.writerIsElected holders = true) :
    ∀ holder ∈ holders, holder.mode ≠ .exclusive ∧
      (holder.mode = .pending → self.holderId ≤ holder.holderId) := by
  intro holder hmem
  unfold writerIsElected at h
  split at h
  · cases h
  · refine ⟨fun hmode => ‹¬ _› (List.any_eq_true.2 ⟨holder, hmem, by simp [hmode]⟩),
      fun hmode => ?_⟩
    have hhead := of_decide_eq_true h
    have hsorted := List.pairwise_insertionSort (· ≤ ·)
      ((holders.filter (·.mode = .pending)).map (·.holderId))
    have hpending : holder.holderId ∈ pendingHolderIds holders := by
      simp only [pendingHolderIds, List.mem_insertionSort, List.mem_map, List.mem_filter,
        decide_eq_true_eq]
      exact ⟨holder, ⟨hmem, hmode⟩, rfl⟩
    unfold pendingHolderIds at hhead hpending
    obtain ⟨rest, hrest⟩ := List.head?_eq_some_iff.1 hhead
    rw [hrest] at hsorted hpending
    rcases List.mem_cons.1 hpending with heq | hlater
    · exact le_of_eq heq.symm
    · exact List.rel_of_pairwise_cons hsorted hlater

/-- A waiting writer that is not elected saw an owner, or a waiting writer that sorts
before it. -/
theorem not_elected_spec (hmem : ⟨self.holderId, .pending, false⟩ ∈ holders)
    (h : self.writerIsElected holders = false) :
    (∃ holder ∈ holders, holder.mode = .exclusive) ∨
      ∃ holder ∈ holders, holder.mode = .pending ∧ holder.holderId < self.holderId := by
  unfold writerIsElected at h
  split at h
  · rename_i hany
    obtain ⟨holder, hholder, hmode⟩ := List.any_eq_true.1 hany
    exact Or.inl ⟨holder, hholder, of_decide_eq_true hmode⟩
  · have hhead := of_decide_eq_false h
    have hmem_iff : ∀ id, id ∈ pendingHolderIds holders ↔
        ∃ holder ∈ holders, holder.mode = .pending ∧ holder.holderId = id := by
      intro id
      simp only [pendingHolderIds, List.mem_insertionSort, List.mem_map, List.mem_filter,
        decide_eq_true_eq, and_assoc]
    have hown := (hmem_iff self.holderId).2 ⟨_, hmem, rfl, rfl⟩
    have hsorted : (pendingHolderIds holders).Pairwise (· ≤ ·) :=
      List.pairwise_insertionSort (· ≤ ·) _
    cases hids : pendingHolderIds holders with
    | nil =>
        rw [hids] at hown
        cases hown
    | cons first rest =>
        rw [hids] at hhead hown hsorted
        have hne : first ≠ self.holderId := fun heq => hhead (by rw [heq, List.head?_cons])
        have hrest := (List.mem_cons.1 hown).resolve_left fun heq => hne heq.symm
        have hfirst : first ∈ pendingHolderIds holders := by
          rw [hids]
          exact List.mem_cons_self ..
        obtain ⟨holder, hholder, hpending, rfl⟩ := (hmem_iff first).1 hfirst
        exact Or.inr ⟨holder, hholder, hpending,
          lt_of_le_of_ne (List.rel_of_pairwise_cons hsorted hrest) hne⟩

/-- A reader joins readers only. -/
theorem holdersAreCompatible_spec (h : self.holdersAreCompatible holders = true) :
    self.flags = SHARED ∧ ∀ holder ∈ holders, holder.mode = .shared := by
  simpa [holdersAreCompatible, List.all_eq_true] using h

end RedisLock

end Portalocker.Redis
