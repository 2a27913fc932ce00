import Mathlib.Tactic.Common
import Portalocker.Redis.Lock
set_option autoImplicit false
set_option linter.unusedSectionVars false

/-!
# Whose names a lock claims

`_kill_unavailable_locks` recognises the locks of its channel by the names in
`CLIENT LIST`: the older name itself, or whatever begins with it and a dash.  The
names of another channel may begin that way as well.
-/

namespace Portalocker.Redis

open Interleaving

namespace RedisLock

variable (self : RedisLock)

/-- The name of a connection reads as the one of a lock of this channel. -/
def Claims (name : Text) : Prop :=
  name = self.legacyClientName ∨ self.legacyClientName ++ ['-'] <+: name

/-- The clients that are killed. -/
def reaped (respondingHolders : List RedisLockHolder) (clients : List Client) : List Client :=
  clients.filter fun client => self.unavailable respondingHolders client.name

/-- Kill these clients. -/
def killAll : List Client → Py Unit
  | [] => return ()
  | client :: rest => do
      perform (.clientKill client.id)
      killAll rest

/-- The loop of `_kill_unavailable_locks` kills these clients and no others. -/
theorem killClients_eq (respondingHolders : List RedisLockHolder) (clients : List Client) :
    self.killClients respondingHolders clients = killAll (self.reaped respondingHolders clients) := by
  induction clients with
  | nil => rfl
  | cons client rest ih =>
      unfold killClients reaped
      cases h : self.unavailable respondingHolders client.name with
      | true => simp [h, killAll, ih, reaped]
      | false => simp [h, ih, reaped]

variable {self}

theorem claims_of_unavailable {respondingHolders : List RedisLockHolder} {name : Text}
    (h : self.unavailable respondingHolders name = true) : self.Claims name := by
  simp only [unavailable, Bool.or_eq_true, Bool.and_eq_true, decide_eq_true_eq,
    List.isPrefixOf_iff_prefix] at h
  exact h.imp And.left And.left

/-- Without any reply every such name is killed. -/
theorem unavailable_of_claims {name : Text} (h : self.Claims name) :
    self.unavailable [] name = true := by
  simp only [unavailable, Bool.or_eq_true, Bool.and_eq_true, decide_eq_true_eq,
    List.isPrefixOf_iff_prefix]
  exact h.imp (fun h => ⟨h, rfl⟩) fun h => ⟨h, rfl⟩

/-- A name of the older scheme is claimed only if the newer one is. -/
theorem Claims.clientName {other : RedisLock} (hne : self.channel ≠ other.channel)
    (h : self.Claims other.legacyClientName) : self.Claims other.clientName := by
  rcases h with heq | hstart
  · exact absurd (List.append_cancel_right heq).symm hne
  · exact Or.inr (hstart.trans (List.prefix_append _ _))

end RedisLock

/-- A holder id as `uuid4().hex` makes it. -/
def Hexadecimal (id : Text) : Prop := ∀ c ∈ id, c ∈ "0123456789abcdef".toList

instance : DecidablePred Hexadecimal := fun id =>
  List.decidableBAll (fun c => c ∈ "0123456789abcdef".toList) id

/-- What follows the first part of a client name is the suffix, or more after a
dash. -/
theorem RedisLock.claims_iff {self : RedisLock} {name : Text} :
    self.Claims name ↔ ∃ rest, name = self.channel ++ ("-lock".toList ++ rest) ∧
      (rest = [] ∨ ∃ id, rest = '-' :: id) := by
  unfold RedisLock.Claims RedisLock.legacyClientName
  constructor
  · rintro (rfl | ⟨id, rfl⟩)
    · exact ⟨[], by simp, Or.inl rfl⟩
    · exact ⟨'-' :: id, by simp, Or.inr ⟨id, rfl⟩⟩
  · rintro ⟨rest, rfl, rfl | ⟨id, rfl⟩⟩
    · exact Or.inl (by simp)
    · exact Or.inr ⟨id, by simp⟩

theorem lock_toList : "-lock".toList = ['-', 'l', 'o', 'c', 'k'] := by decide

/-- With a hexadecimal id, a lock's client name reads as one of channel `c` exactly
when its channel does. -/
theorem RedisLock.claims_clientName_iff {self other : RedisLock}
    (hne : self.channel ≠ other.channel) (hhex : Hexadecimal other.holderId) :
    self.Claims other.clientName ↔ self.Claims other.channel := by
  have hdash : '-' ∉ other.holderId := fun hmem => absurd (hhex _ hmem) (by decide)
  have hl : 'l' ∉ other.holderId := fun hmem => absurd (hhex _ hmem) (by decide)
  have hname : other.clientName =
      other.channel ++ ('-' :: 'l' :: 'o' :: 'c' :: 'k' :: '-' :: other.holderId) := by
    simp [clientName, legacyClientName, lock_toList]
  rw [claims_iff, claims_iff, hname, lock_toList]
  constructor
  · rintro ⟨rest, heq, hrest⟩
    rcases List.append_eq_append_iff.1 heq with ⟨z, hself, htail⟩ | ⟨z, hother, htail⟩
    · -- the channel of `self` is the longer one: the id would have a dash or an `l`
      exfalso
      match z with
      | [] => exact hne (by simpa using hself)
      | [_] => simp at htail
      | [_, _] => simp at htail
      | [_, _, _] => simp at htail
      | [_, _, _, _] => simp at htail
      | [_, _, _, _, _] =>
          simp only [List.cons_append, List.nil_append, List.cons.injEq] at htail
          exact hl (by simp [htail])
      | _ :: _ :: _ :: _ :: _ :: _ :: z =>
          simp only [List.cons_append, List.nil_append, List.cons.injEq] at htail
          exact hdash (by simp [htail])
    · match z with
      | [] => exact absurd (by simpa using hother.symm) hne
      | [_] => simp at htail
      | [_, _] => simp at htail
      | [_, _, _] => simp at htail
      | [_, _, _, _] => simp at htail
      | a :: b :: c :: d :: e :: z =>
          simp only [List.cons_append, List.nil_append, List.cons.injEq] at htail
          obtain ⟨rfl, rfl, rfl, rfl, rfl, htail⟩ := htail
          refine ⟨z, by simpa using hother, ?_⟩
          match z with
          | [] => exact Or.inl rfl
          | f :: z =>
              rcases hrest with rfl | ⟨id, rfl⟩
              · simp at htail
              · exact Or.inr ⟨z, by rw [(List.cons.inj htail).1]⟩
  · rintro ⟨rest, hchannel, hrest⟩
    refine ⟨rest ++ ('-' :: 'l' :: 'o' :: 'c' :: 'k' :: '-' :: other.holderId),
      by rw [hchannel]; simp, ?_⟩
    rcases hrest with rfl | ⟨id, rfl⟩
    · exact Or.inr ⟨_, rfl⟩
    · exact Or.inr ⟨_, rfl⟩

/-- The reaps of a lock spare the connections of a lock on another channel, whatever
the replies and the clients are, exactly when its client name does not read as one of
this channel; with a hexadecimal id, when the name of that channel does not. -/
theorem reap_confined (self other : RedisLock) (hne : self.channel ≠ other.channel) :
    (∀ respondingHolders clients, self.killClients respondingHolders clients =
        RedisLock.killAll (self.reaped respondingHolders clients)) ∧
    ((∀ respondingHolders clients, ∀ client ∈ self.reaped respondingHolders clients,
        client.name ≠ other.clientName ∧ client.name ≠ other.legacyClientName) ↔
      ¬ self.Claims other.clientName) ∧
    (Hexadecimal other.holderId →
      (self.Claims other.clientName ↔ self.Claims other.channel)) := by
  refine ⟨self.killClients_eq, ⟨fun h hclaims => ?_, fun h respondingHolders clients client hmem =>
    ?_⟩, RedisLock.claims_clientName_iff hne⟩
  · have hmem : ⟨0, other.clientName⟩ ∈ self.reaped [] [⟨0, other.clientName⟩] := by
      simp [RedisLock.reaped, RedisLock.unavailable_of_claims hclaims]
    exact (h [] [⟨0, other.clientName⟩] _ hmem).1 rfl
  · have hclaims : self.Claims client.name :=
      RedisLock.claims_of_unavailable (List.mem_filter.1 hmem).2
    refine ⟨fun heq => h (heq ▸ hclaims), fun heq => h ?_⟩
    exact RedisLock.Claims.clientName hne (heq ▸ hclaims)

/-- The channels `c` and `c-lock-d`: a lock on the first takes the connection of one
on the second for its own. -/
theorem reap_crosses_channels :
    ∃ self other : RedisLock, self.channel ≠ other.channel ∧ Hexadecimal other.holderId ∧
      ∃ client ∈ self.reaped [] [⟨7, other.clientName⟩], client.name = other.clientName := by
  refine ⟨{ channel := ['c'], holderId := ['a'] },
    { channel := "c-lock-d".toList, holderId := ['b'] }, by decide, by decide,
    ⟨7, _⟩, ?_, rfl⟩
  decide

/-- Two channels of which neither extends a client name of the other. -/
theorem reap_confined_run :
    ⟨7, ({ channel := ['d'], holderId := ['b'] } : RedisLock).clientName⟩ ∉
      ({ channel := ['c'], holderId := ['a'] } : RedisLock).reaped []
        [⟨7, ({ channel := ['d'], holderId := ['b'] } : RedisLock).clientName⟩] := by
  obtain ⟨-, hspares, hhex⟩ := reap_confined { channel := ['c'], holderId := ['a'] }
    { channel := ['d'], holderId := ['b'] } (by decide)
  have hnot : ¬ ({ channel := ['c'], holderId := ['a'] } : RedisLock).Claims ['d'] := by
    rintro (heq | ⟨rest, heq⟩)
    · revert heq
      decide
    · revert heq
      simp [RedisLock.legacyClientName]
  have hclaims := (hhex (by decide)).not.2 hnot
  exact fun hmem => (hspares.2 hclaims [] _ _ hmem).1 rfl

end Portalocker.Redis
