import Portalocker.Foundation.Executions
import Portalocker.Foundation.Kinds
import Portalocker.Redis.Holder
import Portalocker.Redis.Lock
set_option autoImplicit false

/-!
# What several waiting writers decide

Each waiting writer decides from a list of holders of its own.  Two writers that
both see both of them waiting are not both elected, whatever else their lists
contain; and writers that see the same list in different orders elect exactly one,
the one with the smallest id, who takes the lock unless a reader is there.
-/

namespace Portalocker.Redis

open Interleaving

/-- The list shows the lock waiting. -/
def RedisLock.WaitsIn (self : RedisLock) (holders : List RedisLockHolder) : Prop :=
  ∃ holder ∈ holders, holder.mode = .pending ∧ holder.holderId = self.holderId

/-- The pending records of the list are those of these writers. -/
def ExactlyWaiting (writers : List RedisLock) (holders : List RedisLockHolder) : Prop :=
  ∀ id, (∃ holder ∈ holders, holder.mode = .pending ∧ holder.holderId = id) ↔
    ∃ writer ∈ writers, writer.holderId = id

namespace RedisLock

variable {self : RedisLock} {holders : List RedisLockHolder}

/-! ## The election -/

theorem mem_pendingHolderIds {id : Text} : id ∈ pendingHolderIds holders ↔
    ∃ holder ∈ holders, holder.mode = .pending ∧ holder.holderId = id := by
  simp only [pendingHolderIds, List.mem_insertionSort, List.mem_map, List.mem_filter,
    decide_eq_true_eq, and_assoc]

/-- The first of the sorted ids is the least of them. -/
theorem head_pendingHolderIds {id : Text} : (pendingHolderIds holders).head? = some id ↔
    id ∈ pendingHolderIds holders ∧ ∀ other ∈ pendingHolderIds holders, id ≤ other := by
  have hsorted : (pendingHolderIds holders).Pairwise (· ≤ ·) := List.pairwise_insertionSort (· ≤ ·) _
  cases hids : pendingHolderIds holders with
  | nil => simp
  | cons first rest =>
      rw [hids] at hsorted
      have hleast : ∀ other ∈ first :: rest, first ≤ other := by
        intro other hmem
        rcases List.mem_cons.1 hmem with rfl | hrest
        · exact le_refl _
        · exact List.rel_of_pairwise_cons hsorted hrest
      rw [List.head?_cons, Option.some.injEq]
      constructor
      · rintro rfl
        exact ⟨List.mem_cons_self .., hleast⟩
      · rintro ⟨hmem, hid⟩
        exact le_antisymm (hleast id hmem) (hid first (List.mem_cons_self ..))

/-- A writer is elected when it waits, no owner is there, and no other waiting writer
has a smaller id. -/
theorem writerIsElected_iff : self.writerIsElected holders = true ↔
    (∀ holder ∈ holders, holder.mode ≠ .exclusive) ∧ self.WaitsIn holders ∧
      ∀ holder ∈ holders, holder.mode = .pending → self.holderId ≤ holder.holderId := by
  have hany : holders.any (·.mode = .exclusive) = true ↔
      ∃ holder ∈ holders, holder.mode = .exclusive := by
    simp [List.any_eq_true]
  unfold writerIsElected
  split
  · rename_i howner
    obtain ⟨owner, hmem, hmode⟩ := hany.1 howner
    exact iff_of_false (by simp) fun h => h.1 owner hmem hmode
  · rename_i howner
    rw [decide_eq_true_eq, head_pendingHolderIds, mem_pendingHolderIds]
    have hfree : ∀ holder ∈ holders, holder.mode ≠ .exclusive := fun holder hmem hmode =>
      howner (hany.2 ⟨holder, hmem, hmode⟩)
    constructor
    · rintro ⟨hwaits, hleast⟩
      exact ⟨hfree, hwaits, fun holder hmem hmode =>
        hleast _ (mem_pendingHolderIds.2 ⟨holder, hmem, hmode, rfl⟩)⟩
    · rintro ⟨-, hwaits, hleast⟩
      refine ⟨hwaits, fun other hother => ?_⟩
      obtain ⟨holder, hmem, hmode, rfl⟩ := mem_pendingHolderIds.1 hother
      exact hleast holder hmem hmode

/-- Two elected writers that each saw the other waiting have one id. -/
theorem elected_unique {first second : RedisLock} {seen others : List RedisLockHolder}
    (hsecond : second.WaitsIn seen) (hfirst : first.WaitsIn others)
    (hseen : first.writerIsElected seen = true) (hothers : second.writerIsElected others = true) :
    first.holderId = second.holderId := by
  obtain ⟨-, -, hleast⟩ := writerIsElected_iff.1 hseen
  obtain ⟨-, -, hleast'⟩ := writerIsElected_iff.1 hothers
  obtain ⟨record, hmem, hmode, hid⟩ := hsecond
  obtain ⟨record', hmem', hmode', hid'⟩ := hfirst
  refine le_antisymm ?_ ?_
  · rw [← hid]
    exact hleast record hmem hmode
  · rw [← hid']
    exact hleast' record' hmem' hmode'

/-- The order of the list does not matter. -/
theorem writerIsElected_perm {others : List RedisLockHolder} (h : others.Perm holders) :
    self.writerIsElected others = self.writerIsElected holders := by
  refine Bool.eq_iff_iff.2 ?_
  rw [writerIsElected_iff, writerIsElected_iff]
  simp only [WaitsIn, h.mem_iff]

/-- Of the writers that a list without owners shows waiting, the one with the smallest
id is elected. -/
theorem exists_elected {writers : List RedisLock} (hne : writers ≠ [])
    (hfree : ∀ holder ∈ holders, holder.mode ≠ .exclusive)
    (hexact : ExactlyWaiting writers holders) :
    ∃ winner ∈ writers, winner.writerIsElected holders = true := by
  have hhead : ∃ id, (pendingHolderIds holders).head? = some id := by
    obtain ⟨writer, hwriter⟩ := List.exists_mem_of_ne_nil writers hne
    have hmem := mem_pendingHolderIds.2 ((hexact _).2 ⟨writer, hwriter, rfl⟩)
    exact ⟨_, List.head?_eq_some_head (List.ne_nil_of_mem hmem)⟩
  obtain ⟨id, hid⟩ := hhead
  obtain ⟨hmem, hleast⟩ := head_pendingHolderIds.1 hid
  obtain ⟨winner, hwinner, rfl⟩ := (hexact id).1 (mem_pendingHolderIds.1 hmem)
  refine ⟨winner, hwinner, writerIsElected_iff.2 ⟨hfree, mem_pendingHolderIds.1 hmem, ?_⟩⟩
  exact fun holder hholder hmode =>
    hleast _ (mem_pendingHolderIds.2 ⟨holder, hholder, hmode, rfl⟩)

end RedisLock

/-! ## The decision -/

/-- The attributes of one lock while it decides: the assignments do what they say, and
a command of its release may answer anything. -/
def decisions : Context Attributes Op fun o => Except Exc (Val o) where
  inv _ := True
  rely a a' := a' = a
  pre _ _ := True
  step
    | a, .won _, r, a' => r = .ok () ∧ a' = a
    | a, o, r, a' =>
        match a.act o with
        | some ra => r = ra.1 ∧ a' = ra.2
        | none => a' = a
  rely_refl _ := rfl
  rely_trans := fun h₁ h₂ => h₂.trans h₁
  inv_step := fun _ _ _ => trivial

instance stable_decisions {P : Attributes → Prop} : decisions.Stable P :=
  ⟨fun _ _ hr h => (show _ = _ from hr) ▸ h⟩

/-- An operation that takes effect. -/
theorem effect_rule {o : Op} {P : Attributes → Prop} {Q : Val o → Attributes → Prop}
    {E : Exc → Attributes → Prop}
    (hstep : ∀ a r a', P a → decisions.step a o r a' → Ends Q E r a') :
    Hoare decisions P (perform o) Q E :=
  Hoare.step (fun _ _ _ => trivial) fun a r a' _ _ hP hs => hstep a r a' hP hs

/-- Nothing is known of what a command answers. -/
theorem anything_rule {α : Type} (x : Py α) (P : Attributes → Prop) :
    Hoare decisions P x (fun _ _ => True) fun _ _ => True :=
  Hoare.of_pre (Hoare.within (Program.Within.trivial x.run) fun _ _ _ _ _ =>
    ⟨trivial, fun _ _ _ => trivial⟩) fun _ _ _ => trivial

namespace RedisLock

variable {self : RedisLock} {holders : List RedisLockHolder}

/-- A writer that is not elected gives its attempt up. -/
theorem backOff_decides (failWhenLocked : Bool) :
    Hoare decisions (fun _ => True) (self.backOff failWhenLocked) (fun held _ => held = false)
      fun _ _ => True := by
  refine Hoare.bind (anything_rule self.release _) fun _ => ?_
  split
  · exact Hoare.throw fun _ _ _ => trivial
  · exact Hoare.pure fun _ _ _ => rfl

/-- An elected writer takes the lock, unless it may not wait for the readers. -/
theorem takeElected_decides (failWhenLocked : Bool) :
    Hoare decisions (fun _ => True) (self.takeElected holders failWhenLocked)
      (fun held a => failWhenLocked = false ∧ (held = true ↔ anyShared holders = false) ∧
        (held = true → a.mode = .exclusive))
      fun _ _ => failWhenLocked = true := by
  refine Hoare.bind (R := fun _ _ => True) (effect_rule fun a r a' _ hs => ?_) fun _ => ?_
  · obtain ⟨rfl, -⟩ : r = .ok () ∧ _ := hs
    exact trivial
  cases failWhenLocked with
  | true =>
      refine Hoare.bind (R := fun _ _ => True) ((anything_rule self.release _).conseq
        (fun _ _ h => h) (fun _ _ _ h => h) fun _ _ _ _ => rfl) fun _ => ?_
      exact Hoare.throw fun _ _ _ => rfl
  | false =>
      cases hshared : anyShared holders with
      | true => exact Hoare.pure fun _ _ _ => ⟨rfl, by simp⟩
      | false =>
          refine Hoare.bind (R := fun _ _ => True) (effect_rule fun a r a' _ hs => ?_) fun _ => ?_
          · obtain ⟨rfl, -⟩ : r = .ok () ∧ _ := hs
            exact trivial
          refine Hoare.bind (R := fun _ a => a.mode = .exclusive)
            (effect_rule fun a r a' _ hs => ?_) fun _ => ?_
          · obtain ⟨rfl, rfl⟩ : r = .ok () ∧ a' = { a with mode := .exclusive } := hs
            exact rfl
          · exact Hoare.pure fun _ _ h => ⟨rfl, by simp, fun _ => h⟩

/-- What a writer does with its list: an elected one takes the lock if no reader is there
and it may wait, another one never does. -/
theorem resolveLockHolders_decides (hwriter : self.flags = EXCLUSIVE) (failWhenLocked : Bool) :
    Hoare decisions (fun _ => True) (self.resolveLockHolders (some holders) failWhenLocked)
      (fun held a => (held = true ↔ self.writerIsElected holders = true ∧
          anyShared holders = false ∧ failWhenLocked = false) ∧
        (held = true → a.mode = .exclusive))
      fun _ _ => ¬ (self.writerIsElected holders = true ∧ failWhenLocked = false) := by
  have hincompatible : self.holdersAreCompatible holders = false := by
    refine Bool.eq_false_iff.2 fun h => ?_
    have hreader := (holdersAreCompatible_spec h).1
    rw [hwriter] at hreader
    exact absurd hreader (by decide)
  simp only [resolveLockHolders, hincompatible, hwriter, Bool.false_eq_true, if_false,
    decide_true, Bool.true_and]
  cases helected : self.writerIsElected holders with
  | true =>
      refine (takeElected_decides failWhenLocked).conseq (fun _ _ h => h) ?_ ?_
      · rintro held a - ⟨rfl, hheld, hmode⟩
        exact ⟨by simp [hheld], hmode⟩
      · rintro e a - rfl
        simp
  | false =>
      refine (backOff_decides failWhenLocked).conseq (fun _ _ h => h) ?_ ?_
      · rintro held a - rfl
        simp
      · simp

end RedisLock

/-! ## Agreement -/

/-- Waiting writers with different ids agree.

Of two of them that both see both waiting, at most one is elected, whatever else each of
them sees.  And if all of them decide from one list, each in an order of its own, whose
pending records are theirs and which shows no owner, then exactly one is elected; it takes
the lock if the list has no reader and it need not fail, and nobody else takes it. -/
theorem waiting_writers_agree :
    (∀ (first second : RedisLock) (seen others : List RedisLockHolder),
      first.holderId ≠ second.holderId → first.WaitsIn seen → second.WaitsIn seen →
      first.WaitsIn others → second.WaitsIn others →
      ¬ (first.writerIsElected seen = true ∧ second.writerIsElected others = true)) ∧
    ∀ (writers : List RedisLock) (holders : List RedisLockHolder)
      (view : RedisLock → List RedisLockHolder), writers ≠ [] →
      (∀ writer ∈ writers, writer.flags = EXCLUSIVE) →
      (writers.map RedisLock.holderId).Nodup → (∀ writer ∈ writers, (view writer).Perm holders) →
      ExactlyWaiting writers holders → (∀ holder ∈ holders, holder.mode ≠ .exclusive) →
      ∃ winner ∈ writers,
        (∀ writer ∈ writers, writer.writerIsElected (view writer) = true ↔ writer = winner) ∧
        ∀ writer ∈ writers, ∀ (failWhenLocked : Bool) (a a' : Attributes)
          (trace : List (Entry Attributes Op fun o => Except Exc (Val o)))
          (outcome : Except Exc Bool),
          decisions.Executes (writer.resolveLockHolders (some (view writer)) failWhenLocked).run
            a trace outcome a' →
          (outcome = .ok true ↔
            writer = winner ∧ RedisLock.anyShared holders = false ∧ failWhenLocked = false) ∧
          (outcome = .ok true → a'.mode = .exclusive) := by
  constructor
  · rintro first second seen others hne - hsecond hfirst - ⟨hseen, hothers⟩
    exact hne (RedisLock.elected_unique hsecond hfirst hseen hothers)
  · intro writers holders view hne hwriters hids hview hexact hfree
    have hsame : ∀ writer ∈ writers,
        writer.writerIsElected (view writer) = writer.writerIsElected holders := fun writer hmem =>
      RedisLock.writerIsElected_perm (hview writer hmem)
    obtain ⟨winner, hwinner, helected⟩ := RedisLock.exists_elected hne hfree hexact
    have hwaits : ∀ writer ∈ writers, writer.WaitsIn holders := fun writer hmem =>
      (hexact _).2 ⟨writer, hmem, rfl⟩
    have hunique : ∀ writer ∈ writers,
        writer.writerIsElected (view writer) = true ↔ writer = winner := by
      intro writer hmem
      rw [hsame writer hmem]
      constructor
      · intro helected'
        have hid := RedisLock.elected_unique (hwaits winner hwinner) (hwaits writer hmem)
          helected' helected
        exact List.inj_on_of_nodup_map hids hmem hwinner hid
      · rintro rfl
        exact helected
    refine ⟨winner, hwinner, hunique, fun writer hmem failWhenLocked a a' trace outcome hrun => ?_⟩
    have hshared : RedisLock.anyShared (view writer) = RedisLock.anyShared holders :=
      (hview writer hmem).any_eq
    obtain ⟨-, hends⟩ := (RedisLock.resolveLockHolders_decides (hwriters writer hmem)
      failWhenLocked).observed [] |>.executes trivial ⟨rfl, trivial⟩ hrun
    rw [hunique writer hmem, hshared] at hends
    cases outcome with
    | ok held =>
        obtain ⟨⟨hheld, hmode⟩, -⟩ := hends
        exact ⟨by rw [Except.ok.injEq]; exact hheld, fun h => hmode (Except.ok.inj h)⟩
    | error e =>
        obtain ⟨hnot, -⟩ := hends
        refine ⟨iff_of_false (by simp) fun h => hnot ⟨h.1, h.2.2⟩, fun h => (by cases h)⟩

/-- Two waiting writers. -/
def waitingPair (first : Bool) : RedisLock where
  channel := ['c']
  holderId := if first then ['a'] else ['b']
  closeConnection := false

/-- Their records, one of them first. -/
def waitingPair.seenBy (first : Bool) : List RedisLockHolder :=
  [⟨(waitingPair first).holderId, .pending, false⟩,
    ⟨(waitingPair !first).holderId, .pending, false⟩]

/-- An operation that only concerns the attributes, computed. -/
def Attributes.assign (_ : Unit) (a : Attributes) :
    (o : Op) → Option (Except Exc (Val o) × Attributes)
  | .won _ => some (.ok (), a)
  | o => a.act o

theorem decisions_of_assign {choice : Unit} {a a' : Attributes} {o : Op}
    {r : Except Exc (Val o)} (h : a.assign choice o = some (r, a')) : decisions.step a o r a' := by
  cases o with
  | won view =>
      simp only [Attributes.assign, Option.some.injEq, Prod.mk.injEq] at h
      exact ⟨h.1.symm, h.2.symm⟩
  | _ =>
      simp only [Attributes.assign] at h
      simp [decisions, h]

/-- The writer with the smaller id takes the lock, and the other, who sees a reader as
well, is not elected. -/
theorem waiting_writers_agree_run :
    (waitingPair false).writerIsElected
        (waitingPair.seenBy false ++ [⟨['r'], .shared, false⟩]) = false ∧
      ∃ a' trace, decisions.Executes ((waitingPair true).resolveLockHolders
          (some (waitingPair.seenBy true)) false).run (waitingPair true).attributes trace
          (.ok true) a' ∧ a'.mode = .exclusive := by
  have hwaits : ∀ first seen, (waitingPair first).WaitsIn (waitingPair.seenBy seen ++
      [⟨['r'], .shared, false⟩]) ∧ (waitingPair first).WaitsIn (waitingPair.seenBy seen) := by
    intro first seen
    refine ⟨⟨⟨(waitingPair first).holderId, .pending, false⟩, ?_, rfl, rfl⟩,
      ⟨⟨(waitingPair first).holderId, .pending, false⟩, ?_, rfl, rfl⟩⟩
    · cases first <;> cases seen <;> simp [waitingPair.seenBy]
    · cases first <;> cases seen <;> simp [waitingPair.seenBy]
  have hboth := waiting_writers_agree.1 (waitingPair true) (waitingPair false)
    (waitingPair.seenBy true) (waitingPair.seenBy false ++ [⟨['r'], .shared, false⟩]) (by decide)
    (hwaits true true).2 (hwaits false true).2 (hwaits true false).1 (hwaits false false).1
  have helected : (waitingPair true).writerIsElected (waitingPair.seenBy true) = true := by decide
  have hexact : ExactlyWaiting [waitingPair true, waitingPair false] (waitingPair.seenBy true) := by
    intro id
    simp [waitingPair.seenBy]
  obtain ⟨winner, -, -, hdecides⟩ := waiting_writers_agree.2
    [waitingPair true, waitingPair false] (waitingPair.seenBy true) (fun _ => waitingPair.seenBy true)
    (by simp) (by simp [waitingPair]) (by decide) (fun _ _ => .refl _) hexact (by decide)
  have hobserve : (Program.play Attributes.assign [(), (), ()] ((waitingPair true).resolveLockHolders
      (some (waitingPair.seenBy true)) false).run (waitingPair true).attributes).map
      (fun r => r.2.1.toOption) = some (some true) := by rfl
  obtain ⟨⟨trace, outcome, a'⟩, hplay, houtcome⟩ := Option.map_eq_some_iff.1 hobserve
  obtain rfl : outcome = .ok true := by
    cases outcome with
    | ok held => exact congrArg Except.ok (Option.some.inj houtcome)
    | error e => cases houtcome
  have hrun := Context.Executes.of_play (C := decisions) decisions_of_assign hplay
  refine ⟨?_, a', trace, hrun, ?_⟩
  · exact Bool.eq_false_iff.2 fun h => hboth ⟨helected, h⟩
  · exact (hdecides (waitingPair true) (by simp) false _ a' trace _ hrun).2 rfl

end Portalocker.Redis
