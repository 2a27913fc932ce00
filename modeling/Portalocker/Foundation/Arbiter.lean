import Mathlib.Data.Set.Card
import Portalocker.Foundation.Machine
set_option autoImplicit false

/-!
# Arbiters: what a lock is for

An `Arbiter` says which clients may hold something at the same time.  Its histories are
the sequences of grants and revocations during which the holders are always admissible
(`Arbiter.Legal`); mutual exclusion and counting are two arbiters.

A machine refines an arbiter through an observation of its worlds when everything that
can be observed of a run is such a history (`Machine.Refines`), and when a client gets or
loses what it holds by its own transitions only.
-/

namespace Interleaving

variable {ι : Type}

/-- Which clients may hold at the same time. -/
structure Arbiter (ι : Type) where
  admits : Set ι → Prop
  nobody : admits ∅
  fewer : ∀ {H K : Set ι}, K ⊆ H → admits H → admits K

/-- A client begins to hold, or ceases to. -/
inductive Transfer (ι : Type)
  | grant (p : ι)
  | revoke (p : ι)

namespace Arbiter

/-- The histories the arbiter allows, the latest transfer first, and the holders they
leave. -/
inductive Legal (A : Arbiter ι) : List (Transfer ι) → Set ι → Prop
  | nil : Legal A [] ∅
  | grant {history : List (Transfer ι)} {H : Set ι} {p : ι} (h : Legal A history H) (hp : p ∉ H)
      (hadmits : A.admits (insert p H)) : Legal A (.grant p :: history) (insert p H)
  | revoke {history : List (Transfer ι)} {H : Set ι} {p : ι} (h : Legal A history H) (hp : p ∈ H) :
      Legal A (.revoke p :: history) (H \ {p})

section Legal

variable {A : Arbiter ι} {history before after : List (Transfer ι)} {H K : Set ι} {p q : ι}

/-- The holders are admissible at every moment. -/
theorem Legal.admits (h : A.Legal history H) : A.admits H := by
  induction h with
  | nil => exact A.nobody
  | grant _ _ hadmits _ => exact hadmits
  | revoke _ _ ih => exact A.fewer Set.sdiff_subset ih

/-- A history leaves one set of holders. -/
theorem Legal.unique (h : A.Legal history H) (k : A.Legal history K) : H = K := by
  induction h generalizing K with
  | nil =>
      cases k
      rfl
  | grant h _ _ ih =>
      cases k with
      | grant k => rw [ih k]
  | revoke h _ ih =>
      cases k with
      | revoke k => rw [ih k]

/-- What a legal history begins with is legal. -/
theorem Legal.earlier (h : A.Legal (after ++ before) H) : ∃ K, A.Legal before K := by
  induction after generalizing H with
  | nil => exact ⟨H, h⟩
  | cons t after ih =>
      cases h with
      | grant h => exact ih h
      | revoke h => exact ih h

/-- Who holds goes on holding until it is revoked. -/
theorem Legal.keeps (h : A.Legal (after ++ before) H) (hbefore : A.Legal before K) (hp : p ∈ K)
    (hkept : .revoke p ∉ after) : p ∈ H := by
  induction after generalizing H with
  | nil => exact hbefore.unique h ▸ hp
  | cons t after ih =>
      have hrest : .revoke p ∉ after := fun hin => hkept (List.mem_cons_of_mem _ hin)
      cases h with
      | grant h => exact Set.mem_insert_of_mem _ (ih h hrest)
      | @revoke _ _ r h =>
          have hpr : p ≠ r := fun heq => hkept (heq ▸ List.mem_cons_self ..)
          exact ⟨ih h hrest, hpr⟩

/-- Unless it is revoked first, a holder is joined by the next one. -/
theorem Legal.joined (h : A.Legal (after ++ .grant q :: (history ++ .grant p :: before)) H)
    (hkept : .revoke p ∉ history) : p ≠ q ∧ ∃ K, A.admits K ∧ p ∈ K ∧ q ∈ K := by
  obtain ⟨K, hK⟩ := h.earlier
  cases hK with
  | grant hlater hq hadmits =>
      obtain ⟨L, hL⟩ := hlater.earlier
      have hheld : p ∈ L := by
        cases hL
        exact Set.mem_insert p _
      have hp := hlater.keeps hL hheld hkept
      exact ⟨fun heq => hq (heq ▸ hp), _, hadmits, Set.mem_insert_of_mem _ hp,
        Set.mem_insert q _⟩

end Legal

/-! ## Mutual exclusion and counting -/

/-- One client at a time for each resource. -/
def mutex {ρ : Type} (resource : ι → ρ) : Arbiter ι where
  admits H := ∀ p ∈ H, ∀ q ∈ H, resource p = resource q → p = q
  nobody := fun _ hp => hp.elim
  fewer := fun hsub h p hp q hq => h p (hsub hp) q (hsub hq)

/-- No two clients that conflict at a time. -/
def exclusion (conflicts : ι → ι → Prop) : Arbiter ι where
  admits H := ∀ p ∈ H, ∀ q ∈ H, conflicts p q → p = q
  nobody := fun _ hp => hp.elim
  fewer := fun hsub h p hp q hq => h p (hsub hp) q (hsub hq)

/-- No more than `n` clients at a time. -/
def semaphore (n : ℕ) : Arbiter ι where
  admits H := H.encard ≤ n
  nobody := by simp
  fewer := fun hsub h => (Set.encard_le_encard hsub).trans h

/-- Between two grants of one resource the first is revoked. -/
theorem Legal.alternates {ρ : Type} {resource : ι → ρ} {history before after : List (Transfer ι)}
    {H : Set ι} {p q : ι}
    (h : (mutex resource).Legal (after ++ .grant q :: (history ++ .grant p :: before)) H)
    (hsame : resource p = resource q) : .revoke p ∈ history := by
  apply Classical.byContradiction
  intro hkept
  obtain ⟨hne, K, hadmits, hp, hq⟩ := h.joined hkept
  exact hne (hadmits p hp q hq hsame)

/-- Between two grants to clients that conflict the first is revoked. -/
theorem Legal.excludes {conflicts : ι → ι → Prop} {history before after : List (Transfer ι)}
    {H : Set ι} {p q : ι}
    (h : (exclusion conflicts).Legal (after ++ .grant q :: (history ++ .grant p :: before)) H)
    (hpq : conflicts p q) : .revoke p ∈ history := by
  apply Classical.byContradiction
  intro hkept
  obtain ⟨hne, K, hadmits, hp, hq⟩ := h.joined hkept
  exact hne (hadmits p hp q hq hpq)

end Arbiter

/-! ## What can be observed of a machine -/

namespace Machine

variable [DecidableEq ι] {M : Machine ι}

/-- Whose doing a transition is; `who` says so of the events. -/
def Label.client (who : M.Event → Option ι) : M.Label → Option ι
  | .call p _ => some p
  | .op p _ => some p
  | .event e => who e

/-- The transfers of a run, the latest first: a client's holding changes by a transition
of its own. -/
inductive Observed (who : M.Event → Option ι) (holds : M.World → Set ι) (init : M.World → Prop)
    (g : Guard M) : List (Transfer ι) → M.State → Prop
  | start {w : M.World} (h : init w) : Observed who holds init g [] ⟨w, fun _ => none⟩
  | silent {history : List (Transfer ι)} {s s' : M.State} (l : M.Label)
      (h : Observed who holds init g history s) (hg : g.Allows s l) (hn : next s l = some s')
      (hsame : holds s'.world = holds s.world) : Observed who holds init g history s'
  | grant {history : List (Transfer ι)} {s s' : M.State} {p : ι} (l : M.Label)
      (h : Observed who holds init g history s) (hg : g.Allows s l) (hn : next s l = some s')
      (hown : l.client who = some p) (hp : p ∉ holds s.world)
      (hmore : holds s'.world = insert p (holds s.world)) :
      Observed who holds init g (.grant p :: history) s'
  | revoke {history : List (Transfer ι)} {s s' : M.State} {p : ι} (l : M.Label)
      (h : Observed who holds init g history s) (hg : g.Allows s l) (hn : next s l = some s')
      (hown : l.client who = some p) (hp : p ∈ holds s.world)
      (hless : holds s'.world = holds s.world \ {p}) :
      Observed who holds init g (.revoke p :: history) s'

/-- What can be observed of the runs are histories of the arbiter. -/
structure Refines (A : Arbiter ι) (who : M.Event → Option ι) (holds : M.World → Set ι)
    (init : M.World → Prop) (g : Guard M) : Prop where
  start : ∀ w, init w → holds w = ∅
  admits : ∀ {s : M.State}, Reach init g s → A.admits (holds s.world)
  own : ∀ {s s' : M.State} {l : M.Label}, Reach init g s → g.Allows s l → next s l = some s' →
    ∀ q, l.client who ≠ some q → (q ∈ holds s'.world ↔ q ∈ holds s.world)

section Refines

variable {A : Arbiter ι} {who : M.Event → Option ι} {holds : M.World → Set ι}
  {init : M.World → Prop} {g : Guard M} {s : M.State} {history : List (Transfer ι)}

/-- An observed run is a run. -/
theorem Observed.reach (h : Observed who holds init g history s) : Reach init g s := by
  induction h with
  | start hw => exact .start hw
  | silent l _ hg hn _ ih => exact .step l ih hg hn
  | grant l _ hg hn _ _ _ ih => exact .step l ih hg hn
  | revoke l _ hg hn _ _ _ ih => exact .step l ih hg hn

/-- Every run can be observed. -/
theorem Refines.observed (hA : Refines A who holds init g) (hs : Reach init g s) :
    ∃ history, Observed who holds init g history s := by
  classical
  induction hs with
  | start hw => exact ⟨[], .start hw⟩
  | @step s s' l hs hg hn ih =>
      obtain ⟨history, hobserved⟩ := ih
      have hown := hA.own hs hg hn
      by_cases hsame : holds s'.world = holds s.world
      · exact ⟨history, .silent l hobserved hg hn hsame⟩
      -- somebody's holding has changed, so the transition is that client's
      obtain ⟨p, hp⟩ : ∃ p, ¬ (p ∈ holds s'.world ↔ p ∈ holds s.world) := by
        apply Classical.byContradiction
        intro hall
        exact hsame (Set.ext fun p => Classical.byContradiction fun hp => hall ⟨p, hp⟩)
      have hclient : l.client who = some p :=
        Classical.byContradiction fun hne => hp (hown p hne)
      have hothers : ∀ q, q ≠ p → (q ∈ holds s'.world ↔ q ∈ holds s.world) := fun q hq =>
        hown q fun heq => hq (Option.some.inj (heq.symm.trans hclient))
      by_cases hbefore : p ∈ holds s.world
      · have hafter : p ∉ holds s'.world := fun h => hp ⟨fun _ => hbefore, fun _ => h⟩
        refine ⟨_, .revoke l hobserved hg hn hclient hbefore (Set.ext fun q => ?_)⟩
        by_cases hq : q = p
        · subst hq
          simp [hafter]
        · simp [hq, hothers q hq]
      · have hafter : p ∈ holds s'.world :=
          Classical.byContradiction fun h => hp ⟨fun h' => absurd h' h, fun h' => absurd h' hbefore⟩
        refine ⟨_, .grant l hobserved hg hn hclient hbefore (Set.ext fun q => ?_)⟩
        by_cases hq : q = p
        · subst hq
          simp [hafter]
        · simp [hq, hothers q hq]

/-- Whatever is observed is a history of the arbiter. -/
theorem Refines.legal (hA : Refines A who holds init g)
    (h : Observed who holds init g history s) : A.Legal history (holds s.world) := by
  induction h with
  | start hw =>
      rw [hA.start _ hw]
      exact .nil
  | silent l _ _ _ hsame ih =>
      rw [hsame]
      exact ih
  | grant l h hg hn _ hp hmore ih =>
      have hadmits := hA.admits (Reach.step l h.reach hg hn)
      rw [hmore] at hadmits ⊢
      exact .grant ih hp hadmits
  | revoke l _ _ _ _ hp hless ih =>
      rw [hless]
      exact .revoke ih hp

end Refines

end Machine

end Interleaving
