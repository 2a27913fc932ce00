import Mathlib.Logic.Function.Basic
import Mathlib.Logic.Relation
set_option autoImplicit false

/-!
# Chains of links

A partial function `next` links each value to at most one other.  The chain from a value
ends, or comes back to a value it has passed and goes on for ever; two links that agree
along a chain have the same chain there.
-/

namespace Chains

open Relation

variable {α : Type}

/-- `b` is on the chain from `a`. -/
def Reaches (next : α → Option α) : α → α → Prop := ReflTransGen fun a b => next a = some b

/-- The chain from `a` ends. -/
inductive Ends (next : α → Option α) : α → Prop
  | stop {a : α} (h : next a = none) : Ends next a
  | step {a b : α} (h : next a = some b) (hb : Ends next b) : Ends next a

variable {next next' : α → Option α} {a b c : α}

theorem Reaches.step (h : next a = some b) (hb : Reaches next b c) : Reaches next a c :=
  ReflTransGen.head h hb

/-- The chain goes on as the one from its second value. -/
theorem ends_iff_of_next (h : next a = some b) : Ends next a ↔ Ends next b := by
  constructor
  · intro ha
    cases ha with
    | stop hnone =>
        rw [h] at hnone
        cases hnone
    | step hsome hb =>
        rw [h] at hsome
        obtain rfl := Option.some.inj hsome
        exact hb
  · exact Ends.step h

/-- A chain whose links descend ends. -/
theorem Ends.of_acc {r : α → α → Prop} (hr : ∀ x y, next x = some y → r y x) (h : Acc r a) :
    Ends next a := by
  induction h with
  | intro x _ ih =>
      cases hx : next x with
      | none => exact .stop hx
      | some y => exact .step hx (ih y (hr x y hx))

/-- A chain that comes back to its first value does not end. -/
theorem not_ends_of_cycle (h : TransGen (fun a b => next a = some b) a a) : ¬ Ends next a := by
  intro hends
  induction hends with
  | stop hnone =>
      obtain ⟨b, hb, -⟩ := TransGen.head'_iff.1 h
      rw [hnone] at hb
      cases hb
  | step hsome _ ih =>
      obtain ⟨b, hb, hrest⟩ := TransGen.head'_iff.1 h
      rw [hsome] at hb
      obtain rfl := Option.some.inj hb
      exact ih (TransGen.tail' hrest hsome)

/-- Links that agree along a chain give the same chain. -/
theorem reaches_congr (h : ∀ x, Reaches next a x → next x = next' x) :
    Reaches next a b ↔ Reaches next' a b := by
  constructor
  · intro hb
    induction hb with
    | refl => exact ReflTransGen.refl
    | tail hx hstep ih => exact ih.tail ((h _ hx).symm.trans hstep)
  · intro hb
    induction hb with
    | refl => exact ReflTransGen.refl
    | tail _ hstep ih => exact ReflTransGen.tail ih ((h _ ih).trans hstep)

theorem Ends.congr (hends : Ends next a) (h : ∀ x, Reaches next a x → next x = next' x) :
    Ends next' a := by
  induction hends with
  | stop hnone => exact .stop ((h _ ReflTransGen.refl).symm.trans hnone)
  | step hsome _ ih =>
      exact .step ((h _ ReflTransGen.refl).symm.trans hsome) (ih fun x hx => h x (hx.step hsome))

/-- Links that agree but for some values agree until the chain meets one of these. -/
theorem Reaches.meets {special : α → Prop} (h : ∀ x, ¬ special x → next x = next' x)
    (hb : Reaches next a b) (hspecial : special b) : ∃ x, special x ∧ Reaches next' a x := by
  induction hb using ReflTransGen.head_induction_on with
  | refl => exact ⟨b, hspecial, ReflTransGen.refl⟩
  | @head x y hstep _ ih =>
      by_cases hx : special x
      · exact ⟨x, hx, ReflTransGen.refl⟩
      · obtain ⟨z, hz, hreach⟩ := ih
        exact ⟨z, hz, hreach.step ((h x hx).symm.trans hstep)⟩

/-- The chain from a later value ends when the whole chain does. -/
theorem ends_iff_of_reaches (h : Reaches next a b) : Ends next a ↔ Ends next b := by
  induction h with
  | refl => exact Iff.rfl
  | tail _ hstep ih => exact ih.trans (ends_iff_of_next hstep)

/-- Of two values on a chain one comes first. -/
theorem Reaches.total (hb : Reaches next a b) (hc : Reaches next a c) :
    Reaches next b c ∨ Reaches next c b :=
  ReflTransGen.total_of_right_unique
    (fun _ _ _ hy hz => Option.some.inj (hy.symm.trans hz)) hb hc

/-- Nothing follows a value without a link. -/
theorem Reaches.of_none (h : Reaches next a b) (ha : next a = none) : b = a := by
  rcases ReflTransGen.cases_head h with heq | ⟨x, hx, -⟩
  · exact heq.symm
  · rw [ha] at hx
    cases hx

/-- Every value of a chain comes before its last one. -/
theorem Reaches.last (hb : Reaches next a b) (hc : Reaches next a c) (hlast : next c = none) :
    Reaches next b c := by
  rcases hb.total hc with h | h
  · exact h
  · rw [h.of_none hlast]
    exact ReflTransGen.refl

/-! ## Looking for the last value -/

/-- The last value of a chain, if it is not further than so many links away. -/
def tail (next : α → Option α) : (fuel : Nat) → α → Option α
  | 0, _ => none
  | fuel + 1, a =>
      match next a with
      | none => some a
      | some b => tail next fuel b

theorem tail_spec {fuel : Nat} (h : tail next fuel a = some b) :
    Reaches next a b ∧ next b = none := by
  induction fuel generalizing a with
  | zero => cases h
  | succ fuel ih =>
      simp only [tail] at h
      split at h
      · rename_i hnone
        obtain rfl := Option.some.inj h
        exact ⟨ReflTransGen.refl, hnone⟩
      · rename_i c hc
        obtain ⟨hreach, hlast⟩ := ih h
        exact ⟨hreach.step hc, hlast⟩

/-- The last value of a chain that ends is found. -/
theorem Ends.tail (h : Ends next a) : ∃ b n, ∀ fuel, n ≤ fuel → tail next fuel a = some b := by
  induction h with
  | @stop a hnone =>
      refine ⟨a, 1, fun fuel hfuel => ?_⟩
      obtain ⟨fuel, rfl⟩ := Nat.exists_eq_add_of_le' hfuel
      simp [Chains.tail, hnone]
  | step hsome _ ih =>
      obtain ⟨b, n, hn⟩ := ih
      refine ⟨b, n + 1, fun fuel hfuel => ?_⟩
      obtain ⟨fuel, rfl⟩ := Nat.exists_eq_add_of_le' (Nat.le_trans (Nat.le_add_left 1 n) hfuel)
      simp only [Chains.tail, hsome]
      exact hn fuel (by omega)

/-! ## Changing a link -/

section Link

variable [DecidableEq α] {t x : α}

/-- The links after `a` has been linked to `b`. -/
def link (next : α → Option α) (a b : α) : α → Option α := Function.update next a (some b)

@[simp] theorem link_self : link next a b a = some b := Function.update_self ..

theorem link_of_ne (h : x ≠ a) : link next a b x = next x := Function.update_of_ne h _ _

/-- Up to the value whose link has changed a chain is the same. -/
theorem Reaches.to_link (h : Reaches next c a) : Reaches (link next a b) c a := by
  have hagree : ∀ x, ¬ x = a → next x = link next a b x := fun x hx => (link_of_ne hx).symm
  obtain ⟨x, rfl, hreach⟩ := h.meets hagree rfl
  exact hreach

/-- A chain that does not pass the value is left alone. -/
theorem link_agrees (h : ¬ Reaches next c a) :
    ∀ y, Reaches next c y → next y = link next a b y := by
  intro y hy
  refine (link_of_ne ?_).symm
  rintro rfl
  exact h hy

theorem reaches_link_of_apart (h : ¬ Reaches next c a) :
    Reaches (link next a b) c x ↔ Reaches next c x :=
  (reaches_congr (link_agrees h)).symm

theorem ends_link_of_apart (h : ¬ Reaches next c a) : Ends (link next a b) c ↔ Ends next c := by
  constructor
  · intro hends
    refine hends.congr fun y hy => link_of_ne ?_
    rintro rfl
    exact h ((reaches_link_of_apart h).1 hy)
  · exact fun hends => hends.congr (link_agrees h)

/-- The chain from a value that has been linked to another one. -/
theorem ends_link_iff : Ends (link next a b) a ↔ Ends next b ∧ ¬ Reaches next b a := by
  rw [ends_iff_of_next link_self]
  by_cases hback : Reaches next b a
  · refine iff_of_false (fun hends => ?_) fun h => h.2 hback
    refine not_ends_of_cycle ?_ hends
    exact TransGen.tail' (Reaches.to_link hback) link_self
  · rw [ends_link_of_apart hback]
    exact (and_iff_left hback).symm

theorem reaches_link_iff (h : ¬ Reaches next b a) :
    Reaches (link next a b) a x ↔ x = a ∨ Reaches next b x := by
  constructor
  · intro hreach
    rcases ReflTransGen.cases_head hreach with heq | ⟨y, hy, hrest⟩
    · exact Or.inl heq.symm
    · rw [link_self] at hy
      obtain rfl := Option.some.inj hy
      exact Or.inr ((reaches_link_of_apart h).1 hrest)
  · rintro (rfl | hreach)
    · exact ReflTransGen.refl
    · exact ReflTransGen.head link_self ((reaches_link_of_apart h).2 hreach)

/-- A chain whose last value has been linked to another chain. -/
theorem ends_splice_iff (ht : Reaches next c t) :
    Ends (link next t b) c ↔ Ends next b ∧ ¬ Reaches next b t :=
  (ends_iff_of_reaches (Reaches.to_link ht)).trans ends_link_iff

theorem reaches_splice_iff (ht : Reaches next c t) (hlast : next t = none)
    (h : ¬ Reaches next b t) :
    Reaches (link next t b) c x ↔ Reaches next c x ∨ Reaches next b x := by
  constructor
  · intro hreach
    induction hreach with
    | refl => exact Or.inl ReflTransGen.refl
    | @tail y z _ hstep ih =>
        by_cases hy : y = t
        · subst hy
          rw [link_self] at hstep
          obtain rfl := Option.some.inj hstep
          exact Or.inr ReflTransGen.refl
        · rw [link_of_ne hy] at hstep
          exact ih.imp (fun hc => hc.tail hstep) fun hb => hb.tail hstep
  · rintro (hreach | hreach)
    · induction hreach with
      | refl => exact ReflTransGen.refl
      | @tail y z _ hstep ih =>
          refine ih.tail ((link_of_ne ?_).trans hstep)
          rintro rfl
          rw [hlast] at hstep
          cases hstep
    · have htail : Reaches (link next t b) t x := (reaches_link_iff h).2 (Or.inr hreach)
      exact (Reaches.to_link ht).trans htail

end Link

end Chains
