import Portalocker.Foundation.Discipline
set_option autoImplicit false

/-!
# One call in the middle of a run

What a client's call does depends on what the client has when it makes the call, and
sometimes a single call has to do more than its discipline asks of every call.  A
`CallInvariant` is such a promise: an assertion that holds when the call is made, that
the others keep, and that the operations the call may perform keep as well.  Once the
code of the call is verified under it, it holds at every moment from the call to the
client's next one (`CallInvariant.during`).
-/

namespace Interleaving

open Machine

variable {ι : Type}

namespace Machine

variable [DecidableEq ι] {M : Machine ι}

/-- Client `p` has made the call `c` in `s`, and no other call since. -/
inductive During (g : Guard M) (p : ι) (c : M.Call) (s : M.State) : M.State → Prop
  | call {s' : M.State} (hg : g.Allows s (.call p c)) (hn : next s (.call p c) = some s') :
      During g p c s s'
  | step {s₁ s₂ : M.State} (l : M.Label) (hs : During g p c s s₁) (hl : ∀ c', l ≠ .call p c')
      (hg : g.Allows s₁ l) (hn : next s₁ l = some s₂) : During g p c s s₂

/-- What comes after a call of a reached state is reached. -/
theorem During.reach {init : M.World → Prop} {g : Guard M} {p : ι} {c : M.Call} {s s' : M.State}
    (hs : Reach init g s) (h : During g p c s s') : Reach init g s' := by
  induction h with
  | call hg hn => exact .step _ hs hg hn
  | step l _ _ hg hn ih => exact .step l ih hg hn

/-- A run that begins with a call and has no other call of the client. -/
theorem During.append {g : Guard M} {p : ι} {c : M.Call} {s s₁ s₂ : M.State} {ls : List M.Label}
    (h : During g p c s s₁) (hr : Machine.run ls s₁ = some s₂)
    (hls : ∀ l ∈ ls, (∀ c', l ≠ .call p c') ∧ ∀ t : M.State, g.Allows t l) :
    During g p c s s₂ := by
  induction ls generalizing s₁ with
  | nil =>
      simp only [Machine.run, Option.some.injEq] at hr
      exact hr ▸ h
  | cons l ls ih =>
      simp only [Machine.run, Option.bind_eq_some_iff] at hr
      obtain ⟨mid, hmid, hrest⟩ := hr
      obtain ⟨hl, hg⟩ := hls l (List.mem_cons_self ..)
      exact ih (.step l h hl (hg s₁) hmid) hrest fun l' hl' => hls l' (List.mem_cons_of_mem l hl')

theorem During.run {g : Guard M} {p : ι} {c : M.Call} {s s' : M.State} {ls : List M.Label}
    (hg : g.Allows s (.call p c)) (hr : Machine.run (.call p c :: ls) s = some s')
    (hls : ∀ l ∈ ls, (∀ c', l ≠ .call p c') ∧ ∀ t : M.State, g.Allows t l) :
    During g p c s s' := by
  simp only [Machine.run, Option.bind_eq_some_iff] at hr
  obtain ⟨mid, hmid, hrest⟩ := hr
  exact (During.call hg hmid).append hrest hls

end Machine

/-- What one call of client `p` keeps at every moment, beyond its discipline. -/
structure CallInvariant {M : Machine ι} {g : Guard M} (D : Discipline M g) (p : ι)
    (c : M.Call) where
  holds : M.World → Prop
  /-- the operations the call may perform -/
  may : M.World → M.Op → Prop
  stable : ∀ {w w'}, D.inv w → D.inv w' → D.rely p w w' → holds w → holds w'
  keep : ∀ {w o choice r w'}, D.inv w → holds w → D.pre p c w o → may w o → g.op p c o w →
    M.perform choice p c w o = some (r, w') → holds w'

namespace CallInvariant

variable {M : Machine ι} {g : Guard M} {D : Discipline M g} {p : ι} {c : M.Call}
  (J : CallInvariant D p c)

/-- The context in which the code of that call is verified. -/
def context : Context M.World M.Op M.Res where
  inv w := D.inv w ∧ J.holds w
  rely := D.rely p
  pre w o := D.pre p c w o ∧ J.may w o
  step := (D.context p c).step
  rely_refl := D.rely_refl p
  rely_trans := D.rely_trans
  inv_step := by
    rintro w o r w' ⟨hw, hJ⟩ ⟨hpre, hmay⟩ ⟨hg, choice, h⟩
    exact ⟨D.inv_perform hw hpre hg h, J.keep hw hJ hpre hmay hg h⟩

/-- What holds from the call to the client's next one: the promise, and what is left of
the call is safe. -/
def Runs (Q : M.World → Prop) (s : M.State) : Prop :=
  D.Holds s ∧ J.holds s.world ∧
    ∃ prog, s.thread p = settle c prog ∧ J.context.Safe prog (fun _ => Q) s.world

variable {J} {Q : M.World → Prop} {s s' : M.State}

/-- When the call is over its postcondition holds, until the client's next call. -/
theorem Runs.ended (h : J.Runs Q s) (hthread : s.thread p = none) : Q s.world := by
  obtain ⟨hhold, hJ, prog, hprog, hsafe⟩ := h
  cases prog with
  | ret u => exact hsafe s.world ⟨hhold.1, hJ⟩ (D.rely_refl p s.world)
  | op o k =>
      rw [hthread] at hprog
      cases hprog

/-- The call performs only operations it may perform. -/
theorem Runs.may (h : J.Runs Q s) {c' : M.Call} {o : M.Op}
    {k : M.Res o → Program M.Op M.Res Unit} (hthread : s.thread p = some (c', .op o k)) :
    J.may s.world o := by
  obtain ⟨hhold, hJ, prog, hprog, hsafe⟩ := h
  rw [hthread] at hprog
  cases prog with
  | ret u => cases hprog
  | op o' k' =>
      simp only [settle, Option.some.injEq, Prod.mk.injEq, Program.op.injEq] at hprog
      obtain ⟨-, rfl, -⟩ := hprog
      exact (hsafe s.world ⟨hhold.1, hJ⟩ (D.rely_refl p s.world)).1.2

variable [DecidableEq ι]

/-- One step of the run that is no other call of the client. -/
theorem Runs.next (hD : D.Verified) {l : M.Label} (h : J.Runs Q s) (hl : ∀ c', l ≠ .call p c')
    (hg : g.Allows s l) (hn : Machine.next s l = some s') : J.Runs Q s' := by
  have hhold' : D.Holds s' := h.1.next hD hg hn
  have hrely : ∀ {w : M.World}, s'.world = w → D.rely p s.world w → s'.thread p = s.thread p →
      J.Runs Q s' := by
    rintro w rfl hr hthread
    obtain ⟨hhold, hJ, prog, hprog, hsafe⟩ := h
    exact ⟨hhold', J.stable hhold.1 hhold'.1 hr hJ, prog, hthread.trans hprog, hsafe.rely hr⟩
  cases l with
  | call q c' =>
      obtain ⟨-, rfl⟩ := next_call hn
      have hq : p ≠ q := fun heq => hl c' (heq ▸ rfl)
      exact hrely rfl (D.rely_refl p s.world) (Function.update_of_ne hq _ _)
  | op q choice =>
      obtain ⟨c', o, k, r, hthread, hperform, hthreads⟩ := next_op hn
      have hgo : g.op q c' o s.world := hg c' o k hthread
      have hpre := h.1.permitted hthread
      by_cases hq : p = q
      · subst hq
        have hmay := h.may hthread
        obtain ⟨hhold, hJ, prog, hprog, hsafe⟩ := h
        cases prog with
        | ret u =>
            rw [hthread] at hprog
            cases hprog
        | op o' k' =>
            rw [hthread] at hprog
            simp only [settle, Option.some.injEq, Prod.mk.injEq, Program.op.injEq] at hprog
            obtain ⟨rfl, rfl, hk⟩ := hprog
            obtain rfl := eq_of_heq hk
            refine ⟨hhold', J.keep hhold.1 hJ hpre hmay hgo hperform, k r, by simp [hthreads], ?_⟩
            exact (hsafe s.world ⟨hhold.1, hJ⟩ (D.rely_refl p s.world)).2 r s'.world
              ⟨hgo, choice, hperform⟩
      · refine hrely rfl (D.rely_perform h.1.1 hpre hgo hperform p hq) ?_
        rw [hthreads, Function.update_of_ne hq]
  | event e =>
      obtain ⟨he, hthreads⟩ := next_event hn
      exact hrely rfl (D.rely_event h.1.1 he p) (congrFun hthreads p)

/-- A verified call keeps its promise from the moment it is made. -/
theorem during (hD : D.Verified) (hs : D.Holds s) (hJ : J.holds s.world)
    (hsafe : J.context.Safe (M.body p c) (fun _ => Q) s.world) (h : During g p c s s') :
    J.Runs Q s' := by
  induction h with
  | call hg hn =>
      have hhold' := hs.next hD hg hn
      obtain ⟨-, rfl⟩ := next_call hn
      exact ⟨hhold', hJ, M.body p c, Function.update_self .., hsafe⟩
  | step l _ hl hg hn ih => exact ih.next hD hl hg hn

end CallInvariant

end Interleaving
