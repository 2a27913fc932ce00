import Portalocker.Foundation.Machine
set_option autoImplicit false

/-!
# Clients that cannot go on

An operation waits as long as the environment cannot perform it, whatever it decides
(`Machine.Waits`).  A client in a reachable state is stuck exactly when the operation it
has come to waits (`stuck_iff`); a client in a call that is not stuck can take a step.
-/

namespace Interleaving

namespace Machine

variable {ι : Type} [DecidableEq ι] {M : Machine ι}

/-- The operation cannot be performed now. -/
def Waits (M : Machine ι) (p : ι) (c : M.Call) (w : M.World) (o : M.Op) : Prop :=
  ∀ choice, M.perform choice p c w o = none

/-- The client is in a call and cannot go on. -/
def Stuck (s : M.State) (p : ι) : Prop := s.thread p ≠ none ∧ ∀ choice, next s (.op p choice) = none

variable {init : M.World → Prop} {g : Guard M} {s : M.State} {p : ι}

omit [DecidableEq ι] in
/-- What is left of a call begins with an operation. -/
theorem settle_eq_some {c c' : M.Call} {prog prog' : Program M.Op M.Res Unit}
    (h : settle c prog = some (c', prog')) : ∃ o k, prog' = .op o k := by
  cases prog with
  | ret u => cases h
  | op o k =>
      obtain ⟨-, rfl⟩ := Prod.mk.inj (Option.some.inj h)
      exact ⟨o, k, rfl⟩

/-- A client in a call has come to an operation. -/
theorem Reach.thread_op (hs : Reach init g s) {c : M.Call} {prog : Program M.Op M.Res Unit}
    (hthread : s.thread p = some (c, prog)) : ∃ o k, prog = .op o k := by
  induction hs generalizing c prog with
  | start hw => cases hthread
  | @step s s' l _ _ hn ih =>
      cases l with
      | call q c₀ =>
          obtain ⟨-, rfl⟩ := next_call hn
          by_cases hq : p = q
          · subst hq
            exact settle_eq_some (by simpa using hthread)
          · exact ih (by simpa [Function.update_of_ne hq] using hthread)
      | op q choice =>
          obtain ⟨c₀, o, k, r, -, -, hthreads⟩ := next_op hn
          rw [hthreads] at hthread
          by_cases hq : p = q
          · subst hq
            exact settle_eq_some (by simpa using hthread)
          · exact ih (by simpa [Function.update_of_ne hq] using hthread)
      | event e =>
          obtain ⟨-, hthreads⟩ := next_event hn
          exact ih (hthreads ▸ hthread)

theorem next_op_eq_none {c : M.Call} {o : M.Op} {k : M.Res o → Program M.Op M.Res Unit}
    {choice : M.Choice} (hthread : s.thread p = some (c, .op o k)) :
    next s (.op p choice) = none ↔ M.perform choice p c s.world o = none := by
  simp only [next, hthread]
  cases M.perform choice p c s.world o with
  | none => exact ⟨fun _ => rfl, fun _ => rfl⟩
  | some rw => exact ⟨(fun h => by cases h), (fun h => by cases h)⟩

/-- A client is stuck when the operation it has come to waits. -/
theorem stuck_iff (hs : Reach init g s) :
    Stuck s p ↔ ∃ c o k, s.thread p = some (c, .op o k) ∧ M.Waits p c s.world o := by
  constructor
  · rintro ⟨hbusy, hnone⟩
    obtain ⟨⟨c, prog⟩, hthread⟩ := Option.ne_none_iff_exists'.1 hbusy
    obtain ⟨o, k, rfl⟩ := hs.thread_op hthread
    exact ⟨c, o, k, hthread, fun choice => (next_op_eq_none hthread).1 (hnone choice)⟩
  · rintro ⟨c, o, k, hthread, hwaits⟩
    exact ⟨by rw [hthread]; exact Option.some_ne_none _,
      fun choice => (next_op_eq_none hthread).2 (hwaits choice)⟩

/-- A client is idle, stuck, or can take a step. -/
theorem idle_or_stuck_or_steps (s : M.State) (p : ι) :
    s.thread p = none ∨ Stuck s p ∨ ∃ choice s', next s (.op p choice) = some s' := by
  by_cases hidle : s.thread p = none
  · exact Or.inl hidle
  by_cases hsteps : ∃ choice s', next s (.op p choice) = some s'
  · exact Or.inr (Or.inr hsteps)
  · refine Or.inr (Or.inl ⟨hidle, fun choice => ?_⟩)
    rw [Option.eq_none_iff_forall_ne_some]
    exact fun s' hs' => hsteps ⟨choice, s', hs'⟩

end Machine

end Interleaving
