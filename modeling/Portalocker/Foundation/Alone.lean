import Portalocker.Foundation.Machine
import Portalocker.Foundation.RelyGuarantee
set_option autoImplicit false

/-!
# One client running alone

Between two operations of a client that runs alone nothing happens, and each of
its operations is possible.  In this context (`Machine.alone`) a safe program is
one that runs to its end: some sequence of the client's operations completes the
call, and every sequence that completes it ends in the postcondition
(`Context.Safe.completes`).  The same triples serve, with every assertion stable.
-/

namespace Interleaving

variable {ι : Type}

namespace Machine

/-- Client `p` runs alone in its call `c`; the environment decides as `φ` allows,
and `may` is kept as the permission under which `inv` is invariant. -/
def alone (M : Machine ι) (p : ι) (c : M.Call) (φ : M.Choice → Prop) (inv : M.World → Prop)
    (may : M.World → M.Op → Prop)
    (hinv : ∀ w o choice r w', inv w → may w o → φ choice →
      M.perform choice p c w o = some (r, w') → inv w') : Context M.World M.Op M.Res where
  inv := inv
  rely := Eq
  pre w o := may w o ∧ ∃ choice rw, φ choice ∧ M.perform choice p c w o = some rw
  step w o r w' := ∃ choice, φ choice ∧ M.perform choice p c w o = some (r, w')
  rely_refl _ := rfl
  rely_trans := Eq.trans
  inv_step := by
    rintro w o r w' hw ⟨hmay, -⟩ ⟨choice, hφ, hperform⟩
    exact hinv w o choice r w' hw hmay hφ hperform

/-- A list of transitions of client `p` only. -/
def OnlyOps {M : Machine ι} (p : ι) (φ : M.Choice → Prop) (ls : List M.Label) : Prop :=
  ∀ l ∈ ls, ∃ choice, l = .op p choice ∧ φ choice

end Machine

open Machine

section Alone

variable {M : Machine ι} {p : ι} {c : M.Call} {φ : M.Choice → Prop} {inv : M.World → Prop}
  {may : M.World → M.Op → Prop}
  {hinv : ∀ w o choice r w', inv w → may w o → φ choice →
    M.perform choice p c w o = some (r, w') → inv w'}

variable [DecidableEq ι]

/-- Some sequence of the client's operations completes a safe program in its
postcondition. -/
theorem Context.Safe.completes {prog : Program M.Op M.Res Unit} {Q : M.World → Prop} {s : M.State}
    (h : (M.alone p c φ inv may hinv).Safe prog (fun _ => Q) s.world) (hw : inv s.world)
    (hthread : s.thread p = settle c prog) :
    ∃ ls s', OnlyOps p φ ls ∧ Machine.run ls s = some s' ∧ s'.thread p = none ∧ Q s'.world := by
  induction prog generalizing s with
  | ret u => exact ⟨[], s, by simp [OnlyOps], rfl, hthread, h _ hw rfl⟩
  | op o k ih =>
      obtain ⟨⟨hmay, choice, ⟨r, w'⟩, hφ, hperform⟩, hnext⟩ := h _ hw rfl
      have hw' : inv w' := hinv _ _ _ _ _ hw hmay hφ hperform
      have hstep : next s (.op p choice) =
          some ⟨w', Function.update s.thread p (settle c (k r))⟩ := by
        simp [next, hthread, settle, hperform]
      obtain ⟨ls, s', hops, hrun, hdone⟩ := ih r
        (s := ⟨w', Function.update s.thread p (settle c (k r))⟩)
        (hnext r w' ⟨choice, hφ, hperform⟩) hw' (by simp)
      refine ⟨.op p choice :: ls, s', ?_, ?_, hdone⟩
      · intro l hl
        rcases List.mem_cons.1 hl with rfl | hl
        · exact ⟨choice, rfl, hφ⟩
        · exact hops l hl
      · simp [Machine.run, hstep, hrun]

/-- Every sequence of the client's operations that completes a safe program ends
in its postcondition. -/
theorem Context.Safe.ends {prog : Program M.Op M.Res Unit} {Q : M.World → Prop} {s s' : M.State}
    {ls : List M.Label} (h : (M.alone p c φ inv may hinv).Safe prog (fun _ => Q) s.world)
    (hw : inv s.world) (hthread : s.thread p = settle c prog) (hops : OnlyOps p φ ls)
    (hrun : Machine.run ls s = some s') (hdone : s'.thread p = none) : Q s'.world := by
  induction ls generalizing s prog with
  | nil =>
      simp only [Machine.run, Option.some.injEq] at hrun
      subst hrun
      cases prog with
      | ret u => exact h _ hw rfl
      | op o k =>
          rw [hthread] at hdone
          cases hdone
  | cons l ls ih =>
      obtain ⟨choice, rfl, hφ⟩ := hops l (List.mem_cons_self ..)
      simp only [Machine.run, Option.bind_eq_some_iff] at hrun
      obtain ⟨mid, hnext, hrest⟩ := hrun
      obtain ⟨c', o, k, r, hthread', hperform, hthreads⟩ := next_op hnext
      cases prog with
      | ret u =>
          rw [hthread] at hthread'
          cases hthread'
      | op o' k' =>
          rw [hthread] at hthread'
          simp only [settle, Option.some.injEq, Prod.mk.injEq, Program.op.injEq] at hthread'
          obtain ⟨rfl, rfl, hk⟩ := hthread'
          obtain rfl := eq_of_heq hk
          obtain ⟨⟨hmay, -⟩, hsafe⟩ := h _ hw rfl
          exact ih (hsafe r mid.world ⟨choice, hφ, hperform⟩) (hinv _ _ _ _ _ hw hmay hφ hperform)
            (by rw [hthreads]; simp) (fun l hl => hops l (List.mem_cons_of_mem _ hl)) hrest

/-- A call that is left alone can run to its end. -/
theorem Context.Safe.call_completes {Q : M.World → Prop} {s : M.State}
    (h : (M.alone p c φ inv may hinv).Safe (M.body p c) (fun _ => Q) s.world) (hw : inv s.world)
    (hidle : s.thread p = none) :
    ∃ ls s', OnlyOps p φ ls ∧ Machine.run (.call p c :: ls) s = some s' ∧ s'.thread p = none ∧
      Q s'.world := by
  have hcall : next s (.call p c) =
      some ⟨s.world, Function.update s.thread p (settle c (M.body p c))⟩ := by
    simp [next, hidle]
  obtain ⟨ls, s', hops, hrun, hdone⟩ := Context.Safe.completes
    (s := ⟨s.world, Function.update s.thread p (settle c (M.body p c))⟩) h hw
    (Function.update_self ..)
  exact ⟨ls, s', hops, by simpa only [Machine.run, hcall, Option.bind_some] using hrun, hdone⟩

/-- A call that was left alone has ended in its postcondition. -/
theorem Context.Safe.call_ends {Q : M.World → Prop} {s s' : M.State} {ls : List M.Label}
    (h : (M.alone p c φ inv may hinv).Safe (M.body p c) (fun _ => Q) s.world) (hw : inv s.world)
    (hops : OnlyOps p φ ls) (hrun : Machine.run (.call p c :: ls) s = some s')
    (hdone : s'.thread p = none) : Q s'.world := by
  simp only [Machine.run, Option.bind_eq_some_iff] at hrun
  obtain ⟨mid, hcall, hrest⟩ := hrun
  obtain ⟨-, rfl⟩ := next_call hcall
  exact Context.Safe.ends (s := ⟨s.world, Function.update s.thread p (settle c (M.body p c))⟩)
    h hw (Function.update_self ..) hops hrest hdone

end Alone

end Interleaving
