import Portalocker.Foundation.Executions
import Portalocker.Foundation.Kinds
set_option autoImplicit false

/-!
# Code that runs alone

The context of code next to which nothing runs: an operation does what the relation
`step` says, every operation is permitted, and between two of them nothing happens.
The triples list the operations (`Context.traced`), so they speak of everything the
code has done.
-/

namespace Interleaving

section World

variable {World Op : Type} {Res : Op → Type}

/-- Nothing happens between two operations. -/
def Context.alone (step : World → (o : Op) → Res o → World → Prop) : Context World Op Res where
  inv _ := True
  rely w w' := w' = w
  pre _ _ := True
  step := step
  rely_refl _ := rfl
  rely_trans := fun h₁ h₂ => h₂.trans h₁
  inv_step := fun _ _ _ => trivial

variable {step : World → (o : Op) → Res o → World → Prop}

instance stable_alone {P : World × List (Entry World Op Res) → Prop} :
    (Context.alone step).traced.Stable P := by
  refine ⟨?_⟩
  rintro ⟨w, log⟩ ⟨w', log'⟩ - - ⟨hr, hlog⟩ h
  obtain rfl : w' = w := hr
  obtain rfl : log' = log := hlog
  exact h

end World

/-! ## Executions, taken apart -/

section Inversion

variable {World Op : Type} {Res : Op → Type} {α β : Type} {C : Context World Op Res}
  {w w' : World} {trace rest : List (Entry World Op Res)}

namespace Context

/-- The others may act after the last operation as well. -/
theorem Executes.passes_end {m : Program Op Res α} {w'' : World} {a : α}
    (h : C.Executes m w trace a w') (hp : C.Passes w' w'') : C.Executes m w trace a w'' := by
  induction h with
  | ret hp' => exact .ret (hp'.trans hp)
  | op hp' hs _ ih => exact .op hp' hs (ih hp)

/-- An execution of one program after another. -/
theorem Executes.of_bind {m : Program Op Res α} {f : α → Program Op Res β} {b : β}
    (h : C.Executes (m.bind f) w trace b w') : ∃ a before after w₁, trace = before ++ after ∧
      C.Executes m w before a w₁ ∧ C.Executes (f a) w₁ after b w' := by
  induction m generalizing w trace with
  | ret a => exact ⟨a, [], trace, w, rfl, .ret (.refl w), h⟩
  | op o k ih =>
      cases h with
      | op hp hs hrest =>
          obtain ⟨a, before, after, w₁, rfl, hm, hf⟩ := ih _ hrest
          exact ⟨a, _ :: before, after, w₁, rfl, .op hp hs hm, hf⟩

/-- The answers decide how far a program runs and what it ends with. -/
theorem Executes.decided {m : Program Op Res α} {w₀ w'' : World} {a b : α}
    (h : C.Executes m w trace a w') (h' : C.Executes m w₀ (trace ++ rest) b w'') :
    rest = [] ∧ a = b := by
  induction h generalizing w₀ with
  | ret hp =>
      cases h' with
      | ret hp' => exact ⟨rfl, rfl⟩
  | op hp hs _ ih =>
      cases h' with
      | op hp' hs' hrest => exact ih hrest

end Context

end Inversion

section Code

variable {World Exc Op : Type} {Val : Op → Type} {α : Type}
variable {step : World → (o : Op) → Except Exc (Val o) → World → Prop}

/-- One operation, performed alone. -/
theorem Hoare.alone {o : Op}
    {P : World × List (Entry World Op fun o => Except Exc (Val o)) → Prop}
    {Q : Val o → World × List (Entry World Op fun o => Except Exc (Val o)) → Prop}
    {E : Exc → World × List (Entry World Op fun o => Except Exc (Val o)) → Prop}
    (h : ∀ w log r w', P (w, log) → step w o r w' →
      Ends Q E r (w', log ++ [⟨w, o, r, w'⟩])) :
    Hoare (Context.alone step).traced P (Code.call o) Q E := by
  refine Hoare.step (fun _ _ _ => trivial) ?_
  rintro ⟨w, log⟩ r ⟨w', log'⟩ - - hP ⟨hs, hlog⟩
  obtain rfl : log' = log ++ [⟨w, o, r, w'⟩] := hlog
  exact h w log r w' hP hs

/-- What a triple proves of every execution that runs alone. -/
theorem Hoare.executes_alone {x : Code Exc Op Val α}
    {P : World × List (Entry World Op fun o => Except Exc (Val o)) → Prop}
    {Q : α → World × List (Entry World Op fun o => Except Exc (Val o)) → Prop}
    {E : Exc → World × List (Entry World Op fun o => Except Exc (Val o)) → Prop}
    (h : Hoare (Context.alone step).traced P x Q E) {w w' : World}
    {trace : List (Entry World Op fun o => Except Exc (Val o))} {outcome : Except Exc α}
    (hP : P (w, [])) (hex : (Context.alone step).Executes x.run w trace outcome w') :
    Ends Q E outcome (w', trace) :=
  (h.executes trivial hP hex).2

/-- An execution of two statements: the first one raises, or the second one follows. -/
theorem Context.Executes.of_seq {C : Context World Op fun o => Except Exc (Val o)} {β : Type}
    {x : Code Exc Op Val α} {f : α → Code Exc Op Val β} {w w' : World}
    {trace : List (Entry World Op fun o => Except Exc (Val o))} {outcome : Except Exc β}
    (h : C.Executes (x >>= f).run w trace outcome w') :
    (∃ e, outcome = .error e ∧ C.Executes x.run w trace (.error e) w') ∨
      ∃ a before after w₁, trace = before ++ after ∧ C.Executes x.run w before (.ok a) w₁ ∧
        C.Executes (f a).run w₁ after outcome w' := by
  obtain ⟨r, before, after, w₁, rfl, hx, hf⟩ := Context.Executes.of_bind (m := x.run) h
  cases r with
  | ok a => exact Or.inr ⟨a, before, after, w₁, rfl, hx, hf⟩
  | error e =>
      cases hf with
      | ret hp => exact Or.inl ⟨e, rfl, by simpa using hx.passes_end hp⟩

/-- One operation, performed alone. -/
theorem Context.Executes.of_call {o : Op} {w w' : World}
    {trace : List (Entry World Op fun o => Except Exc (Val o))} {r : Except Exc (Val o)}
    (h : (Context.alone step).Executes (Code.call o : Code Exc Op Val (Val o)).run w trace r w') :
    step w o r w' ∧ trace = [⟨w, o, r, w'⟩] := by
  cases h with
  | op hp hs hrest =>
      cases hrest with
      | ret hp' =>
          obtain rfl := hp.1
          obtain rfl := hp'.1
          exact ⟨hs, rfl⟩

/-- An operation and what follows its answer. -/
theorem Context.Executes.of_call_seq {o : Op} {f : Val o → Code Exc Op Val α} {w w' : World}
    {trace : List (Entry World Op fun o => Except Exc (Val o))} {outcome : Except Exc α}
    (h : (Context.alone step).Executes (Code.call o >>= f).run w trace outcome w') :
    (∃ e, outcome = .error e ∧ step w o (.error e) w' ∧ trace = [⟨w, o, .error e, w'⟩]) ∨
      ∃ a w₁ rest, step w o (.ok a) w₁ ∧ trace = ⟨w, o, .ok a, w₁⟩ :: rest ∧
        (Context.alone step).Executes (f a).run w₁ rest outcome w' := by
  rcases h.of_seq with ⟨e, hraises, hcall⟩ | ⟨a, before, after, w₁, rfl, hcall, hrest⟩
  · obtain ⟨hs, htrace⟩ := hcall.of_call
    exact Or.inl ⟨e, hraises, hs, htrace⟩
  · obtain ⟨hs, rfl⟩ := hcall.of_call
    exact Or.inr ⟨a, w₁, after, hs, rfl, hrest⟩

/-- What no operation of the kind changes, code of the kind does not change. -/
theorem Context.Executes.keeps {kind : Op → Prop} {I : World → Prop} {x : Code Exc Op Val α}
    (hx : Code.Within kind x)
    (hstep : ∀ {w o r w'}, kind o → I w → step w o r w' → I w') {w w' : World}
    {trace : List (Entry World Op fun o => Except Exc (Val o))} {outcome : Except Exc α}
    (h : (Context.alone step).Executes x.run w trace outcome w') (hI : I w) : I w' := by
  have hprogram : ∀ {β : Type} {m : Program Op (fun o => Except Exc (Val o)) β} {w w' : World}
      {trace : List (Entry World Op fun o => Except Exc (Val o))} {b : β}, m.Within kind →
      (Context.alone step).Executes m w trace b w' → I w → I w' := by
    intro β m w w' trace b hm h hI
    induction h with
    | ret hp =>
        obtain rfl := hp.1
        exact hI
    | op hp hs _ ih =>
        obtain rfl := hp.1
        exact ih (hm.2 _) (hstep hm.1 hI hs)
  exact hprogram hx h hI

end Code

end Interleaving
