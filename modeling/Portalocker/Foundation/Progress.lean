import Portalocker.Foundation.Executions
import Portalocker.Foundation.Kinds
set_option autoImplicit false

/-!
# How long a program can run

A program always ends, since it is a tree, but how many operations it performs depends on
the answers: a loop whose length only the environment knows recurses on one of them.
`AtMost answers m n` says that the program performs at most `n` operations while every
answer is among `answers`; the bound of a piece of code is read off its text, as its kind
is (`Foundation/Kinds.lean`).

`Begins` are the executions that need not have ended: what has been performed so far, and
what is left.
-/

namespace Interleaving

/-! ## Bounds -/

/-- The program performs at most so many operations when it gets these answers. -/
def Program.AtMost {Op : Type} {Res : Op → Type} {α : Type}
    (answers : (o : Op) → Res o → Prop) : Program Op Res α → Nat → Prop
  | .ret _, _ => True
  | .op _ _, 0 => False
  | .op o k, n + 1 => ∀ r, answers o r → (k r).AtMost answers n

section Bounds

variable {Op : Type} {Res : Op → Type} {α β : Type} {answers : (o : Op) → Res o → Prop}

theorem Program.AtMost.mono {m : Program Op Res α} {n j : Nat} (h : m.AtMost answers n)
    (hn : n ≤ j) : m.AtMost answers j := by
  induction m generalizing n j with
  | ret a => trivial
  | op o k ih =>
      cases n with
      | zero => exact h.elim
      | succ n =>
          cases j with
          | zero => omega
          | succ j => exact fun r hr => ih r (h r hr) (by omega)

theorem Program.AtMost.bind {m : Program Op Res α} {f : α → Program Op Res β} {n j : Nat}
    (hm : m.AtMost answers n) (hf : ∀ a, (f a).AtMost answers j) :
    (m.bind f).AtMost answers (n + j) := by
  induction m generalizing n with
  | ret a => exact (hf a).mono (by omega)
  | op o k ih =>
      cases n with
      | zero => exact hm.elim
      | succ n =>
          rw [Nat.succ_add]
          exact fun r hr => ih r (hm r hr)

end Bounds

namespace Code

variable {Exc Op : Type} {Val : Op → Type} {α β : Type}
  {answers : (o : Op) → Except Exc (Val o) → Prop} {n j : Nat}

/-- The code performs at most so many operations. -/
def AtMost (answers : (o : Op) → Except Exc (Val o) → Prop) (x : Code Exc Op Val α) (n : Nat) :
    Prop :=
  Program.AtMost answers x.run n

namespace AtMost

theorem mono {x : Code Exc Op Val α} (h : AtMost answers x n) (hn : n ≤ j) :
    AtMost answers x j :=
  Program.AtMost.mono h hn

theorem pure (a : α) : AtMost answers (Pure.pure a : Code Exc Op Val α) n := trivial

theorem throw (e : Exc) : AtMost answers (MonadExcept.throw e : Code Exc Op Val α) n := trivial

theorem call {o : Op} : AtMost answers (Code.call o : Code Exc Op Val (Val o)) 1 :=
  fun _ _ => trivial

theorem bind {x : Code Exc Op Val α} {f : α → Code Exc Op Val β} (hx : AtMost answers x n)
    (hf : ∀ a, AtMost answers (f a) j) : AtMost answers (x >>= f) (n + j) :=
  Program.AtMost.bind hx fun r => by
    cases r with
    | ok a => exact hf a
    | error e => exact trivial

/-- One operation, and what follows the answers it can get. -/
theorem step {o : Op} {f : Val o → Code Exc Op Val β}
    (hf : ∀ a, answers o (.ok a) → AtMost answers (f a) n) :
    AtMost answers (Code.call o >>= f) (n + 1) := by
  intro r hr
  cases r with
  | ok a => exact hf a hr
  | error e => trivial

theorem tryCatch {x : Code Exc Op Val α} {handler : Exc → Code Exc Op Val α}
    (hx : AtMost answers x n) (hh : ∀ e, AtMost answers (handler e) j) :
    AtMost answers (MonadExcept.tryCatch x handler) (n + j) :=
  Program.AtMost.bind hx fun r => by
    cases r with
    | ok a => exact trivial
    | error e => exact hh e

theorem ite {φ : Prop} [Decidable φ] {x y : Code Exc Op Val α} (hx : AtMost answers x n)
    (hy : AtMost answers y n) : AtMost answers (if φ then x else y) n := by
  split
  · exact hx
  · exact hy

theorem attempt {x : Code Exc Op Val α} (hx : AtMost answers x n) :
    AtMost answers (Code.attempt x) n := by
  have hends : ∀ outcome : Except Exc α, Program.AtMost answers
      (.ret (.ok outcome) : Program Op _ (Except Exc (Except Exc α))) 0 := fun _ => True.intro
  exact Program.AtMost.bind hx hends

theorem withFinally {x : Code Exc Op Val α} {y : Code Exc Op Val β} (hx : AtMost answers x n)
    (hy : AtMost answers y j) : AtMost answers (Code.withFinally x y) (n + j) := by
  refine bind (attempt hx) fun outcome => ?_
  refine mono (bind (j := 0) hy fun b => ?_) (Nat.le_refl j)
  cases outcome with
  | ok a => exact pure _
  | error e => exact throw e

theorem suppress {p : Exc → Bool} {x : Code Exc Op Val Unit} (hx : AtMost answers x n) :
    AtMost answers (Code.suppress p x) n := by
  have hhandler : ∀ e, AtMost answers
      (if p e then Pure.pure () else MonadExcept.throw e : Code Exc Op Val Unit) 0 :=
    fun e => ite (pure ()) (throw e)
  exact tryCatch hx hhandler

theorem collect {p : Exc → Bool} {x : Code Exc Op Val Unit} (hx : AtMost answers x n) :
    AtMost answers (Code.collect p x) n := by
  have hbody : AtMost answers (do x; Pure.pure [] : Code Exc Op Val (List Exc)) (n + 0) :=
    bind hx fun _ => pure []
  have hhandler : ∀ e, AtMost answers
      (if p e then Pure.pure [e] else MonadExcept.throw e : Code Exc Op Val (List Exc)) 0 :=
    fun e => ite (pure [e]) (throw e)
  exact tryCatch hbody hhandler

theorem onRaise {x : Code Exc Op Val α} {exit : Code Exc Op Val Unit} (hx : AtMost answers x n)
    (hexit : AtMost answers exit j) : AtMost answers (Code.onRaise x exit) (n + j) := by
  have hhandler : ∀ e, AtMost answers
      (do exit; MonadExcept.throw e : Code Exc Op Val α) (j + 0) :=
    fun e => bind hexit fun _ => throw e
  exact tryCatch hx hhandler

end AtMost

end Code

/-! ## Executions that go on -/

namespace Context

variable {World Op : Type} {Res : Op → Type} {α : Type} (C : Context World Op Res)

/-- The program can perform these operations, and this is what is left of it then. -/
inductive Begins : Program Op Res α → World → List (Entry World Op Res) → Program Op Res α →
    World → Prop
  | here {m : Program Op Res α} {w w' : World} (hp : C.Passes w w') : Begins m w [] m w'
  | op {o : Op} {k : Res o → Program Op Res α} {w w₁ w₂ w' : World} {r : Res o}
      {trace : List (Entry World Op Res)} {rest : Program Op Res α} (hp : C.Passes w w₁)
      (hs : C.step w₁ o r w₂) (hrest : Begins (k r) w₂ trace rest w') :
      Begins (.op o k) w (⟨w₁, o, r, w₂⟩ :: trace) rest w'

variable {C} {m rest : Program Op Res α} {w w' : World} {trace : List (Entry World Op Res)}

/-- An execution has nothing left. -/
theorem Executes.begins {a : α} (h : C.Executes m w trace a w') :
    C.Begins m w trace (.ret a) w' := by
  induction h with
  | ret hp => exact .here hp
  | op hp hs _ ih => exact .op hp hs ih

/-- What is left of a program of a kind, and what it has performed, are of the kind. -/
theorem Begins.within {kind : Op → Prop} (h : C.Begins m w trace rest w') (hm : m.Within kind) :
    rest.Within kind ∧ ∀ entry ∈ trace, kind entry.op := by
  induction h with
  | here hp => exact ⟨hm, by simp⟩
  | op hp hs _ ih =>
      obtain ⟨hrest, hall⟩ := ih (hm.2 _)
      refine ⟨hrest, fun entry hentry => ?_⟩
      rcases List.mem_cons.1 hentry with rfl | hentry
      · exact hm.1
      · exact hall entry hentry

/-- The operations performed so far are not more than the program can perform. -/
theorem Begins.length_le {answers : (o : Op) → Res o → Prop} {n : Nat}
    (h : C.Begins m w trace rest w') (hm : m.AtMost answers n)
    (hanswers : ∀ entry ∈ trace, answers entry.op entry.answer) : trace.length ≤ n := by
  induction h generalizing n with
  | here hp => exact Nat.zero_le n
  | op hp hs _ ih =>
      cases n with
      | zero => exact hm.elim
      | succ n =>
          have hrest := ih (hm _ (hanswers _ (List.mem_cons_self ..))) fun entry hentry =>
            hanswers entry (List.mem_cons_of_mem _ hentry)
          exact Nat.succ_le_succ hrest

end Context

end Interleaving
