import Portalocker.Foundation.Machine
import Portalocker.Foundation.RelyGuarantee
set_option autoImplicit false

/-!
# Code that performs one kind of operations

What every operation of some kind keeps, code that performs operations of that kind
only keeps as well.  The kind of a piece of code is read off its text, once, and then
serves every assertion the kind does not concern.

Where the text does not tell, because a branch is taken for some values only, the
triples do: in the context `anyAnswer kind` an operation is permitted when it is of
the kind and is answered with anything, and code that is safe there is of the kind.
-/

namespace Interleaving

/-- All operations of the program are of this kind. -/
def Program.Within {Op : Type} {Res : Op → Type} {α : Type} (kind : Op → Prop) :
    Program Op Res α → Prop
  | .ret _ => True
  | .op o k => kind o ∧ ∀ r, (k r).Within kind

theorem Program.Within.trivial {Op : Type} {Res : Op → Type} {α : Type}
    (m : Program Op Res α) : m.Within fun _ => True := by
  induction m with
  | ret a => exact True.intro
  | op o k ih => exact ⟨True.intro, ih⟩

theorem Program.Within.bind {Op : Type} {Res : Op → Type} {α β : Type} {kind : Op → Prop}
    {m : Program Op Res α} {f : α → Program Op Res β} (hm : m.Within kind)
    (hf : ∀ a, (f a).Within kind) : (m.bind f).Within kind := by
  induction m with
  | ret a => exact hf a
  | op o k ih => exact ⟨hm.1, fun r => ih r (hm.2 r)⟩

theorem Program.Within.mono {Op : Type} {Res : Op → Type} {α : Type} {kind wider : Op → Prop}
    {m : Program Op Res α} (hm : m.Within kind) (h : ∀ o, kind o → wider o) : m.Within wider := by
  induction m with
  | ret a => exact True.intro
  | op o k ih => exact ⟨h o hm.1, fun r => ih r (hm.2 r)⟩

namespace Code

variable {Exc Op : Type} {Val : Op → Type} {α β σ : Type} {kind : Op → Prop}

/-- All operations of the code are of this kind. -/
def Within (kind : Op → Prop) (x : Code Exc Op Val α) : Prop := Program.Within kind x.run

namespace Within

theorem pure (a : α) : Within kind (Pure.pure a : Code Exc Op Val α) := trivial

theorem mono {x : Code Exc Op Val α} {wider : Op → Prop} (hx : Within kind x)
    (h : ∀ o, kind o → wider o) : Within wider x :=
  Program.Within.mono hx h

theorem throw (e : Exc) : Within kind (MonadExcept.throw e : Code Exc Op Val α) := trivial

theorem call {o : Op} (h : kind o) : Within kind (Code.call o : Code Exc Op Val (Val o)) :=
  ⟨h, fun _ => trivial⟩

theorem bind {x : Code Exc Op Val α} {f : α → Code Exc Op Val β} (hx : Within kind x)
    (hf : ∀ a, Within kind (f a)) : Within kind (x >>= f) :=
  Program.Within.bind hx fun r => by
    cases r with
    | ok a => exact hf a
    | error e => exact trivial

/-- One operation, followed by others. -/
theorem step {o : Op} {f : Val o → Code Exc Op Val β} (h : kind o)
    (hf : ∀ a, Within kind (f a)) : Within kind (Code.call o >>= f) :=
  bind (call h) hf

theorem tryCatch {x : Code Exc Op Val α} {handler : Exc → Code Exc Op Val α}
    (hx : Within kind x) (hh : ∀ e, Within kind (handler e)) :
    Within kind (MonadExcept.tryCatch x handler) :=
  Program.Within.bind hx fun r => by
    cases r with
    | ok a => exact trivial
    | error e => exact hh e

theorem ite {φ : Prop} [Decidable φ] {x y : Code Exc Op Val α} (hx : Within kind x)
    (hy : Within kind y) : Within kind (if φ then x else y) := by
  split
  · exact hx
  · exact hy

theorem attempt {x : Code Exc Op Val α} (hx : Within kind x) : Within kind (Code.attempt x) :=
  Program.Within.bind hx fun _ => trivial

theorem withFinally {x : Code Exc Op Val α} {y : Code Exc Op Val β} (hx : Within kind x)
    (hy : Within kind y) : Within kind (Code.withFinally x y) := by
  refine bind (attempt hx) fun outcome => bind hy fun b => ?_
  cases outcome with
  | ok a => exact pure _
  | error e => exact throw e

theorem suppress {p : Exc → Bool} {x : Code Exc Op Val Unit} (hx : Within kind x) :
    Within kind (Code.suppress p x) :=
  tryCatch hx fun e => ite (pure ()) (throw e)

theorem collect {p : Exc → Bool} {x : Code Exc Op Val Unit} (hx : Within kind x) :
    Within kind (Code.collect p x) :=
  tryCatch (bind hx fun _ => pure []) fun e => ite (pure [e]) (throw e)

theorem onRaise {x : Code Exc Op Val α} {exit : Code Exc Op Val Unit} (hx : Within kind x)
    (hexit : Within kind exit) : Within kind (Code.onRaise x exit) :=
  tryCatch hx fun e => bind hexit fun _ => throw e

theorem toCall {x : Code Exc Op Val α} (hx : Within kind x) : x.toCall.Within kind :=
  Program.Within.bind hx fun _ => trivial

end Within

end Code

/-- What operations of a kind keep, a program of that kind keeps. -/
theorem Context.Safe.of_within {World Op : Type} {Res : Op → Type} {α : Type}
    {C : Context World Op Res} {kind : Op → Prop} {P : World → Prop} [hP : C.Stable P]
    {m : Program Op Res α} (hm : m.Within kind)
    (hop : ∀ w o, C.inv w → P w → kind o → C.pre w o ∧ ∀ r w', C.step w o r w' → P w')
    {w : World} (hw : C.inv w) (hp : P w) : C.Safe m (fun _ => P) w := by
  induction m generalizing w with
  | ret a => exact fun w' hw' hr => hP.keep hw hw' hr hp
  | op o k ih =>
      intro w' hw' hr
      obtain ⟨hpre, hstep⟩ := hop w' o hw' (hP.keep hw hw' hr hp) hm.1
      exact ⟨hpre, fun r w'' hs => ih r (hm.2 r) (C.inv_step hw' hpre hs) (hstep r w'' hs)⟩

/-- What operations of a kind keep, code of that kind keeps. -/
theorem Hoare.within {World Exc Op : Type} {Val : Op → Type} {α : Type}
    {C : Context World Op fun o => Except Exc (Val o)} {kind : Op → Prop} {P : World → Prop}
    [hP : C.Stable P] {x : Code Exc Op Val α} (hx : Code.Within kind x)
    (hop : ∀ w o, C.inv w → P w → kind o → C.pre w o ∧ ∀ r w', C.step w o r w' → P w') :
    Hoare C P x (fun _ => P) fun _ => P := by
  intro w hw hp
  refine (Context.Safe.of_within hx hop hw hp).mono ?_
  intro r w' _ hp'
  cases r with
  | ok a => exact hp'
  | error e => exact hp'

/-- What permitted operations of a kind keep goes along with a safe program of the kind. -/
theorem Context.Safe.keeps {World Op : Type} {Res : Op → Type} {α : Type}
    {C : Context World Op Res} {kind : Op → Prop} {m : Program Op Res α}
    {Q : α → World → Prop} {J : World → Prop} {w : World} [hJ : C.Stable J] (hm : m.Within kind)
    (hop : ∀ {w o r w'}, C.inv w → C.pre w o → kind o → J w → C.step w o r w' → J w')
    (hw : C.inv w) (h : C.Safe m Q w) (hj : J w) : C.Safe m (fun a w => Q a w ∧ J w) w := by
  induction m generalizing w with
  | ret a => exact fun w' hi hr => ⟨h w' hi hr, hJ.keep hw hi hr hj⟩
  | op o k ih =>
      intro w' hi hr
      obtain ⟨hpre, hnext⟩ := h w' hi hr
      have hj' : J w' := hJ.keep hw hi hr hj
      exact ⟨hpre, fun r w'' hs => ih r (hm.2 r) (C.inv_step hi hpre hs) (hnext r w'' hs)
        (hop hi hpre hm.1 hj' hs)⟩

section Keeps

variable {World Exc Op : Type} {Val : Op → Type} {α : Type}
  {C : Context World Op fun o => Except Exc (Val o)} {x : Code Exc Op Val α}
  {P J : World → Prop} {Q : α → World → Prop} {E : Exc → World → Prop} [C.Stable J]

/-- An assertion that permitted operations of the code's kind keep goes along. -/
theorem Hoare.keeps_within {kind : Op → Prop} (hx : Code.Within kind x) (h : Hoare C P x Q E)
    (hop : ∀ {w o r w'}, C.inv w → C.pre w o → kind o → J w → C.step w o r w' → J w') :
    Hoare C (fun w => P w ∧ J w) x (fun a w => Q a w ∧ J w) (fun e w => E e w ∧ J w) := by
  intro w hw hp
  refine (Context.Safe.keeps hx hop hw (h w hw hp.1) hp.2).mono ?_
  rintro r w' - ⟨hends, hj⟩
  cases r with
  | ok a => exact ⟨hends, hj⟩
  | error e => exact ⟨hends, hj⟩

/-- An assertion that every permitted operation keeps goes along. -/
theorem Hoare.keeps (h : Hoare C P x Q E)
    (hop : ∀ {w o r w'}, C.inv w → C.pre w o → J w → C.step w o r w' → J w') :
    Hoare C (fun w => P w ∧ J w) x (fun a w => Q a w ∧ J w) (fun e w => E e w ∧ J w) :=
  h.keeps_within (Program.Within.trivial x.run) fun hi hpre _ hj hs => hop hi hpre hj hs

end Keeps

/-! ## Kinds by triples -/

section AnyAnswer

variable {World Op : Type} {Res : Op → Type} {α : Type} {kind : Op → Prop}

/-- The context in which operations of a kind are answered with anything. -/
def Context.anyAnswer (World : Type) (Res : Op → Type) (kind : Op → Prop) :
    Context World Op Res where
  inv _ := True
  rely _ _ := True
  pre _ o := kind o
  step _ _ _ _ := True
  rely_refl _ := trivial
  rely_trans _ _ := trivial
  inv_step _ _ _ := trivial

/-- A program that is safe there is of the kind. -/
theorem Context.Safe.within {m : Program Op Res α} {Q : α → World → Prop} {w : World}
    (h : (Context.anyAnswer World Res kind).Safe m Q w) : m.Within kind := by
  induction m with
  | ret a => trivial
  | op o k ih =>
      obtain ⟨hpre, hnext⟩ := h w trivial trivial
      exact ⟨hpre, fun r => ih r (hnext r w trivial)⟩

end AnyAnswer

/-- Code that is of the kind is safe there, and ends with anything. -/
theorem Hoare.anyAnswer {World Exc Op : Type} {Val : Op → Type} {α : Type} {kind : Op → Prop}
    {x : Code Exc Op Val α} (hx : Code.Within kind x) :
    Hoare (Context.anyAnswer World (fun o => Except Exc (Val o)) kind) (fun _ => True) x
      (fun _ _ => True) fun _ _ => True :=
  Hoare.within hx fun _ _ _ _ hkind => ⟨hkind, fun _ _ _ => trivial⟩

/-- Code that a triple of that context is about is of the kind. -/
theorem Hoare.within_of_anyAnswer {World Exc Op : Type} [Inhabited World] {Val : Op → Type}
    {α : Type} {kind : Op → Prop} {x : Code Exc Op Val α} {P : World → Prop}
    {Q : α → World → Prop} {E : Exc → World → Prop}
    (h : Hoare (Context.anyAnswer World (fun o => Except Exc (Val o)) kind) P x Q E)
    (hP : P default) : Code.Within kind x :=
  (h default trivial hP).within

/-! ## Kinds of calls -/

section Calls

open Machine

variable {ι : Type} [DecidableEq ι] {M : Machine ι}

/-- What is left of a call is of the kind of the call. -/
theorem Machine.Reach.within {init : M.World → Prop} {g : Guard M}
    {kind : ι → M.Call → M.Op → Prop} (hbody : ∀ p c, (M.body p c).Within (kind p c))
    {s : M.State} (hs : Reach init g s) {p : ι} {c : M.Call} {prog : Program M.Op M.Res Unit}
    (hthread : s.thread p = some (c, prog)) : prog.Within (kind p c) := by
  have hsettle : ∀ {c c' : M.Call} {prog prog'}, prog.Within (kind p c) →
      settle c prog = some (c', prog') → prog'.Within (kind p c') := by
    intro c c' prog prog' hprog hsettled
    cases prog with
    | ret u => cases hsettled
    | op o k =>
        simp only [settle, Option.some.injEq, Prod.mk.injEq] at hsettled
        obtain ⟨rfl, rfl⟩ := hsettled
        exact hprog
  induction hs generalizing c prog with
  | start hw => cases hthread
  | @step s s' l _ _ hn ih =>
      cases l with
      | call q c₀ =>
          obtain ⟨-, rfl⟩ := next_call hn
          by_cases hq : p = q
          · subst hq
            exact hsettle (hbody p c₀) (by simpa using hthread)
          · exact ih (by simpa [Function.update_of_ne hq] using hthread)
      | op q choice =>
          obtain ⟨c₀, o, k, r, hthread₀, -, hthreads⟩ := next_op hn
          rw [hthreads] at hthread
          by_cases hq : p = q
          · subst hq
            exact hsettle ((ih hthread₀).2 r) (by simpa using hthread)
          · exact ih (by simpa [Function.update_of_ne hq] using hthread)
      | event e =>
          obtain ⟨-, hthreads⟩ := next_event hn
          exact ih (hthreads ▸ hthread)

end Calls

end Interleaving
