import Portalocker.Foundation.Program
set_option autoImplicit false

/-!
# Rely-guarantee triples for programs

One client is reasoned about alone.  What the others may do between two of its
operations is the relation `rely`; what the client itself owes them is that
every operation it performs has its permission `pre`.  Both are read under a
global invariant that permitted operations keep.

`Safe C m Q w` says that the program `m`, started in `w`, performs permitted
operations only, whatever the others do in between, and ends in `Q`.  A triple
`Hoare C P x Q E` says so of code that may raise: `Q` holds when it ends with a
value and `E` when it ends with an exception.  An assertion is `Stable` when the
others keep it; the triples ask for it where the client has to wait.
-/

namespace Interleaving

/-- What one client may assume of the others and what it owes them. -/
structure Context (World Op : Type) (Res : Op → Type) where
  /-- the global invariant -/
  inv : World → Prop
  /-- what the other clients may do -/
  rely : World → World → Prop
  /-- the permission to perform an operation -/
  pre : World → Op → Prop
  /-- what performing an operation does -/
  step : World → (o : Op) → Res o → World → Prop
  rely_refl : ∀ w, rely w w
  rely_trans : ∀ {w₁ w₂ w₃}, rely w₁ w₂ → rely w₂ w₃ → rely w₁ w₃
  inv_step : ∀ {w o r w'}, inv w → pre w o → step w o r w' → inv w'

namespace Context

variable {World Op : Type} {Res : Op → Type} {α β : Type}
variable (C : Context World Op Res)

/-- The others keep the assertion. -/
class Stable (P : World → Prop) : Prop where
  keep : ∀ {w w'}, C.inv w → C.inv w' → C.rely w w' → P w → P w'

section Stability

variable {C}

instance Stable.const (φ : Prop) : C.Stable (fun _ => φ) := ⟨fun _ _ _ h => h⟩

instance Stable.and {P Q : World → Prop} [hP : C.Stable P] [hQ : C.Stable Q] :
    C.Stable (fun w => P w ∧ Q w) :=
  ⟨fun hi hi' hr h => ⟨hP.keep hi hi' hr h.1, hQ.keep hi hi' hr h.2⟩⟩

instance Stable.or {P Q : World → Prop} [hP : C.Stable P] [hQ : C.Stable Q] :
    C.Stable (fun w => P w ∨ Q w) :=
  ⟨fun hi hi' hr h => h.imp (hP.keep hi hi' hr) (hQ.keep hi hi' hr)⟩

instance Stable.exists {γ : Sort*} {P : γ → World → Prop} [hP : ∀ a, C.Stable (P a)] :
    C.Stable (fun w => ∃ a, P a w) :=
  ⟨fun hi hi' hr h => h.imp fun a => (hP a).keep hi hi' hr⟩

instance Stable.forall {γ : Sort*} {P : γ → World → Prop} [hP : ∀ a, C.Stable (P a)] :
    C.Stable (fun w => ∀ a, P a w) :=
  ⟨fun hi hi' hr h a => (hP a).keep hi hi' hr (h a)⟩

instance Stable.imp {φ : Prop} {P : World → Prop} [hP : C.Stable P] :
    C.Stable (fun w => φ → P w) :=
  ⟨fun hi hi' hr h a => hP.keep hi hi' hr (h a)⟩

end Stability

/-! ## Safe programs -/

/-- From `w` on, whatever the others do, the program performs permitted
operations only and ends in `Q`. -/
def Safe : Program Op Res α → (α → World → Prop) → World → Prop
  | .ret a, Q, w => ∀ w', C.inv w' → C.rely w w' → Q a w'
  | .op o k, Q, w => ∀ w', C.inv w' → C.rely w w' →
      C.pre w' o ∧ ∀ r w'', C.step w' o r w'' → Safe (k r) Q w''

variable {C}

/-- The others keep safety. -/
theorem Safe.rely {m : Program Op Res α} {Q : α → World → Prop} {w w' : World}
    (h : C.Safe m Q w) (hr : C.rely w w') : C.Safe m Q w' := by
  cases m with
  | ret a => exact fun w'' hi hr' => h w'' hi (C.rely_trans hr hr')
  | op o k => exact fun w'' hi hr' => h w'' hi (C.rely_trans hr hr')

theorem Safe.mono {m : Program Op Res α} {Q Q' : α → World → Prop} {w : World}
    (h : C.Safe m Q w) (hQ : ∀ a w, C.inv w → Q a w → Q' a w) : C.Safe m Q' w := by
  induction m generalizing w with
  | ret a => exact fun w' hi hr => hQ a w' hi (h w' hi hr)
  | op o k ih =>
      intro w' hi hr
      exact ⟨(h w' hi hr).1, fun r w'' hs => ih r ((h w' hi hr).2 r w'' hs)⟩

/-- A program followed by another is safe when the second is safe wherever the
first ends. -/
theorem Safe.bind {m : Program Op Res α} {f : α → Program Op Res β}
    {R : α → World → Prop} {Q : β → World → Prop} {w : World} (hw : C.inv w)
    (h : C.Safe m R w) (hf : ∀ a w, C.inv w → R a w → C.Safe (f a) Q w) :
    C.Safe (m.bind f) Q w := by
  induction m generalizing w with
  | ret a => exact hf a w hw (h w hw (C.rely_refl w))
  | op o k ih =>
      intro w' hi hr
      obtain ⟨hpre, hnext⟩ := h w' hi hr
      exact ⟨hpre, fun r w'' hs => ih r (C.inv_step hi hpre hs) (hnext r w'' hs)⟩

end Context

/-! ## Triples for code that may raise -/

section Hoare

variable {World Exc Op : Type} {Val : Op → Type} {α β : Type}
variable {C : Context World Op fun o => Except Exc (Val o)}

/-- An outcome meets the two postconditions. -/
def Ends (Q : α → World → Prop) (E : Exc → World → Prop) : Except Exc α → World → Prop
  | .ok a, w => Q a w
  | .error e, w => E e w

instance Ends.stable {Q : α → World → Prop} {E : Exc → World → Prop}
    [hQ : ∀ a, C.Stable (Q a)] [hE : ∀ e, C.Stable (E e)] (r : Except Exc α) :
    C.Stable (Ends Q E r) := by
  cases r with
  | ok a => exact hQ a
  | error e => exact hE e

/-- From every state of `P` the code performs permitted operations only, ends
with a value in `Q` or with an exception in `E`. -/
def Hoare (C : Context World Op fun o => Except Exc (Val o)) (P : World → Prop)
    (x : Code Exc Op Val α) (Q : α → World → Prop) (E : Exc → World → Prop) : Prop :=
  ∀ w, C.inv w → P w → C.Safe x.run (Ends Q E) w

namespace Hoare

variable {P P' : World → Prop} {Q : α → World → Prop} {E : Exc → World → Prop}

theorem conseq {x : Code Exc Op Val α} {Q' : α → World → Prop} {E' : Exc → World → Prop}
    (h : Hoare C P x Q E) (hP : ∀ w, C.inv w → P' w → P w)
    (hQ : ∀ a w, C.inv w → Q a w → Q' a w) (hE : ∀ e w, C.inv w → E e w → E' e w) :
    Hoare C P' x Q' E' := by
  intro w hw hp
  refine (h w hw (hP w hw hp)).mono ?_
  intro r w' hw' hr
  cases r with
  | ok a => exact hQ a w' hw' hr
  | error e => exact hE e w' hw' hr

/-- Strengthen the precondition. -/
theorem of_pre {x : Code Exc Op Val α} (h : Hoare C P x Q E)
    (hP : ∀ w, C.inv w → P' w → P w) : Hoare C P' x Q E :=
  h.conseq hP (fun _ _ _ h => h) (fun _ _ _ h => h)

/-- Weaken the postcondition of the value. -/
theorem of_post {x : Code Exc Op Val α} {Q' : α → World → Prop} (h : Hoare C P x Q E)
    (hQ : ∀ a w, C.inv w → Q a w → Q' a w) : Hoare C P x Q' E :=
  h.conseq (fun _ _ h => h) hQ (fun _ _ _ h => h)

/-- A fact without a state moves out of the precondition. -/
theorem of_fact {x : Code Exc Op Val α} {φ : Prop} (h : φ → Hoare C P x Q E) :
    Hoare C (fun w => φ ∧ P w) x Q E :=
  fun w hw hp => h hp.1 w hw hp.2

theorem of_const {x : Code Exc Op Val α} {φ : Prop} (h : φ → Hoare C (fun _ => True) x Q E) :
    Hoare C (fun _ => φ) x Q E :=
  fun w hw hp => h hp w hw trivial

theorem of_exists {γ : Sort*} {x : Code Exc Op Val α} {P : γ → World → Prop}
    (h : ∀ a, Hoare C (P a) x Q E) : Hoare C (fun w => ∃ a, P a w) x Q E := by
  rintro w hw ⟨a, hp⟩
  exact h a w hw hp

theorem of_or {x : Code Exc Op Val α} (h : Hoare C P x Q E) (h' : Hoare C P' x Q E) :
    Hoare C (fun w => P w ∨ P' w) x Q E :=
  fun w hw hp => hp.elim (h w hw) (h' w hw)

theorem of_false {x : Code Exc Op Val α} (h : ∀ w, C.inv w → ¬ P w) : Hoare C P x Q E :=
  fun w hw hp => absurd hp (h w hw)

/-! ### The statements -/

theorem pure [hP : C.Stable P] {a : α} (h : ∀ w, C.inv w → P w → Q a w) :
    Hoare C P (Pure.pure a : Code Exc Op Val α) Q E :=
  fun _ hw hp w' hw' hr => h w' hw' (hP.keep hw hw' hr hp)

theorem throw [hP : C.Stable P] {e : Exc} (h : ∀ w, C.inv w → P w → E e w) :
    Hoare C P (MonadExcept.throw e : Code Exc Op Val α) Q E :=
  fun _ hw hp w' hw' hr => h w' hw' (hP.keep hw hw' hr hp)

/-- One operation: it is permitted in every state of `P`, and what it does leads
to the postconditions, which the others keep. -/
theorem call {o : Op} {Q : Val o → World → Prop} [hP : C.Stable P]
    [hQ : ∀ v, C.Stable (Q v)] [hE : ∀ e, C.Stable (E e)]
    (hpre : ∀ w, C.inv w → P w → C.pre w o)
    (hok : ∀ w v w', C.inv w → C.inv w' → P w → C.step w o (.ok v) w' → Q v w')
    (herr : ∀ w e w', C.inv w → C.inv w' → P w → C.step w o (.error e) w' → E e w') :
    Hoare C P (Code.call o) Q E := by
  intro w hw hp w' hw' hr
  have hp' : P w' := hP.keep hw hw' hr hp
  refine ⟨hpre w' hw' hp', ?_⟩
  intro r w₁ hs w₂ hw₂ hr₂
  have hw₁ : C.inv w₁ := C.inv_step hw' (hpre w' hw' hp') hs
  cases r with
  | ok v => exact (hQ v).keep hw₁ hw₂ hr₂ (hok w' v w₁ hw' hw₁ hp' hs)
  | error e => exact (hE e).keep hw₁ hw₂ hr₂ (herr w' e w₁ hw' hw₁ hp' hs)

/-- One operation, whatever its outcome. -/
theorem step {o : Op} {Q : Val o → World → Prop} [C.Stable P]
    [∀ v, C.Stable (Q v)] [∀ e, C.Stable (E e)]
    (hpre : ∀ w, C.inv w → P w → C.pre w o)
    (hstep : ∀ w r w', C.inv w → C.inv w' → P w → C.step w o r w' → Ends Q E r w') :
    Hoare C P (Code.call o) Q E := by
  refine call hpre ?_ ?_
  · exact fun w v w' hw hw' hp hs => hstep w (.ok v) w' hw hw' hp hs
  · exact fun w e w' hw hw' hp hs => hstep w (.error e) w' hw hw' hp hs

theorem bind {x : Code Exc Op Val α} {f : α → Code Exc Op Val β}
    {R : α → World → Prop} {Q : β → World → Prop} [hE : ∀ e, C.Stable (E e)]
    (hx : Hoare C P x R E) (hf : ∀ a, Hoare C (R a) (f a) Q E) :
    Hoare C P (x >>= f) Q E := by
  intro w hw hp
  refine Context.Safe.bind (R := Ends R E) hw (hx w hw hp) ?_
  intro r w₁ hw₁ hr
  cases r with
  | ok a => exact hf a w₁ hw₁ hr
  | error e => exact fun w₂ hw₂ hrel => (hE e).keep hw₁ hw₂ hrel hr

theorem tryCatch {x : Code Exc Op Val α} {handler : Exc → Code Exc Op Val α}
    {F : Exc → World → Prop} [hQ : ∀ a, C.Stable (Q a)]
    (hx : Hoare C P x Q F) (hh : ∀ e, Hoare C (F e) (handler e) Q E) :
    Hoare C P (MonadExcept.tryCatch x handler) Q E := by
  intro w hw hp
  refine Context.Safe.bind (R := Ends Q F) hw (hx w hw hp) ?_
  intro r w₁ hw₁ hr
  cases r with
  | ok a => exact fun w₂ hw₂ hrel => (hQ a).keep hw₁ hw₂ hrel hr
  | error e => exact hh e w₁ hw₁ hr

theorem attempt {x : Code Exc Op Val α} [hQ : ∀ a, C.Stable (Q a)] [hE : ∀ e, C.Stable (E e)]
    {F : Exc → World → Prop} (hx : Hoare C P x Q E) :
    Hoare C P (Code.attempt x) (Ends Q E) F := by
  intro w hw hp
  refine Context.Safe.bind (R := Ends Q E) hw (hx w hw hp) ?_
  intro r w₁ hw₁ hr w₂ hw₂ hrel
  cases r with
  | ok a => exact (hQ a).keep hw₁ hw₂ hrel hr
  | error e => exact (hE e).keep hw₁ hw₂ hrel hr

/-- `try: body finally: cleanup`: the cleanup is proved once after a value and
once after each exception of the body. -/
theorem withFinally {x : Code Exc Op Val α} {y : Code Exc Op Val β}
    {R : α → World → Prop} {F : Exc → World → Prop} {Q : α × β → World → Prop}
    [∀ a, C.Stable (R a)] [∀ e, C.Stable (F e)] [∀ ab, C.Stable (Q ab)]
    [∀ e, C.Stable (E e)]
    (hx : Hoare C P x R F) (hv : ∀ a, Hoare C (R a) y (fun b => Q (a, b)) E)
    (he : ∀ e, Hoare C (F e) y (fun _ => E e) E) :
    Hoare C P (Code.withFinally x y) Q E := by
  refine bind (R := Ends R F) (attempt hx) ?_
  intro outcome
  cases outcome with
  | ok a => exact bind (hv a) fun b => pure fun _ _ h => h
  | error e => exact bind (he e) fun _ => throw fun _ _ h => h

theorem suppress {kind : Exc → Bool} {x : Code Exc Op Val Unit} {Q : World → Prop}
    {F : Exc → World → Prop} [C.Stable Q] [∀ e, C.Stable (F e)]
    (hx : Hoare C P x (fun _ => Q) F)
    (hin : ∀ e w, C.inv w → kind e = true → F e w → Q w)
    (hout : ∀ e w, C.inv w → kind e = false → F e w → E e w) :
    Hoare C P (Code.suppress kind x) (fun _ => Q) E := by
  refine tryCatch hx ?_
  intro e
  cases hk : kind e with
  | true => simpa [hk] using pure (C := C) fun w hw h => hin e w hw hk h
  | false => simpa [hk] using throw (C := C) fun w hw h => hout e w hw hk h

theorem collect {kind : Exc → Bool} {x : Code Exc Op Val Unit} {Q : List Exc → World → Prop}
    {F : Exc → World → Prop} [∀ l, C.Stable (Q l)] [∀ e, C.Stable (E e)]
    [∀ e, C.Stable (F e)] (hx : Hoare C P x (fun _ => Q []) F)
    (hin : ∀ e w, C.inv w → kind e = true → F e w → Q [e] w)
    (hout : ∀ e w, C.inv w → kind e = false → F e w → E e w) :
    Hoare C P (Code.collect kind x) Q E := by
  refine tryCatch (bind hx fun _ => pure fun _ _ h => h) ?_
  intro e
  cases hk : kind e with
  | true => simpa [hk] using pure (C := C) fun w hw h => hin e w hw hk h
  | false => simpa [hk] using throw (C := C) fun w hw h => hout e w hw hk h

theorem onRaise {x : Code Exc Op Val α} {exit : Code Exc Op Val Unit}
    {F : Exc → World → Prop} [∀ a, C.Stable (Q a)] [∀ e, C.Stable (E e)]
    (hx : Hoare C P x Q F) (hexit : ∀ e, Hoare C (F e) exit (fun _ => E e) E) :
    Hoare C P (Code.onRaise x exit) Q E :=
  tryCatch hx fun e => bind (hexit e) fun _ => throw fun _ _ h => h

/-- A call ends with the outcome of its code, which its caller sees. -/
theorem toCall {x : Code Exc Op Val α} {I : World → Prop} (hI : C.Stable I)
    (h : Hoare C P x (fun _ => I) (fun _ => I)) {w : World} (hw : C.inv w) (hp : P w) :
    C.Safe x.toCall (fun _ => I) w := by
  refine Context.Safe.bind (R := Ends (fun _ => I) (fun _ => I)) hw (h w hw hp) ?_
  intro r w₁ hw₁ hr w₂ hw₂ hrel
  cases r with
  | ok a => exact hI.keep hw₁ hw₂ hrel hr
  | error e => exact hI.keep hw₁ hw₂ hrel hr

end Hoare

end Hoare

end Interleaving
