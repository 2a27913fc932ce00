import Portalocker.Foundation.Alone
import Portalocker.Foundation.Discipline
set_option autoImplicit false

/-!
# Machines whose clients crash

`M.crashing crash` is the machine `M` in which any client may crash at any moment, in the
middle of a call or between two: the world becomes what `crash` makes of it, and the client
does nothing any more.  Clients that start afresh are clients of their own.

A discipline whose invariant and relies tolerate a crash holds in the runs with crashes as
soon as it holds in those without (`Discipline.Verified.crashing`): nothing has to be said
about the code again.
-/

namespace Interleaving

open Machine

variable {ι : Type} [DecidableEq ι]

namespace Machine

/-- The machine with crashes; the world knows who has crashed. -/
def crashing (M : Machine ι) (crash : ι → M.World → M.World) : Machine ι where
  World := M.World × (ι → Bool)
  Op := M.Op
  Res := M.Res
  Call := M.Call
  Choice := M.Choice
  Event := M.Event ⊕ ι
  perform choice p c w o :=
    if w.2 p then none else (M.perform choice p c w.1 o).map fun rw => (rw.1, (rw.2, w.2))
  event
    | .inl e, w => (M.event e w.1).map fun w' => (w', w.2)
    | .inr p, w => if w.2 p then none else some (crash p w.1, Function.update w.2 p true)
  body := M.body

section Steps

variable {M : Machine ι} {crash : ι → M.World → M.World} {choice : M.Choice} {p : ι} {c : M.Call}
  {o : M.Op} {r : M.Res o} {W W' : M.World × (ι → Bool)}

/-- Only a client that has not crashed performs operations. -/
theorem perform_crashing (h : (M.crashing crash).perform choice p c W o = some (r, W')) :
    W.2 p = false ∧ M.perform choice p c W.1 o = some (r, W'.1) ∧ W'.2 = W.2 := by
  simp only [crashing, Option.ite_none_left_eq_some, Option.map_eq_some_iff, Prod.mk.injEq] at h
  obtain ⟨hp, ⟨r', w'⟩, hperform, rfl, rfl⟩ := h
  exact ⟨Bool.eq_false_iff.2 hp, hperform, rfl⟩

/-- An event of the machine, or the crash of a client. -/
theorem event_crashing {e : M.Event ⊕ ι} (h : (M.crashing crash).event e W = some W') :
    (∃ e', e = .inl e' ∧ M.event e' W.1 = some W'.1 ∧ W'.2 = W.2) ∨
      ∃ q, e = .inr q ∧ W'.1 = crash q W.1 ∧ W'.2 = Function.update W.2 q true := by
  cases e with
  | inl e =>
      obtain ⟨w', he, rfl⟩ := Option.map_eq_some_iff.1 h
      exact Or.inl ⟨e, rfl, he, rfl⟩
  | inr q =>
      simp only [crashing, Option.ite_none_left_eq_some, Option.some.injEq] at h
      obtain ⟨-, rfl⟩ := h
      exact Or.inr ⟨q, rfl, rfl, rfl⟩

end Steps

/-- Every event is the client's whose crash it is; the others are nobody's. -/
def crashOf {M : Machine ι} {crash : ι → M.World → M.World} : (M.crashing crash).Event → Option ι
  | .inl _ => none
  | .inr p => some p

/-- What the guard allows, whoever has crashed. -/
def Guard.crashing {M : Machine ι} (g : Guard M) (crash : ι → M.World → M.World) :
    Guard (M.crashing crash) where
  call := fun p c W => g.call p c W.1
  op := fun p c o W => g.op p c o W.1

end Machine

namespace Discipline

variable {M : Machine ι} {g : Guard M}

/-- A crash keeps the invariant and what the others rely on. -/
structure Survives (D : Discipline M g) (crash : ι → M.World → M.World) : Prop where
  inv : ∀ {p w}, D.inv w → D.inv (crash p w)
  rely : ∀ {p w}, D.inv w → ∀ q, q ≠ p → D.rely q w (crash p w)

variable {D : Discipline M g} {crash : ι → M.World → M.World}

/-- What is left of a discipline for a client that has crashed: nothing. -/
def crashing (D : Discipline M g) (hD : D.Survives crash) :
    Discipline (M.crashing crash) (g.crashing crash) where
  inv W := D.inv W.1
  rely p W W' := W'.2 p = true ∨ (W.2 p = false ∧ W'.2 p = false ∧ D.rely p W.1 W'.1)
  pre p c W o := W.2 p = true ∨ D.pre p c W.1 o
  idle p W := W.2 p = true ∨ D.idle p W.1
  rely_refl p W := by
    cases h : W.2 p with
    | true => exact Or.inl rfl
    | false => exact Or.inr ⟨rfl, rfl, D.rely_refl p W.1⟩
  rely_trans := by
    rintro p W₁ W₂ W₃ h₁ (h₂ | ⟨hlive, hlive', hr⟩)
    · exact Or.inl h₂
    · rcases h₁ with h₁ | ⟨hfirst, -, hr'⟩
      · rw [hlive] at h₁
        cases h₁
      · exact Or.inr ⟨hfirst, hlive', D.rely_trans hr' hr⟩
  inv_perform := by
    intro p c o choice W r W' hW hpre hg h
    obtain ⟨hlive, hperform, -⟩ := perform_crashing h
    have hpermitted := hpre.resolve_left (by simp [hlive])
    exact D.inv_perform hW hpermitted hg hperform
  rely_perform := by
    intro p c o choice W r W' hW hpre hg h q hq
    obtain ⟨hlive, hperform, hsame⟩ := perform_crashing h
    have hpermitted := hpre.resolve_left (by simp [hlive])
    rw [hsame]
    cases hq' : W.2 q with
    | true => exact Or.inl rfl
    | false => exact Or.inr ⟨rfl, rfl, D.rely_perform hW hpermitted hg hperform q hq⟩
  inv_event := by
    intro e W W' hW h
    rcases event_crashing h with ⟨e', -, he, -⟩ | ⟨q, -, heq, -⟩
    · exact D.inv_event hW he
    · rw [heq]
      exact hD.inv hW
  rely_event := by
    intro e W W' hW h q
    rcases event_crashing h with ⟨e', -, he, hsame⟩ | ⟨p, -, heq, hcrashed⟩
    · rw [hsame]
      cases hq : W.2 q with
      | true => exact Or.inl rfl
      | false => exact Or.inr ⟨rfl, rfl, D.rely_event hW he q⟩
    · rw [heq, hcrashed]
      by_cases hqp : q = p
      · exact Or.inl (by rw [hqp, Function.update_self])
      · rw [Function.update_of_ne hqp]
        cases hq : W.2 q with
        | true => exact Or.inl rfl
        | false => exact Or.inr ⟨rfl, rfl, hD.rely hW q hqp⟩
  idle_stable := by
    rintro p W W' hW hW' (hr | ⟨hlive, -, hr⟩) hidle
    · exact Or.inl hr
    · exact Or.inr (D.idle_stable hW hW' hr (hidle.resolve_left (by simp [hlive])))

section Safe

variable {hD : D.Survives crash} {p : ι} {c : M.Call} {α : Type}

/-- A client that has crashed does no harm. -/
theorem safe_of_crashed {prog : Program M.Op M.Res α} {Q : α → M.World × (ι → Bool) → Prop}
    (hQ : ∀ a W, W.2 p = true → Q a W) {W : M.World × (ι → Bool)} (hW : W.2 p = true) :
    ((D.crashing hD).context p c).Safe prog Q W := by
  have hstays : ∀ {W' : M.World × (ι → Bool)}, ((D.crashing hD).context p c).rely W W' →
      W'.2 p = true := by
    rintro W' (h | ⟨hlive, -⟩)
    · exact h
    · rw [hlive] at hW
      cases hW
  cases prog with
  | ret a => exact fun W' _ hr => hQ a W' (hstays hr)
  | op o k =>
      refine fun W' _ hr => ⟨Or.inl (hstays hr), ?_⟩
      rintro r W'' ⟨-, choice, h⟩
      have hlive := (perform_crashing h).1
      rw [hstays hr] at hlive
      cases hlive

/-- A safe program stays so when anybody may crash, the client included. -/
theorem Safe.crashing {prog : Program M.Op M.Res α} {Q : α → M.World → Prop} {w : M.World}
    (h : (D.context p c).Safe prog Q w) (crashed : ι → Bool) :
    ((D.crashing hD).context p c).Safe prog (fun a W => W.2 p = true ∨ Q a W.1) (w, crashed) := by
  induction prog generalizing w crashed with
  | ret a =>
      rintro W' hW' (hcrashed | ⟨-, -, hr⟩)
      · exact Or.inl hcrashed
      · exact Or.inr (h W'.1 hW' hr)
  | op o k ih =>
      rintro W' hW' (hcrashed | ⟨-, hlive, hr⟩)
      · refine ⟨Or.inl hcrashed, ?_⟩
        rintro r W'' ⟨-, choice, hstep⟩
        have hlive := (perform_crashing hstep).1
        rw [hcrashed] at hlive
        cases hlive
      · obtain ⟨hpre, hnext⟩ := h W'.1 hW' hr
        refine ⟨Or.inr hpre, ?_⟩
        rintro r ⟨w'', crashed'⟩ ⟨hg, choice, hstep⟩
        have hperform := (perform_crashing hstep).2.1
        exact ih r (hnext r w'' ⟨hg, choice, hperform⟩) crashed'

end Safe

/-- What is verified without crashes is verified with them. -/
theorem Verified.crashing (hV : D.Verified) (hD : D.Survives crash) :
    (D.crashing hD).Verified := by
  rintro p c ⟨w, crashed⟩ hW hidle hcall
  cases hp : crashed p with
  | true => exact safe_of_crashed (fun _ _ h => Or.inl h) hp
  | false =>
      have hsafe := hV p c w hW (hidle.resolve_left (by simp [hp])) hcall
      exact Safe.crashing hsafe crashed

end Discipline

/-! ## A client left alone by those that have not crashed -/

/-- A client that has not crashed and is left alone goes on as before. -/
abbrev Machine.aloneCrashing (M : Machine ι) (crash : ι → M.World → M.World) (p : ι) (c : M.Call)
    (φ : M.Choice → Prop) (inv : M.World → Prop) (may : M.World → M.Op → Prop)
    (hinv : ∀ w o choice r w', inv w → may w o → φ choice →
      M.perform choice p c w o = some (r, w') → inv w') :=
  (M.crashing crash).alone p c φ (fun W => inv W.1 ∧ W.2 p = false) (fun W o => may W.1 o)
    fun W o choice r W' hW hmay hφ h => by
      obtain ⟨-, hperform, hsame⟩ := perform_crashing h
      exact ⟨hinv W.1 o choice r W'.1 hW.1 hmay hφ hperform, hsame ▸ hW.2⟩

section Alone

variable {M : Machine ι} {p : ι} {c : M.Call} {φ : M.Choice → Prop}
  {inv : M.World → Prop} {may : M.World → M.Op → Prop}
  {hinv : ∀ w o choice r w', inv w → may w o → φ choice →
    M.perform choice p c w o = some (r, w') → inv w'}

/-- What is safe for it without crashes is safe after some. -/
theorem Context.Safe.after_crashes (crash : ι → M.World → M.World) {α : Type} {prog : Program M.Op M.Res α}
    {Q : α → M.World → Prop} {w : M.World} (h : (M.alone p c φ inv may hinv).Safe prog Q w)
    {crashed : ι → Bool} (hlive : crashed p = false) :
    (M.aloneCrashing crash p c φ inv may hinv).Safe prog (fun a W => Q a W.1) (w, crashed) := by
  induction prog generalizing w with
  | ret a =>
      rintro W ⟨hw, -⟩ rfl
      exact h w hw rfl
  | op o k ih =>
      rintro W ⟨hw, -⟩ rfl
      obtain ⟨⟨hmay, choice, ⟨r, w'⟩, hφ, hperform⟩, hnext⟩ := h w hw rfl
      have hpossible : (M.crashing crash).perform choice p c (w, crashed) o =
          some (r, (w', crashed)) := by
        simp [Machine.crashing, hlive, hperform]
      refine ⟨⟨hmay, choice, _, hφ, hpossible⟩, ?_⟩
      rintro r ⟨w'', crashed'⟩ ⟨choice, hφ, hstep⟩
      obtain ⟨-, hperform, hsame⟩ := perform_crashing hstep
      obtain rfl : crashed' = crashed := hsame
      exact ih r (hnext r w'' ⟨choice, hφ, hperform⟩)

end Alone

end Interleaving
