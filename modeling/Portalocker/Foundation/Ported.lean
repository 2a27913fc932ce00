import Portalocker.Foundation.Crash
set_option autoImplicit false

/-!
# The same world under other code

A `Port` gives a machine other code and other ways to perform its operations, none of
which does what the machine itself could not do.  Then a discipline of the machine is one
of its port, and code that is verified against the machine keeps it there
(`Discipline.Verified.ported`): the triples that are proved about the operations serve both.
-/

namespace Interleaving

open Machine

variable {ι : Type}

/-- Other code, and operations that do nothing new. -/
structure Port (M : Machine ι) where
  Choice : Type
  perform : Choice → ι → M.Call → M.World → (o : M.Op) → Option (M.Res o × M.World)
  body : ι → M.Call → Program M.Op M.Res Unit
  sound : ∀ {choice p c w o rw}, perform choice p c w o = some rw →
    ∃ original, M.perform original p c w o = some rw

namespace Machine

variable {M : Machine ι}

/-- The machine with the code and the operations of the port. -/
def ported (M : Machine ι) (P : Port M) : Machine ι where
  World := M.World
  Op := M.Op
  Res := M.Res
  Call := M.Call
  Choice := P.Choice
  Event := M.Event
  perform := P.perform
  event := M.event
  body := P.body

/-- The same restriction. -/
def Guard.ported (g : Guard M) (P : Port M) : Guard (M.ported P) where
  call := g.call
  op := g.op

end Machine

namespace Discipline

variable {M : Machine ι} {g : Guard M} {P : Port M}

/-- What the clients promise each other, they promise each other there. -/
def ported (D : Discipline M g) (P : Port M) : Discipline (M.ported P) (g.ported P) where
  inv := D.inv
  rely := D.rely
  pre := D.pre
  idle := D.idle
  rely_refl := D.rely_refl
  rely_trans := D.rely_trans
  inv_perform := fun hw hpre hg h =>
    have ⟨_, horiginal⟩ := P.sound h
    D.inv_perform hw hpre hg horiginal
  rely_perform := fun hw hpre hg h =>
    have ⟨_, horiginal⟩ := P.sound h
    D.rely_perform hw hpre hg horiginal
  inv_event := D.inv_event
  rely_event := D.rely_event
  idle_stable := D.idle_stable

variable {D : Discipline M g}

/-- A program that is safe on the machine is safe there. -/
theorem Safe.ported {p : ι} {c : M.Call} {α : Type} {prog : Program M.Op M.Res α}
    {Q : α → M.World → Prop} {w : M.World} (h : (D.context p c).Safe prog Q w) :
    ((D.ported P).context p c).Safe prog Q w := by
  induction prog generalizing w with
  | ret a => exact h
  | op o k ih =>
      intro w' hw' hr
      obtain ⟨hpre, hnext⟩ := h w' hw' hr
      refine ⟨hpre, ?_⟩
      rintro r w'' ⟨hg, choice, hstep⟩
      obtain ⟨original, horiginal⟩ := P.sound hstep
      exact ih r (hnext r w'' ⟨hg, original, horiginal⟩)

/-- The discipline is verified there when the other code is verified on the machine. -/
theorem Verified.ported
    (h : ∀ p c w, D.inv w → D.idle p w → g.call p c w →
      (D.context p c).Safe (P.body p c) (fun _ => D.idle p) w) : (D.ported P).Verified :=
  fun p c w hw hidle hcall => Safe.ported (h p c w hw hidle hcall)

/-- It survives the same crashes. -/
theorem Survives.ported {crash : ι → M.World → M.World} [DecidableEq ι] (h : D.Survives crash) :
    (D.ported P).Survives crash :=
  ⟨h.inv, h.rely⟩

end Discipline

end Interleaving
