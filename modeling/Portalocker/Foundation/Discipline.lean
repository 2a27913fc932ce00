import Portalocker.Foundation.Machine
import Portalocker.Foundation.RelyGuarantee
set_option autoImplicit false

/-!
# Disciplines: rely-guarantee proofs of a whole machine

A `Discipline` is the contract the clients of a machine keep with each other: a
global invariant, the permission each operation needs, and for every client what
permitted operations of the others leave alone.  Once every call is verified
alone, by a triple from the client's idle assertion to itself, the invariant and
all permissions hold in every state of every interleaving
(`Discipline.Verified.sound`).
-/

namespace Interleaving

open Machine

variable {ι : Type}

/-- What the clients of `M` promise each other in the runs that meet `g`. -/
structure Discipline (M : Machine ι) (g : Guard M) where
  inv : M.World → Prop
  /-- what the others may do while client `p` waits -/
  rely : ι → M.World → M.World → Prop
  /-- the permission of client `p` to perform an operation inside a call -/
  pre : ι → M.Call → M.World → M.Op → Prop
  /-- what client `p` may count on between two of its calls -/
  idle : ι → M.World → Prop
  rely_refl : ∀ p w, rely p w w
  rely_trans : ∀ {p w₁ w₂ w₃}, rely p w₁ w₂ → rely p w₂ w₃ → rely p w₁ w₃
  inv_perform : ∀ {p c o choice w r w'}, inv w → pre p c w o → g.op p c o w →
    M.perform choice p c w o = some (r, w') → inv w'
  rely_perform : ∀ {p c o choice w r w'}, inv w → pre p c w o → g.op p c o w →
    M.perform choice p c w o = some (r, w') → ∀ q, q ≠ p → rely q w w'
  inv_event : ∀ {e w w'}, inv w → M.event e w = some w' → inv w'
  rely_event : ∀ {e w w'}, inv w → M.event e w = some w' → ∀ q, rely q w w'
  idle_stable : ∀ {p w w'}, inv w → inv w' → rely p w w' → idle p w → idle p w'

namespace Discipline

variable {M : Machine ι} {g : Guard M} (D : Discipline M g)

/-- The context in which the code of client `p`'s call `c` is verified. -/
def context (p : ι) (c : M.Call) : Context M.World M.Op M.Res where
  inv := D.inv
  rely := D.rely p
  pre := D.pre p c
  step w o r w' := g.op p c o w ∧ ∃ choice, M.perform choice p c w o = some (r, w')
  rely_refl := D.rely_refl p
  rely_trans := D.rely_trans
  inv_step := by
    rintro w o r w' hw hpre ⟨hg, choice, hperform⟩
    exact D.inv_perform hw hpre hg hperform

instance idle_isStable (p : ι) (c : M.Call) : (D.context p c).Stable (D.idle p) :=
  ⟨fun hw hw' hr h => D.idle_stable hw hw' hr h⟩

/-- Every call keeps the contract when it is started in an idle state. -/
def Verified : Prop :=
  ∀ p c w, D.inv w → D.idle p w → g.call p c w →
    (D.context p c).Safe (M.body p c) (fun _ => D.idle p) w

/-- The promise client `p` is under, by what is left of its call. -/
def Covered (p : ι) (w : M.World) : M.Thread → Prop
  | none => D.idle p w
  | some (c, prog) => (D.context p c).Safe prog (fun _ => D.idle p) w

variable {D}

theorem Covered.rely {p : ι} {w w' : M.World} {t : M.Thread} (hw : D.inv w) (hw' : D.inv w')
    (hr : D.rely p w w') (h : D.Covered p w t) : D.Covered p w' t := by
  cases t with
  | none => exact D.idle_stable hw hw' hr h
  | some t => exact Context.Safe.rely h hr

theorem covered_settle {p : ι} {c : M.Call} {w : M.World} {prog : Program M.Op M.Res Unit}
    (hw : D.inv w) (h : (D.context p c).Safe prog (fun _ => D.idle p) w) :
    D.Covered p w (settle c prog) := by
  cases prog with
  | ret u => exact h w hw (D.rely_refl p w)
  | op o k => exact h

/-- The invariant of the whole state. -/
def Holds (D : Discipline M g) (s : M.State) : Prop :=
  D.inv s.world ∧ ∀ p, D.Covered p s.world (s.thread p)

/-- Every operation a client is about to perform is permitted. -/
theorem Holds.permitted {s : M.State} (h : D.Holds s) {p : ι} {c : M.Call} {o : M.Op}
    {k : M.Res o → Program M.Op M.Res Unit} (hp : s.thread p = some (c, .op o k)) :
    D.pre p c s.world o := by
  have hsafe : (D.context p c).Safe (.op o k) (fun _ => D.idle p) s.world := by
    simpa [hp, Covered] using h.2 p
  exact (hsafe s.world h.1 (D.rely_refl p s.world)).1

/-- A client without a call satisfies its idle assertion. -/
theorem Holds.idle {s : M.State} (h : D.Holds s) {p : ι} (hp : s.thread p = none) :
    D.idle p s.world := by
  simpa [hp, Covered] using h.2 p

/-! ## Soundness -/

variable [DecidableEq ι]

/-- One transition keeps the contract. -/
theorem Holds.next (hD : D.Verified) {s s' : M.State} {l : M.Label} (h : D.Holds s)
    (hg : g.Allows s l) (hn : Machine.next s l = some s') : D.Holds s' := by
  obtain ⟨hw, hall⟩ := h
  cases l with
  | call p c =>
      obtain ⟨hidle, rfl⟩ := next_call hn
      refine ⟨hw, fun q => ?_⟩
      by_cases hq : q = p
      · subst hq
        have hi : D.idle q s.world := by simpa [hidle, Covered] using hall q
        simpa using covered_settle hw (hD q c s.world hw hi hg)
      · simpa [Function.update_of_ne hq] using hall q
  | op p choice =>
      obtain ⟨c, o, k, r, hthread, hperform, hthreads⟩ := next_op hn
      have hgo : g.op p c o s.world := hg c o k hthread
      have hsafe : (D.context p c).Safe (.op o k) (fun _ => D.idle p) s.world := by
        simpa [hthread, Covered] using hall p
      obtain ⟨hpre, hnext⟩ := hsafe s.world hw (D.rely_refl p s.world)
      have hw' : D.inv s'.world := D.inv_perform hw hpre hgo hperform
      refine ⟨hw', fun q => ?_⟩
      rw [hthreads]
      by_cases hq : q = p
      · subst hq
        simpa using covered_settle hw' (hnext r s'.world ⟨hgo, choice, hperform⟩)
      · rw [Function.update_of_ne hq]
        exact (hall q).rely hw hw' (D.rely_perform hw hpre hgo hperform q hq)
  | event e =>
      obtain ⟨he, hthreads⟩ := next_event hn
      have hw' : D.inv s'.world := D.inv_event hw he
      refine ⟨hw', fun q => ?_⟩
      rw [hthreads]
      exact (hall q).rely hw hw' (D.rely_event hw he q)

/-- In every state of every run that meets the guard, the invariant holds and
every client keeps its promise. -/
theorem Verified.sound (hD : D.Verified) {init : M.World → Prop}
    (hinit : ∀ w, init w → D.inv w ∧ ∀ p, D.idle p w) {s : M.State}
    (hs : Reach init g s) : D.Holds s := by
  induction hs with
  | start hw => exact ⟨(hinit _ hw).1, (hinit _ hw).2⟩
  | step l _ hg hn ih => exact ih.next hD hg hn

/-- An invariant that permitted operations keep next to the contract. -/
theorem Verified.keeps (hD : D.Verified) {init : M.World → Prop} {J : M.World → Prop}
    (hinit : ∀ w, init w → (D.inv w ∧ ∀ p, D.idle p w) ∧ J w)
    (hop : ∀ {p c o choice w r w'}, D.inv w → J w → D.pre p c w o → g.op p c o w →
      M.perform choice p c w o = some (r, w') → J w')
    (hevent : ∀ {e w w'}, D.inv w → J w → M.event e w = some w' → J w') {s : M.State}
    (hs : Reach init g s) : J s.world := by
  induction hs with
  | start hw => exact (hinit _ hw).2
  | @step s s' l hs hg hn ih =>
      have hhold := hD.sound (fun w hw => (hinit w hw).1) hs
      cases l with
      | call p c =>
          obtain ⟨-, rfl⟩ := next_call hn
          exact ih
      | op p choice =>
          obtain ⟨c, o, k, r, hthread, hperform, -⟩ := next_op hn
          exact hop hhold.1 ih (hhold.permitted hthread) (hg c o k hthread) hperform
      | event e => exact hevent hhold.1 ih (next_event hn).1

end Discipline

end Interleaving
