import Portalocker.Foundation.Calls
import Portalocker.Foundation.History
import Portalocker.Utils.Operations
import Portalocker.Utils.LockRules
set_option autoImplicit false
set_option linter.unusedSectionVars false

/-!
# Contracts between file locks

A `Contract` is a discipline of the machine of file locks: what a group of
instances keeps invariant beyond well-formedness, and what each owes the others
beyond using only its own files.  A triple about one operation follows from what
the operation does (`perform_rule`).
-/

namespace Portalocker

open Posix Interleaving Interleaving.Machine World

variable {ι : Type} [DecidableEq ι]

/-- A discipline over `World.Wf`, `World.Own` and `World.Undisturbed`. -/
structure Contract (cfg : Config ι) (g : Guard (machine cfg)) where
  inv : World ι → Prop
  rely : ι → World ι → World ι → Prop
  pre : ι → Call → World ι → Op ι → Prop
  idle : ι → World ι → Prop
  rely_refl : ∀ p w, rely p w w
  rely_trans : ∀ {p w₁ w₂ w₃}, Undisturbed p w₁ w₂ → rely p w₁ w₂ → rely p w₂ w₃ → rely p w₁ w₃
  inv_change : ∀ {p c o w w'}, w.Wf → inv w → Own p w o → pre p c w o → g.op p c o w →
    Change cfg p w o w' → inv w'
  rely_change : ∀ {p c o w w'}, w.Wf → inv w → Own p w o → pre p c w o → g.op p c o w →
    Change cfg p w o w' → ∀ q, q ≠ p → rely q w w'
  inv_finalize : ∀ {e w w'}, w.Wf → inv w → Config.finalize e w = some w' → inv w'
  rely_finalize : ∀ {e w w'}, w.Wf → inv w → Config.finalize e w = some w' → ∀ q, rely q w w'
  idle_stable : ∀ {p w w'}, w.Wf → w'.Wf → inv w' → Undisturbed p w w' → rely p w w' →
    idle p w → idle p w'

namespace Contract

variable {cfg : Config ι} {g : Guard (machine cfg)} (K : Contract cfg g)

/-- The discipline of a contract. -/
def toDiscipline : Discipline (machine cfg) g where
  inv w := World.Wf w ∧ K.inv w
  rely p w w' := Undisturbed p w w' ∧ K.rely p w w'
  pre p c w o := Own p w o ∧ K.pre p c w o
  idle := K.idle
  rely_refl p w := ⟨.refl p w, K.rely_refl p w⟩
  rely_trans := fun h₁ h₂ => ⟨h₁.1.trans h₂.1, K.rely_trans h₁.1 h₁.2 h₂.2⟩
  inv_perform := by
    intro p c o choice w r w' hw hpre hg h
    have hc := Config.performOp_change h
    exact ⟨hw.1.change hpre.1 hc, K.inv_change hw.1 hw.2 hpre.1 hpre.2 hg hc⟩
  rely_perform := by
    intro p c o choice w r w' hw hpre hg h q hq
    have hc := Config.performOp_change h
    exact ⟨undisturbed_of_change hw.1 hpre.1 hc hq,
      K.rely_change hw.1 hw.2 hpre.1 hpre.2 hg hc q hq⟩
  inv_event := fun hw he => ⟨hw.1.finalize he, K.inv_finalize hw.1 hw.2 he⟩
  rely_event := fun hw he q => ⟨undisturbed_of_finalize he q, K.rely_finalize hw.1 hw.2 he q⟩
  idle_stable := fun hw hw' hr h => K.idle_stable hw.1 hw'.1 hw'.2 hr.1 hr.2 h

/-- The context of one call under the contract. -/
abbrev ctx (p : ι) (c : Call) :
    Context (World ι) (Op ι) (fun o => Except Exc (Val o)) :=
  K.toDiscipline.context p c

/-- A triple about code of client `p` inside its call `c`. -/
abbrev Triple {α : Type} (p : ι) (c : Call) (P : World ι → Prop) (x : Py ι α)
    (Q : α → World ι → Prop) (E : Exc → World ι → Prop) : Prop :=
  Hoare (K.ctx p c) P x Q E

/-! ## Assertions the others keep -/

section Stable

variable {K} {p : ι} {c : Call}

theorem stable_of {P : World ι → Prop}
    (h : ∀ {w w'}, w.Wf → w'.Wf → K.inv w' → Undisturbed p w w' → K.rely p w w' →
      P w → P w') : (K.ctx p c).Stable P :=
  ⟨fun hw hw' hr hP => h hw.1 hw'.1 hw'.2 hr.1 hr.2 hP⟩

instance stable_idle : (K.ctx p c).Stable (K.idle p) := stable_of K.idle_stable

instance stable_fh (v : Option (Handle ι Path)) : (K.ctx p c).Stable fun w => w.fh p = v :=
  stable_of fun _ _ _ hu _ h => hu.fh.trans h

instance stable_inner (b : Bool) : (K.ctx p c).Stable fun w => w.inner p = b :=
  stable_of fun _ _ _ hu _ h => hu.inner.trans h

instance stable_acquired (b : Bool) : (K.ctx p c).Stable fun w => w.acquired p = b :=
  stable_of fun _ _ _ hu _ h => hu.acquired.trans h

/-- A fact about the file of one of the client's handles, while the handle is not
dropped, survives what the others do. -/
theorem keep_handle {h : Handle ι Path} {P : World ι → Prop} {w w' : World ι}
    (hkeep : Fs.Keeps h w.toFs w'.toFs → P w → P w') (hu : Undisturbed p w w')
    (hs : h.owner = p ∧ w.dropped h = false ∧ P w) :
    h.owner = p ∧ w'.dropped h = false ∧ P w' :=
  have hsame := hu.handle h hs.1 hs.2.1
  ⟨hs.1, hsame.dropped.trans hs.2.1, hkeep hsame.file hs.2.2⟩

/-- The client's handle is open. -/
def Opened (p : ι) (h : Handle ι Path) (w : World ι) : Prop :=
  h.owner = p ∧ w.dropped h = false ∧ h ∈ w.opened

/-- The client's handle has been closed. -/
def Closed (p : ι) (h : Handle ι Path) (w : World ι) : Prop :=
  h.owner = p ∧ w.dropped h = false ∧ h.serial < w.serial p ∧ h ∉ w.opened

/-- The client's handle is locked in this way. -/
def LockIs (p : ι) (h : Handle ι Path) (m : Option LockMode) (w : World ι) : Prop :=
  h.owner = p ∧ w.dropped h = false ∧ w.lock h = m

/-- These bytes wait in the buffer of the client's handle. -/
def BufferIs (p : ι) (h : Handle ι Path) (bytes : List UInt8) (w : World ι) : Prop :=
  h.owner = p ∧ w.dropped h = false ∧ w.buffer h = bytes

theorem Opened.keep {h : Handle ι Path} {w w' : World ι} (hs : Opened p h w)
    (hu : Undisturbed p w w') : Opened p h w' :=
  keep_handle (P := fun w => h ∈ w.opened) (fun hk => hk.mem.2) hu hs

theorem LockIs.keep {h : Handle ι Path} {m : Option LockMode} {w w' : World ι}
    (hs : LockIs p h m w) (hu : Undisturbed p w w') : LockIs p h m w' :=
  keep_handle (P := fun w => w.lock h = m) (fun hk => hk.lock.trans) hu hs

theorem BufferIs.keep {h : Handle ι Path} {bytes : List UInt8} {w w' : World ι}
    (hs : BufferIs p h bytes w) (hu : Undisturbed p w w') : BufferIs p h bytes w' :=
  keep_handle (P := fun w => w.buffer h = bytes) (fun hk => hk.buffer.trans) hu hs

instance stable_opened (h : Handle ι Path) : (K.ctx p c).Stable (Opened p h) :=
  stable_of fun _ _ _ hu _ hs => hs.keep hu

instance stable_closed (h : Handle ι Path) : (K.ctx p c).Stable (Closed p h) :=
  stable_of fun _ _ _ hu _ ⟨ho, hd, hserial, hclosed⟩ =>
    have hsame := hu.handle h ho hd
    ⟨ho, hsame.dropped.trans hd, hu.serial ▸ hserial, fun hmem => hclosed (hsame.file.mem.1 hmem)⟩

instance stable_lockIs (h : Handle ι Path) (m : Option LockMode) :
    (K.ctx p c).Stable (LockIs p h m) :=
  stable_of fun _ _ _ hu _ hs => hs.keep hu

instance stable_bufferIs (h : Handle ι Path) (bytes : List UInt8) :
    (K.ctx p c).Stable (BufferIs p h bytes) :=
  stable_of fun _ _ _ hu _ hs => hs.keep hu

end Stable

/-! ## One operation -/

section Rules

variable {K} {p : ι} {c : Call}

/-- One operation: it is permitted; its effect leads to the postconditions, and
so does every exception it may raise instead. -/
theorem perform_rule {o : Op ι} {P : World ι → Prop} {Q : Val o → World ι → Prop}
    {E : Exc → World ι → Prop} [hP : (K.ctx p c).Stable P] [hQ : ∀ v, (K.ctx p c).Stable (Q v)]
    [hE : ∀ e, (K.ctx p c).Stable (E e)]
    (hpre : ∀ w, w.Wf → K.inv w → P w → Own p w o ∧ K.pre p c w o)
    (hact : ∀ w choice r w', w.Wf → K.inv w → w'.Wf → K.inv w' → P w →
      cfg.act choice p w o = some (r, w') → Ends Q E r w')
    (hfault : ∀ w e, w.Wf → K.inv w → P w → cfg.mayRaise c o e = true →
      E e (Config.afterFault w o)) :
    K.Triple p c P (perform o) Q E := by
  have hstep : ∀ w r w', (K.ctx p c).inv w → (K.ctx p c).inv w' → P w →
      (K.ctx p c).step w o r w' → Ends Q E r w' := by
    rintro w r w' hw hw' hp ⟨-, choice, h⟩
    rcases Config.performOp_cases h with h | ⟨e, he, rfl, rfl⟩
    · exact hact w choice r w' hw.1 hw.2 hw'.1 hw'.2 hp h
    · exact hfault w e hw.1 hw.2 hp he
  exact Hoare.step (fun w hw hp => hpre w hw.1 hw.2 hp)
    fun w r w' hw hw' hp hs => hstep w r w' hw hw' hp hs

/-- The context of a call that keeps a promise of its own. -/
abbrev promiseCtx (J : CallInvariant K.toDiscipline p c) :
    Context (World ι) (Op ι) (fun o => Except Exc (Val o)) :=
  J.context

instance stable_promise {J : CallInvariant K.toDiscipline p c} {P : World ι → Prop}
    [hP : (K.ctx p c).Stable P] : (promiseCtx J).Stable P :=
  ⟨fun hw hw' hr h => hP.keep hw.1 hw'.1 hr h⟩

/-- One operation of such a call. -/
theorem promise_rule {J : CallInvariant K.toDiscipline p c} {o : Op ι} {P : World ι → Prop}
    {Q : Val o → World ι → Prop} {E : Exc → World ι → Prop} [(promiseCtx J).Stable P]
    [∀ v, (promiseCtx J).Stable (Q v)] [∀ e, (promiseCtx J).Stable (E e)]
    (hpre : ∀ w, w.Wf → K.inv w → J.holds w → P w →
      (Own p w o ∧ K.pre p c w o) ∧ J.may w o)
    (hact : ∀ w choice r w', w.Wf → K.inv w → J.holds w → P w →
      cfg.act choice p w o = some (r, w') → Ends Q E r w')
    (hfault : ∀ w e, J.holds w → P w → cfg.mayRaise c o e = true →
      E e (Config.afterFault w o)) :
    Hoare (promiseCtx J) P (perform o) Q E := by
  have hstep : ∀ w r w', (promiseCtx J).inv w → P w → (promiseCtx J).step w o r w' →
      Ends Q E r w' := by
    rintro w r w' ⟨hw, hJ⟩ hp ⟨-, choice, h⟩
    rcases Config.performOp_cases h with h | ⟨e, he, rfl, rfl⟩
    · exact hact w choice r w' hw.1 hw.2 hJ hp h
    · exact hfault w e hJ hp he
  exact Hoare.step (fun w hw hp => hpre w hw.1.1 hw.1.2 hw.2 hp)
    fun w r w' hw _ hp hs => hstep w r w' hw hp hs

/-- Reading the current handle. -/
theorem fh_rule {P : World ι → Prop} {E : Exc → World ι → Prop} [(K.ctx p c).Stable P]
    [∀ e, (K.ctx p c).Stable (E e)] (hpre : ∀ w, K.pre p c w .fh)
    (hfault : ∀ w e, P w → cfg.mayRaise c .fh e = true → E e w) :
    K.Triple p c P (perform .fh) (fun v w => w.fh p = v ∧ P w) E := by
  refine perform_rule (fun w _ _ _ => ⟨trivial, hpre w⟩) ?_ fun w e _ _ => hfault w e
  intro w choice r w' _ _ _ _ hP hact
  simp only [Config.act, Option.some.injEq, Prod.mk.injEq] at hact
  obtain ⟨rfl, rfl⟩ := hact
  exact ⟨rfl, hP⟩

/-- Asking the clock or waiting. -/
theorem pause_rule {o : Op ι} (ho : (∃ timeout, o = .attempts timeout) ∨
      ∃ i checkInterval, o = .sleep i checkInterval) {P : World ι → Prop}
    {E : Exc → World ι → Prop} [(K.ctx p c).Stable P] [∀ e, (K.ctx p c).Stable (E e)]
    (hpre : ∀ w, K.pre p c w o)
    (hfault : ∀ w e, P w → cfg.mayRaise c o e = true → E e w) :
    K.Triple p c P (perform o) (fun _ => P) E := by
  rcases ho with ⟨timeout, rfl⟩ | ⟨i, checkInterval, rfl⟩
  · refine perform_rule (fun w _ _ _ => ⟨trivial, hpre w⟩) ?_ fun w e _ _ => hfault w e
    intro w choice r w' _ _ _ _ hP hact
    simp only [Config.act, Option.ite_none_left_eq_some, Option.some.injEq,
      Prod.mk.injEq] at hact
    obtain ⟨-, rfl, rfl⟩ := hact
    exact hP
  · refine perform_rule (fun w _ _ _ => ⟨trivial, hpre w⟩) ?_ fun w e _ _ => hfault w e
    intro w choice r w' _ _ _ _ hP hact
    simp only [Config.act, Option.some.injEq, Prod.mk.injEq] at hact
    obtain ⟨rfl, rfl⟩ := hact
    exact hP

end Rules

end Contract

/-! ## One operation of a recorded machine -/

section Recorded

variable {cfg : Config ι} {R : Recorder (machine cfg)} {G : Guard ((machine cfg).recorded R)}

/-- The context of one call under a discipline of the recorded machine. -/
abbrev recordedCtx (D : Discipline ((machine cfg).recorded R) G) (p : ι) (c : Call) :
    Context (World ι × R.Log) (Op ι) (fun o => Except Exc (Val o)) :=
  D.context p c

/-- One operation, and what is recorded of it. -/
theorem recorded_rule {D : Discipline ((machine cfg).recorded R) G} {p : ι} {c : Call} {o : Op ι}
    {P : World ι × R.Log → Prop} {Q : Val o → World ι × R.Log → Prop}
    {E : Exc → World ι × R.Log → Prop} [(recordedCtx D p c).Stable P]
    [∀ v, (recordedCtx D p c).Stable (Q v)] [∀ e, (recordedCtx D p c).Stable (E e)]
    (hpre : ∀ w log, D.inv (w, log) → P (w, log) → D.pre p c (w, log) o)
    (hact : ∀ w log choice r w', D.inv (w, log) → P (w, log) → G.op p c o (w, log) →
      cfg.act choice p w o = some (r, w') → Ends Q E r (w', R.record p c w o r w' log))
    (hfault : ∀ w log e, D.inv (w, log) → P (w, log) → cfg.mayRaise c o e = true →
      E e (Config.afterFault w o, R.record p c w o (.error e) (Config.afterFault w o) log)) :
    Hoare (recordedCtx D p c) P (perform o) Q E := by
  have hstep : ∀ w r w', D.inv w → P w → (recordedCtx D p c).step w o r w' →
      Ends Q E r w' := by
    rintro ⟨w, log⟩ r ⟨w', log'⟩ hw hp ⟨hg, choice, h⟩
    obtain ⟨hperform, hlog⟩ := perform_recorded h
    obtain rfl : log' = R.record p c w o r w' log := hlog
    have hperform' : cfg.performOp choice p c w o = some (r, w') := hperform
    rcases Config.performOp_cases hperform' with hact' | ⟨e, he, rfl, rfl⟩
    · exact hact w log choice r w' hw hp hg hact'
    · exact hfault w log e hw hp he
  exact Hoare.step (fun w hw hp => hpre w.1 w.2 hw hp)
    fun w r w' hw _ hp hs => hstep w r w' hw hp hs

end Recorded

end Portalocker
