import Portalocker.Foundation.Discipline
set_option autoImplicit false

/-!
# Machines with a record of their run

Some properties of a run speak of what happened earlier: that a client has changed
nothing since its call began, or that all resources were in use at one moment.  A
`Recorder` writes such facts down next to the world of a machine.  The record has no
influence on the run (`run_recorded`, `next_forget`), so what a discipline of the
machine itself guarantees holds in its recorded runs as well
(`Discipline.Verified.recorded`) and a second discipline, about the record, may use it.
-/

namespace Interleaving

open Machine

variable {ι : Type}

/-- What is written down when an operation has been performed: by whom, in which call,
in which world, with which answer and with which effect. -/
structure Recorder (M : Machine ι) where
  Log : Type
  record : ι → M.Call → M.World → (o : M.Op) → M.Res o → M.World → Log → Log

namespace Machine

variable {M : Machine ι} {R : Recorder M}

/-- The machine with the record next to its world. -/
abbrev recorded (M : Machine ι) (R : Recorder M) : Machine ι where
  World := M.World × R.Log
  Op := M.Op
  Res := M.Res
  Call := M.Call
  Choice := M.Choice
  Event := M.Event
  perform := fun choice p c w o =>
    (M.perform choice p c w.1 o).map fun rw => (rw.1, rw.2, R.record p c w.1 o rw.1 rw.2 w.2)
  event := fun e w => (M.event e w.1).map fun w' => (w', w.2)
  body := M.body

/-- The state without the record. -/
def forget (s : (M.recorded R).State) : M.State := ⟨s.world.1, s.thread⟩

/-- The state with a record. -/
def State.withLog (s : M.State) (log : R.Log) : (M.recorded R).State := ⟨(s.world, log), s.thread⟩

/-- The same transition of the other machine. -/
def Label.forget : (M.recorded R).Label → M.Label
  | .call p c => .call p c
  | .op p choice => .op p choice
  | .event e => .event e

def Label.recorded (R : Recorder M) : M.Label → (M.recorded R).Label
  | .call p c => .call p c
  | .op p choice => .op p choice
  | .event e => .event e

theorem settle_recorded {c : M.Call} (prog : Program M.Op M.Res Unit) :
    settle (M := M.recorded R) c prog = settle (M := M) c prog := by
  cases prog <;> rfl

/-- What an operation of the recorded machine does. -/
theorem perform_recorded {choice : M.Choice} {p : ι} {c : M.Call} {w : M.World} {log : R.Log}
    {o : M.Op} {r : M.Res o} {w' : (M.recorded R).World}
    (h : (M.recorded R).perform choice p c (w, log) o = some (r, w')) :
    M.perform choice p c w o = some (r, w'.1) ∧ w'.2 = R.record p c w o r w'.1 log := by
  obtain ⟨⟨r', w''⟩, hperform, heq⟩ := Option.map_eq_some_iff.1 h
  obtain ⟨rfl, rfl⟩ := Prod.mk.inj heq
  exact ⟨hperform, rfl⟩

section Runs

variable [DecidableEq ι]

/-- A transition of the recorded machine is one of the machine. -/
theorem next_forget {s s' : (M.recorded R).State} {l : (M.recorded R).Label}
    (h : next s l = some s') : next (forget s) l.forget = some (forget s') := by
  cases l with
  | call p c =>
      obtain ⟨hidle, rfl⟩ := next_call h
      have hidle' : (forget s).thread p = none := hidle
      simp only [Label.forget, next, hidle']
      exact congrArg (fun t => some (State.mk s.world.1 (Function.update s.thread p t)))
        (settle_recorded _).symm
  | op p choice =>
      obtain ⟨c, o, k, r, hthread, hperform, hthreads⟩ := next_op h
      have hthread' : (forget s).thread p = some (c, .op o k) := hthread
      have hperform' : M.perform choice p c (forget s).world o = some (r, s'.world.1) :=
        (perform_recorded hperform).1
      simp only [Label.forget, next, hthread', hperform']
      simp only [forget, hthreads]
      exact congrArg (fun t => some (State.mk s'.world.1 (Function.update s.thread p t)))
        (settle_recorded _).symm
  | event e =>
      obtain ⟨he, hthreads⟩ := next_event h
      obtain ⟨w', he', hw'⟩ := Option.map_eq_some_iff.1 he
      have hevent : M.event e (forget s).world = some w' := he'
      simp only [Label.forget, next, hevent]
      simp only [forget, hthreads, ← hw']

/-- Every transition of the machine is recorded. -/
theorem next_recorded {s s' : M.State} {l : M.Label} (h : next s l = some s') (log : R.Log) :
    ∃ log', next (s.withLog log) (l.recorded R) = some (s'.withLog log') := by
  cases l with
  | call p c =>
      obtain ⟨hidle, rfl⟩ := next_call h
      have hidle' : (s.withLog log).thread p = none := hidle
      refine ⟨log, ?_⟩
      simp only [Label.recorded, next, hidle']
      simp only [State.withLog, settle_recorded]
  | op p choice =>
      obtain ⟨c, o, k, r, hthread, hperform, hthreads⟩ := next_op h
      have hthread' : (s.withLog log).thread p = some (c, .op o k) := hthread
      refine ⟨R.record p c s.world o r s'.world log, ?_⟩
      simp only [Label.recorded, next, hthread']
      simp only [State.withLog, hperform, Option.map_some, settle_recorded, hthreads]
  | event e =>
      obtain ⟨he, hthreads⟩ := next_event h
      refine ⟨log, ?_⟩
      simp only [Label.recorded, next, State.withLog, he, Option.map_some, hthreads]

/-- Every run of the machine is recorded, from any record on. -/
theorem run_recorded {s s' : M.State} {ls : List M.Label} (h : run ls s = some s') (log : R.Log) :
    ∃ log', run (ls.map (Label.recorded R)) (s.withLog log) = some (s'.withLog log') := by
  induction ls generalizing s log with
  | nil =>
      simp only [run, Option.some.injEq] at h
      exact ⟨log, by rw [h]; rfl⟩
  | cons l ls ih =>
      simp only [run, Option.bind_eq_some_iff] at h
      obtain ⟨mid, hmid, hrest⟩ := h
      obtain ⟨log', hlog'⟩ := next_recorded hmid log
      obtain ⟨log'', hlog''⟩ := ih hrest log'
      exact ⟨log'', by simp only [List.map_cons, run, hlog', Option.bind_some, hlog'']⟩

/-- A reached state of the recorded machine is one that the machine reaches. -/
theorem Reach.forget {init : M.World → Prop} {g : Guard M} {init' : (M.recorded R).World → Prop}
    {G : Guard (M.recorded R)} (hinit : ∀ w, init' w → init w.1)
    (hcall : ∀ p c w, G.call p c w → g.call p c w.1)
    (hop : ∀ p c o w, G.op p c o w → g.op p c o w.1) {s : (M.recorded R).State}
    (hs : Reach init' G s) : Reach init g (forget s) := by
  induction hs with
  | start hw => exact .start (hinit _ hw)
  | @step s s' l _ hg hn ih =>
      refine .step l.forget ih ?_ (next_forget hn)
      cases l with
      | call p c => exact hcall p c s.world hg
      | op p choice => exact fun c o k hthread => hop p c o s.world (hg c o k hthread)
      | event e => trivial

end Runs

end Machine

/-! ## What has been proved of the machine -/

section Recorded

variable {M : Machine ι} {R : Recorder M} {g : Guard M}

/-- The steps that keep a discipline of the machine. -/
def Discipline.kept (D : Discipline M g) (G : Guard (M.recorded R)) : Guard (M.recorded R) where
  call := fun p c w => G.call p c w ∧ D.inv w.1 ∧ D.idle p w.1
  op := fun p c o w => G.op p c o w ∧ D.inv w.1 ∧ D.pre p c w.1 o ∧ g.op p c o w.1

/-- All recorded steps keep a discipline under which the machine is verified. -/
theorem Discipline.Verified.recorded [DecidableEq ι] {D : Discipline M g} (hD : D.Verified)
    {init : M.World → Prop} (hstart : ∀ w, init w → D.inv w ∧ ∀ p, D.idle p w)
    {init' : (M.recorded R).World → Prop} {G : Guard (M.recorded R)}
    (hinit : ∀ w, init' w → init w.1) (hcall : ∀ p c w, G.call p c w → g.call p c w.1)
    (hop : ∀ p c o w, G.op p c o w → g.op p c o w.1) {s : (M.recorded R).State}
    (hs : Reach init' G s) : D.Holds (forget s) ∧ Reach init' (D.kept G) s := by
  have hhold : ∀ {s : (M.recorded R).State}, Reach init' G s → D.Holds (forget s) := fun hs =>
    hD.sound hstart (hs.forget hinit hcall hop)
  refine ⟨hhold hs, hs.mono fun s l s' hs hg hn => ?_⟩
  have h := hhold hs
  cases l with
  | call p c =>
      have hidle : (forget s).thread p = none := (next_call hn).1
      exact ⟨hg, h.1, h.idle hidle⟩
  | op p choice =>
      intro c o k hthread
      have hthread' : (forget s).thread p = some (c, .op o k) := hthread
      exact ⟨hg c o k hthread, h.1, h.permitted hthread', hop p c o s.world (hg c o k hthread)⟩
  | event e => trivial

/-- What is proved of the record, by operations that are known to keep a discipline of
the machine: an invariant of world and record, what the others leave of a client's
record, and what holds of it between calls. -/
structure Annotation (D : Discipline M g) (R : Recorder M) (G : Guard (M.recorded R)) where
  inv : M.World × R.Log → Prop
  kept : ι → R.Log → R.Log → Prop
  idle : ι → M.World × R.Log → Prop
  kept_refl : ∀ p log, kept p log log
  kept_trans : ∀ {p log₁ log₂ log₃}, kept p log₁ log₂ → kept p log₂ log₃ → kept p log₁ log₃
  inv_record : ∀ {p c o choice w log r w'}, D.inv w → inv (w, log) → G.op p c o (w, log) →
    D.pre p c w o → M.perform choice p c w o = some (r, w') →
    inv (w', R.record p c w o r w' log)
  kept_record : ∀ {p q c w o r w' log}, q ≠ p → kept q log (R.record p c w o r w' log)
  inv_event : ∀ {e w w' log}, D.inv w → inv (w, log) → M.event e w = some w' → inv (w', log)
  idle_stable : ∀ {p w w' log log'}, D.rely p w w' → kept p log log' → idle p (w, log) →
    idle p (w', log')

namespace Annotation

variable {D : Discipline M g} {G : Guard (M.recorded R)}

/-- An annotation is a discipline of the recorded machine. -/
def discipline (A : Annotation D R G) : Discipline (M.recorded R) (D.kept G) where
  inv W := D.inv W.1 ∧ A.inv W
  rely p W W' := D.rely p W.1 W'.1 ∧ A.kept p W.2 W'.2
  pre _ _ _ _ := True
  idle := A.idle
  rely_refl p W := ⟨D.rely_refl p W.1, A.kept_refl p W.2⟩
  rely_trans := fun h₁ h₂ => ⟨D.rely_trans h₁.1 h₂.1, A.kept_trans h₁.2 h₂.2⟩
  inv_perform := by
    rintro p c o choice ⟨w, log⟩ r ⟨w', log'⟩ ⟨hw, hlog⟩ - ⟨hG, -, hpre, hg⟩ h
    obtain ⟨hperform, hlog'⟩ := perform_recorded h
    obtain rfl : log' = R.record p c w o r w' log := hlog'
    exact ⟨D.inv_perform hw hpre hg hperform, A.inv_record hw hlog hG hpre hperform⟩
  rely_perform := by
    rintro p c o choice ⟨w, log⟩ r ⟨w', log'⟩ ⟨hw, -⟩ - ⟨-, -, hpre, hg⟩ h q hq
    obtain ⟨hperform, hlog'⟩ := perform_recorded h
    obtain rfl : log' = R.record p c w o r w' log := hlog'
    exact ⟨D.rely_perform hw hpre hg hperform q hq, A.kept_record hq⟩
  inv_event := by
    rintro e ⟨w, log⟩ ⟨w', log'⟩ ⟨hw, hlog⟩ h
    obtain ⟨w₁, hevent, heq⟩ := Option.map_eq_some_iff.1 h
    obtain ⟨rfl, rfl⟩ := Prod.mk.inj heq
    exact ⟨D.inv_event hw hevent, A.inv_event hw hlog hevent⟩
  rely_event := by
    rintro e ⟨w, log⟩ ⟨w', log'⟩ ⟨hw, -⟩ h q
    obtain ⟨w₁, hevent, heq⟩ := Option.map_eq_some_iff.1 h
    obtain ⟨rfl, rfl⟩ := Prod.mk.inj heq
    exact ⟨D.rely_event hw hevent q, A.kept_refl q log⟩
  idle_stable := fun _ _ hr h => A.idle_stable hr.1 hr.2 h

/-- What is proved of the record holds in all recorded runs. -/
theorem sound [DecidableEq ι] {A : Annotation D R G} (hA : A.discipline.Verified)
    (hD : D.Verified) {init : (M.recorded R).World → Prop}
    (hinit : ∀ w, init w → (D.inv w.1 ∧ ∀ p, D.idle p w.1) ∧ A.inv w ∧ ∀ p, A.idle p w)
    (hcall : ∀ p c w, G.call p c w → g.call p c w.1)
    (hop : ∀ p c o w, G.op p c o w → g.op p c o w.1) {s : (M.recorded R).State}
    (hs : Reach init G s) : D.Holds (forget s) ∧ A.discipline.Holds s := by
  obtain ⟨hhold, hreach⟩ := hD.recorded (fun w (hw : D.inv w ∧ ∀ p, D.idle p w) => hw)
    (fun w hw => (hinit w hw).1) hcall hop hs
  refine ⟨hhold, hA.sound (fun w hw => ?_) hreach⟩
  obtain ⟨⟨hinv, -⟩, hlog, hidle⟩ := hinit w hw
  exact ⟨⟨hinv, hlog⟩, hidle⟩

end Annotation

end Recorded

end Interleaving
