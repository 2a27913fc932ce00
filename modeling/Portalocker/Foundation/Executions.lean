import Portalocker.Foundation.Calls
set_option autoImplicit false

/-!
# Executions of one piece of code

An execution of a program in a context is the list of the operations it has performed,
each with the world it found, the answer it got and the world it left; between any two
of them the others may do what the context lets them do.  What a triple proves holds at
the end of every execution (`Hoare.executes`), and in the context `traced` the triples
speak of the list itself, so a property of everything that happened during a call is
proved with the same rules as one of its last state.

`Program.play` is the execution in which the others stand still and a list of choices
decides every operation, `Program.playAmong` one in which they make the moves of a list
as well; both compute.
-/

namespace Interleaving

/-- One operation of an execution. -/
structure Entry (World Op : Type) (Res : Op → Type) where
  before : World
  op : Op
  answer : Res op
  after : World

namespace Context

variable {World Op : Type} {Res : Op → Type} {α β : Type} (C : Context World Op Res)

/-- The others have acted, and have kept the invariant. -/
def Passes (w w' : World) : Prop := C.rely w w' ∧ (C.inv w → C.inv w')

/-- The program can perform these operations, one after the other, and end with this
value in this world. -/
inductive Executes : Program Op Res α → World → List (Entry World Op Res) → α → World → Prop
  | ret {a : α} {w w' : World} (hp : C.Passes w w') : Executes (.ret a) w [] a w'
  | op {o : Op} {k : Res o → Program Op Res α} {w w₁ w₂ w' : World} {r : Res o}
      {trace : List (Entry World Op Res)} {a : α} (hp : C.Passes w w₁) (hs : C.step w₁ o r w₂)
      (hrest : Executes (k r) w₂ trace a w') :
      Executes (.op o k) w (⟨w₁, o, r, w₂⟩ :: trace) a w'

variable {C}

theorem Passes.refl (w : World) : C.Passes w w := ⟨C.rely_refl w, id⟩

theorem Passes.trans {w₁ w₂ w₃ : World} (h₁ : C.Passes w₁ w₂) (h₂ : C.Passes w₂ w₃) :
    C.Passes w₁ w₃ :=
  ⟨C.rely_trans h₁.1 h₂.1, fun h => h₂.2 (h₁.2 h)⟩

/-- The others may have acted before the first operation as well. -/
theorem Executes.passes {m : Program Op Res α} {w₀ w w' : World}
    {trace : List (Entry World Op Res)} {a : α} (h : C.Executes m w trace a w')
    (hp : C.Passes w₀ w) : C.Executes m w₀ trace a w' := by
  cases h with
  | ret hp' => exact .ret (hp.trans hp')
  | op hp' hs hrest => exact .op (hp.trans hp') hs hrest

/-- A safe program is in its postcondition at the end of every execution. -/
theorem Safe.executes {m : Program Op Res α} {Q : α → World → Prop} {w w' : World}
    {trace : List (Entry World Op Res)} {a : α} (h : C.Safe m Q w) (hw : C.inv w)
    (hex : C.Executes m w trace a w') : C.inv w' ∧ Q a w' := by
  induction hex with
  | ret hp => exact ⟨hp.2 hw, h _ (hp.2 hw) hp.1⟩
  | op hp hs hrest ih =>
      obtain ⟨hpre, hnext⟩ := h _ (hp.2 hw) hp.1
      exact ih (hnext _ _ hs) (C.inv_step (hp.2 hw) hpre hs)

/-- Every operation of an execution is a step of the context. -/
theorem Executes.steps {m : Program Op Res α} {w w' : World}
    {trace : List (Entry World Op Res)} {a : α} (hex : C.Executes m w trace a w') :
    ∀ entry ∈ trace, C.step entry.before entry.op entry.answer entry.after := by
  induction hex with
  | ret hp => simp
  | op hp hs hrest ih =>
      intro entry hentry
      rcases List.mem_cons.1 hentry with rfl | hentry
      · exact hs
      · exact ih entry hentry

/-- Where the others and the program can do all they can here, there is the same execution. -/
theorem Executes.mono {D : Context World Op Res} (hpasses : ∀ w w', C.Passes w w' → D.Passes w w')
    (hstep : ∀ w o r w', C.step w o r w' → D.step w o r w') {m : Program Op Res α} {w w' : World}
    {trace : List (Entry World Op Res)} {a : α} (hex : C.Executes m w trace a w') :
    D.Executes m w trace a w' := by
  induction hex with
  | ret hp => exact .ret (hpasses _ _ hp)
  | op hp hs _ ih => exact .op (hpasses _ _ hp) (hstep _ _ _ _ hs) ih

/-! ## The list of the operations so far, as part of the state -/

variable (C) in
/-- The context whose worlds carry the operations performed so far. -/
def traced : Context (World × List (Entry World Op Res)) Op Res where
  inv W := C.inv W.1
  rely W W' := C.rely W.1 W'.1 ∧ W'.2 = W.2
  pre W o := C.pre W.1 o
  step W o r W' := C.step W.1 o r W'.1 ∧ W'.2 = W.2 ++ [⟨W.1, o, r, W'.1⟩]
  rely_refl W := ⟨C.rely_refl W.1, rfl⟩
  rely_trans := fun h₁ h₂ => ⟨C.rely_trans h₁.1 h₂.1, h₂.2.trans h₁.2⟩
  inv_step := fun hw hpre hs => C.inv_step hw hpre hs.1

/-- An execution, as one that carries its own list. -/
theorem Executes.traced {m : Program Op Res α} {Q : α → World × List (Entry World Op Res) → Prop}
    {w w' : World} {log trace : List (Entry World Op Res)} {a : α}
    (h : (C.traced).Safe m Q (w, log)) (hw : C.inv w) (hex : C.Executes m w trace a w') :
    C.inv w' ∧ Q a (w', log ++ trace) := by
  induction hex generalizing log with
  | ret hp =>
      refine ⟨hp.2 hw, ?_⟩
      rw [List.append_nil]
      exact h _ (hp.2 hw) ⟨hp.1, rfl⟩
  | @op o k w w₁ w₂ w' r trace a hp hs hrest ih =>
      obtain ⟨hpre, hnext⟩ := h (w₁, log) (hp.2 hw) ⟨hp.1, rfl⟩
      have hfinal := ih (hnext r (w₂, log ++ [⟨w₁, o, r, w₂⟩]) ⟨hs, rfl⟩)
        (C.inv_step (hp.2 hw) hpre hs)
      rwa [List.append_assoc] at hfinal

/-- What happened before does not matter. -/
theorem Safe.framed {m : Program Op Res α} {Q : α → World × List (Entry World Op Res) → Prop}
    {w : World} {trace : List (Entry World Op Res)} (log : List (Entry World Op Res))
    (h : (C.traced).Safe m Q (w, trace)) :
    (C.traced).Safe m (fun a W => ∃ trace', W.2 = log ++ trace' ∧ Q a (W.1, trace'))
      (w, log ++ trace) := by
  induction m generalizing w trace with
  | ret a =>
      rintro ⟨w', log'⟩ hw ⟨hr, hlog⟩
      exact ⟨trace, hlog, h (w', trace) hw ⟨hr, rfl⟩⟩
  | op o k ih =>
      rintro ⟨w', log'⟩ hw ⟨hr, hlog⟩
      obtain ⟨hpre, hnext⟩ := h (w', trace) hw ⟨hr, rfl⟩
      refine ⟨hpre, ?_⟩
      rintro r ⟨w'', log''⟩ ⟨hs, hlog'⟩
      have hsafe := ih r (hnext r (w'', trace ++ [⟨w', o, r, w''⟩]) ⟨hs, rfl⟩)
      have heq : log'' = log ++ (trace ++ [⟨w', o, r, w''⟩]) := by
        rw [← List.append_assoc]
        dsimp only at hlog hlog'
        rw [hlog', hlog]
      rw [heq]
      exact hsafe

/-- What is safe stays so while its operations are listed, and the list only grows. -/
theorem Safe.observed {m : Program Op Res α} {Q : α → World → Prop} {w : World}
    (log : List (Entry World Op Res)) (h : C.Safe m Q w) :
    (C.traced).Safe m (fun a W => Q a W.1 ∧ ∃ trace, W.2 = log ++ trace) (w, log) := by
  induction m generalizing w log with
  | ret a =>
      rintro ⟨w', log'⟩ hw ⟨hr, hlog⟩
      exact ⟨h w' hw hr, [], hlog.trans (List.append_nil log).symm⟩
  | op o k ih =>
      rintro ⟨w', log'⟩ hw ⟨hr, hlog⟩
      obtain ⟨hpre, hnext⟩ := h w' hw hr
      refine ⟨hpre, ?_⟩
      rintro r ⟨w'', log''⟩ ⟨hs, hlog'⟩
      refine (ih r log'' (hnext r w'' hs)).mono ?_
      rintro a W - ⟨hQ, trace, htrace⟩
      dsimp only at hlog hlog'
      refine ⟨hQ, ⟨w', o, r, w''⟩ :: trace, ?_⟩
      rw [htrace, hlog', hlog, List.append_assoc]
      rfl

/-- An assertion of the world alone. -/
instance stable_world {P : World → Prop} [hP : C.Stable P] :
    (C.traced).Stable fun W => P W.1 :=
  ⟨fun hw hw' hr h => hP.keep hw hw' hr.1 h⟩

/-- An assertion of the list alone. -/
instance stable_trace {φ : List (Entry World Op Res) → Prop} :
    (C.traced).Stable fun W => φ W.2 :=
  ⟨fun _ _ hr h => hr.2.symm ▸ h⟩

end Context

/-! ## Executions of code that may raise -/

section Code

variable {World Exc Op : Type} {Val : Op → Type} {α : Type}
variable {C : Context World Op fun o => Except Exc (Val o)}

/-- What a triple about the list proves of every execution. -/
theorem Hoare.executes {x : Code Exc Op Val α}
    {P : World × List (Entry World Op fun o => Except Exc (Val o)) → Prop}
    {Q : α → World × List (Entry World Op fun o => Except Exc (Val o)) → Prop}
    {E : Exc → World × List (Entry World Op fun o => Except Exc (Val o)) → Prop}
    (h : Hoare C.traced P x Q E) {w w' : World}
    {trace : List (Entry World Op fun o => Except Exc (Val o))} {outcome : Except Exc α}
    (hw : C.inv w) (hP : P (w, [])) (hex : C.Executes x.run w trace outcome w') :
    C.inv w' ∧ Ends Q E outcome (w', trace) :=
  hex.traced (h (w, []) hw hP) hw

/-- A triple about the worlds serves while the operations are listed. -/
theorem Hoare.observed {x : Code Exc Op Val α} {P : World → Prop} {Q : α → World → Prop}
    {E : Exc → World → Prop} (h : Hoare C P x Q E)
    (log : List (Entry World Op fun o => Except Exc (Val o))) :
    Hoare C.traced (fun W => W.2 = log ∧ P W.1) x
      (fun a W => Q a W.1 ∧ ∃ trace, W.2 = log ++ trace)
      (fun e W => E e W.1 ∧ ∃ trace, W.2 = log ++ trace) := by
  rintro ⟨w, log'⟩ hw ⟨rfl, hP⟩
  refine (Context.Safe.observed log' (h w hw hP)).mono ?_
  intro outcome W _ hends
  cases outcome with
  | ok a => exact hends
  | error e => exact hends

/-- A triple about a list that begins empty serves in the middle of a longer one. -/
theorem Hoare.framed {x : Code Exc Op Val α}
    {P : World × List (Entry World Op fun o => Except Exc (Val o)) → Prop}
    {Q : α → World × List (Entry World Op fun o => Except Exc (Val o)) → Prop}
    {E : Exc → World × List (Entry World Op fun o => Except Exc (Val o)) → Prop}
    (h : Hoare C.traced P x Q E) (log : List (Entry World Op fun o => Except Exc (Val o))) :
    Hoare C.traced (fun W => W.2 = log ∧ P (W.1, [])) x
      (fun a W => ∃ trace, W.2 = log ++ trace ∧ Q a (W.1, trace))
      (fun e W => ∃ trace, W.2 = log ++ trace ∧ E e (W.1, trace)) := by
  rintro ⟨w, log'⟩ hw ⟨rfl, hP⟩
  have hsafe := Context.Safe.framed log' (h (w, []) hw hP)
  rw [List.append_nil] at hsafe
  refine hsafe.mono ?_
  rintro outcome W - ⟨trace, hlog, hends⟩
  cases outcome with
  | ok a => exact ⟨trace, hlog, hends⟩
  | error e => exact ⟨trace, hlog, hends⟩

end Code

/-! ## Executions that compute -/

section Play

variable {World Op Choice : Type} {Res : Op → Type} {α : Type}

/-- The execution that the choices decide, when the others stand still. -/
def Program.play (perform : Choice → World → (o : Op) → Option (Res o × World)) :
    List Choice → Program Op Res α → World → Option (List (Entry World Op Res) × α × World)
  | [], .ret a, w => some ([], a, w)
  | choice :: choices, .op o k, w =>
      (perform choice w o).bind fun rw =>
        (play perform choices (k rw.1) rw.2).map fun rest =>
          (⟨w, o, rw.1, rw.2⟩ :: rest.1, rest.2)
  | _, _, _ => none

/-- The same, where the others make a move before each operation. -/
def Program.playAmong (perform : Choice → World → (o : Op) → Option (Res o × World)) :
    List ((World → World) × Choice) → Program Op Res α → World →
      Option (List (Entry World Op Res) × α × World)
  | [], .ret a, w => some ([], a, w)
  | (others, choice) :: moves, .op o k, w =>
      (perform choice (others w) o).bind fun rw =>
        (playAmong perform moves (k rw.1) rw.2).map fun rest =>
          (⟨others w, o, rw.1, rw.2⟩ :: rest.1, rest.2)
  | _, _, _ => none

theorem Context.Executes.of_playAmong {C : Context World Op Res}
    {perform : Choice → World → (o : Op) → Option (Res o × World)}
    (hstep : ∀ {choice w o r w'}, perform choice w o = some (r, w') → C.step w o r w')
    {moves : List ((World → World) × Choice)}
    (hmoves : ∀ move ∈ moves, ∀ w, C.Passes w (move.1 w)) {m : Program Op Res α} {w w' : World}
    {trace : List (Entry World Op Res)} {a : α}
    (h : m.playAmong perform moves w = some (trace, a, w')) : C.Executes m w trace a w' := by
  induction moves generalizing m w trace with
  | nil =>
      cases m with
      | ret value =>
          simp only [Program.playAmong, Option.some.injEq, Prod.mk.injEq] at h
          obtain ⟨rfl, rfl, rfl⟩ := h
          exact .ret (.refl _)
      | op o k => simp [Program.playAmong] at h
  | cons move moves ih =>
      cases m with
      | ret value => simp [Program.playAmong] at h
      | op o k =>
          simp only [Program.playAmong, Option.bind_eq_some_iff, Option.map_eq_some_iff,
            Prod.mk.injEq] at h
          obtain ⟨⟨r, w₁⟩, hperform, ⟨rest, a', w''⟩, hplay, rfl, rfl, rfl⟩ := h
          have hrest := ih (fun move hmove => hmoves move (List.mem_cons_of_mem _ hmove)) hplay
          exact .op (hmoves move (List.mem_cons_self ..) w) (hstep hperform) hrest

theorem Program.play_eq_playAmong {perform : Choice → World → (o : Op) → Option (Res o × World)}
    (choices : List Choice) (m : Program Op Res α) (w : World) :
    m.play perform choices w = m.playAmong perform (choices.map fun choice => (id, choice)) w := by
  induction choices generalizing m w with
  | nil => cases m <;> rfl
  | cons choice choices ih =>
      cases m with
      | ret value => rfl
      | op o k => simp only [Program.play, Program.playAmong, List.map_cons, id, ih]

theorem Context.Executes.of_play {C : Context World Op Res}
    {perform : Choice → World → (o : Op) → Option (Res o × World)}
    (hstep : ∀ {choice w o r w'}, perform choice w o = some (r, w') → C.step w o r w')
    {choices : List Choice} {m : Program Op Res α} {w w' : World}
    {trace : List (Entry World Op Res)} {a : α}
    (h : m.play perform choices w = some (trace, a, w')) : C.Executes m w trace a w' := by
  rw [Program.play_eq_playAmong] at h
  refine Context.Executes.of_playAmong hstep ?_ h
  intro move hmove w
  obtain ⟨choice, -, rfl⟩ := List.mem_map.1 hmove
  exact .refl w

end Play

/-! ## The calls of a run -/

section Calls

open Machine

variable {ι : Type} [DecidableEq ι] {M : Machine ι} {g : Guard M} {D : Discipline M g}
  {p : ι} {c : M.Call}

/-- What is left of the call, put behind what it has done, is the whole call. -/
def Continues (D : Discipline M g) (p : ι) (c : M.Call) (w : M.World)
    (trace : List (Entry M.World M.Op M.Res)) (s : M.State) : Prop :=
  ∃ prog, s.thread p = settle c prog ∧
    ∀ rest w', (D.context p c).Executes prog s.world rest () w' →
      (D.context p c).Executes (M.body p c) w (trace ++ rest) () w'

/-- While a call runs, its operations so far begin an execution of its code. -/
theorem Machine.During.continues {s s' : M.State} (hD : D.Verified) (hs : D.Holds s)
    (h : During g p c s s') : D.Holds s' ∧ ∃ trace, Continues D p c s.world trace s' := by
  induction h with
  | call hg hn =>
      refine ⟨hs.next hD hg hn, [], M.body p c, ?_, ?_⟩
      · obtain ⟨-, rfl⟩ := next_call hn
        exact Function.update_self ..
      · obtain ⟨-, rfl⟩ := next_call hn
        exact fun rest w' hex => hex
  | @step s₁ s₂ l _ hl hg hn ih =>
      obtain ⟨hhold, trace, prog, hprog, hcont⟩ := ih
      have hhold' := hhold.next hD hg hn
      have hothers : D.rely p s₁.world s₂.world → s₂.thread p = s₁.thread p →
          ∃ trace, Continues D p c s.world trace s₂ := fun hr hthread =>
        ⟨trace, prog, hthread.trans hprog, fun rest w' hex =>
          hcont rest w' (hex.passes ⟨hr, fun _ => hhold'.1⟩)⟩
      refine ⟨hhold', ?_⟩
      cases l with
      | call q c' =>
          obtain ⟨-, rfl⟩ := next_call hn
          have hq : p ≠ q := fun heq => hl c' (heq ▸ rfl)
          exact hothers (D.rely_refl p _) (Function.update_of_ne hq _ _)
      | event e =>
          obtain ⟨he, hthreads⟩ := next_event hn
          exact hothers (D.rely_event hhold.1 he p) (congrFun hthreads p)
      | op q choice =>
          obtain ⟨c', o, k, r, hthread, hperform, hthreads⟩ := next_op hn
          have hgo : g.op q c' o s₁.world := hg c' o k hthread
          by_cases hq : p = q
          · subst hq
            rw [hprog] at hthread
            cases prog with
            | ret u => cases hthread
            | op o' k' =>
                simp only [settle, Option.some.injEq, Prod.mk.injEq, Program.op.injEq] at hthread
                obtain ⟨rfl, rfl, hk⟩ := hthread
                obtain rfl := eq_of_heq hk
                refine ⟨trace ++ [⟨s₁.world, o', r, s₂.world⟩], k' r, by simp [hthreads],
                  fun rest w' hex => ?_⟩
                rw [List.append_assoc]
                exact hcont _ w' (.op (.refl _) ⟨hgo, choice, hperform⟩ hex)
          · have hpre := hhold.permitted hthread
            exact hothers (D.rely_perform hhold.1 hpre hgo hperform p hq)
              (by rw [hthreads, Function.update_of_ne hq])

/-- A call that is over has been executed. -/
theorem Machine.During.executes {s s' : M.State} (hD : D.Verified) (hs : D.Holds s)
    (h : During g p c s s') (hidle : s'.thread p = none) :
    ∃ trace, (D.context p c).Executes (M.body p c) s.world trace () s'.world := by
  obtain ⟨-, trace, prog, hprog, hcont⟩ := h.continues hD hs
  cases prog with
  | ret u => exact ⟨trace ++ [], hcont [] s'.world (.ret (.refl _))⟩
  | op o k =>
      rw [hidle] at hprog
      cases hprog

end Calls

end Interleaving
