import Portalocker.Foundation.Program
set_option autoImplicit false

/-!
# Machines: clients whose atomic operations interleave

A machine runs any number of clients.  Each client is idle or inside one call,
whose remaining code is a `Program`; one transition performs one operation of
one client, starts a call of an idle client, or lets the environment act.  All
nondeterminism of an operation (which inode a new file gets, how far a clock
has moved, whether the call is interrupted) is one explicit `Choice`, so a
transition is a computable function of its `Label` and a run is a list of
labels.  Every order of the clients' operations is such a list.

A `Guard` restricts the steps of a run by the state before the step.  The
unrestricted runs are those of `Guard.free`.
-/

namespace Interleaving

/-- A machine with clients `ι`. -/
structure Machine (ι : Type) where
  /-- the state all clients share, their own fields included -/
  World : Type
  Op : Type
  Res : Op → Type
  /-- the calls a client can make while it is idle -/
  Call : Type
  /-- what the environment decides when an operation is performed -/
  Choice : Type
  /-- what the environment does on its own -/
  Event : Type
  perform : Choice → ι → Call → World → (o : Op) → Option (Res o × World)
  event : Event → World → Option World
  body : ι → Call → Program Op Res Unit

namespace Machine

variable {ι : Type} [DecidableEq ι] (M : Machine ι)

/-- What is left of a client's call; `none` for an idle client. -/
abbrev Thread : Type := Option (M.Call × Program M.Op M.Res Unit)

/-- A global state: the shared world and the rest of every client's call. -/
structure State where
  world : M.World
  thread : ι → M.Thread

/-- One transition. -/
inductive Label where
  /-- the idle client `p` makes the call `c` -/
  | call (p : ι) (c : M.Call)
  /-- client `p` performs its next operation, decided by `choice` -/
  | op (p : ι) (choice : M.Choice)
  /-- the environment acts -/
  | event (e : M.Event)

variable {M}

/-- A call whose code has ended leaves its client idle. -/
def settle (c : M.Call) : Program M.Op M.Res Unit → M.Thread
  | .ret _ => none
  | .op o next => some (c, .op o next)

/-- The state after one transition, when the transition is possible. -/
def next (s : M.State) : M.Label → Option M.State
  | .call p c =>
      match s.thread p with
      | none => some { s with thread := Function.update s.thread p (settle c (M.body p c)) }
      | some _ => none
  | .op p choice =>
      match s.thread p with
      | some (c, .op o k) =>
          match M.perform choice p c s.world o with
          | some (r, w) => some ⟨w, Function.update s.thread p (settle c (k r))⟩
          | none => none
      | _ => none
  | .event e =>
      match M.event e s.world with
      | some w => some { s with world := w }
      | none => none

/-- The state after a list of transitions. -/
def run : List M.Label → M.State → Option M.State
  | [], s => some s
  | l :: ls, s => (next s l).bind (run ls)

/-! ## Reachable states -/

variable (M) in
/-- A restriction of the steps of a run by the state before the step. -/
structure Guard where
  call : ι → M.Call → M.World → Prop
  op : ι → M.Call → M.Op → M.World → Prop

variable (M) in
/-- No restriction. -/
def Guard.free : Guard M := ⟨fun _ _ _ => True, fun _ _ _ _ => True⟩

/-- The guard allows the transition in this state. -/
def Guard.Allows (g : Guard M) (s : M.State) : M.Label → Prop
  | .call p c => g.call p c s.world
  | .op p _ => ∀ c o k, s.thread p = some (c, .op o k) → g.op p c o s.world
  | .event _ => True

/-- The states reached from an idle start by runs whose steps all meet `g`. -/
inductive Reach (init : M.World → Prop) (g : Guard M) : M.State → Prop
  | start {w : M.World} (h : init w) : Reach init g ⟨w, fun _ => none⟩
  | step {s s' : M.State} (l : M.Label) (hs : Reach init g s) (hg : g.Allows s l)
      (hn : next s l = some s') : Reach init g s'

omit [DecidableEq ι] in
theorem Guard.free_allows (s : M.State) (l : M.Label) : (Guard.free M).Allows s l := by
  cases l <;> simp [Guard.Allows, Guard.free]

/-- A guard that allows the transitions of all runs of another reaches what they reach. -/
theorem Reach.mono {init : M.World → Prop} {g g' : Guard M}
    (h : ∀ s l s', Reach init g s → g.Allows s l → next s l = some s' → g'.Allows s l)
    {s : M.State} (hs : Reach init g s) : Reach init g' s := by
  induction hs with
  | start hw => exact .start hw
  | step l hs hg hn ih => exact .step l ih (h _ l _ hs hg hn) hn

/-- Every run whose transitions the guard allows reaches. -/
theorem Reach.append {init : M.World → Prop} {g : Guard M} {s s' : M.State} {ls : List M.Label}
    (hs : Reach init g s) (hr : Machine.run ls s = some s')
    (hg : ∀ l ∈ ls, ∀ t : M.State, g.Allows t l) : Reach init g s' := by
  induction ls generalizing s with
  | nil =>
      simp only [Machine.run, Option.some.injEq] at hr
      exact hr ▸ hs
  | cons l ls ih =>
      simp only [Machine.run, Option.bind_eq_some_iff] at hr
      obtain ⟨mid, hmid, hrest⟩ := hr
      have hstep : Reach init g mid := .step l hs (hg l (List.mem_cons_self ..) s) hmid
      exact ih hstep hrest fun l' hl' => hg l' (List.mem_cons_of_mem l hl')

/-- A transition that is allowed in this state, and then others that always are. -/
theorem Reach.cons {init : M.World → Prop} {g : Guard M} {s s' : M.State} {l : M.Label}
    {ls : List M.Label} (hs : Reach init g s) (hl : g.Allows s l)
    (hr : Machine.run (l :: ls) s = some s') (hg : ∀ l ∈ ls, ∀ t : M.State, g.Allows t l) :
    Reach init g s' := by
  simp only [Machine.run, Option.bind_eq_some_iff] at hr
  obtain ⟨mid, hmid, hrest⟩ := hr
  exact (Reach.step l hs hl hmid).append hrest hg

/-- Every unrestricted run from a reachable state reaches. -/
theorem Reach.run {init : M.World → Prop} {s s' : M.State} {ls : List M.Label}
    (hs : Reach init (Guard.free M) s) (hr : Machine.run ls s = some s') :
    Reach init (Guard.free M) s' :=
  hs.append hr fun l _ t => Guard.free_allows t l

/-- A run whose operations all pass a computable check. -/
def runChecked (check : ι → M.Op → M.World → Bool) : List M.Label → M.State → Option M.State
  | [], s => some s
  | .op p choice :: ls, s =>
      match s.thread p with
      | some (_, .op o _) =>
          if check p o s.world then (next s (.op p choice)).bind (runChecked check ls) else none
      | _ => none
  | l :: ls, s => (next s l).bind (runChecked check ls)

/-- A run that passes a check at least as strict as the guard, in the states it comes to,
reaches. -/
theorem Reach.checked_reachable {init : M.World → Prop} {g : Guard M} {check : ι → M.Op → M.World → Bool}
    (hcall : ∀ p c w, g.call p c w)
    (hop : ∀ p c o s, Reach init g s → check p o s.world = true → g.op p c o s.world)
    {s s' : M.State} {ls : List M.Label} (hs : Reach init g s)
    (hr : runChecked check ls s = some s') : Reach init g s' := by
  induction ls generalizing s with
  | nil =>
      simp only [runChecked, Option.some.injEq] at hr
      exact hr ▸ hs
  | cons l ls ih =>
      cases l with
      | call p c =>
          simp only [runChecked, Option.bind_eq_some_iff] at hr
          obtain ⟨mid, hmid, hrest⟩ := hr
          exact ih (.step (.call p c) hs (hcall p c s.world) hmid) hrest
      | event e =>
          simp only [runChecked, Option.bind_eq_some_iff] at hr
          obtain ⟨mid, hmid, hrest⟩ := hr
          exact ih (.step (.event e) hs trivial hmid) hrest
      | op p choice =>
          simp only [runChecked] at hr
          split at hr
          · rename_i c o k hthread
            simp only [Option.ite_none_right_eq_some, Option.bind_eq_some_iff] at hr
            obtain ⟨hcheck, mid, hmid, hrest⟩ := hr
            refine ih (.step (.op p choice) hs (fun c' o' k' hthread' => ?_) hmid) hrest
            obtain ⟨rfl, hprog⟩ := Prod.mk.inj (Option.some.inj (hthread.symm.trans hthread'))
            obtain ⟨rfl, -⟩ := Program.op.inj hprog
            exact hop p _ o s hs hcheck
          · cases hr

/-- The same where the check alone is as strict as the guard. -/
theorem Reach.checked {init : M.World → Prop} {g : Guard M} {check : ι → M.Op → M.World → Bool}
    (hcall : ∀ p c w, g.call p c w) (hop : ∀ p c o w, check p o w = true → g.op p c o w)
    {s s' : M.State} {ls : List M.Label} (hs : Reach init g s)
    (hr : runChecked check ls s = some s') : Reach init g s' :=
  hs.checked_reachable hcall (fun p c o s _ => hop p c o s.world) hr

/-! ## What one transition does -/

/-- A call starts the code of its body and changes nothing else. -/
theorem next_call {s s' : M.State} {p : ι} {c : M.Call} (h : next s (.call p c) = some s') :
    s.thread p = none ∧
      s' = ⟨s.world, Function.update s.thread p (settle c (M.body p c))⟩ := by
  unfold next at h
  cases hp : s.thread p with
  | none => simp only [hp, Option.some.injEq] at h; exact ⟨rfl, h.symm⟩
  | some _ => simp [hp] at h

/-- An operation step performs the first operation of the client's code. -/
theorem next_op {s s' : M.State} {p : ι} {choice : M.Choice}
    (h : next s (.op p choice) = some s') :
    ∃ c o k r, s.thread p = some (c, .op o k) ∧
      M.perform choice p c s.world o = some (r, s'.world) ∧
      s'.thread = Function.update s.thread p (settle c (k r)) := by
  simp only [next] at h
  cases hp : s.thread p with
  | none => simp [hp] at h
  | some t =>
      obtain ⟨c, prog⟩ := t
      cases prog with
      | ret u => simp [hp] at h
      | op o k =>
          simp only [hp] at h
          cases hw : M.perform choice p c s.world o with
          | none => simp [hw] at h
          | some rw =>
              simp only [hw, Option.some.injEq] at h
              subst h
              exact ⟨c, o, k, rw.1, rfl, hw, rfl⟩

/-- An event changes the world only. -/
theorem next_event {s s' : M.State} {e : M.Event} (h : next s (.event e) = some s') :
    M.event e s.world = some s'.world ∧ s'.thread = s.thread := by
  unfold next at h
  cases hw : M.event e s.world with
  | none => simp [hw] at h
  | some w =>
      simp only [hw, Option.some.injEq] at h
      subst h
      exact ⟨rfl, rfl⟩

end Machine

end Interleaving
