import Portalocker.Foundation.Discipline
set_option autoImplicit false
set_option linter.unusedSectionVars false

/-!
# Critical regions

A `Guarded` gives the clients of a machine a statement of another kind: enter, run a block
of code, and exit again, as `with` does.  The block works on data of its own, of which there
is one datum for each resource, and nothing in the machine keeps two blocks from working on
one datum together.

What does is a token (`Region`): entering provides it, exiting takes it back, nobody else
takes it away, and no two clients of one resource have it.  Then sequential reasoning about
the blocks is sound (`Region.holds`): a property of a datum that every block keeps
when it runs alone holds in every run whenever no block works on it.
-/

namespace Interleaving

open Machine

variable {ι : Type}

/-! ## Blocks -/

/-- Data, and what a block can do with them in one step. -/
structure Shared where
  Data : Type
  Op : Type
  Res : Op → Type
  Choice : Type
  perform : Choice → Data → (o : Op) → Option (Res o × Data)

/-- The context of a block that runs alone. -/
def Shared.alone (S : Shared) : Context S.Data S.Op S.Res where
  inv _ := True
  rely d d' := d' = d
  pre _ _ := True
  step d o r d' := ∃ choice, S.perform choice d o = some (r, d')
  rely_refl _ := rfl
  rely_trans := fun h₁ h₂ => h₂.trans h₁
  inv_step := fun _ _ _ => trivial

/-- An operation of a client that runs guarded blocks. -/
inductive RegionOp (A B : Type) where
  /-- an operation of the machine -/
  | base (o : A)
  /-- the block begins -/
  | begins
  /-- the block has ended -/
  | ends
  /-- a step of the block -/
  | work (o : B)

/-- What these operations answer. -/
def RegionOp.Res {A B : Type} (RA : A → Type) (RB : B → Type) : RegionOp A B → Type
  | .base o => RA o
  | .begins | .ends => Unit
  | .work o => RB o

section Programs

variable {A B : Type} {RA : A → Type} {RB : B → Type} {α : Type}

/-- A program of the machine. -/
def Program.base : Program A RA α → Program (RegionOp A B) (RegionOp.Res RA RB) α
  | .ret a => .ret a
  | .op o k => .op (.base o) fun r => (k r).base

/-- The code of a block. -/
def Program.work : Program B RB α → Program (RegionOp A B) (RegionOp.Res RA RB) α
  | .ret a => .ret a
  | .op o k => .op (.work o) fun r => (k r).work

end Programs

/-- Statements that guard blocks: `K` are the resources, and `call` is what entering and
exiting count as. -/
structure Guarded (M : Machine ι) (K : Type) (S : Shared) where
  resource : ι → K
  call : M.Call
  Exc : Type
  enter : ι → Program M.Op M.Res (Except Exc Unit)
  exit : ι → Program M.Op M.Res (Except Exc Unit)
  Block : Type
  block : ι → Block → Program S.Op S.Res (Except Exc Unit)

namespace Guarded

variable {M : Machine ι} {K : Type} {S : Shared} (G : Guarded M K S)

/-- Leaving the statement, whose block has ended with `outcome`. -/
def leave (p : ι) (outcome : Except G.Exc Unit) :
    Program (RegionOp M.Op S.Op) (RegionOp.Res M.Res S.Res) (Except G.Exc Unit) :=
  (G.exit p).base.bind fun
    | .error e => .ret (.error e)
    | .ok _ => .ret outcome

/-- The block, and leaving the statement however it ends. -/
def guard (p : ι) (b : G.Block) :
    Program (RegionOp M.Op S.Op) (RegionOp.Res M.Res S.Res) (Except G.Exc Unit) :=
  .op .begins fun _ => (G.block p b).work.bind fun outcome =>
    .op .ends fun _ => G.leave p outcome

/-- The statement.  The block does not run when entering raises. -/
def statement (p : ι) (b : G.Block) :
    Program (RegionOp M.Op S.Op) (RegionOp.Res M.Res S.Res) (Except G.Exc Unit) :=
  (G.enter p).base.bind fun
    | .error e => .ret (.error e)
    | .ok _ => G.guard p b

/-- What a call counts as. -/
def counts : M.Call ⊕ G.Block → M.Call
  | .inl c => c
  | .inr _ => G.call

end Guarded

/-- The world, the data, and whose block works on which datum. -/
structure RegionWorld (ι W K D : Type) where
  base : W
  data : K → D
  inside : K → Option ι

variable [DecidableEq ι]

/-- The machine whose clients have the statement, besides their calls. -/
def Machine.guarded (M : Machine ι) {K : Type} [DecidableEq K] {S : Shared} (G : Guarded M K S) :
    Machine ι where
  World := RegionWorld ι M.World K S.Data
  Op := RegionOp M.Op S.Op
  Res := RegionOp.Res M.Res S.Res
  Call := M.Call ⊕ G.Block
  Choice := M.Choice × S.Choice
  Event := M.Event
  perform choice p c W
    | .base o => (M.perform choice.1 p (G.counts c) W.base o).map fun rw =>
        (rw.1, { W with base := rw.2 })
    | .begins => some ((), { W with inside := Function.update W.inside (G.resource p) (some p) })
    | .ends => some ((), { W with inside := Function.update W.inside (G.resource p) none })
    | .work o => (S.perform choice.2 (W.data (G.resource p)) o).map fun rd =>
        (rd.1, { W with data := Function.update W.data (G.resource p) rd.2 })
  event e W := (M.event e W.base).map fun w => { W with base := w }
  body p
    | .inl c => (M.body p c).base
    | .inr b => (G.statement p b).bind fun _ => .ret ()

/-- The guard of the calls, and when the statement may start. -/
def Machine.Guard.guarded {M : Machine ι} (g : Guard M) {K : Type} [DecidableEq K] {S : Shared}
    (G : Guarded M K S) (starts : ι → M.World → Prop) : Guard (M.guarded G) where
  call p c W :=
    match c with
    | .inl c => g.call p c W.base
    | .inr _ => starts p W.base
  op p c o W :=
    match o with
    | .base o => g.op p (G.counts c) o W.base
    | _ => True

/-! ## Tokens -/

/-- What makes the statements critical regions: who has entered has the token of its
resource, alone, until it exits. -/
structure Region {M : Machine ι} {g : Guard M} (D : Discipline M g) {K : Type} {S : Shared}
    (G : Guarded M K S) where
  starts : ι → M.World → Prop
  token : ι → M.World → Prop
  exclusive : ∀ {p q w}, D.inv w → token p w → token q w → G.resource p = G.resource q → p = q
  keep : ∀ {p w w'}, D.inv w → D.inv w' → D.rely p w w' → token p w → token p w'
  enter : ∀ {p w}, D.inv w → D.idle p w → starts p w →
    (D.context p G.call).Safe (G.enter p) (Ends (fun _ => token p) fun _ => D.idle p) w
  exit : ∀ {p w}, D.inv w → token p w →
    (D.context p G.call).Safe (G.exit p) (fun _ => D.idle p) w

namespace Region

variable {M : Machine ι} {g : Guard M} {D : Discipline M g} {K : Type} [DecidableEq K]
  {S : Shared} {G : Guarded M K S} (R : Region D G) (I : K → S.Data → Prop)

/-- The datum of a resource has its property unless a block works on it, and whose block
that is has the token. -/
structure Inv (W : RegionWorld ι M.World K S.Data) : Prop where
  base : D.inv W.base
  data : ∀ {k}, W.inside k = none → I k (W.data k)
  token : ∀ {k p}, W.inside k = some p → G.resource p = k ∧ R.token p W.base

/-- The client's block is running. -/
def Inside (G : Guarded M K S) (p : ι) (W : RegionWorld ι M.World K S.Data) : Prop :=
  W.inside (G.resource p) = some p

variable {R I}

theorem inside_of {W : RegionWorld ι M.World K S.Data} {p : ι} {k : K}
    (hresource : G.resource p = k) (h : W.inside k = some p) : Inside G p W := by
  subst hresource
  exact h

theorem Inv.alone {W : RegionWorld ι M.World K S.Data} (hW : R.Inv I W) {p q : ι}
    (hp : R.token p W.base) (hq : W.inside (G.resource p) = some q) : q = p := by
  obtain ⟨hresource, htoken⟩ := hW.token hq
  exact R.exclusive hW.base htoken hp hresource

/-- The contract of the machine with the statement. -/
def discipline (R : Region D G) (I : K → S.Data → Prop) :
    Discipline (M.guarded G) (g.guarded G R.starts) where
  inv := R.Inv I
  rely p W W' := D.rely p W.base W'.base ∧ (Inside G p W' ↔ Inside G p W) ∧
    (Inside G p W → W'.data (G.resource p) = W.data (G.resource p))
  pre p c W
    | .base o => D.pre p (G.counts c) W.base o ∧ ¬ Inside G p W
    | .begins => R.token p W.base ∧ ¬ Inside G p W
    | .ends => Inside G p W ∧ I (G.resource p) (W.data (G.resource p))
    | .work _ => Inside G p W
  idle p W := D.idle p W.base ∧ ¬ Inside G p W
  rely_refl p W := ⟨D.rely_refl p W.base, Iff.rfl, fun _ => rfl⟩
  rely_trans := fun h₁ h₂ => ⟨D.rely_trans h₁.1 h₂.1, h₂.2.1.trans h₁.2.1,
    fun h => (h₂.2.2 (h₁.2.1.2 h)).trans (h₁.2.2 h)⟩
  inv_perform := by
    intro p c o choice W r W' hW hpre hg h
    cases o with
    | base o =>
        obtain ⟨hpermitted, hout⟩ := hpre
        obtain ⟨⟨r', w'⟩, hperform, heq⟩ := Option.map_eq_some_iff.1 h
        obtain ⟨rfl, rfl⟩ := Prod.mk.inj heq
        have hw' : D.inv w' := D.inv_perform hW.base hpermitted hg hperform
        refine ⟨hw', hW.data, ?_⟩
        intro k q hq
        obtain ⟨hresource, htoken⟩ := hW.token hq
        have hne : q ≠ p := by
          rintro rfl
          exact hout (inside_of hresource hq)
        exact ⟨hresource, R.keep hW.base hw'
          (D.rely_perform hW.base hpermitted hg hperform q hne) htoken⟩
    | begins =>
        obtain ⟨htoken, -⟩ := hpre
        obtain ⟨-, rfl⟩ := Prod.mk.inj (Option.some.inj h)
        refine ⟨hW.base, fun {k} hk => ?_, fun {k q} hq => ?_⟩
        · by_cases hkp : k = G.resource p
          · subst hkp
            simp at hk
          · exact hW.data (by simpa [Function.update_of_ne hkp] using hk)
        · by_cases hkp : k = G.resource p
          · subst hkp
            obtain rfl : p = q := by simpa using hq
            exact ⟨rfl, htoken⟩
          · exact hW.token (by simpa [Function.update_of_ne hkp] using hq)
    | ends =>
        obtain ⟨-, hdata⟩ := hpre
        obtain ⟨-, rfl⟩ := Prod.mk.inj (Option.some.inj h)
        refine ⟨hW.base, fun {k} hk => ?_, fun {k q} hq => ?_⟩
        · by_cases hkp : k = G.resource p
          · subst hkp
            exact hdata
          · exact hW.data (by simpa [Function.update_of_ne hkp] using hk)
        · by_cases hkp : k = G.resource p
          · subst hkp
            simp at hq
          · exact hW.token (by simpa [Function.update_of_ne hkp] using hq)
    | work o =>
        have hinside : W.inside (G.resource p) = some p := hpre
        obtain ⟨⟨r', d'⟩, -, heq⟩ := Option.map_eq_some_iff.1 h
        obtain ⟨rfl, rfl⟩ := Prod.mk.inj heq
        refine ⟨hW.base, fun {k} hk => ?_, hW.token⟩
        have hkp : k ≠ G.resource p := by
          rintro rfl
          simp [hinside] at hk
        simpa [Function.update_of_ne hkp] using hW.data hk
  rely_perform := by
    intro p c o choice W r W' hW hpre hg h q hq
    cases o with
    | base o =>
        obtain ⟨⟨r', w'⟩, hperform, heq⟩ := Option.map_eq_some_iff.1 h
        obtain ⟨rfl, rfl⟩ := Prod.mk.inj heq
        exact ⟨D.rely_perform hW.base hpre.1 hg hperform q hq, Iff.rfl, fun _ => rfl⟩
    | begins =>
        obtain ⟨-, rfl⟩ := Prod.mk.inj (Option.some.inj h)
        refine ⟨D.rely_refl q W.base, ?_, fun _ => rfl⟩
        by_cases hkp : G.resource q = G.resource p
        · have hout : W.inside (G.resource p) ≠ some q := fun hin => hq (hW.alone hpre.1 hin)
          simp [Inside, hkp, hout, hq.symm]
        · simp [Inside, Function.update_of_ne hkp]
    | ends =>
        obtain ⟨-, rfl⟩ := Prod.mk.inj (Option.some.inj h)
        refine ⟨D.rely_refl q W.base, ?_, fun _ => rfl⟩
        by_cases hkp : G.resource q = G.resource p
        · have hinside : W.inside (G.resource p) = some p := hpre.1
          simp [Inside, hkp, hinside, hq.symm]
        · simp [Inside, Function.update_of_ne hkp]
    | work o =>
        have hinside : W.inside (G.resource p) = some p := hpre
        obtain ⟨⟨r', d'⟩, -, heq⟩ := Option.map_eq_some_iff.1 h
        obtain ⟨rfl, rfl⟩ := Prod.mk.inj heq
        refine ⟨D.rely_refl q W.base, Iff.rfl, fun hin => ?_⟩
        have hkp : G.resource q ≠ G.resource p := by
          intro heq
          have hin : W.inside (G.resource q) = some q := hin
          rw [heq, hinside] at hin
          exact hq (Option.some.inj hin).symm
        exact Function.update_of_ne hkp ..
  inv_event := by
    intro e W W' hW h
    obtain ⟨w', he, rfl⟩ := Option.map_eq_some_iff.1 h
    have hw' : D.inv w' := D.inv_event hW.base he
    exact ⟨hw', hW.data, fun hq => ⟨(hW.token hq).1,
      R.keep hW.base hw' (D.rely_event hW.base he _) (hW.token hq).2⟩⟩
  rely_event := by
    intro e W W' hW h q
    obtain ⟨w', he, rfl⟩ := Option.map_eq_some_iff.1 h
    exact ⟨D.rely_event hW.base he q, Iff.rfl, fun _ => rfl⟩
  idle_stable := fun hW hW' hr h =>
    ⟨D.idle_stable hW.base hW'.base hr.1 h.1, fun hin => h.2 (hr.2.1.1 hin)⟩

/-! ## What the statement runs -/

section Safe

variable {p : ι} {c : M.Call ⊕ G.Block} {α : Type}

/-- Code of the machine does as before, outside the block. -/
theorem safe_base {prog : Program M.Op M.Res α} {Q : α → M.World → Prop}
    {W : RegionWorld ι M.World K S.Data}
    (h : (D.context p (G.counts c)).Safe prog Q W.base) (hout : ¬ Inside G p W) :
    ((R.discipline I).context p c).Safe prog.base
      (fun a W => Q a W.base ∧ ¬ Inside G p W) W := by
  induction prog generalizing W with
  | ret a =>
      rintro W' hW' ⟨hr, hsame, -⟩
      exact ⟨h W'.base hW'.base hr, fun hin => hout (hsame.1 hin)⟩
  | op o k ih =>
      rintro W' hW' ⟨hr, hsame, -⟩
      have hout' : ¬ Inside G p W' := fun hin => hout (hsame.1 hin)
      obtain ⟨hpre, hnext⟩ := h W'.base hW'.base hr
      refine ⟨⟨hpre, hout'⟩, ?_⟩
      rintro r W'' ⟨hg, choice, hstep⟩
      obtain ⟨⟨r', w''⟩, hperform, heq⟩ := Option.map_eq_some_iff.1 hstep
      obtain ⟨rfl, rfl⟩ := Prod.mk.inj heq
      exact ih r' (hnext r' w'' ⟨hg, choice.1, hperform⟩) hout'

/-- A block does as when it is alone. -/
theorem safe_work {prog : Program S.Op S.Res α} {Q : α → S.Data → Prop}
    {W : RegionWorld ι M.World K S.Data} {d : S.Data} (h : S.alone.Safe prog Q d)
    (hin : Inside G p W) (hd : W.data (G.resource p) = d) :
    ((R.discipline I).context p c).Safe prog.work
      (fun a W => Q a (W.data (G.resource p)) ∧ Inside G p W) W := by
  induction prog generalizing W d with
  | ret a =>
      rintro W' hW' ⟨-, hsame, hdata⟩
      exact ⟨h _ trivial ((hdata hin).trans hd), hsame.2 hin⟩
  | op o k ih =>
      rintro W' hW' ⟨-, hsame, hdata⟩
      have hin' : Inside G p W' := hsame.2 hin
      obtain ⟨-, hnext⟩ := h _ trivial ((hdata hin).trans hd)
      refine ⟨hin', ?_⟩
      rintro r W'' ⟨-, choice, hstep⟩
      obtain ⟨⟨r', d''⟩, hperform, heq⟩ := Option.map_eq_some_iff.1 hstep
      obtain ⟨rfl, rfl⟩ := Prod.mk.inj heq
      exact ih r' (hnext r' d'' ⟨choice.2, hperform⟩) hin' (Function.update_self ..)

end Safe

/-- Every block keeps the property of its datum when it runs alone. -/
def Keeps (G : Guarded M K S) (I : K → S.Data → Prop) : Prop :=
  ∀ p b d, I (G.resource p) d → S.alone.Safe (G.block p b) (fun _ => I (G.resource p)) d

/-- Leaving keeps the contract, by a client that has the token. -/
theorem leave_safe {p : ι} {b : G.Block} {W : RegionWorld ι M.World K S.Data} (hW : R.Inv I W)
    (htoken : R.token p W.base) (hout : ¬ Inside G p W) (outcome : Except G.Exc Unit) :
    ((R.discipline I).context p (.inr b)).Safe (G.leave p outcome)
      (fun _ => (R.discipline I).idle p) W := by
  refine Context.Safe.bind hW (safe_base (c := .inr b) (R.exit hW.base htoken) hout) ?_
  intro a W' hW' hidle
  cases a with
  | ok u => exact fun W'' hW'' hr => (R.discipline I).idle_stable hW' hW'' hr hidle
  | error e => exact fun W'' hW'' hr => (R.discipline I).idle_stable hW' hW'' hr hidle

/-- The block finds its datum as the other blocks have left it, and leaves it so. -/
theorem guard_safe (hkeeps : Keeps G I) {p : ι} {b : G.Block}
    {W : RegionWorld ι M.World K S.Data} (htoken : R.token p W.base) (hW : R.Inv I W)
    (hout : ¬ Inside G p W) :
    ((R.discipline I).context p (.inr b)).Safe (G.guard p b)
      (fun _ => (R.discipline I).idle p) W := by
  intro W₁ hW₁ hr
  have htoken₁ : R.token p W₁.base := R.keep hW.base hW₁.base hr.1 htoken
  have hout₁ : ¬ Inside G p W₁ := fun hin => hout (hr.2.1.1 hin)
  have hnone : W₁.inside (G.resource p) = none := by
    cases hinside : W₁.inside (G.resource p) with
    | none => rfl
    | some q =>
        obtain rfl := hW₁.alone htoken₁ hinside
        exact absurd hinside hout₁
  refine ⟨⟨htoken₁, hout₁⟩, ?_⟩
  rintro r W₂ ⟨hg, choice, hstep⟩
  have hW₂ : R.Inv I W₂ :=
    (R.discipline I).inv_perform (p := p) (o := .begins) hW₁ ⟨htoken₁, hout₁⟩ hg hstep
  obtain ⟨-, rfl⟩ := Prod.mk.inj (Option.some.inj hstep)
  refine Context.Safe.bind hW₂ (safe_work (hkeeps p b _ (hW₁.data hnone))
    (Function.update_self ..) rfl) ?_
  intro outcome W₃ hW₃ hdone W₄ hW₄ hr₄
  have hin : Inside G p W₄ := hr₄.2.1.2 hdone.2
  have hdata : I (G.resource p) (W₄.data (G.resource p)) := by
    rw [hr₄.2.2 hdone.2]
    exact hdone.1
  refine ⟨⟨hin, hdata⟩, ?_⟩
  rintro r W₅ ⟨hg', choice', hstep'⟩
  have hW₅ : R.Inv I W₅ :=
    (R.discipline I).inv_perform (p := p) (o := .ends) hW₄ ⟨hin, hdata⟩ hg' hstep'
  obtain ⟨-, rfl⟩ := Prod.mk.inj (Option.some.inj hstep')
  exact leave_safe hW₅ (hW₄.token hin).2 (by simp [Inside]) outcome

/-- The statement keeps the contract. -/
theorem statement_safe (hkeeps : Keeps G I) {p : ι} {b : G.Block}
    {W : RegionWorld ι M.World K S.Data} (hW : R.Inv I W) (hidle : D.idle p W.base)
    (hout : ¬ Inside G p W) (hstarts : R.starts p W.base) :
    ((R.discipline I).context p (.inr b)).Safe (G.statement p b)
      (fun _ => (R.discipline I).idle p) W := by
  refine Context.Safe.bind hW (safe_base (c := .inr b) (R.enter hW.base hidle hstarts) hout) ?_
  intro a W' hW' hentered
  obtain ⟨hentered, hout'⟩ := hentered
  cases a with
  | ok u => exact guard_safe hkeeps hentered hW' hout'
  | error e =>
      exact fun W'' hW'' hr => (R.discipline I).idle_stable hW' hW'' hr ⟨hentered, hout'⟩

/-- The calls and the statement keep the contract. -/
theorem verified (hD : D.Verified) (hkeeps : Keeps G I) : (R.discipline I).Verified := by
  intro p c W hW hidle hg
  cases c with
  | inl c => exact safe_base (c := .inl c) (hD p c W.base hW.base hidle.1 hg) hidle.2
  | inr b =>
      refine Context.Safe.bind hW (statement_safe hkeeps hW hidle.1 hidle.2 hg) ?_
      exact fun _ W₁ hW₁ hidle₁ W₂ hW₂ hr => (R.discipline I).idle_stable hW₁ hW₂ hr hidle₁

/-! ## Blocks of one resource -/

/-- The step of its block that a client is about to do. -/
def nextStep : (M.guarded G).Thread → Option S.Op
  | some (_, .op (.work o) _) => some o
  | _ => none

/-- The client is in its block. -/
def InBlock (s : (M.guarded G).State) (p : ι) : Prop := (nextStep (s.thread p)).isSome = true

theorem InBlock.thread {s : (M.guarded G).State} {p : ι} (h : InBlock s p) :
    ∃ c o k, s.thread p = some (c, .op (RegionOp.work o) k) := by
  unfold InBlock at h
  cases hthread : s.thread p with
  | none => simp [hthread, nextStep] at h
  | some t =>
      obtain ⟨c, prog⟩ := t
      cases prog with
      | ret u => simp [hthread, nextStep] at h
      | op o k =>
          cases o with
          | work o => exact ⟨c, o, k, rfl⟩
          | base o => simp [hthread, nextStep] at h
          | begins => simp [hthread, nextStep] at h
          | ends => simp [hthread, nextStep] at h

/-- The contract holds in every run from a state in which no block runs. -/
theorem holds (hD : D.Verified) (hkeeps : Keeps G I)
    {init : RegionWorld ι M.World K S.Data → Prop}
    (hinit : ∀ W, init W → (D.inv W.base ∧ ∀ p, D.idle p W.base) ∧
      (∀ k, W.inside k = none) ∧ ∀ k, I k (W.data k))
    {s : (M.guarded G).State} (hs : Reach init (g.guarded G R.starts) s) :
    (R.discipline I).Holds s := by
  refine (verified hD hkeeps).sound ?_ hs
  intro W h0
  obtain ⟨⟨hbase, hidle⟩, hnobody, hdata⟩ := hinit W h0
  refine ⟨⟨hbase, fun _ => hdata _, fun hq => ?_⟩, fun p => ⟨hidle p, fun hin => ?_⟩⟩
  · rw [hnobody] at hq
    cases hq
  · have hin : W.inside (G.resource p) = some p := hin
    rw [hnobody] at hin
    cases hin

section Holds

variable {s : (M.guarded G).State} (hs : (R.discipline I).Holds s) {p q : ι}
include hs

/-- Who is in its block has the token. -/
theorem token_of_inBlock (hp : InBlock s p) : R.token p s.world.base := by
  obtain ⟨c, o, k, hthread⟩ := hp.thread
  have hinside : Inside G p s.world := hs.permitted hthread
  exact (hs.1.token hinside).2

/-- No two blocks of one resource run together. -/
theorem inBlock_unique (hp : InBlock s p) (hq : InBlock s q)
    (hresource : G.resource p = G.resource q) : p = q :=
  R.exclusive hs.1.base (token_of_inBlock hs hp) (token_of_inBlock hs hq) hresource

/-- A datum has its property whenever no client of its resource is in a call. -/
theorem data_of_idle {k : K} (hidle : ∀ p, G.resource p = k → s.thread p = none) :
    I k (s.world.data k) := by
  apply hs.1.data
  cases hq : s.world.inside k with
  | none => rfl
  | some q =>
      obtain ⟨hresource, -⟩ := hs.1.token hq
      obtain ⟨-, hout⟩ := hs.idle (hidle q hresource)
      exact absurd (inside_of hresource hq) hout

end Holds

end Region

end Interleaving
