import Portalocker.Foundation.Sequential
import Portalocker.Utils.NoReplace
set_option autoImplicit false
set_option linter.unusedSectionVars false

/-!
# What `open_atomic` leaves in the directory

The call runs alone here, so that every name it leaves behind is its own; its body is any
code over the temporary file, and any operation may raise anything, but nothing prevents
the removal of the temporary file.  The removal stands behind the publication: an
exception that leaves the block in which the file is written passes it by.
-/

namespace Portalocker.OpenAtomic

open Interleaving

variable {nt : Bool} {c : Call} {f : Temp} {names : Path → Option Nat} {w w' : World}

/-- A step of an operation; the removal of the temporary file is not prevented. -/
def Performs (c : Call) (w : World) (o : Op) (r : Except Exc (Val o)) (w' : World) : Prop :=
  ∃ choice, (∀ f, o = .remove f → choice.fault = none) ∧ performOp choice c w o = some (r, w')

/-- The call runs alone. -/
abbrev solo (c : Call) : Context World Op fun o => Except Exc (Val o) :=
  Context.alone (Performs c)

/-! ## What is asked of a call -/

/-- The path names what it named before, or it is the destination and has appeared. -/
def KeptAt (c : Call) (names : Path → Option Nat) (w : World) (path : Path) : Prop :=
  w.names path = names path ∨ path = c.filename ∧ names path = none

/-- There is nothing new but the destination. -/
def NothingLeft (c : Call) (names : Path → Option Nat) (w : World) : Prop :=
  ∀ path, KeptAt c names w path

/-- An exception has left the block in which the temporary file is open: the existence of
the destination was checked, its directory made and the file created, and then the body,
`flush`, `fsync` or `close` raised. -/
def BlockRaises (c : Call)
    (trace : List (Entry World Op fun o => Except Exc (Val o))) : Prop :=
  ∃ checked made w₀ dir f w₁ block e w₂,
    trace = checked :: made :: ⟨w₀, .namedTemporaryFile dir, .ok f, w₁⟩ :: block ∧
      (solo c).Executes (writeTemp c f).run w₁ block (.error e) w₂

/-! ## The states of a call -/

/-- Every name but that of the temporary file is as it should be. -/
def Beside (c : Call) (names : Path → Option Nat) (f : Temp) (w : World) : Prop :=
  f.path ≠ c.filename ∧ names f.path = none ∧ ∀ path, path ≠ f.path → KeptAt c names w path

/-- The temporary file is there. -/
def Littered (c : Call) (names : Path → Option Nat) (f : Temp) (w : World) : Prop :=
  Beside c names f w ∧ w.names f.path ≠ none

theorem Littered.left (h : Littered c names f w) : ¬ NothingLeft c names w := by
  obtain ⟨⟨hne, hnew, -⟩, hthere⟩ := h
  intro hnothing
  rcases hnothing f.path with hsame | ⟨hdest, -⟩
  · exact hthere (hsame.trans hnew)
  · exact hne hdest

theorem Beside.gone (h : Beside c names f w) (hgone : w.names f.path = none) :
    NothingLeft c names w := by
  intro path
  by_cases hpath : path = f.path
  · subst hpath
    exact Or.inl (hgone.trans h.2.1.symm)
  · exact h.2.2 path hpath

/-- The publication makes the destination appear, where nothing was. -/
theorem Beside.appear (h : Beside c names f w) {i : Nat} (hfree : w.names c.filename = none) :
    Beside c names f (w.appear c.filename i) := by
  refine ⟨h.1, h.2.1, fun path hpath => ?_⟩
  by_cases hdest : path = c.filename
  · subst hdest
    rcases h.2.2 _ hpath with hsame | ⟨-, hnew⟩
    · exact Or.inr ⟨rfl, hsame.symm.trans hfree⟩
    · exact Or.inr ⟨rfl, hnew⟩
  · have hkept := h.2.2 path hpath
    unfold KeptAt at hkept ⊢
    rwa [World.appear_names, Function.update_of_ne hdest]

theorem Beside.rename (h : Beside c names f w) {i : Option Nat} :
    Beside c names f (w.rename f.path i) := by
  refine ⟨h.1, h.2.1, fun path hpath => ?_⟩
  have hkept := h.2.2 path hpath
  unfold KeptAt at hkept ⊢
  rwa [World.rename_names, Function.update_of_ne hpath]

/-! ## The operations -/

/-- Nothing but the publication, the removal and the creation concerns a name. -/
theorem names_afterFault (n : Nat) (w : World) (o : Op) : (afterFault n w o).names = w.names := by
  unfold afterFault
  split
  · split
    · rfl
    · rfl
  · split
    · rfl
    · rfl
  · split
    · rfl
    · rfl
  · rfl

/-- The operations of the body and of the block around it. -/
theorem names_onFile {o : Op} {r : Except Exc (Val o)} (hkind : OnFile f o)
    (h : Performs c w o r w') : w'.names = w.names := by
  obtain ⟨choice, -, h⟩ := h
  rcases performOp_cases h with h | ⟨e, -, -, rfl⟩
  · cases o with
    | write g bytes | flush g | fsync g | close g =>
        simp only [act] at h
        split at h <;> (simp only [Option.some.injEq, Prod.mk.injEq] at h; obtain ⟨-, rfl⟩ := h)
        · rfl
        · rfl
    | begins | ends | pathExists | mkdir | namedTemporaryFile | link | rename | remove =>
        exact hkind.elim
  · exact names_afterFault _ _ _

/-- The existence check and `mkdir`. -/
theorem names_first {o : Op} {r : Except Exc (Val o)} (ho : (∃ path, o = .pathExists path) ∨
    ∃ path, o = .mkdir path) (h : Performs c w o r w') : w'.names = w.names := by
  obtain ⟨choice, -, h⟩ := h
  rcases performOp_cases h with h | ⟨e, -, -, rfl⟩
  · rcases ho with ⟨path, rfl⟩ | ⟨path, rfl⟩ <;>
      (simp only [act, Option.some.injEq, Prod.mk.injEq] at h; obtain ⟨-, rfl⟩ := h)
    · rfl
    · rfl
  · exact names_afterFault _ _ _

/-- The temporary file is created, or nothing has happened. -/
theorem names_created {dir : Path} {r : Except Exc Temp}
    (h : Performs c w (.namedTemporaryFile dir) r w') :
    (∃ f, r = .ok f ∧ Littered c w.names f w') ∨ (∃ e, r = .error e) ∧ w'.names = w.names := by
  obtain ⟨choice, -, h⟩ := h
  rcases performOp_cases h with h | ⟨e, -, rfl, rfl⟩
  · simp only [act, Option.ite_none_right_eq_some, Option.some.injEq, Prod.mk.injEq] at h
    obtain ⟨⟨hnew, hne⟩, rfl, rfl⟩ := h
    refine Or.inl ⟨_, rfl, ⟨hne, hnew, fun path hpath => Or.inl ?_⟩, ?_⟩
    · exact Function.update_of_ne hpath _ _
    · simp
  · exact Or.inr ⟨⟨e, rfl⟩, rfl⟩

/-! ## The code -/

/-- The block leaves every name alone, whatever the body does. -/
theorem writeTemp_onFile (c : Call) (f : Temp) : Code.Within (OnFile f) (writeTemp c f) := by
  refine .bind (.withFinally ?_ (.call rfl)) fun _ => .pure _
  exact .bind (c.body_onFile f) fun _ => .bind (.call rfl) fun _ => .call rfl

theorem writeTemp_names {trace : List (Entry World Op fun o => Except Exc (Val o))}
    {outcome : Except Exc Unit}
    (h : (solo c).Executes (writeTemp c f).run w trace outcome w') : w'.names = w.names :=
  h.keeps (I := fun w₁ => w₁.names = w.names) (writeTemp_onFile c f)
    (fun hkind hI hs => (names_onFile hkind hs).trans hI) rfl

/-- The publication does not touch any other name. -/
theorem publish_beside : Hoare (solo c).traced (fun W => Beside c names f W.1)
    (publish nt f c.filename) (fun _ W => Beside c names f W.1) fun _ W => Beside c names f W.1 := by
  unfold publish
  split
  · refine Hoare.alone ?_
    rintro w log r w' hbeside ⟨choice, -, h⟩
    rcases performOp_cases h with h | ⟨e, -, rfl, rfl⟩
    · simp only [act] at h
      cases hf : w.names f.path <;> cases hd : w.names c.filename <;>
        (simp only [hf, hd, Option.some.injEq, Prod.mk.injEq] at h; obtain ⟨rfl, rfl⟩ := h)
      · exact hbeside
      · exact hbeside
      · exact (hbeside.appear hd).rename
      · exact hbeside
    · exact hbeside
  · refine Hoare.alone ?_
    rintro w log r w' hbeside ⟨choice, -, h⟩
    rcases performOp_cases h with h | ⟨e, -, rfl, rfl⟩
    · simp only [act] at h
      cases hf : w.names f.path <;> cases hd : w.names c.filename <;>
        (simp only [hf, hd, Option.some.injEq, Prod.mk.injEq] at h; obtain ⟨rfl, rfl⟩ := h)
      · exact hbeside
      · exact hbeside
      · exact hbeside.appear hd
      · exact hbeside
    · exact hbeside

/-- The removal takes the temporary name away, if the publication has not done so. -/
theorem remove_clears : Hoare (solo c).traced (fun W => Beside c names f W.1)
    (Code.suppress Exc.isException (perform (.remove f)))
    (fun _ W => NothingLeft c names W.1) fun _ _ => False := by
  refine Hoare.suppress (F := fun e W => e.isException = true ∧ NothingLeft c names W.1) ?_
    (fun _ _ _ _ h => h.2) fun e W _ hkind h => absurd (hkind.symm.trans h.1) (by simp)
  refine Hoare.alone ?_
  rintro w log r w' hbeside ⟨choice, hfault, h⟩
  rw [performOp, hfault f rfl] at h
  simp only [act] at h
  cases hf : w.names f.path <;>
    (simp only [hf, Option.some.injEq, Prod.mk.injEq] at h; obtain ⟨rfl, rfl⟩ := h)
  · exact ⟨rfl, hbeside.gone hf⟩
  · exact hbeside.rename.gone (by simp)

/-- After the publication nothing is left, however it has ended. -/
theorem publishTemp_clears : Hoare (solo c).traced (fun W => Beside c names f W.1)
    (publishTemp nt c f) (fun _ W => NothingLeft c names W.1)
    fun _ W => NothingLeft c names W.1 := by
  have hclears : Hoare (solo c).traced (fun W => Beside c names f W.1)
      (Code.suppress Exc.isException (perform (.remove f)))
      (fun _ W => NothingLeft c names W.1) fun _ W => NothingLeft c names W.1 :=
    remove_clears.conseq (fun _ _ h => h) (fun _ _ _ h => h) fun _ _ _ h => h.elim
  have hboth : Hoare (solo c).traced (fun W => Beside c names f W.1)
      (Code.withFinally (publish nt f c.filename)
        (Code.suppress Exc.isException (perform (.remove f))))
      (fun _ W => NothingLeft c names W.1) fun _ W => NothingLeft c names W.1 :=
    Hoare.withFinally publish_beside (fun _ => hclears) fun _ => hclears
  exact Hoare.bind hboth fun _ => Hoare.pure fun _ _ h => h

/-- What is left after the temporary file has been created depends on the block. -/
theorem created_left_iff {trace : List (Entry World Op fun o => Except Exc (Val o))}
    {outcome : Except Exc Unit} (hlittered : Littered c names f w)
    (h : (solo c).Executes (do writeTemp c f; publishTemp nt c f : Py Unit).run w trace outcome w') :
    NothingLeft c names w' ↔
      ¬ ∃ e w₂, (solo c).Executes (writeTemp c f).run w trace (.error e) w₂ := by
  have hstill : ∀ {t r w₂}, (solo c).Executes (writeTemp c f).run w t r w₂ →
      Littered c names f w₂ := by
    rintro t r w₂ hwrite
    have hnames := writeTemp_names hwrite
    unfold Littered Beside KeptAt at hlittered ⊢
    rwa [hnames]
  rcases h.of_seq with ⟨e, -, hraised⟩ | ⟨u, before, after, w₁, rfl, hwrite, hpublish⟩
  · exact iff_of_false (hstill hraised).left fun h => h ⟨e, w', hraised⟩
  · refine iff_of_true ?_ ?_
    · have hends := publishTemp_clears.executes_alone (hstill hwrite).1 hpublish
      cases outcome with
      | ok v => exact hends
      | error e => exact hends
    · -- the same operations cannot be those of a block that has raised
      rintro ⟨e, w₂, hraised⟩
      obtain ⟨-, hsame⟩ := hwrite.decided hraised
      cases hsame

/-- However the context ends, with the removal of the temporary file possible: the
directory holds what it held and at most the destination, exactly when no exception has
left the block in which the temporary file is open. -/
theorem open_atomic_leaves_nothing_iff (nt : Bool) (c : Call)
    {trace : List (Entry World Op fun o => Except Exc (Val o))} {outcome : Except Exc Unit}
    {w w' : World} (h : (solo c).Executes (openAtomic nt c).run w trace outcome w') :
    NothingLeft c w.names w' ↔ ¬ BlockRaises c trace := by
  have hkept : ∀ {w₁ : World}, w₁.names = w.names → NothingLeft c w.names w₁ :=
    fun hnames path => Or.inl (congrFun hnames path)
  rcases h.of_call_seq with ⟨e, -, hs, rfl⟩ | ⟨present, w₁, rest₁, hs, rfl, hrest₁⟩
  · refine iff_of_true (hkept (names_first (Or.inl ⟨_, rfl⟩) hs)) ?_
    rintro ⟨_, _, _, _, _, _, _, _, _, htrace, -⟩
    cases htrace
  have hw₁ := names_first (Or.inl ⟨_, rfl⟩) hs
  split at hrest₁
  · -- the destination exists
    cases hrest₁ with
    | ret hp =>
        obtain rfl := hp.1
        refine iff_of_true (hkept hw₁) ?_
        rintro ⟨_, _, _, _, _, _, _, _, _, htrace, -⟩
        cases htrace
  rcases hrest₁.of_call_seq with ⟨e, -, hs, rfl⟩ | ⟨u, w₂, rest₂, hs, rfl, hrest₂⟩
  · refine iff_of_true (hkept ((names_first (Or.inr ⟨_, rfl⟩) hs).trans hw₁)) ?_
    rintro ⟨_, _, _, _, _, _, _, _, _, htrace, -⟩
    cases htrace
  have hw₂ := (names_first (Or.inr ⟨_, rfl⟩) hs).trans hw₁
  rcases hrest₂.of_call_seq with ⟨e, -, hs, rfl⟩ | ⟨f, w₃, block, hs, rfl, hrest₃⟩
  · rcases names_created hs with ⟨f, hok, -⟩ | ⟨-, hnames⟩
    · cases hok
    · refine iff_of_true (hkept (hnames.trans hw₂)) ?_
      rintro ⟨_, _, _, _, _, _, _, _, _, htrace, -⟩
      cases htrace
  rcases names_created hs with ⟨f', hok, hlittered⟩ | ⟨⟨e, he⟩, -⟩
  · obtain rfl := Except.ok.inj hok
    rw [hw₂] at hlittered
    refine (created_left_iff hlittered hrest₃).trans (not_congr ?_)
    constructor
    · rintro ⟨e, w₄, hraised⟩
      exact ⟨_, _, _, _, _, _, _, e, w₄, rfl, hraised⟩
    · rintro ⟨_, _, _, _, _, _, _, e, w₄, htrace, hraised⟩
      cases htrace
      exact ⟨e, w₄, hraised⟩
  · cases he

/-- The operation is the removal. -/
def Op.isRemove : Op → Bool
  | .remove _ => true
  | _ => false

/-- An operation of a call that runs alone, computed; no choice prevents the removal. -/
def soloAct (c : Call) (choice : Choice) (w : World) (o : Op) :
    Option (Except Exc (Val o) × World) :=
  if o.isRemove ∧ choice.fault ≠ none then none else performOp choice c w o

theorem performs_of_soloAct {choice : Choice} {o : Op} {r : Except Exc (Val o)}
    (h : soloAct c choice w o = some (r, w')) : Performs c w o r w' := by
  simp only [soloAct, Option.ite_none_left_eq_some] at h
  refine ⟨choice, ?_, h.2⟩
  rintro f rfl
  exact not_not.1 fun hfault => h.1 ⟨rfl, hfault⟩

theorem executes_of_soloAct {choices : List Choice}
    {trace : List (Entry World Op fun o => Except Exc (Val o))} {outcome : Except Exc Unit}
    (h : (openAtomic nt c).run.play (soloAct c) choices w = some (trace, outcome, w')) :
    (solo c).Executes (openAtomic nt c).run w trace outcome w' :=
  Context.Executes.of_play (C := solo c) performs_of_soloAct h

/-- The destination appears and the temporary name is gone: no exception has left the
block. -/
theorem open_atomic_leaves_nothing_iff_run :
    ∃ trace w', (solo greeting).Executes (openAtomic false greeting).run greeting.start.world
        trace (.ok ()) w' ∧ w'.names ['d'] = some 0 ∧ ¬ BlockRaises greeting trace := by
  have hobserve : ((openAtomic false greeting).run.play (soloAct greeting)
      (List.replicate 9 { name := ['t'] }) greeting.start.world).map
      (fun r => (r.2.1, r.2.2.names)) = some (.ok (), Function.update (Function.update
        (Function.update (fun _ => none) ['t'] (some 0)) ['d'] (some 0)) ['t'] none) := by rfl
  obtain ⟨⟨trace, outcome, w'⟩, hplay, hend⟩ := Option.map_eq_some_iff.1 hobserve
  obtain ⟨rfl, hnames⟩ := Prod.mk.inj hend
  have hex := executes_of_soloAct hplay
  refine ⟨trace, w', hex, by rw [hnames]; rfl,
    (open_atomic_leaves_nothing_iff false greeting hex).1 fun path => ?_⟩
  by_cases hdest : path = ['d']
  · exact Or.inr ⟨hdest, rfl⟩
  · refine Or.inl ?_
    rw [hnames]
    by_cases htemp : path = ['t']
    · rw [htemp, Function.update_self]
      rfl
    · rw [Function.update_of_ne htemp, Function.update_of_ne hdest, Function.update_of_ne htemp]
      rfl

/-- The body raises: the temporary file stays. -/
theorem body_exception_leaves_file :
    ¬ ∀ (nt : Bool) (c : Call) (trace : List (Entry World Op fun o => Except Exc (Val o)))
      (outcome : Except Exc Unit) (w w' : World),
      (solo c).Executes (openAtomic nt c).run w trace outcome w' → NothingLeft c w.names w' := by
  intro hclaim
  have hobserve : ((openAtomic false greeting).run.play (soloAct greeting)
      [{}, {}, { name := ['t'] }, { fault := some .runtimeError }, {}] greeting.start.world).map
      (fun r => r.2.2.names ['t']) = some (some 0) := by rfl
  obtain ⟨⟨trace, outcome, w'⟩, hplay, htemp⟩ := Option.map_eq_some_iff.1 hobserve
  have hthere : w'.names ['t'] = some 0 := htemp
  rcases hclaim false greeting trace outcome _ w' (executes_of_soloAct hplay) ['t'] with
    hsame | ⟨hdest, -⟩
  · rw [hthere] at hsame
    cases hsame
  · exact absurd hdest (by decide)

end Portalocker.OpenAtomic
