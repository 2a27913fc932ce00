import Portalocker.Utils.OpenAtomic
set_option autoImplicit false
set_option linter.unusedSectionVars false

/-!
# `open_atomic` publishes all or nothing and never replaces

The name of the temporary file is the only one of its inode until the publication, so
nothing a call does to that file shows at the destination before.  The publication
finds the file closed and complete, because `flush` raises on a file object that has
been closed before; it is refused when the destination exists.
-/

namespace Portalocker

namespace OpenAtomic

open Interleaving Interleaving.Machine

/-! ## The contract -/

/-- What every run keeps. -/
structure Inv (w : World) : Prop where
  named : ∀ {path i}, w.names path = some i → i < w.inodes
  temp : ∀ {f}, w.temp = some f → f.ino < w.inodes
  apart : ∀ {f path}, w.temp = some f → w.published = none → w.names path = some f.ino →
    path = f.path
  published_closed : w.published ≠ none → w.isOpen = false
  recorded : ∀ {b}, w.published = some b → b = w.written
  ended : ∀ {returned}, w.outcome = some returned → (returned = true ↔ w.published ≠ none)

/-- What the other programs leave alone. -/
structure Undisturbed (w w' : World) : Prop where
  temp : w'.temp = w.temp
  isOpen : w'.isOpen = w.isOpen
  pending : w'.pending = w.pending
  written : w'.written = w.written
  published : w'.published = w.published
  outcome : w'.outcome = w.outcome
  names : ∀ {f}, w.temp = some f → w'.names f.path = w.names f.path
  data : ∀ {f}, w.temp = some f → w.published = none → w'.data f.ino = w.data f.ino

/-- The call has a temporary file, which is not the destination. -/
def HasTemp (c : Call) (f : Temp) (w : World) : Prop :=
  w.temp = some f ∧ f.path ≠ c.filename ∧ w.outcome = none

/-- The temporary file has not been published. -/
def Unpublished (c : Call) (f : Temp) (w : World) : Prop :=
  HasTemp c f w ∧ w.published = none ∧ w.names f.path = some f.ino

/-- It is complete, and closed. -/
def Complete (c : Call) (f : Temp) (w : World) : Prop :=
  Unpublished c f w ∧ w.isOpen = false ∧ w.data f.ino = w.written

/-- What the call may do. -/
def Permitted (c : Call) (w : World) : Op → Prop
  | .write f _ | .flush f | .fsync f | .close f | .remove f => HasTemp c f w
  | .link f path | .rename f path => path = c.filename ∧ Complete c f w
  | .namedTemporaryFile _ => w.published = none
  | .ends returned => returned = true ↔ w.published ≠ none
  | _ => True

section Invariant

variable {c : Call} {w w' : World} {f : Temp} {path : Path}

/-- A file object that is open has not been published. -/
theorem Inv.unpublished (hi : Inv w) (ho : w.isOpen = true) : w.published = none := by
  by_contra hne
  rw [hi.published_closed hne] at ho
  cases ho

/-- A new file, under any name. -/
theorem Inv.create (hi : Inv w) (content : List UInt8) : Inv (w.create path content) := by
  refine ⟨?_, fun hf => Nat.lt_succ_of_lt (hi.temp hf), ?_, hi.published_closed, hi.recorded,
    hi.ended⟩
  · intro path' i hn
    by_cases hp : path' = path
    · subst hp
      obtain rfl : w.inodes = i := by simpa using hn
      exact Nat.lt_succ_self _
    · exact Nat.lt_succ_of_lt (hi.named (by simpa [Function.update_of_ne hp] using hn))
  · intro f path' hf hpub hn
    by_cases hp : path' = path
    · subst hp
      have hino : w.inodes = f.ino := by simpa using hn
      exact absurd (hi.temp hf) (by omega)
    · exact hi.apart hf hpub (by simpa [Function.update_of_ne hp] using hn)

/-- A name for a file that is not the unpublished temporary file. -/
theorem Inv.rename (hi : Inv w) {i : Option Nat} (hlt : ∀ j ∈ i, j < w.inodes)
    (hne : w.published = none → ∀ g ∈ w.temp, i ≠ some g.ino) : Inv (w.rename path i) := by
  refine ⟨?_, hi.temp, ?_, hi.published_closed, hi.recorded, hi.ended⟩
  · intro path' j hn
    by_cases hp : path' = path
    · subst hp
      exact hlt j (by simpa using hn)
    · exact hi.named (by simpa [Function.update_of_ne hp] using hn)
  · intro f path' hf hpub hn
    by_cases hp : path' = path
    · subst hp
      exact absurd (by simpa using hn) (hne hpub f hf)
    · exact hi.apart hf hpub (by simpa [Function.update_of_ne hp] using hn)

/-- Bytes written through the open file object. -/
theorem Inv.accept (hi : Inv w) (ho : IsOpen w f) (bytes : List UInt8) (n : Nat) :
    Inv (w.accept f bytes n) := by
  have hpub : w.published = none := hi.unpublished ho.2
  refine ⟨hi.named, hi.temp, hi.apart, hi.published_closed, ?_, hi.ended⟩
  intro b hb
  exact absurd (hpub.symm.trans hb) (by simp)

theorem Inv.closed (hi : Inv w) : Inv w.closed :=
  ⟨hi.named, hi.temp, hi.apart, fun _ => rfl, hi.recorded, hi.ended⟩

/-- The publication of the complete file. -/
theorem Inv.appear (hi : Inv w) (hc : Complete c f w) : Inv (w.appear path f.ino) := by
  obtain ⟨⟨⟨htemp, -, hout⟩, -, -⟩, hclosed, hdata⟩ := hc
  refine ⟨?_, hi.temp, ?_, fun _ => hclosed, ?_, ?_⟩
  · intro path' i hn
    by_cases hp : path' = path
    · subst hp
      obtain rfl : f.ino = i := by simpa using hn
      exact hi.temp htemp
    · exact hi.named (by simpa [Function.update_of_ne hp] using hn)
  · intro g path' _ hpub
    simp at hpub
  · intro b hb
    obtain rfl : w.data f.ino = b := by simpa using hb
    exact hdata
  · intro returned hr
    exact absurd (hout.symm.trans hr) (by simp)

/-- The temporary file is created under its name. -/
theorem Inv.opened (hi : Inv w) (dir name : Path) (hpub : w.published = none) :
    Inv { w.create (join dir name) [] with
      temp := some ⟨join dir name, w.inodes⟩, isOpen := true, pending := [] } := by
  have hcreated : Inv (w.create (join dir name) []) := hi.create []
  refine ⟨hcreated.named, ?_, ?_, fun hne => absurd hpub hne, hi.recorded, hi.ended⟩
  · rintro g ⟨⟩
    exact Nat.lt_succ_self _
  · rintro g path ⟨⟩ _ hn
    by_contra hp
    have hold : w.names path = some w.inodes := by
      simpa [Function.update_of_ne hp] using hn
    exact absurd (hi.named hold) (by omega)

/-- The publication of the complete file takes it as its name says. -/
theorem Complete.names (hc : Complete c f w) : w.names f.path = some f.ino := hc.1.2.2

/-- A permitted operation that takes effect keeps the invariant. -/
theorem Inv.act {choice : Choice} {o : Op} {r : Except Exc (Val o)} (hi : Inv w)
    (hpre : Permitted c w o) (h : act choice c w o = some (r, w')) : Inv w' := by
  cases o with
  | begins =>
      simp only [OpenAtomic.act, Option.some.injEq, Prod.mk.injEq] at h
      obtain ⟨-, rfl⟩ := h
      exact ⟨hi.named, by simp, by simp, by simp, by simp, by simp⟩
  | ends returned =>
      simp only [OpenAtomic.act, Option.some.injEq, Prod.mk.injEq] at h
      obtain ⟨-, rfl⟩ := h
      refine ⟨hi.named, hi.temp, hi.apart, hi.published_closed, hi.recorded, ?_⟩
      intro returned' hr
      obtain rfl : returned = returned' := by simpa using hr
      exact hpre
  | pathExists path | mkdir path =>
      simp only [OpenAtomic.act, Option.some.injEq, Prod.mk.injEq] at h
      exact h.2 ▸ hi
  | namedTemporaryFile dir =>
      simp only [OpenAtomic.act, Option.ite_none_right_eq_some, Option.some.injEq,
        Prod.mk.injEq] at h
      obtain ⟨-, -, rfl⟩ := h
      exact hi.opened dir choice.name hpre
  | write g bytes =>
      simp only [OpenAtomic.act] at h
      split at h <;> (simp only [Option.some.injEq, Prod.mk.injEq] at h; obtain ⟨-, rfl⟩ := h)
      · exact hi.accept ‹_› _ _
      · exact hi
  | flush g =>
      simp only [OpenAtomic.act] at h
      split at h <;> (simp only [Option.some.injEq, Prod.mk.injEq] at h; obtain ⟨-, rfl⟩ := h)
      · exact hi.accept ‹_› _ _
      · exact hi
  | fsync g =>
      simp only [OpenAtomic.act] at h
      split at h <;> (simp only [Option.some.injEq, Prod.mk.injEq] at h; obtain ⟨-, rfl⟩ := h)
      · exact hi
      · exact hi
  | close g =>
      simp only [OpenAtomic.act] at h
      split at h <;> (simp only [Option.some.injEq, Prod.mk.injEq] at h; obtain ⟨-, rfl⟩ := h)
      · exact (hi.accept ‹_› _ _).closed
      · exact hi
  | link g path =>
      simp only [OpenAtomic.act, hpre.2.names] at h
      cases hn : w.names path <;>
        (simp only [hn, Option.some.injEq, Prod.mk.injEq] at h; obtain ⟨-, rfl⟩ := h)
      · exact hi.appear hpre.2
      · exact hi
  | rename g path =>
      simp only [OpenAtomic.act, hpre.2.names] at h
      cases hn : w.names path <;>
        (simp only [hn, Option.some.injEq, Prod.mk.injEq] at h; obtain ⟨-, rfl⟩ := h)
      · exact (hi.appear hpre.2).rename (by simp) (by simp)
      · exact hi
  | remove g =>
      simp only [OpenAtomic.act] at h
      split at h <;> (simp only [Option.some.injEq, Prod.mk.injEq] at h; obtain ⟨-, rfl⟩ := h)
      · exact hi
      · exact hi.rename (by simp) (by simp)

/-- An operation that raises keeps it as well. -/
theorem Inv.afterFault (hi : Inv w) (n : Nat) (o : Op) : Inv (afterFault n w o) := by
  unfold OpenAtomic.afterFault
  split
  · split
    · exact hi.accept ‹_› _ _
    · exact hi
  · split
    · exact hi.accept ‹_› _ _
    · exact hi
  · split
    · exact (hi.accept ‹_› _ _).closed
    · exact hi
  · exact hi

theorem performOp_cases {choice : Choice} {o : Op} {r : Except Exc (Val o)}
    (h : performOp choice c w o = some (r, w')) :
    act choice c w o = some (r, w') ∨
      ∃ e, mayRaise o e = true ∧ r = .error e ∧ w' = OpenAtomic.afterFault choice.count w o := by
  unfold performOp at h
  cases hf : choice.fault with
  | none => exact Or.inl (by simpa [hf] using h)
  | some e =>
      simp only [hf, Option.ite_none_right_eq_some, Option.some.injEq, Prod.mk.injEq] at h
      exact Or.inr ⟨e, h.1, h.2.1.symm, h.2.2.symm⟩

theorem Inv.perform {choice : Choice} {o : Op} {r : Except Exc (Val o)} (hi : Inv w)
    (hpre : Permitted c w o) (h : performOp choice c w o = some (r, w')) : Inv w' := by
  rcases performOp_cases h with h | ⟨e, -, -, rfl⟩
  · exact hi.act hpre h
  · exact hi.afterFault _ _

/-! ### The others -/

/-- The files of the others are none of the call's. -/
theorem Undisturbed.create (hi : Inv w) (hforeign : w.Foreign path) (content : List UInt8) :
    Undisturbed w (w.create path content) := by
  refine ⟨rfl, rfl, rfl, rfl, rfl, rfl, fun hf => ?_, fun {f} hf _ => ?_⟩
  · exact Function.update_of_ne (hforeign _ hf) _ _
  · have hne : f.ino ≠ w.inodes := by
      have := hi.temp hf
      omega
    exact Function.update_of_ne hne _ _

theorem Undisturbed.rename (hforeign : w.Foreign path) (i : Option Nat) :
    Undisturbed w (w.rename path i) :=
  ⟨rfl, rfl, rfl, rfl, rfl, rfl, fun hf => Function.update_of_ne (hforeign _ hf) _ _,
    fun _ _ => rfl⟩

/-- What other programs do keeps the invariant and leaves the call alone. -/
theorem Inv.elsewhere {e : Elsewhere} (hi : Inv w) (h : elsewhere w e = some w') :
    Inv w' ∧ Undisturbed w w' := by
  cases e with
  | create path content =>
      simp only [OpenAtomic.elsewhere, Option.ite_none_right_eq_some, Option.some.injEq] at h
      obtain ⟨hforeign, rfl⟩ := h
      exact ⟨hi.create content, .create hi hforeign content⟩
  | link source path =>
      simp only [OpenAtomic.elsewhere, Option.ite_none_right_eq_some, Option.some.injEq] at h
      obtain ⟨⟨hsource, hforeign⟩, rfl⟩ := h
      refine ⟨hi.rename (fun j hj => hi.named hj) ?_, .rename hforeign _⟩
      intro hpub g hg hn
      exact hsource g hg (hi.apart hg hpub hn).symm
  | remove path =>
      simp only [OpenAtomic.elsewhere, Option.ite_none_right_eq_some, Option.some.injEq] at h
      obtain ⟨hforeign, rfl⟩ := h
      exact ⟨hi.rename (by simp) (by simp), .rename hforeign none⟩
  | store i content =>
      simp only [OpenAtomic.elsewhere, Option.ite_none_right_eq_some, Option.some.injEq] at h
      obtain ⟨hallowed, rfl⟩ := h
      refine ⟨⟨hi.named, hi.temp, hi.apart, hi.published_closed, hi.recorded, hi.ended⟩, rfl, rfl,
        rfl, rfl, rfl, rfl, fun _ => rfl, fun hf hpub => ?_⟩
      have hne := hallowed.resolve_left (fun h => h hpub) _ hf
      exact Function.update_of_ne hne _ _

theorem Undisturbed.trans {w'' : World} (h₁ : Undisturbed w w') (h₂ : Undisturbed w' w'') :
    Undisturbed w w'' where
  temp := h₂.temp.trans h₁.temp
  isOpen := h₂.isOpen.trans h₁.isOpen
  pending := h₂.pending.trans h₁.pending
  written := h₂.written.trans h₁.written
  published := h₂.published.trans h₁.published
  outcome := h₂.outcome.trans h₁.outcome
  names := fun hf => (h₂.names (h₁.temp.trans hf)).trans (h₁.names hf)
  data := fun hf hpub =>
    (h₂.data (h₁.temp.trans hf) (h₁.published.trans hpub)).trans (h₁.data hf hpub)

end Invariant

/-- The contract of a call with the other programs. -/
def discipline (nt : Bool) : Discipline (machine nt) (Guard.free (machine nt)) where
  inv := Inv
  rely _ := Undisturbed
  pre _ c w o := Permitted c w o
  idle _ _ := True
  rely_refl _ _ := ⟨rfl, rfl, rfl, rfl, rfl, rfl, fun _ => rfl, fun _ _ => rfl⟩
  rely_trans := Undisturbed.trans
  inv_perform := fun hi hpre _ h => hi.perform hpre h
  rely_perform := fun _ _ _ _ _ hq => absurd rfl hq
  inv_event := fun hi h => (hi.elsewhere h).1
  rely_event := fun hi h _ => (hi.elsewhere h).2
  idle_stable := fun _ _ _ h => h

/-! ## The code of a call -/

section Triples

variable {nt : Bool} {c : Call} {f : Temp}

/-- The context of a call. -/
abbrev ctx (nt : Bool) (c : Call) : Context World Op fun o => Except Exc (Val o) :=
  (discipline nt).context () c

/-- A triple about code inside the call `c`. -/
abbrev Triple (nt : Bool) (c : Call) {α : Type} (P : World → Prop) (x : Py α)
    (Q : α → World → Prop) (E : Exc → World → Prop) : Prop :=
  Hoare (ctx nt c) P x Q E

/-- No file has been made for this call. -/
def Begun (w : World) : Prop :=
  w.temp = none ∧ w.published = none ∧ w.outcome = none ∧ w.written = []

/-- As long as the file object is open, nothing the body has written is lost. -/
def Writing (c : Call) (f : Temp) (w : World) : Prop :=
  Unpublished c f w ∧ (w.isOpen = true → w.data f.ino ++ w.pending = w.written)

/-- All that the body has written is in the file. -/
def Flushed (c : Call) (f : Temp) (w : World) : Prop :=
  Unpublished c f w ∧ w.isOpen = true ∧ w.pending = [] ∧ w.data f.ino = w.written

/-- The file has been published. -/
def Appeared (c : Call) (f : Temp) (w : World) : Prop := HasTemp c f w ∧ w.published ≠ none

/-- The call has not published anything. -/
def Withheld (w : World) : Prop := w.published = none ∧ w.outcome = none

theorem stable_of {P : World → Prop} (h : ∀ {w w'}, Undisturbed w w' → P w → P w') :
    (ctx nt c).Stable P :=
  ⟨fun _ _ hu hP => h hu hP⟩

theorem HasTemp.undisturbed {w w' : World} (hu : Undisturbed w w') (h : HasTemp c f w) :
    HasTemp c f w' :=
  ⟨hu.temp.trans h.1, h.2.1, hu.outcome.trans h.2.2⟩

theorem Unpublished.undisturbed {w w' : World} (hu : Undisturbed w w') (h : Unpublished c f w) :
    Unpublished c f w' :=
  ⟨h.1.undisturbed hu, hu.published.trans h.2.1, (hu.names h.1.1).trans h.2.2⟩

instance stable_begun : (ctx nt c).Stable Begun :=
  stable_of fun hu h => ⟨hu.temp.trans h.1, hu.published.trans h.2.1, hu.outcome.trans h.2.2.1,
    hu.written.trans h.2.2.2⟩

instance stable_unpublished : (ctx nt c).Stable (Unpublished c f) :=
  stable_of fun hu h => h.undisturbed hu

instance stable_writing : (ctx nt c).Stable (Writing c f) :=
  stable_of fun hu h => ⟨h.1.undisturbed hu, fun ho => by
    rw [hu.data h.1.1.1 h.1.2.1, hu.pending, hu.written]
    exact h.2 (hu.isOpen ▸ ho)⟩

instance stable_flushed : (ctx nt c).Stable (Flushed c f) :=
  stable_of fun hu h => ⟨h.1.undisturbed hu, hu.isOpen.trans h.2.1, hu.pending.trans h.2.2.1,
    (hu.data h.1.1.1 h.1.2.1).trans (h.2.2.2.trans hu.written.symm)⟩

instance stable_complete : (ctx nt c).Stable (Complete c f) :=
  stable_of fun hu h => ⟨h.1.undisturbed hu, hu.isOpen.trans h.2.1,
    (hu.data h.1.1.1 h.1.2.1).trans (h.2.2.trans hu.written.symm)⟩

instance stable_appeared : (ctx nt c).Stable (Appeared c f) :=
  stable_of fun hu h => ⟨h.1.undisturbed hu, fun hnone => h.2 (hu.published ▸ hnone)⟩

instance stable_withheld : (ctx nt c).Stable Withheld :=
  stable_of fun hu h => ⟨hu.published.trans h.1, hu.outcome.trans h.2⟩

/-- One operation. -/
theorem op_rule {o : Op} {P : World → Prop} {Q : Val o → World → Prop} {E : Exc → World → Prop}
    [(ctx nt c).Stable P] [∀ v, (ctx nt c).Stable (Q v)]
    [∀ e, (ctx nt c).Stable (E e)]
    (hpre : ∀ w, Inv w → P w → Permitted c w o)
    (hact : ∀ w choice r w', Inv w → P w → act choice c w o = some (r, w') → Ends Q E r w')
    (hfault : ∀ w e n, Inv w → P w → mayRaise o e = true → E e (afterFault n w o)) :
    Triple nt c P (perform o) Q E := by
  have hstep : ∀ w r w', Inv w → P w → (ctx nt c).step w o r w' →
      Ends Q E r w' := by
    rintro w r w' hw hp ⟨-, choice, h⟩
    rcases performOp_cases h with h | ⟨e, he, rfl, rfl⟩
    · exact hact w choice r w' hw hp h
    · exact hfault w e _ hw hp he
  exact Hoare.step (fun w hw hp => hpre w hw hp) fun w r w' hw _ hp hs => hstep w r w' hw hp hs

/-! ### Writing -/

/-- Accepted bytes are in the file or in the buffer. -/
theorem Writing.accept {w : World} (h : Writing c f w) (ho : w.isOpen = true)
    (bytes : List UInt8) (n : Nat) : Writing c f (w.accept f bytes n) := by
  refine ⟨h.1, fun _ => ?_⟩
  simp only [World.accept_data, Function.update_self, World.accept_pending, List.append_assoc,
    List.take_append_drop, World.accept_written]
  rw [← List.append_assoc, h.2 ho]

/-- The body keeps what it has written, until the file object is closed. -/
theorem body_rule : Triple nt c (Writing c f) (c.body f) (fun _ => Writing c f)
    fun _ => Writing c f := by
  refine Hoare.within (c.body_onFile f) ?_
  intro w o _ hw hkind
  have hpermitted : Permitted c w o := by
    cases o with
    | write g bytes | flush g | fsync g | close g =>
        obtain rfl : g = f := hkind
        exact hw.1.1
    | begins | ends | pathExists | mkdir | namedTemporaryFile | link | rename | remove =>
        exact hkind.elim
  refine ⟨hpermitted, ?_⟩
  rintro r w' ⟨-, choice, h⟩
  have hclosed : ∀ {w : World}, Writing c f w → Writing c f w.closed :=
    fun hw => ⟨hw.1, fun ho => by cases ho⟩
  rcases performOp_cases h with h | ⟨e, -, -, rfl⟩
  · cases o with
    | write g bytes | flush g =>
        obtain rfl : g = f := hkind
        simp only [act] at h
        split at h <;> (simp only [Option.some.injEq, Prod.mk.injEq] at h; obtain ⟨-, rfl⟩ := h)
        · exact hw.accept (‹IsOpen w g› : IsOpen w g).2 _ _
        · exact hw
    | fsync g =>
        simp only [act] at h
        split at h <;> (simp only [Option.some.injEq, Prod.mk.injEq] at h; obtain ⟨-, rfl⟩ := h)
        · exact hw
        · exact hw
    | close g =>
        obtain rfl : g = f := hkind
        simp only [act] at h
        split at h <;> (simp only [Option.some.injEq, Prod.mk.injEq] at h; obtain ⟨-, rfl⟩ := h)
        · exact hclosed (hw.accept (‹IsOpen w g› : IsOpen w g).2 _ _)
        · exact hw
    | begins | ends | pathExists | mkdir | namedTemporaryFile | link | rename | remove =>
        exact hkind.elim
  · unfold afterFault
    split
    · obtain rfl := (hkind : _ = f)
      split
      · exact hw.accept (‹IsOpen w _› : IsOpen w _).2 _ _
      · exact hw
    · obtain rfl := (hkind : _ = f)
      split
      · exact hw.accept (‹IsOpen w _› : IsOpen w _).2 _ _
      · exact hw
    · obtain rfl := (hkind : _ = f)
      split
      · exact hclosed (hw.accept (‹IsOpen w _› : IsOpen w _).2 _ _)
      · exact hw
    · exact hw

/-- `flush` and `fsync` raise on a file object that the body has closed. -/
theorem flush_rule : Triple nt c (Writing c f) (perform (.flush f)) (fun _ => Flushed c f)
    fun _ => Unpublished c f := by
  refine op_rule (fun w _ hw => hw.1.1) ?_ ?_
  · intro w choice r w' _ hw h
    simp only [act] at h
    split at h <;> (simp only [Option.some.injEq, Prod.mk.injEq] at h; obtain ⟨rfl, rfl⟩ := h)
    · have ho : w.isOpen = true := (‹IsOpen w f› : IsOpen w f).2
      refine ⟨hw.1, ho, by simp, ?_⟩
      simpa using hw.2 ho
    · exact hw.1
  · intro w e n _ hw _
    simp only [afterFault]
    split
    · exact hw.1
    · exact hw.1

theorem fsync_rule : Triple nt c (Flushed c f) (perform (.fsync f)) (fun _ => Flushed c f)
    fun _ => Unpublished c f := by
  refine op_rule (fun w _ hw => hw.1.1) ?_ fun w e n _ hw _ => hw.1
  intro w choice r w' _ hw h
  simp only [act] at h
  split at h <;> (simp only [Option.some.injEq, Prod.mk.injEq] at h; obtain ⟨rfl, rfl⟩ := h)
  · exact hw
  · exact hw.1

/-- Closing the complete file, and closing after an exception. -/
theorem close_rule : Triple nt c (Flushed c f) (perform (.close f)) (fun _ => Complete c f)
    fun _ => Withheld := by
  refine op_rule (fun w _ hw => hw.1.1) ?_ ?_
  · rintro w choice r w' _ ⟨hun, ho, hpending, hdata⟩ h
    simp only [act, if_pos (show IsOpen w f from ⟨hun.1.1, ho⟩), Option.some.injEq,
      Prod.mk.injEq] at h
    obtain ⟨rfl, rfl⟩ := h
    refine ⟨hun, rfl, ?_⟩
    simpa [hpending] using hdata
  · intro w e n _ hw _
    simp only [afterFault]
    split
    · exact ⟨hw.1.2.1, hw.1.1.2.2⟩
    · exact ⟨hw.1.2.1, hw.1.1.2.2⟩

theorem closeFailed_rule : Triple nt c (Unpublished c f) (perform (.close f)) (fun _ => Withheld)
    fun _ => Withheld := by
  have hwithheld : ∀ {w : World}, Unpublished c f w → Withheld w := fun h => ⟨h.2.1, h.1.2.2⟩
  refine op_rule (fun w _ hw => hw.1) ?_ ?_
  · intro w choice r w' _ hw h
    simp only [act] at h
    split at h <;> (simp only [Option.some.injEq, Prod.mk.injEq] at h; obtain ⟨rfl, rfl⟩ := h)
    · exact hwithheld (w := (w.accept f [] w.pending.length).closed) hw
    · exact hwithheld hw
  · intro w e n _ hw _
    simp only [afterFault]
    split
    · exact hwithheld (w := (w.accept f [] n).closed) hw
    · exact hwithheld hw

/-- The block leaves the file complete, or an exception leaves the block. -/
theorem writeTemp_rule : Triple nt c (Writing c f) (writeTemp c f) (fun _ => Complete c f)
    fun _ => Withheld := by
  have hblock : Triple nt c (Writing c f) (do
      c.body f
      perform (.flush f)
      perform (.fsync f)) (fun _ => Flushed c f) (fun _ => Unpublished c f) := by
    refine Hoare.bind (body_rule.conseq (fun _ _ h => h) (fun _ _ _ h => h) fun _ _ _ h => h.1)
      fun _ => ?_
    exact Hoare.bind flush_rule fun _ => fsync_rule
  refine Hoare.bind (R := fun _ => Complete c f) ?_ fun _ => Hoare.pure fun _ _ h => h
  exact Hoare.withFinally hblock (fun _ => close_rule) fun _ => closeFailed_rule

/-! ### Publishing -/

/-- The publication shows the complete file, or does nothing. -/
theorem publish_rule : Triple nt c (Complete c f) (publish nt f c.filename)
    (fun _ => Appeared c f) fun _ => Unpublished c f := by
  unfold publish
  split
  · refine op_rule (fun w _ hw => ⟨rfl, hw⟩) ?_ fun w e n _ hw _ => hw.1
    intro w choice r w' _ hw h
    simp only [act, hw.names] at h
    cases hn : w.names c.filename <;>
      (simp only [hn, Option.some.injEq, Prod.mk.injEq] at h; obtain ⟨rfl, rfl⟩ := h)
    · exact ⟨hw.1.1, by simp⟩
    · exact hw.1
  · refine op_rule (fun w _ hw => ⟨rfl, hw⟩) ?_ fun w e n _ hw _ => hw.1
    intro w choice r w' _ hw h
    simp only [act, hw.names] at h
    cases hn : w.names c.filename <;>
      (simp only [hn, Option.some.injEq, Prod.mk.injEq] at h; obtain ⟨rfl, rfl⟩ := h)
    · exact ⟨hw.1.1, by simp⟩
    · exact hw.1

/-- Removing the temporary name changes nothing that has been published. -/
theorem remove_rule {P Q : World → Prop} [(ctx nt c).Stable P] [(ctx nt c).Stable Q]
    (hP : ∀ w, P w → HasTemp c f w ∧ Q w) (hQ : ∀ w, Q w → Q (w.rename f.path none)) :
    Triple nt c P (Code.suppress Exc.isException (perform (.remove f))) (fun _ => Q)
      fun _ _ => False := by
  refine Hoare.suppress (F := fun e w => e.isException = true ∧ Q w) ?_ (fun _ _ _ _ h => h.2)
    fun e w _ hkind h => absurd (hkind.symm.trans h.1) (by simp)
  refine op_rule (fun w _ hw => (hP w hw).1) ?_ fun w e n _ hw he => ⟨he, (hP w hw).2⟩
  intro w choice r w' _ hw h
  simp only [act] at h
  split at h <;> (simp only [Option.some.injEq, Prod.mk.injEq] at h; obtain ⟨rfl, rfl⟩ := h)
  · exact ⟨rfl, (hP w hw).2⟩
  · exact hQ w (hP w hw).2

/-- After it the file has been published, or an exception is raised. -/
theorem publishTemp_rule : Triple nt c (Complete c f) (publishTemp nt c f)
    (fun _ w => w.published ≠ none ∧ w.outcome = none) fun _ => Withheld := by
  have hstable : (ctx nt c).Stable fun w => w.published ≠ none ∧ w.outcome = none :=
    stable_of fun hu h => ⟨fun hnone => h.1 (hu.published ▸ hnone), hu.outcome.trans h.2⟩
  refine Hoare.bind (R := fun _ w => w.published ≠ none ∧ w.outcome = none) ?_
    fun _ => Hoare.pure fun _ _ h => h
  refine Hoare.withFinally publish_rule (fun _ => ?_) fun _ => ?_
  · exact (remove_rule (Q := fun w => w.published ≠ none ∧ w.outcome = none)
      (fun w hw => ⟨hw.1, hw.2, hw.1.2.2⟩) fun _ h => h).conseq (fun _ _ h => h)
      (fun _ _ _ h => h) fun _ _ _ h => h.elim
  · exact (remove_rule (Q := Withheld) (fun w (hw : Unpublished c f w) =>
      ⟨hw.1, hw.2.1, hw.1.2.2⟩) fun _ h => h).conseq (fun _ _ h => h) (fun _ _ _ h => h)
      fun _ _ _ h => h.elim

/-! ### The whole call -/

theorem namedTemporaryFile_rule (dir : Path) :
    Triple nt c Begun (perform (.namedTemporaryFile dir)) (fun f => Writing c f)
      fun _ => Withheld := by
  refine op_rule (fun w _ hw => hw.2.1) ?_ fun w e n _ hw _ => ⟨hw.2.1, hw.2.2.1⟩
  rintro w choice r w' _ ⟨-, hpub, hout, hwritten⟩ h
  simp only [act, Option.ite_none_right_eq_some, Option.some.injEq, Prod.mk.injEq] at h
  obtain ⟨⟨-, hne⟩, rfl, rfl⟩ := h
  exact ⟨⟨⟨rfl, hne, hout⟩, hpub, by simp⟩, fun _ => by simp [hwritten]⟩

/-- An operation before there is a file. -/
theorem begun_rule {o : Op} (hpre : ∀ w, Permitted c w o)
    (hact : ∀ w choice r w', act choice c w o = some (r, w') → w' = w)
    (hfault : ∀ n w, afterFault n w o = w) :
    Triple nt c Begun (perform o) (fun _ => Begun) fun _ => Withheld := by
  refine op_rule (fun w _ _ => hpre w) ?_ fun w e n _ hw _ => ?_
  · intro w choice r w' _ hw h
    obtain rfl := hact w choice r w' h
    cases r with
    | ok v => exact hw
    | error e => exact ⟨hw.2.1, hw.2.2.1⟩
  · rw [hfault]
    exact ⟨hw.2.1, hw.2.2.1⟩

theorem openAtomic_rule : Triple nt c Begun (openAtomic nt c)
    (fun _ w => w.published ≠ none ∧ w.outcome = none) fun _ => Withheld := by
  refine Hoare.bind (R := fun _ => Begun) (begun_rule (fun _ => trivial) ?_ fun _ _ => rfl)
    fun present => ?_
  · intro w choice r w' h
    simp only [act, Option.some.injEq, Prod.mk.injEq] at h
    exact h.2.symm
  split
  · exact Hoare.throw fun w _ hw => ⟨hw.2.1, hw.2.2.1⟩
  · refine Hoare.bind (R := fun _ => Begun) (begun_rule (fun _ => trivial) ?_ fun _ _ => rfl)
      fun _ => ?_
    · intro w choice r w' h
      simp only [act, Option.some.injEq, Prod.mk.injEq] at h
      exact h.2.symm
    · exact Hoare.bind (namedTemporaryFile_rule _) fun f =>
        Hoare.bind writeTemp_rule fun _ => publishTemp_rule

theorem statement_rule : Triple nt c (fun _ => True) (statement nt c) (fun _ _ => True)
    fun _ _ => True := by
  have hstable : (ctx nt c).Stable fun w => w.published ≠ none ∧ w.outcome = none :=
    stable_of fun hu h => ⟨fun hnone => h.1 (hu.published ▸ hnone), hu.outcome.trans h.2⟩
  refine Hoare.bind (R := fun _ => Begun) (op_rule (fun _ _ _ => trivial) ?_
    fun _ _ _ _ _ _ => trivial) fun _ => ?_
  · intro w choice r w' _ _ h
    simp only [act, Option.some.injEq, Prod.mk.injEq] at h
    obtain ⟨rfl, rfl⟩ := h
    exact ⟨rfl, rfl, rfl, rfl⟩
  refine Hoare.bind (R := Ends (fun _ w => w.published ≠ none ∧ w.outcome = none)
    fun _ => Withheld) (Hoare.attempt openAtomic_rule) fun outcome => ?_
  refine op_rule (fun w _ hw => ?_) (fun _ _ r _ _ _ _ => ?_) fun _ _ _ _ _ _ => trivial
  · cases outcome with
    | ok v => exact ⟨fun _ => hw.1, fun _ => rfl⟩
    | error e => exact ⟨fun h => (by cases h), fun h => absurd hw.1 h⟩
  · cases r <;> trivial

end Triples

/-- Every call keeps the contract. -/
theorem statement_verified (nt : Bool) : (discipline nt).Verified := by
  intro p (c : Call) w hw _ _
  have hstable : (ctx nt c).Stable fun _ => True := inferInstance
  exact Hoare.toCall hstable statement_rule hw trivial

/-! ## In every run -/

section Runs

variable {nt : Bool} {c : Call} {w w' : World}

/-- No call has been made, and there are any files. -/
structure Start (w : World) : Prop where
  named : ∀ path i, w.names path = some i → i < w.inodes
  temp : w.temp = none
  published : w.published = none
  outcome : w.outcome = none

/-- The path names the same file as before, with the same content. -/
def SameAt (path : Path) (w w' : World) : Prop := w'.lookup path = w.lookup path

/-- The path has named nothing, and names a file now that holds what the body has
written. -/
def AppearsAt (path : Path) (w w' : World) : Prop :=
  w.lookup path = none ∧ (w'.lookup path).map Prod.snd = some w.written ∧
    w'.published = some w.written

/-- A path that names another file is not concerned. -/
theorem lookup_store {path : Path} {i : Nat} (hne : w.names path ≠ some i) (content : List UInt8) :
    (w.store i content).lookup path = w.lookup path := by
  unfold World.lookup
  cases hn : w.names path with
  | none => simp [hn]
  | some j =>
      have : j ≠ i := fun heq => hne (heq ▸ hn)
      simp [hn, Function.update_of_ne this]

theorem lookup_rename {path path' : Path} (hne : path' ≠ path) (i : Option Nat) :
    (w.rename path' i).lookup path = w.lookup path := by
  simp [World.lookup, Function.update_of_ne hne.symm]

/-- Writing to the temporary file is not seen at the destination. -/
theorem lookup_accept {f : Temp} (hi : Inv w) (hf : HasTemp c f w) (ho : IsOpen w f)
    (bytes : List UInt8) (n : Nat) : (w.accept f bytes n).lookup c.filename = w.lookup c.filename :=
  lookup_store (fun hn => hf.2.1 (hi.apart hf.1 (hi.unpublished ho.2) hn).symm) _

/-- The publication is seen at the destination and nowhere else. -/
theorem appearsAt_appear {f : Temp} (hc : Complete c f w) (hn : w.names c.filename = none) :
    AppearsAt c.filename w (w.appear c.filename f.ino) := by
  obtain ⟨-, -, hdata⟩ := hc
  exact ⟨by simp [World.lookup, hn], by simp [World.lookup, hdata], by simp [hdata]⟩

/-- What a permitted operation does to the destination. -/
theorem Inv.destination {choice : Choice} {o : Op} {r : Except Exc (Val o)} (hi : Inv w)
    (hpre : Permitted c w o) (h : performOp choice c w o = some (r, w')) :
    SameAt c.filename w w' ∨ AppearsAt c.filename w w' := by
  rcases performOp_cases h with h | ⟨e, -, -, rfl⟩
  · cases o with
    | begins | ends returned | pathExists path | mkdir path =>
        simp only [OpenAtomic.act, Option.some.injEq, Prod.mk.injEq] at h
        obtain ⟨-, rfl⟩ := h
        exact Or.inl rfl
    | namedTemporaryFile dir =>
        simp only [OpenAtomic.act, Option.ite_none_right_eq_some, Option.some.injEq,
          Prod.mk.injEq] at h
        obtain ⟨⟨-, hne⟩, -, rfl⟩ := h
        refine Or.inl ?_
        have hold : w.names c.filename ≠ some w.inodes := fun hn =>
          absurd (hi.named hn) (by omega)
        exact (lookup_rename hne (some w.inodes)).trans (lookup_store hold [])
    | write f bytes | flush f =>
        simp only [OpenAtomic.act] at h
        split at h <;> (simp only [Option.some.injEq, Prod.mk.injEq] at h; obtain ⟨-, rfl⟩ := h)
        · exact Or.inl (lookup_accept hi hpre ‹_› _ _)
        · exact Or.inl rfl
    | close f =>
        simp only [OpenAtomic.act] at h
        split at h <;> (simp only [Option.some.injEq, Prod.mk.injEq] at h; obtain ⟨-, rfl⟩ := h)
        · exact Or.inl (lookup_accept hi hpre ‹_› [] w.pending.length)
        · exact Or.inl rfl
    | fsync f =>
        simp only [OpenAtomic.act] at h
        split at h <;> (simp only [Option.some.injEq, Prod.mk.injEq] at h; obtain ⟨-, rfl⟩ := h)
        · exact Or.inl rfl
        · exact Or.inl rfl
    | link f path =>
        obtain ⟨rfl, hc⟩ := hpre
        simp only [OpenAtomic.act, hc.names] at h
        cases hn : w.names c.filename <;>
          (simp only [hn, Option.some.injEq, Prod.mk.injEq] at h; obtain ⟨-, rfl⟩ := h)
        · exact Or.inr (appearsAt_appear hc hn)
        · exact Or.inl rfl
    | rename f path =>
        obtain ⟨rfl, hc⟩ := hpre
        simp only [OpenAtomic.act, hc.names] at h
        cases hn : w.names c.filename <;>
          (simp only [hn, Option.some.injEq, Prod.mk.injEq] at h; obtain ⟨-, rfl⟩ := h)
        · obtain ⟨hbefore, hafter, hpub⟩ := appearsAt_appear hc hn
          refine Or.inr ⟨hbefore, ?_, hpub⟩
          rw [lookup_rename hc.1.1.2.1]
          exact hafter
        · exact Or.inl rfl
    | remove f =>
        simp only [OpenAtomic.act] at h
        split at h <;> (simp only [Option.some.injEq, Prod.mk.injEq] at h; obtain ⟨-, rfl⟩ := h)
        · exact Or.inl rfl
        · exact Or.inl (lookup_rename hpre.2.1 none)
  · unfold OpenAtomic.afterFault
    split
    · split
      · exact Or.inl (lookup_accept hi hpre ‹_› _ _)
      · exact Or.inl rfl
    · split
      · exact Or.inl (lookup_accept hi hpre ‹_› _ _)
      · exact Or.inl rfl
    · split
      · exact Or.inl (lookup_accept hi hpre ‹_› [] choice.count)
      · exact Or.inl rfl
    · exact Or.inl rfl

/-- In every run, whatever the body does, whatever fails, and whatever other programs do
at the destination: an operation of a call leaves the destination as it is, or makes it
appear where nothing is, with exactly the bytes the body has written; and a call ends
without an exception exactly when it has done so. -/
theorem open_atomic_never_replaces {s : (machine nt).State}
    (hs : Reach Start (Guard.free (machine nt)) s) :
    (∀ c o k choice s', s.thread () = some (c, .op o k) → next s (.op () choice) = some s' →
      SameAt c.filename (files s) (files s') ∨ AppearsAt c.filename (files s) (files s')) ∧
    (∀ bytes, (files s).published = some bytes → bytes = (files s).written) ∧
    ∀ returned, (files s).outcome = some returned →
      (returned = true ↔ (files s).published ≠ none) := by
  have hhold : (discipline nt).Holds s := by
    refine (statement_verified nt).sound (fun w (hw : Start w) => ⟨?_, fun _ => trivial⟩) hs
    exact ⟨fun hn => hw.named _ _ hn, by simp [hw.temp], by simp [hw.temp],
      fun hne => absurd hw.published hne, by simp [hw.published], by simp [hw.outcome]⟩
  have hi : Inv (files s) := hhold.1
  refine ⟨?_, fun bytes => hi.recorded, fun returned => hi.ended⟩
  intro c o k choice s' hthread hn
  obtain ⟨c', o', k', r, hthread', hperform, -⟩ := next_op hn
  obtain ⟨rfl, hprog⟩ := Prod.mk.inj (Option.some.inj (hthread.symm.trans hthread'))
  obtain ⟨rfl, -⟩ := Program.op.inj hprog
  exact hi.destination (hhold.permitted hthread) hperform

/-- A call whose body writes two bytes. -/
def greeting : Call where
  filename := ['d']
  body f := perform (.write f [104, 105])
  body_onFile _ := .call rfl

/-- No file exists. -/
def greeting.start : (machine false).State where
  world := {
    names := fun _ => none, data := fun _ => [], inodes := 0, temp := none, isOpen := false,
    pending := [], written := [], published := none, outcome := none }
  thread := fun _ => none

theorem greeting.start_start : Start greeting.start.world :=
  ⟨fun _ _ h => (by cases h), rfl, rfl, rfl⟩

/-- The call up to its `n`th operation. -/
def greeting.performs (n : Nat) : List (machine false).Label :=
  .call () greeting :: List.replicate n (.op () { name := ['t'] })

/-- The whole call: it ends without an exception, and the destination holds the two
bytes. -/
theorem open_atomic_never_replaces_run :
    ∃ s, run (greeting.performs 11) greeting.start = some s ∧
      (files s).lookup ['d'] = some (0, [104, 105]) ∧ (files s).outcome = some true ∧
      (files s).published ≠ none := by
  have hobserve : (run (greeting.performs 11) greeting.start).map
      (fun s => ((files s).lookup ['d'], (files s).outcome)) =
        some (some (0, [104, 105]), some true) := by rfl
  obtain ⟨s, hrun, hs⟩ := Option.map_eq_some_iff.1 hobserve
  obtain ⟨hlookup, houtcome⟩ := Prod.mk.inj hs
  have hreach := (Reach.start greeting.start_start).run hrun
  obtain ⟨-, -, hended⟩ := open_atomic_never_replaces hreach
  exact ⟨s, hrun, hlookup, houtcome, (hended true houtcome).1 rfl⟩

/-- Another program that creates the destination before the publication wins. -/
example : (run (greeting.performs 8 ++ .event (.create ['d'] [7]) ::
    List.replicate 3 (.op () {})) greeting.start).map
      (fun s => ((files s).lookup ['d'], (files s).outcome)) =
        some (some (1, [7]), some false) := by rfl

end Runs

end OpenAtomic

end Portalocker
