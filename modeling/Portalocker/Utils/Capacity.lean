import Mathlib.Data.Set.Card
import Portalocker.Foundation.Alone
import Portalocker.Utils.SlotCalls
set_option autoImplicit false
set_option linter.unusedSectionVars false

/-!
# The capacity of a semaphore

Over whole runs: at most `maximum` instances have a slot, each at most one, and a
failed acquisition leaves none.  An instance that is left alone while a slot is
free gets the lowest free one: its call is run in the context of
`Foundation/Alone.lean`.
-/

namespace Portalocker

open Posix Interleaving Interleaving.Machine World Contract

variable {ι : Type} [DecidableEq ι]

/-! ## An instance that is left alone -/

section Alone

variable {cfg : Config ι} {sem : BoundedSemaphore} {p : ι} {c : Call}

/-- Client `p` runs alone and nothing fails. -/
abbrev undisturbed (cfg : Config ι) (sem : BoundedSemaphore) (p : ι) (c : Call) :
    Context (World ι) (Op ι) (fun o => Except Exc (Val o)) :=
  (machine cfg).alone p c (fun choice => Choice.fault choice = none)
    (fun w => World.Wf w ∧ SlotsInv sem w) (fun w o => Own p w o ∧ slotsPre sem p w o)
    fun w o _ _ w' hw hmay _ h =>
      have hc : Change cfg p w o w' := Config.performOp_change h
      ⟨hw.1.change hmay.1 hc, hw.2.change hmay.1 hmay.2 hc⟩

/-- Nothing happens in between, so every assertion is stable. -/
instance stable_undisturbed (P : World ι → Prop) : (undisturbed cfg sem p c).Stable P :=
  ⟨fun _ _ hr hP => hr ▸ hP⟩

/-- The lock of a path is taken when these handles are locked. -/
def Busy (locks : Handle ι Path → Option LockMode) (path : Path) : Prop :=
  ∃ h, locks h ≠ none ∧ h.path = path

/-- The instance has no slot, and these handles are locked. -/
def Sweeping (locks : Handle ι Path → Option LockMode) (p : ι) (w : World ι) : Prop :=
  w.fh p = none ∧ w.inner p = false ∧ w.lock = locks ∧ LockedOnly p none w

/-- It has opened a file. -/
def Trying (locks : Handle ι Path → Option LockMode) (p : ι) (path : Path) (h : Handle ι Path)
    (w : World ι) : Prop :=
  Sweeping locks p w ∧ Opened p h w ∧ h.path = path ∧ h.serial < w.serial p

/-- It has closed that file again. -/
def Refused (locks : Handle ι Path → Option LockMode) (p : ι) (h : Handle ι Path)
    (w : World ι) : Prop :=
  Sweeping locks p w ∧ h.owner = p ∧ h.serial < w.serial p

/-- It has locked the file it has opened. -/
def Succeeding (p : ι) (path : Path) (h : Handle ι Path) (w : World ι) : Prop :=
  w.inner p = false ∧ Opened p h w ∧ h.path = path ∧ w.lock h = some .exclusive

/-- It has the slot with this file. -/
def HasFile (p : ι) (path : Path) (b : Bool) (w : World ι) : Prop :=
  w.inner p = b ∧ ∃ h, w.fh p = some h ∧ h.path = path ∧ w.lock h = some .exclusive

theorem undisturbed_rule {o : Op ι} {P : World ι → Prop} {Q : Val o → World ι → Prop}
    {E : Exc → World ι → Prop}
    (hpre : ∀ w, w.Wf → SlotsInv sem w → P w → Own p w o ∧ slotsPre sem p w o)
    (hpossible : ∀ w, w.Wf → SlotsInv sem w → P w →
      ∃ choice : Choice, choice.fault = none ∧ ∃ rw, cfg.act choice p w o = some rw)
    (hact : ∀ w choice r w', w.Wf → SlotsInv sem w → P w →
      cfg.act choice p w o = some (r, w') → Ends Q E r w') :
    Hoare (undisturbed cfg sem p c) P (perform o) Q E := by
  have hperform : ∀ {choice : Choice} {w : World ι} {rw}, choice.fault = none →
      (cfg.performOp choice p c w o = some rw ↔ cfg.act choice p w o = some rw) := by
    intro choice w rw hfault
    simp [Config.performOp, hfault]
  refine Hoare.step (C := undisturbed cfg sem p c) ?_ ?_
  · intro w hw hp
    obtain ⟨choice, hfault, rw, h⟩ := hpossible w hw.1 hw.2 hp
    exact ⟨hpre w hw.1 hw.2 hp, choice, rw, hfault, (hperform hfault).2 h⟩
  · rintro w r w' hw - hp ⟨choice, hfault, h⟩
    exact hact w choice r w' hw.1 hw.2 hp ((hperform hfault).1 h)

/-- Reading the stored handle. -/
theorem fh_undisturbed {P : World ι → Prop} {E : Exc → World ι → Prop} :
    Hoare (undisturbed cfg sem p c) P (perform .fh) (fun v w => w.fh p = v ∧ P w) E := by
  refine undisturbed_rule (fun _ _ _ _ => ⟨trivial, trivial⟩) (fun w _ _ _ => ⟨{}, rfl, _, rfl⟩) ?_
  intro w choice r w' _ _ hP hact
  simp only [Config.act, Option.some.injEq, Prod.mk.injEq] at hact
  obtain ⟨rfl, rfl⟩ := hact
  exact ⟨rfl, hP⟩

/-- Some inode number is unused. -/
theorem exists_fresh {w : World ι} (hi : SlotsInv sem w) : ∃ i, w.Fresh i := by
  obtain ⟨bound, hbound⟩ := hi.fresh
  obtain ⟨i, hnot⟩ := Infinite.exists_notMem_finset
    (Finset.range bound ∪ (w.opened.map Handle.ino).toFinset)
  simp only [Finset.mem_union, Finset.mem_range, List.mem_toFinset, List.mem_map, not_or,
    not_lt, not_exists, not_and] at hnot
  exact ⟨i, hbound i hnot.1, hnot.2⟩

variable {locks : Handle ι Path → Option LockMode} {path : Path}

theorem openFile_undisturbed (hpath : IsSlot sem path) :
    Hoare (undisturbed cfg sem p c) (Sweeping locks p) (perform (.openFile path .append))
      (fun h => Trying locks p path h) (fun _ _ => False) := by
  refine undisturbed_rule (fun w _ _ _ => ⟨by simp [Own], hpath⟩) ?_ ?_
  · intro w _ hi _
    obtain ⟨i, hfresh⟩ := exists_fresh hi
    refine ⟨{ ino := i }, rfl, ?_⟩
    cases hn : w.names path with
    | some j => exact ⟨_, by simp [Config.act, hn]; rfl⟩
    | none => exact ⟨_, by simp [Config.act, hn, hfresh]; rfl⟩
  · intro w choice r w' hw _ hs hact
    have hopened : ∀ i (w₁ : World ι), w₁.Wf → Sweeping locks p w₁ →
        Trying locks p path (w₁.handle p path i) (w₁.openAt p path i) := by
      intro i w₁ hw₁ hs₁
      have hundropped : w₁.dropped (w₁.handle p path i) = false :=
        Bool.eq_false_iff.2 fun hd => absurd (hw₁.dropped_serial hd) (by simp)
      exact ⟨hs₁, ⟨rfl, hundropped, by simp⟩, rfl, by simp⟩
    simp only [Config.act] at hact
    split at hact
    · simp only [Option.some.injEq, Prod.mk.injEq] at hact
      obtain ⟨rfl, rfl⟩ := hact
      exact hopened _ w hw hs
    · simp only [Option.ite_none_right_eq_some, Option.some.injEq, Prod.mk.injEq] at hact
      obtain ⟨hnew, rfl, rfl⟩ := hact
      exact hopened _ _ ⟨hw.fs.create ‹_› hnew, hw.fh_owner, hw.fh_serial, hw.fh_dropped,
        hw.dropped_serial⟩ hs

/-- Whether the system call finds the file locked. -/
theorem conflicts_iff_busy {h : Handle ι Path} {w : World ι} (hw : w.Wf) (hi : SlotsInv sem w)
    (hs : Trying locks p path h w) : w.Conflicts h .exclusive ↔ Busy locks path := by
  obtain ⟨⟨-, -, rfl, honly⟩, ⟨ho, -, hopen⟩, rfl, -⟩ := hs
  constructor
  · rintro ⟨k, hk, -, hino, m, hm, -⟩
    refine ⟨k, by simp [Option.mem_def.1 hm], hw.fs.path_of_names hk ?_⟩
    rw [hi.named hopen, hino]
  · rintro ⟨k, hlocked, hpath⟩
    have hexclusive := (hi.slot hlocked).2
    have hk := hw.fs.opened_of_lock hexclusive
    have hne : k ≠ h := fun heq => hlocked (heq ▸ honly h ho (by simp))
    have hino : k.ino = h.ino :=
      Option.some.inj ((hi.named hk).symm.trans (hpath ▸ hi.named hopen))
    exact ⟨k, hk, hne, hino, _, hexclusive, rfl⟩

theorem flock_undisturbed (hpath : IsSlot sem path) (h : Handle ι Path) :
    Hoare (undisturbed cfg sem p c) (Trying locks p path h) (perform (.flock h .lockMethod))
      (fun _ w => ¬ Busy locks path ∧ Succeeding p path h w)
      (fun e w => Busy locks path ∧ e = .osError .EAGAIN ∧ Trying locks p path h w) := by
  have hact : ∀ {choice : Choice} {w : World ι}, w.Wf → SlotsInv sem w →
      Trying locks p path h w → cfg.act choice p w (.flock h .lockMethod) =
        if w.Conflicts h .exclusive then some (.error (.osError .EAGAIN), w)
        else some (.ok (), w.lockHandle h .exclusive) := by
    intro choice w _ _ hs
    simp [Config.act, Config.onOpen, hs.2.1.2.2, LockFlags.mode, LockFlags.lockMethod]
  refine undisturbed_rule ?_ ?_ ?_
  · rintro w - - ⟨⟨-, -, -, honly⟩, ⟨ho, hd, -⟩, rfl, -⟩
    exact ⟨ho, rfl, hpath, honly, hd⟩
  · intro w hw hi hs
    refine ⟨{}, rfl, ?_⟩
    rw [hact hw hi hs]
    split <;> exact ⟨_, rfl⟩
  · intro w choice r w' hw hi hs h'
    rw [hact hw hi hs] at h'
    split at h' <;> (simp only [Option.some.injEq, Prod.mk.injEq] at h'; obtain ⟨rfl, rfl⟩ := h')
    · exact ⟨(conflicts_iff_busy hw hi hs).1 ‹_›, rfl, hs⟩
    · have hfree : ¬ Busy locks path := fun hbusy => ‹¬ _› ((conflicts_iff_busy hw hi hs).2 hbusy)
      obtain ⟨⟨-, hinner, -, -⟩, hopened, hhpath, -⟩ := hs
      exact ⟨hfree, hinner, hopened, hhpath, by simp⟩

/-- Closing the file that has not been locked leaves all locks as they are. -/
theorem close_undisturbed (h : Handle ι Path) :
    Hoare (undisturbed cfg sem p c) (Trying locks p path h) (perform (.close h))
      (fun _ => Refused locks p h) (fun _ _ => False) := by
  refine undisturbed_rule (fun w _ _ hs => ⟨hs.2.1.1, trivial⟩)
    (fun w _ _ hs => ⟨{}, rfl, _, by simp [Config.act, hs.2.1.2.2]; rfl⟩) ?_
  rintro w choice r w' - - ⟨⟨hfh, hinner, rfl, honly⟩, ⟨ho, -, hopen⟩, -, hserial⟩ hact
  simp only [Config.act, if_pos hopen, Option.some.injEq, Prod.mk.injEq] at hact
  obtain ⟨rfl, rfl⟩ := hact
  refine ⟨⟨hfh, hinner, ?_, (honly.weaken _).closed _⟩, ho, hserial⟩
  have hnone : none = w.lock h := (honly h ho (by simp)).symm
  exact (congrArg (Function.update w.lock h) hnone).trans (Function.update_eq_self ..)

theorem drop_undisturbed (h : Handle ι Path) :
    Hoare (undisturbed cfg sem p c) (Refused locks p h) (perform (.drop h))
      (fun _ => Sweeping locks p) (fun _ _ => False) := by
  refine undisturbed_rule ?_ (fun w _ _ _ => ⟨{}, rfl, _, rfl⟩) ?_
  · rintro w - - ⟨⟨hfh, -, -, honly⟩, ho, hserial⟩
    exact ⟨⟨ho, hserial, by simp [hfh]⟩, honly h ho (by simp)⟩
  · rintro w choice r w' - - ⟨hs, -, -⟩ hact
    simp only [Config.act, Option.some.injEq, Prod.mk.injEq] at hact
    obtain ⟨rfl, rfl⟩ := hact
    exact hs

theorem setFh_undisturbed (h : Handle ι Path) :
    Hoare (undisturbed cfg sem p c) (Succeeding p path h) (perform (.setFh (some h)))
      (fun _ => HasFile p path false) (fun _ _ => False) := by
  refine undisturbed_rule ?_ (fun w _ _ _ => ⟨{}, rfl, _, rfl⟩) ?_
  · rintro w - - ⟨-, ⟨ho, hd, hopen⟩, -⟩
    exact ⟨fun k hk => Option.some.inj hk ▸ ⟨ho, hopen, hd⟩, trivial⟩
  · rintro w choice r w' - - ⟨hinner, -, hpath, hlock⟩ hact
    simp only [Config.act, Option.some.injEq, Prod.mk.injEq] at hact
    obtain ⟨rfl, rfl⟩ := hact
    exact ⟨hinner, h, Function.update_self .., hpath, hlock⟩

/-- Asking the clock or waiting. -/
theorem pause_undisturbed {o : Op ι} (ho : (∃ timeout, o = .attempts timeout) ∨
      ∃ i checkInterval, o = .sleep i checkInterval) {P : World ι → Prop}
    {E : Exc → World ι → Prop} :
    Hoare (undisturbed cfg sem p c) P (perform o) (fun _ => P) E := by
  rcases ho with ⟨timeout, rfl⟩ | ⟨i, checkInterval, rfl⟩
  · refine undisturbed_rule (fun _ _ _ _ => ⟨trivial, trivial⟩)
      (fun w _ _ _ => ⟨{}, rfl, _, by simp [Config.act]; rfl⟩) ?_
    intro w choice r w' _ _ hP hact
    simp only [Config.act, Option.ite_none_left_eq_some, Option.some.injEq,
      Prod.mk.injEq] at hact
    obtain ⟨-, rfl, rfl⟩ := hact
    exact hP
  · refine undisturbed_rule (fun _ _ _ _ => ⟨trivial, trivial⟩)
      (fun w _ _ _ => ⟨{}, rfl, _, rfl⟩) ?_
    intro w choice r w' _ _ hP hact
    simp only [Config.act, Option.some.injEq, Prod.mk.injEq] at hact
    obtain ⟨rfl, rfl⟩ := hact
    exact hP

/-- `Lock.acquire` for a slot: it succeeds exactly when the file is free. -/
theorem slotLock_undisturbed (hpath : IsSlot sem path) :
    Hoare (undisturbed cfg sem p c) (Sweeping locks p)
      ((BoundedSemaphore.slotLock path).acquire none none none)
      (fun _ w => ¬ Busy locks path ∧ HasFile p path false w)
      (fun e w => Busy locks path ∧ e = .alreadyLocked ∧ Sweeping locks p w) := by
  refine Hoare.bind fh_undisturbed fun v => ?_
  cases v with
  | some h => exact Hoare.of_false fun w _ hs => absurd (hs.1.symm.trans hs.2.1) (by simp)
  | none =>
      simp only [getFh_slotLock]
      refine Hoare.bind (R := fun h => Trying locks p path h)
        ((openFile_undisturbed hpath).conseq (fun w _ hs => hs.2) (fun _ _ _ hs => hs)
          fun _ _ _ hs => hs.elim) fun h => ?_
      refine acquireOpened_rule (N := Trying locks p path h)
        (L := fun w => ¬ Busy locks path ∧ Succeeding p path h w)
        (T := fun e w => Busy locks path ∧ e = .alreadyLocked ∧ Trying locks p path h w)
        (G := fun e w => Busy locks path ∧ e = .alreadyLocked ∧ Refused locks p h w)
        (D := fun e w => Busy locks path ∧ e = .alreadyLocked ∧ Refused locks p h w)
        (posixLock_rule (flock_undisturbed hpath h) ?_) ?_ ?_ ?_ (fun _ _ _ _ hs => hs.2.2)
        (fun _ _ => pause_undisturbed (Or.inl ⟨_, rfl⟩))
        (fun _ _ _ => pause_undisturbed (Or.inr ⟨_, _, rfl⟩))
        (by rw [prepareFh_slotLock]; exact Hoare.pure fun _ _ hs => hs) ?_ fun e => ?_
      · rintro e w - ⟨hbusy, rfl, hs⟩
        exact ⟨hbusy, rfl, hs⟩
      · refine fun e => Hoare.of_fact fun hbusy => Hoare.of_fact fun he => ?_
        exact (close_undisturbed h).conseq (fun _ _ hs => hs) (fun _ _ _ hs => ⟨hbusy, he, hs⟩)
          fun _ _ _ hs => hs.elim
      · rintro e e' w - hreports ⟨hbusy, rfl, hs⟩
        have he' : e' = .alreadyLocked := by simpa [Reports, Exc.isLockException] using hreports
        exact ⟨hbusy, he', hs⟩
      · rintro e w - he ⟨-, rfl, -⟩
        cases he
      · exact Hoare.of_fact fun hfree => (setFh_undisturbed h).conseq (fun _ _ hs => hs)
          (fun _ _ _ hs => ⟨hfree, hs⟩) fun _ _ _ hs => hs.elim
      · refine Hoare.of_fact fun hbusy => Hoare.of_fact fun he => ?_
        exact (drop_undisturbed h).conseq (fun _ _ hs => hs) (fun _ _ _ hs => ⟨hbusy, he, hs⟩)
          fun _ _ _ hs => hs.elim

/-- One slot of the sweep. -/
theorem trySlot_undisturbed (hpath : IsSlot sem path) :
    Hoare (undisturbed cfg sem p c) (Sweeping locks p) (BoundedSemaphore.trySlot path)
      (fun b w => if b then ¬ Busy locks path ∧ HasFile p path false w
        else Busy locks path ∧ Sweeping locks p w)
      (fun _ _ => False) := by
  refine Hoare.tryCatch (Hoare.bind (slotLock_undisturbed hpath) fun _ =>
    Hoare.pure fun _ _ hs => hs) fun e => ?_
  refine Hoare.of_fact fun hbusy => Hoare.of_fact fun he => ?_
  rw [if_pos he]
  exact Hoare.pure fun _ _ hs => ⟨hbusy, hs⟩

/-- A sweep over taken slots to a free one. -/
theorem tryLock_undisturbed {taken rest : List Path} (hpath : IsSlot sem path)
    (htaken : ∀ path' ∈ taken, IsSlot sem path' ∧ Busy locks path') (hfree : ¬ Busy locks path) :
    Hoare (undisturbed cfg sem p c) (Sweeping locks p)
      (BoundedSemaphore.tryLock (taken ++ path :: rest))
      (fun b w => b = true ∧ HasFile p path true w) (fun _ _ => False) := by
  have hdiscard : Hoare (undisturbed cfg sem p c) (Sweeping locks p) (perform .discardLock)
      (fun _ => Sweeping locks p) (fun _ _ => False) := by
    refine undisturbed_rule (fun w _ _ hs => ⟨trivial, hs.1⟩) (fun w _ _ _ => ⟨{}, rfl, _, rfl⟩) ?_
    rintro w choice r w' - - hs hact
    simp only [Config.act, Option.some.injEq, Prod.mk.injEq] at hact
    obtain ⟨rfl, rfl⟩ := hact
    exact ⟨Function.update_self .., hs.2⟩
  induction taken with
  | nil =>
      refine Hoare.bind hdiscard fun _ => Hoare.bind (trySlot_undisturbed hpath) fun b => ?_
      cases b with
      | false => exact Hoare.of_false fun _ _ hs => hfree hs.1
      | true =>
          refine Hoare.bind (R := fun _ => HasFile p path true) (undisturbed_rule
            (fun _ _ _ _ => ⟨trivial, trivial⟩) (fun w _ _ _ => ⟨{}, rfl, _, rfl⟩) ?_) fun _ =>
              Hoare.pure fun _ _ hs => ⟨rfl, hs⟩
          rintro w choice r w' - - ⟨-, -, hstored⟩ hact
          simp only [Config.act, Option.some.injEq, Prod.mk.injEq] at hact
          obtain ⟨rfl, rfl⟩ := hact
          exact ⟨Function.update_self .., hstored⟩
  | cons first taken ih =>
      obtain ⟨hslot, hbusy⟩ := htaken first (List.mem_cons_self ..)
      refine Hoare.bind hdiscard fun _ => Hoare.bind (trySlot_undisturbed hslot) fun b => ?_
      cases b with
      | false =>
          exact (ih fun path' hmem => htaken path' (List.mem_cons_of_mem _ hmem)).of_pre
            fun _ _ hs => hs.2
      | true => exact Hoare.of_false fun _ _ hs => hs.1 hbusy

/-- The call of an instance that is left alone while a slot is free. -/
theorem acquire_undisturbed {self : BoundedSemaphore} {taken rest : List Path}
    (hfilenames : self.getFilenames = taken ++ path :: rest) (hpath : IsSlot sem path)
    (htaken : ∀ path' ∈ taken, IsSlot sem path' ∧ Busy locks path') (hfree : ¬ Busy locks path)
    (timeout checkInterval : Option Rat) (b : Option Bool) :
    Hoare (undisturbed cfg sem p c) (Sweeping locks p) (self.acquire timeout checkInterval b)
      (fun _ w => w.held p = true ∧ HasFile p path true w) (fun _ _ => False) := by
  have hinner : Hoare (undisturbed cfg sem p c) (Sweeping locks p) (perform .innerLock)
      (fun b w => w.inner p = b ∧ Sweeping locks p w) (fun _ _ => False) := by
    refine undisturbed_rule (fun _ _ _ _ => ⟨trivial, trivial⟩) (fun w _ _ _ => ⟨{}, rfl, _, rfl⟩) ?_
    rintro w choice r w' - - hs hact
    simp only [Config.act, Option.some.injEq, Prod.mk.injEq] at hact
    obtain ⟨rfl, rfl⟩ := hact
    exact ⟨rfl, hs⟩
  refine Hoare.bind hinner fun inner => ?_
  cases inner with
  | true => exact Hoare.of_false fun w _ hs => absurd (hs.1.symm.trans hs.2.2.1) (by simp)
  | false =>
      refine Hoare.bind (R := Ends (fun _ => HasFile p path true) fun _ _ => False)
        ((timeoutGenerator_rule (I := Sweeping locks p) (F := fun _ _ => False) ?_
          (fun _ _ _ hs => hs.elim) (fun _ => Hoare.of_false fun _ _ hs => hs)
          fun _ _ => Hoare.of_false fun _ _ hs => hs).of_pre fun _ _ hs => hs.2) fun outcome => ?_
      · rw [hfilenames]
        refine Hoare.bind (tryLock_undisturbed hpath htaken hfree) fun taken => ?_
        refine Hoare.of_fact fun htrue => ?_
        rw [if_pos htrue]
        exact Hoare.pure fun _ _ hs => hs
      · cases outcome with
        | error e => exact Hoare.of_false fun _ _ hs => hs
        | ok _ =>
            refine Hoare.bind (R := fun _ w => w.held p = true ∧ HasFile p path true w)
              (undisturbed_rule ?_ (fun w _ _ _ => ⟨{}, rfl, _, rfl⟩) ?_) fun _ =>
                Hoare.pure fun _ _ hs => hs
            · rintro w - - ⟨-, h, hfh, -, hlock⟩
              exact ⟨trivial, h, hfh, hlock⟩
            · rintro w choice r w' - - hs hact
              simp only [Config.act, Option.some.injEq, Prod.mk.injEq] at hact
              obtain ⟨rfl, rfl⟩ := hact
              exact ⟨Function.update_self .., hs⟩

end Alone

/-! ## Whole runs -/

/-- No instance has done anything, and there are finitely many files. -/
structure Unclaimed (w : World ι) : Prop where
  wf : w.Wf
  opened : w.opened = []
  fh : ∀ p, w.fh p = none
  inner : ∀ p, w.inner p = false
  fresh : ∃ bound, ∀ i, bound ≤ i → w.links i = none

theorem Unclaimed.unlocked {w : World ι} (h : Unclaimed w) (k : Handle ι Path) : w.lock k = none :=
  h.wf.fs.lock_open (by simp [h.opened])

theorem Unclaimed.slotsInv {w : World ι} (h : Unclaimed w) (sem : BoundedSemaphore) :
    SlotsInv sem w where
  named := by simp [h.opened]
  slot := fun hk => absurd (h.unlocked _) hk
  single := fun hk => absurd (h.unlocked _) hk
  dropped := fun _ => h.unlocked _
  fresh := h.fresh

/-- The instance has the OS lock on the file of a slot. -/
def HasSlot (w : World ι) (q : ι) : Prop :=
  ∃ h, h.owner = q ∧ w.lock h ≠ none

/-- The slots whose OS lock is taken. -/
def heldSlots (sem : BoundedSemaphore) (w : World ι) : Set Nat :=
  {n | n < sem.maximum ∧ Busy w.lock (sem.getFilename n)}

/-- Different instances have different slots. -/
theorem SlotsInv.capacity {sem : BoundedSemaphore} {w : World ι} (hw : w.Wf) (hi : SlotsInv sem w)
    {l : List ι} (hnodup : l.Nodup) (hl : ∀ q ∈ l, HasSlot w q) : l.length ≤ sem.maximum := by
  have hslot : ∀ q : l.toFinset, ∃ n ∈ Finset.range sem.maximum,
      ∃ h, h.owner = q.1 ∧ w.lock h ≠ none ∧ h.path = sem.getFilename n := by
    intro q
    obtain ⟨h, ho, hlock⟩ := hl q.1 (List.mem_toFinset.1 q.2)
    obtain ⟨n, hn, hpath⟩ := (hi.slot hlock).1
    exact ⟨n, Finset.mem_range.2 hn, h, ho, hlock, hpath⟩
  choose slot hrange handle howner hlock hpath using hslot
  have hinjective : Function.Injective slot := by
    intro q r hqr
    have heq : handle q = handle r :=
      hi.exclusive hw (hlock q) (hlock r) (by rw [hpath q, hpath r, hqr])
    exact Subtype.ext (by rw [← howner q, heq, howner r])
  have hcard := Finset.card_le_card_of_injOn (s := Finset.univ) (t := Finset.range sem.maximum)
    slot (fun q _ => hrange q) hinjective.injOn
  simpa [List.toFinset_card_of_nodup hnodup] using hcard

/-- When fewer than all slots are held, there is a first free one. -/
theorem exists_lowest_free {sem : BoundedSemaphore} {w : World ι}
    (h : (heldSlots sem w).ncard < sem.maximum) :
    ∃ n, n < sem.maximum ∧ n ∉ heldSlots sem w ∧ ∀ m < n, m ∈ heldSlots sem w := by
  classical
  have hexists : ∃ n, n < sem.maximum ∧ n ∉ heldSlots sem w := by
    by_contra hnot
    have hall : heldSlots sem w = (Finset.range sem.maximum : Set Nat) := by
      ext n
      rw [Finset.coe_range, Set.mem_Iio]
      refine ⟨fun hn => hn.1, fun hn => ?_⟩
      by_contra hfree
      exact hnot ⟨n, hn, hfree⟩
    rw [hall, Set.ncard_coe_finset, Finset.card_range] at h
    exact absurd h (Nat.lt_irrefl _)
  obtain ⟨hn, hfree⟩ := Nat.find_spec hexists
  refine ⟨Nat.find hexists, hn, hfree, fun m hm => ?_⟩
  by_contra hnot
  exact Nat.find_min hexists hm ⟨hm.trans hn, hnot⟩

/-- The files before, at and after a slot, in the order of the sweep. -/
theorem getFilenames_split (self : BoundedSemaphore) {n : Nat} (hn : n < self.maximum) :
    ∃ rest, self.getFilenames =
      (List.range n).map self.getFilename ++ self.getFilename n :: rest := by
  obtain ⟨k, hk⟩ := Nat.exists_eq_add_of_lt hn
  refine ⟨((List.range k).map (n + 1 + ·)).map self.getFilename, ?_⟩
  rw [BoundedSemaphore.getFilenames, hk, Nat.add_right_comm, List.range_add, List.range_succ]
  simp

section Runs

variable {cfg : Config ι} {sem : BoundedSemaphore}

theorem slots_hold (hcfg : SharedSlots cfg sem) (hquiet : AttributesQuiet cfg)
    {s : (machine cfg).State} (hs : Reach Unclaimed (Guard.free (machine cfg)) s) :
    (slotsContract cfg sem (Guard.free (machine cfg))).toDiscipline.Holds s := by
  refine (slots_verified hcfg hquiet).sound (fun w hw => ⟨⟨hw.wf, hw.slotsInv sem⟩, fun p => ?_⟩) hs
  exact ⟨fun k _ _ => hw.unlocked k, fun _ => hw.fh p, fun _ => hw.inner p⟩

/-- An acquisition that nothing disturbs. -/
abbrev Unfailing (p : ι) (ls : List (machine cfg).Label) : Prop :=
  OnlyOps p (fun choice => Choice.fault choice = none) ls

/-- The instance has taken the first slot that was free in the world `w`. -/
def TookLowest (sem : BoundedSemaphore) (p : ι) (w w' : World ι) : Prop :=
  w'.held p = true ∧ ∃ n h, n < sem.maximum ∧ n ∉ heldSlots sem w ∧ (∀ m < n, m ∈ heldSlots sem w) ∧
    w'.fh p = some h ∧ h.path = sem.getFilename n ∧ w'.lock h = some .exclusive

/-- Code of an acquisition left alone in a reachable state. -/
theorem acquire_safe (hcfg : SharedSlots cfg sem) {w : World ι} (hw : w.Wf) (hi : SlotsInv sem w)
    {p : ι} (hidle : SlotAtRest p w) (hheld : w.held p = false)
    (hfree : (heldSlots sem w).ncard < sem.maximum) (timeout checkInterval : Option Rat)
    (b : Option Bool) :
    (undisturbed cfg sem p (.acquire timeout checkInterval b)).Safe
      ((machine cfg).body p (.acquire timeout checkInterval b))
      (fun _ w' => TookLowest sem p w w') w := by
  obtain ⟨self, hobject, hmaximum, hname, hdirectory⟩ := hcfg p
  obtain ⟨n, hn, hnot, hbelow⟩ := exists_lowest_free hfree
  obtain ⟨rest, hsplit⟩ := getFilenames_split self (hmaximum ▸ hn)
  have hfilename : ∀ m, self.getFilename m = sem.getFilename m := fun m => by
    simp only [BoundedSemaphore.getFilename, hname, hdirectory]
  have htaken : ∀ path ∈ (List.range n).map self.getFilename, IsSlot sem path ∧
      Busy w.lock path := by
    intro path hmem
    obtain ⟨m, hm, rfl⟩ := List.mem_map.1 hmem
    obtain ⟨hlt, hbusy⟩ := hbelow m (List.mem_range.1 hm)
    exact hfilename m ▸ ⟨⟨m, hlt, rfl⟩, hbusy⟩
  have hfh := hidle.inner (hidle.held hheld)
  have htriple : Hoare (undisturbed cfg sem p (.acquire timeout checkInterval b))
      (Sweeping w.lock p) (self.acquire timeout checkInterval b)
      (fun _ w' => w'.held p = true ∧ HasFile p (self.getFilename n) true w')
      (fun _ _ => False) :=
    acquire_undisturbed hsplit (hfilename n ▸ ⟨n, hn, rfl⟩) htaken
      (fun hbusy => hnot ⟨hn, hfilename n ▸ hbusy⟩) timeout checkInterval b
  simp only [machine, hobject]
  refine Hoare.toCall (I := TookLowest sem p w) inferInstance
    (htriple.conseq (fun _ _ h => h) ?_ fun _ _ _ h => h.elim) ⟨hw, hi⟩
    ⟨hfh, hidle.held hheld, rfl, hfh ▸ hidle.only⟩
  rintro _ w' - ⟨hheld', -, h, hfh', hpath, hlock⟩
  exact ⟨hheld', n, h, hn, hnot, hbelow, hfh', hpath.trans (hfilename n), hlock⟩

/-- At any time at most `maximum` instances have a slot, each at most one;
`acquire` is about to succeed only in an instance that has one; and an instance
that is idle and has not acquired has none.  When all are idle and not all slots
are held, an acquisition of such an instance that is left alone can run to its
end, and it then has taken the lowest free slot. -/
theorem semaphore_capacity (hcfg : SharedSlots cfg sem) (hquiet : AttributesQuiet cfg)
    {s : (machine cfg).State} (hs : Reach Unclaimed (Guard.free (machine cfg)) s) :
    (∀ l : List ι, l.Nodup → (∀ q ∈ l, HasSlot (files s) q) → l.length ≤ sem.maximum) ∧
    (∀ g h, (files s).lock g ≠ none → (files s).lock h ≠ none → g.owner = h.owner → g = h) ∧
    (∀ q c k, s.thread q = some (c, .op .acquired k) → HasSlot (files s) q) ∧
    (∀ q, s.thread q = none → (files s).held q = false → ¬ HasSlot (files s) q) ∧
    ∀ p timeout checkInterval b, (∀ q, s.thread q = none) → (files s).held p = false →
      (heldSlots sem (files s)).ncard < sem.maximum →
      (∃ ls s', Unfailing p ls ∧ s'.thread p = none ∧
        run (.call p (Call.acquire timeout checkInterval b) :: ls) s = some s') ∧
      ∀ ls s', Unfailing p ls → s'.thread p = none →
        run (.call p (Call.acquire timeout checkInterval b) :: ls) s = some s' →
        TookLowest sem p (files s) (files s') := by
  have hhold := slots_hold hcfg hquiet hs
  obtain ⟨hw, hi⟩ : World.Wf (files s) ∧ SlotsInv sem (files s) := hhold.1
  refine ⟨fun l hnodup hl => hi.capacity hw hnodup hl, fun g h => hi.single, ?_, ?_, ?_⟩
  · intro q c k hthread
    obtain ⟨-, h, hfh, hlock⟩ := hhold.permitted hthread
    exact ⟨h, hw.fh_owner hfh, by simp [hlock]⟩
  · rintro q hthread hheld ⟨h, ho, hlock⟩
    have hidle : SlotAtRest q (files s) := hhold.idle hthread
    exact hlock (hidle.only h ho (by simp [hidle.inner (hidle.held hheld)]))
  · intro p timeout checkInterval b hthread hheld hfree
    have hsafe := acquire_safe hcfg hw hi (hhold.idle (hthread p)) hheld hfree
      timeout checkInterval b
    refine ⟨?_, fun ls s' hops hdone hrun => hsafe.call_ends ⟨hw, hi⟩ hops hrun hdone⟩
    obtain ⟨ls, s', hops, hrun, hdone, -⟩ := hsafe.call_completes ⟨hw, hi⟩ (hthread p)
    exact ⟨ls, s', hops, hdone, hrun⟩

/-- Two instances of a semaphore with two slots; nothing fails. -/
def twoSlots : Config Bool where
  object _ := .boundedSemaphore { maximum := 2, name := ['s'], directory := ['d'] }
  mayRaise _ _ _ := false

/-- All is idle and no file exists. -/
def twoSlots.start : (machine twoSlots).State := ⟨World.empty, fun _ => none⟩

/-- One instance acquires. -/
def twoSlots.takes : List (machine twoSlots).Label :=
  .call true (.acquire none none none) :: List.replicate 8 (.op true {})

/-- The handle it locks. -/
def twoSlots.first : Handle Bool Path := ⟨true, 0, "d/s.00.lock".toList, 0⟩

theorem empty_unclaimed : Unclaimed (World.empty : World ι) :=
  ⟨empty_wf, rfl, fun _ => rfl, fun _ => rfl, ⟨0, fun _ _ => rfl⟩⟩

/-- While one instance has the first slot, the other gets the second. -/
theorem semaphore_capacity_run :
    ∃ s s' ls, run twoSlots.takes twoSlots.start = some s ∧
      run (.call false (Call.acquire none none none) :: ls) s = some s' ∧
      ∃ h, (files s').fh false = some h ∧ h.path = "d/s.01.lock".toList ∧
        (files s').lock h = some .exclusive := by
  let sem : BoundedSemaphore := { maximum := 2, name := ['s'], directory := ['d'] }
  have hcfg : SharedSlots twoSlots sem := fun _ => ⟨sem, rfl, rfl, rfl, rfl⟩
  have hquiet : AttributesQuiet twoSlots := fun _ _ _ h => by simp [twoSlots] at h
  have hobserve : (run twoSlots.takes twoSlots.start).map (fun s =>
      ((files s).opened, (files s).lock twoSlots.first, (files s).held false,
        (s.thread true).map Prod.fst, (s.thread false).map Prod.fst)) =
      some ([twoSlots.first], some .exclusive, false, none, none) := by rfl
  obtain ⟨s, hrun, hs⟩ := Option.map_eq_some_iff.1 hobserve
  obtain ⟨hopened, hs⟩ := Prod.mk.inj hs
  obtain ⟨hlock, hs⟩ := Prod.mk.inj hs
  obtain ⟨hheld, hs⟩ := Prod.mk.inj hs
  obtain ⟨htrue, hfalse⟩ := Prod.mk.inj hs
  have hreach := (Reach.start (g := Guard.free (machine twoSlots)) empty_unclaimed).run hrun
  have hidle : ∀ q, s.thread q = none := fun q => by
    cases q
    · exact Option.map_eq_none_iff.1 hfalse
    · exact Option.map_eq_none_iff.1 htrue
  have hw : (files s).Wf := (slots_hold hcfg hquiet hreach).1.1
  have hslots : heldSlots sem (files s) = {0} := by
    ext n
    constructor
    · rintro ⟨-, h, hlocked, hpath⟩
      obtain ⟨m, hm⟩ := Option.ne_none_iff_exists'.1 hlocked
      have hmem := hw.fs.opened_of_lock hm
      rw [hopened, List.mem_singleton] at hmem
      exact getFilename_injective sem (hpath.symm.trans (hmem ▸ rfl))
    · rintro rfl
      exact ⟨by decide, twoSlots.first, by simp [hlock], rfl⟩
  have hcapacity := (semaphore_capacity hcfg hquiet hreach).2.2.2.2 false none none none hidle hheld
    (by rw [hslots, Set.ncard_singleton]; decide)
  obtain ⟨ls, s', hops, hdone, hacquire⟩ := hcapacity.1
  obtain ⟨-, n, h, hn, hnot, -, hfh, hpath, hexclusive⟩ := hcapacity.2 ls s' hops hdone hacquire
  have hn1 : n = 1 := by
    rw [hslots, Set.mem_singleton_iff] at hnot
    have : n < 2 := hn
    omega
  exact ⟨s, s', ls, hrun, hacquire, h, hfh, hpath.trans (by rw [hn1]; rfl), hexclusive⟩

end Runs

end Portalocker
