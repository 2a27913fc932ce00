import Portalocker.Windows.Handover
set_option autoImplicit false
set_option linter.unusedSectionVars false

/-!
# What a release on Windows may remove

Every call of `PidFileLock` keeps the contract of `Windows/Handover.lean`, whatever
`Exception` its system calls raise.  So no release removes a PID file that another process
has written, in any run in which a process closes the PID file it has written only while no
other process is about to unlink it; without that condition a release does.
-/

namespace Portalocker.Nt

open Posix Interleaving Interleaving.Machine World Contract

variable {ι : Type} [DecidableEq ι]

/-! ## Assertions -/

/-- The context of one call. -/
abbrev Processes.ctx (P : Processes ι) (p : ι) (c : Call) :
    Context (World ι × Handover ι) (Op ι) (fun o => Except Exc (Val o)) :=
  P.discipline.context p c

/-- The client is not leaving. -/
def Staying (p : ι) (W : World ι × Handover ι) : Prop := W.2.leaving p = false

/-- It has no inner lock. -/
def Off (p : ι) (W : World ι × Handover ι) : Prop := W.1.inner p = false ∧ Staying p W

/-- Its lock object has no handle. -/
def Bare (p : ι) (W : World ι × Handover ι) : Prop := W.1.fh p = none ∧ Staying p W

/-- It has opened the sidecar. -/
def Opening (P : Processes ι) (p : ι) (h : Handle ι Path) (W : World ι × Handover ι) : Prop :=
  (Bare p W ∧ h.path = P.lockfile) ∧ Opened p h W.1

/-- And locked it. -/
def Locking (P : Processes ι) (p : ι) (h : Handle ι Path) (W : World ι × Handover ι) : Prop :=
  Opening P p h W ∧ LockIs p h (some .exclusive) W.1

/-- Or closed it again. -/
def GivenUp (p : ι) (h : Handle ι Path) (W : World ι × Handover ι) : Prop :=
  Bare p W ∧ h.owner = p ∧ h.serial < W.1.serial p

/-- It has the sidecar; `published` says that the PID file is its own. -/
def Holding (p : ι) (published : Bool) (W : World ι × Handover ι) : Prop :=
  (HoldsSidecar p W.1 ∧ (published = true → W.2.publisher = some p)) ∧ Staying p W

/-- And the PID file open. -/
def Publishing (P : Processes ι) (p : ι) (k : Handle ι Path) (published : Bool)
    (W : World ι × Handover ι) : Prop :=
  (Holding p published W ∧ k.path = P.filename) ∧ Opened p k W.1

/-- The PID file is closed again. -/
def AfterClose (P : Processes ι) (p : ι) (k : Handle ι Path) (W : World ι × Handover ι) : Prop :=
  (Staying p W ∧ k.path = P.filename) ∧ Closed p k W.1

/-- It has begun a release, in which the unlink of the PID file is yet to come. -/
def Going (P : Processes ι) (p : ι) (W : World ι × Handover ι) : Prop :=
  (W.1.inner p = false ∧ W.2.leaving p = true) ∧ P.Harmless p W

/-- An exception that is no interrupt, and what holds with it. -/
def Failed (A : World ι × Handover ι → Prop) (e : Exc) (W : World ι × Handover ι) : Prop :=
  e.isException = true ∧ A W

section Stable

variable {P : Processes ι} {p : ι} {c : Call} {h : Handle ι Path} {b : Bool}

theorem stable_rely {A : World ι × Handover ι → Prop}
    (h : ∀ W W', P.Coherent W.1 → P.Coherent W'.1 → P.Rely p W W' → A W → A W') :
    (P.ctx p c).Stable A :=
  ⟨fun hw hw' hr => h _ _ hw hw' hr⟩

instance stable_world_fh (v : Option (Handle ι Path)) :
    (P.ctx p c).Stable fun W => W.1.fh p = v :=
  stable_rely fun _ _ _ _ hr hs => hr.undisturbed.fh.trans hs

instance stable_world_inner : (P.ctx p c).Stable fun W => W.1.inner p = b :=
  stable_rely fun _ _ _ _ hr hs => hr.undisturbed.inner.trans hs

instance stable_world_serial : (P.ctx p c).Stable fun W => h.serial < W.1.serial p :=
  stable_rely fun _ _ _ _ hr hs => hr.undisturbed.serial ▸ hs

instance stable_world_opened : (P.ctx p c).Stable fun W => Opened p h W.1 :=
  stable_rely fun _ _ _ _ hr hs => hs.keep hr.undisturbed

instance stable_world_lockIs (m : Option LockMode) : (P.ctx p c).Stable fun W => LockIs p h m W.1 :=
  stable_rely fun _ _ _ _ hr hs => hs.keep hr.undisturbed

instance stable_world_closed : (P.ctx p c).Stable fun W => Closed p h W.1 :=
  stable_rely fun _ _ _ _ hr ⟨ho, hd, hserial, hclosed⟩ =>
    have hsame := hr.undisturbed.handle h ho hd
    ⟨ho, hsame.dropped.trans hd, hr.undisturbed.serial ▸ hserial,
      fun hmem => hclosed (hsame.file.mem.1 hmem)⟩

instance stable_leaving : (P.ctx p c).Stable fun W => W.2.leaving p = b :=
  stable_rely fun _ _ _ _ hr hs => hr.leaving.trans hs

instance stable_harmless : (P.ctx p c).Stable (P.Harmless p) :=
  stable_rely fun _ _ _ _ hr hs => hr.harmless hs

instance stable_published :
    (P.ctx p c).Stable fun W => HoldsSidecar p W.1 ∧ (b = true → W.2.publisher = some p) :=
  stable_rely fun _ _ _ _ hr hs =>
    ⟨hs.1.keep hr.undisturbed, fun hb => hr.publisher hs.1 (hs.2 hb)⟩

instance stable_idle : (P.ctx p c).Stable (Idle p) :=
  stable_rely fun _ _ hw hw' hr hs => P.discipline.idle_stable hw hw' hr hs

instance stable_staying : (P.ctx p c).Stable (Staying p) := stable_leaving

instance stable_off : (P.ctx p c).Stable (Off p) :=
  inferInstanceAs (Context.Stable _ fun _ => _ ∧ _)

instance stable_bare : (P.ctx p c).Stable (Bare p) :=
  inferInstanceAs (Context.Stable _ fun _ => _ ∧ _)

instance stable_opening : (P.ctx p c).Stable (Opening P p h) :=
  inferInstanceAs (Context.Stable _ fun _ => _ ∧ _)

instance stable_locking : (P.ctx p c).Stable (Locking P p h) :=
  inferInstanceAs (Context.Stable _ fun _ => _ ∧ _)

instance stable_givenUp : (P.ctx p c).Stable (GivenUp p h) :=
  inferInstanceAs (Context.Stable _ fun _ => _ ∧ _)

instance stable_holding : (P.ctx p c).Stable (Holding p b) :=
  inferInstanceAs (Context.Stable _ fun _ => _ ∧ _)

instance stable_publishing : (P.ctx p c).Stable (Publishing P p h b) :=
  inferInstanceAs (Context.Stable _ fun _ => _ ∧ _)

instance stable_afterClose : (P.ctx p c).Stable (AfterClose P p h) :=
  inferInstanceAs (Context.Stable _ fun _ => _ ∧ _)

instance stable_going : (P.ctx p c).Stable (Going P p) :=
  inferInstanceAs (Context.Stable _ fun _ => _ ∧ _)

instance stable_failed {A : World ι × Handover ι → Prop} [(P.ctx p c).Stable A] (e : Exc) :
    (P.ctx p c).Stable (Failed A e) :=
  inferInstanceAs (Context.Stable _ fun _ => _ ∧ _)

end Stable

/-! ## One operation -/

section Rules

variable {P : Processes ι} {p : ι} {c : Call} {h k : Handle ι Path} {b : Bool} {w w' : World ι}
  {log : Handover ι} {o : Op ι}
  (hfaults : PlainFaults P.config)
include hfaults

/-- One operation: it is permitted, and whatever becomes of it leads to the
postconditions. -/
theorem op_rule {A : World ι × Handover ι → Prop} {Q : Val o → World ι × Handover ι → Prop}
    {E : Exc → World ι × Handover ι → Prop} [(P.ctx p c).Stable A] [∀ v, (P.ctx p c).Stable (Q v)]
    [∀ e, (P.ctx p c).Stable (E e)]
    (hpre : ∀ w log, P.Coherent w → A (w, log) → Own p w o ∧ P.Permits p (w, log) o)
    (hact : ∀ w log choice r w', P.Coherent w → A (w, log) →
      act P.config choice p w o = some (r, w') → Ends Q E r (w', P.note p c log o r))
    (hfault : ∀ w log e, P.Coherent w → A (w, log) → o.Fallible → e.isException = true →
      E e (Config.afterFault w o, P.note p c log o (.error e))) :
    Hoare (P.ctx p c) A (perform o) Q E := by
  have hstep : ∀ W r W', P.Coherent W.1 → A W → (P.ctx p c).step W o r W' → Ends Q E r W' := by
    rintro ⟨w, log⟩ r ⟨w', log'⟩ hw hA ⟨-, choice, h⟩
    obtain ⟨hperform, hlog⟩ := perform_recorded h
    obtain rfl : log' = P.note p c log o r := hlog
    have hperform' : performOp P.config choice p c w o = some (r, w') := hperform
    rcases performOp_cases hperform' with hact' | ⟨e, he, rfl, rfl⟩
    · exact hact w log choice r w' hw hA hact'
    · obtain ⟨hexception, hfallible⟩ := hfaults c o e he
      exact hfault w log e hw hA hfallible hexception
  exact Hoare.step (fun W hw hA => hpre W.1 W.2 hw hA)
    fun W r W' hw _ hA hs => hstep W r W' hw hA hs

/-- An operation that keeps an assertion whatever becomes of it. -/
theorem keeps_rule {A : World ι × Handover ι → Prop} [(P.ctx p c).Stable A]
    (hpre : ∀ w log, P.Coherent w → A (w, log) → Own p w o ∧ P.Permits p (w, log) o)
    (hkeep : ∀ w log r w', P.Coherent w → A (w, log) → Change P.config p w o w' →
      A (w', P.note p c log o r)) :
    Hoare (P.ctx p c) A (perform o) (fun _ => A) (Failed A) := by
  refine op_rule hfaults hpre ?_ ?_
  · intro w log choice r w' hw hA hact
    have hkept := hkeep w log r w' hw hA (act_change hact)
    cases r with
    | ok v => exact hkept
    | error e => exact ⟨act_isException hact, hkept⟩
  · intro w log e hw hA _ he
    exact ⟨he, hkeep w log _ _ hw hA (Config.afterFault_change w o)⟩

variable {E : Exc → World ι × Handover ι → Prop} [∀ e, (P.ctx p c).Stable (E e)]

/-- Reading the handle. -/
theorem fh_rule {A : World ι × Handover ι → Prop} [(P.ctx p c).Stable A] :
    Hoare (P.ctx p c) A (perform .fh) (fun v W => W.1.fh p = v ∧ A W) E := by
  refine op_rule hfaults (fun _ _ _ _ => ⟨trivial, trivial⟩) ?_ fun _ _ _ _ _ hf => hf.elim
  intro w log choice r w' hw hA hact
  simp only [act, Config.act, Option.some.injEq, Prod.mk.injEq] at hact
  obtain ⟨rfl, rfl⟩ := hact
  exact ⟨rfl, hA⟩

/-- Reading whether there is an inner lock. -/
theorem innerLock_rule {A : World ι × Handover ι → Prop} [(P.ctx p c).Stable A] :
    Hoare (P.ctx p c) A (perform .innerLock) (fun v W => W.1.inner p = v ∧ A W) E := by
  refine op_rule hfaults (fun _ _ _ _ => ⟨trivial, trivial⟩) ?_ fun _ _ _ _ _ hf => hf.elim
  intro w log choice r w' hw hA hact
  simp only [act, Config.act, Option.some.injEq, Prod.mk.injEq] at hact
  obtain ⟨rfl, rfl⟩ := hact
  exact ⟨rfl, hA⟩

/-- Asking the clock or waiting. -/
theorem pause_rule (ho : (∃ timeout, o = .attempts timeout) ∨
      ∃ i checkInterval, o = .sleep i checkInterval)
    {A : World ι × Handover ι → Prop} [(P.ctx p c).Stable A] :
    Hoare (P.ctx p c) A (perform o) (fun _ => A) (Failed A) := by
  refine keeps_rule hfaults ?_ ?_
  · rcases ho with ⟨timeout, rfl⟩ | ⟨i, checkInterval, rfl⟩
    · exact fun _ _ _ _ => ⟨trivial, trivial⟩
    · exact fun _ _ _ _ => ⟨trivial, trivial⟩
  · intro w log r w' _ hA hc
    rcases ho with ⟨timeout, rfl⟩ | ⟨i, checkInterval, rfl⟩
    · cases hc
      exact hA
    · cases hc
      exact hA

/-! ## `Lock.acquire` of the sidecar -/

theorem discardLock_rule :
    Hoare (P.ctx p c) (Staying p) (perform .discardLock) (fun _ => Bare p) E := by
  refine op_rule hfaults (fun _ _ _ _ => ⟨trivial, trivial⟩) ?_ fun _ _ _ _ _ hf => hf.elim
  intro w log choice r w' hw hA hact
  simp only [act, Config.act, Option.some.injEq, Prod.mk.injEq] at hact
  obtain ⟨rfl, rfl⟩ := hact
  exact ⟨by simp, hA⟩

/-- The sidecar is opened. -/
theorem openSidecar_rule :
    Hoare (P.ctx p c) (Bare p) (perform (.openFile P.lockfile .append))
      (fun h => Opening P p h) (Failed (Bare p)) := by
  refine op_rule hfaults (fun _ _ _ _ => ⟨by simp [Own], trivial⟩) ?_
    fun _ _ e _ hA _ he => ⟨he, hA⟩
  intro w log choice r w' hw hA hact
  have hopened : ∀ i (w₁ : World ι), w₁.fh = w.fh → w₁.serial = w.serial →
      w₁.dropped = w.dropped → Opening P p (w₁.handle p P.lockfile i)
        (w₁.openAt p P.lockfile i, log) := by
    intro i w₁ hfh hserial hdropped
    refine ⟨⟨⟨?_, hA.2⟩, rfl⟩, rfl, ?_, List.mem_cons_self ..⟩
    · rw [openAt_fh, hfh]
      exact hA.1
    · rw [openAt_dropped, hdropped]
      exact Bool.eq_false_iff.2 fun hd => absurd (hw.wf.dropped_serial hd) (by simp [hserial])
  simp only [act, Config.act] at hact
  split at hact
  · simp only [Option.some.injEq, Prod.mk.injEq] at hact
    obtain ⟨rfl, rfl⟩ := hact
    exact hopened _ w rfl rfl rfl
  · simp only [Option.ite_none_right_eq_some, Option.some.injEq, Prod.mk.injEq] at hact
    obtain ⟨-, rfl, rfl⟩ := hact
    exact hopened _ _ rfl rfl rfl

/-- The lock call. -/
theorem flock_rule :
    Hoare (P.ctx p c) (Opening P p h) (perform (.flock h .lockMethod))
      (fun _ => Locking P p h) (Failed (Opening P p h)) := by
  refine op_rule hfaults (fun w _ _ hA => ⟨hA.2.1, trivial⟩) ?_ fun _ _ e _ hA _ he => ⟨he, hA⟩
  rintro w log choice r w' hw ⟨hA, ho, hd, hopen⟩ hact
  simp only [act, Config.act, Config.onOpen, if_pos hopen, LockFlags.mode, LockFlags.lockMethod,
    if_true] at hact
  split at hact
  · simp only [Option.some.injEq, Prod.mk.injEq] at hact
    obtain ⟨rfl, rfl⟩ := hact
    exact ⟨rfl, hA, ho, hd, hopen⟩
  · simp only [Option.some.injEq, Prod.mk.injEq] at hact
    obtain ⟨rfl, rfl⟩ := hact
    exact ⟨⟨hA, ho, hd, hopen⟩, ho, hd, by simp⟩

/-- A refused handle is closed, whatever becomes of the close. -/
theorem closeOpening_rule :
    Hoare (P.ctx p c) (Opening P p h) (perform (.close h)) (fun _ => GivenUp p h)
      (Failed (GivenUp p h)) := by
  have hkept : ∀ w (log : Handover ι) w', P.Coherent w → Opening P p h (w, log) →
      Change P.config p w (.close h) w' → GivenUp p h (w', log) := by
    rintro w log w' hw ⟨⟨hA, -⟩, ho, hd, hopen⟩ hc
    have hserial : h.serial < w.serial p := ho ▸ hw.wf.fs.serial_lt hopen
    cases hc with
    | same => exact ⟨hA, ho, hserial⟩
    | close _ hopen' content hcontent => exact ⟨hA, ho, hserial⟩
  refine op_rule hfaults (fun w _ _ hA => ⟨hA.2.1, trivial⟩) ?_ ?_
  · intro w log choice r w' hw hA hact
    cases r with
    | ok v => exact hkept w log w' hw hA (act_change hact)
    | error e => exact ⟨act_isException hact, hkept w log w' hw hA (act_change hact)⟩
  · exact fun w log e hw hA _ he => ⟨he, hkept w log _ hw hA (Config.afterFault_change w _)⟩

/-- A locked handle is stored. -/
theorem setFh_rule :
    Hoare (P.ctx p c) (Locking P p h) (perform (.setFh (some h))) (fun _ => Holding p false) E := by
  refine op_rule hfaults ?_ ?_ fun _ _ _ _ _ hf => hf.elim
  · rintro w log - ⟨⟨⟨-, hpath⟩, ho, hd, hopen⟩, -⟩
    refine ⟨fun k hk => ?_, fun k hk => ?_⟩
    · obtain rfl := Option.some.inj hk
      exact ⟨ho, hopen, hd⟩
    · obtain rfl := Option.some.inj hk
      exact hpath
  · rintro w log choice r w' hw ⟨⟨⟨⟨-, hstaying⟩, -⟩, -⟩, hlock⟩ hact
    simp only [act, Config.act, Option.some.injEq, Prod.mk.injEq] at hact
    obtain ⟨rfl, rfl⟩ := hact
    exact ⟨⟨⟨h, by simp, hlock⟩, fun hb => by cases hb⟩, hstaying⟩

/-- A handle that was given up is forgotten. -/
theorem dropSidecar_rule (hpath : h.path = P.lockfile) :
    Hoare (P.ctx p c) (GivenUp p h) (perform (.drop h)) (fun _ => Bare p) E := by
  refine op_rule hfaults ?_ ?_ fun _ _ _ _ _ hf => hf.elim
  · rintro w log - ⟨⟨hfh, -⟩, ho, hserial⟩
    refine ⟨⟨ho, hserial, by rw [hfh]; simp⟩, fun heq => ?_⟩
    exact absurd (hpath.symm.trans heq) P.lockfile_ne
  · intro w log choice r w' hw hA hact
    simp only [act, Config.act, Option.some.injEq, Prod.mk.injEq] at hact
    obtain ⟨rfl, rfl⟩ := hact
    exact hA.1

omit hfaults in
theorem reported_isException {e e' : Exc} (h : Reports e e') (he : e.isException = true) :
    e'.isException = true := by
  unfold Reports at h
  split at h
  · rcases h with rfl | rfl
    · exact he
    · rfl
  · rw [h]
    rfl

/-- The handle that has been opened becomes the stored one, or is given up. -/
theorem acquireOpened_sidecar {lock : Lock} (hflags : lock.flags = .lockMethod)
    (htruncate : lock.truncate = false) (timeout checkInterval : Rat) (failWhenLocked : Bool) :
    Hoare (P.ctx p c) (Opening P p h) (lock.acquireOpened timeout checkInterval failWhenLocked h)
      (fun _ => Holding p false) (Failed (Staying p)) := by
  refine Hoare.of_pre (P := fun W => h.path = P.lockfile ∧ Opening P p h W) ?_
    fun W _ hA => ⟨hA.1.2, hA⟩
  refine Hoare.of_fact fun hpath => ?_
  have hgiveUp : ∀ w (log : Handover ι), P.Coherent w → Opening P p h (w, log) →
      GivenUp p h (w, log) := fun w log hw hA =>
    ⟨hA.1.1, hA.2.1, hA.2.1 ▸ hw.wf.fs.serial_lt hA.2.2.2⟩
  have hpause : ∀ {o : Op ι} (e : Exc), ((∃ timeout, o = .attempts timeout) ∨
      ∃ i checkInterval, o = .sleep i checkInterval) →
      Hoare (P.ctx p c) (Failed (Opening P p h) e) (perform o)
        (fun _ => Failed (Opening P p h) e) (Failed (GivenUp p h)) := by
    intro o e ho
    refine Hoare.of_fact fun he => (pause_rule hfaults ho).conseq (fun _ _ hA => hA)
      (fun _ _ _ hA => ⟨he, hA⟩) ?_
    exact fun e' W hw hA => ⟨hA.1, hgiveUp W.1 W.2 hw hA.2⟩
  refine acquireOpened_rule (C := P.ctx p c) (N := Opening P p h) (L := Locking P p h)
    (S := fun _ => Holding p false) (T := Failed (Opening P p h)) (G := Failed (GivenUp p h))
    (D := Failed (GivenUp p h)) (X := Failed (Staying p)) ?_ ?_ ?_ ?_ ?_ ?_ ?_ ?_ ?_ ?_
  · rw [hflags]
    exact posixLock_rule (flock_rule hfaults) fun e W _ hA => ⟨Lock.translate_isException hA.1, hA.2⟩
  · refine fun e => Hoare.of_fact fun he => (closeOpening_rule hfaults).conseq (fun _ _ hA => hA)
      (fun _ _ _ hA => ⟨he, hA⟩) fun e' W _ hA => ?_
    rw [Caught, if_pos hA.1]
    exact ⟨he, hA.2⟩
  · exact fun e e' W _ hreports hA => ⟨reported_isException hreports hA.1, hA.2⟩
  · intro e W _ he hA
    rw [hA.1] at he
    cases he
  · exact fun _ _ _ _ hA => hA.2
  · exact fun e _ => hpause e (Or.inl ⟨_, rfl⟩)
  · exact fun i e _ => hpause e (Or.inr ⟨_, _, rfl⟩)
  · simp only [Lock.prepareFh, htruncate, Bool.false_eq_true, if_false]
    exact Hoare.pure fun _ _ hA => hA
  · exact setFh_rule hfaults
  · exact fun e => Hoare.of_fact fun he =>
      (dropSidecar_rule hfaults hpath).of_post fun _ _ _ hA => ⟨he, hA.2⟩

variable (self : PidFileLock) (hself : self.filename = P.filename)
  (timeout checkInterval : Option Rat) (failWhenLocked : Bool)
include hself

omit hfaults in
theorem lockfile_eq : self.lockfile = P.lockfile := by
  rw [PidFileLock.lockfile, hself]
  rfl

/-- `_acquire_verified` of the sidecar. -/
theorem acquireVerified_sidecar :
    Hoare (P.ctx p c) (Bare p)
      (acquireVerified (self.innerLock timeout checkInterval failWhenLocked) timeout checkInterval
        (some failWhenLocked)) (fun _ => Holding p false) (Failed (Staying p)) := by
  have hmode : openKind ['a'] = some .append := by decide
  have hpath : self.lockfile = P.lockfile := lockfile_eq self hself
  have hacquire : Hoare (P.ctx p c) (Bare p)
      ((self.innerLock timeout checkInterval failWhenLocked).acquire timeout checkInterval
        (some failWhenLocked)) (fun _ => Holding p false) (Failed (Staying p)) := by
    refine lockAcquire_rule (C := P.ctx p c) (Z := Bare p) (N := fun h => Opening P p h) hmode ?_ ?_
      fun h => acquireOpened_sidecar hfaults rfl rfl _ _ _
    · refine (fh_rule hfaults).of_post ?_
      rintro v W - ⟨rfl, hA⟩
      rw [hA.1]
      exact hA
    · have hopen : Hoare (P.ctx p c) (Bare p) (perform (.openFile self.lockfile .append))
          (fun h => Opening P p h) (Failed (Bare p)) := by
        rw [hpath]
        exact openSidecar_rule hfaults
      exact hopen.conseq (fun _ _ hA => hA) (fun _ _ _ hA => hA) fun e W _ hA => ⟨hA.1, hA.2.2⟩
  refine Hoare.bind (timeoutGenerator_rule (Q := fun _ => Holding p false)
    (F := fun _ _ => False) (Hoare.bind hacquire fun h => Hoare.pure fun _ _ hA => hA)
    (fun _ _ _ hf => hf.elim) (fun e => Hoare.of_false fun _ _ hf => hf)
    (fun i e => Hoare.of_false fun _ _ hf => hf)) fun outcome => ?_
  cases outcome with
  | ok h => exact Hoare.pure fun _ _ hA => hA
  | error e => exact Hoare.of_false fun _ _ hf => hf

/-! ## The pid file -/

omit hself in
/-- The PID file is opened. -/
theorem openPidFile_rule :
    Hoare (P.ctx p c) (Holding p b) (perform (.openFile P.filename .append))
      (fun k => Publishing P p k b) (Failed (Staying p)) := by
  refine op_rule hfaults (fun _ _ _ _ => ⟨by simp [Own], trivial⟩) ?_
    fun _ _ e _ hA _ he => ⟨he, hA.2⟩
  intro w log choice r w' hw hA hact
  have hopened : ∀ i (w₁ : World ι), w₁.fh = w.fh → w₁.lock = w.lock → w₁.serial = w.serial →
      w₁.dropped = w.dropped → Publishing P p (w₁.handle p P.filename i) b
        (w₁.openAt p P.filename i, log) := by
    intro i w₁ hfh hlock hserial hdropped
    obtain ⟨⟨⟨h, hh, ho, hd, hl⟩, hpub⟩, hstaying⟩ := hA
    refine ⟨⟨⟨⟨⟨h, ?_, ho, ?_, ?_⟩, hpub⟩, hstaying⟩, rfl⟩, rfl, ?_, List.mem_cons_self ..⟩
    · exact (congrFun hfh p).trans hh
    · exact (congrFun hdropped h).trans hd
    · exact (congrFun hlock h).trans hl
    · rw [openAt_dropped, hdropped]
      exact Bool.eq_false_iff.2 fun hd => absurd (hw.wf.dropped_serial hd) (by simp [hserial])
  simp only [act, Config.act] at hact
  split at hact
  · simp only [Option.some.injEq, Prod.mk.injEq] at hact
    obtain ⟨rfl, rfl⟩ := hact
    exact hopened _ w rfl rfl rfl rfl
  · simp only [Option.ite_none_right_eq_some, Option.some.injEq, Prod.mk.injEq] at hact
    obtain ⟨-, rfl, rfl⟩ := hact
    exact hopened _ _ rfl rfl rfl rfl

omit hself in
/-- An operation on the open PID file that does not write. -/
theorem quiet_rule (ho : o = .seek k ∨ o = .truncate k ∨ o = .flush k ∨ o = .fsync k) :
    Hoare (P.ctx p c) (Publishing P p k b) (perform o) (fun _ => Publishing P p k b)
      (Failed (Publishing P p k b)) := by
  refine keeps_rule hfaults ?_ ?_
  · rcases ho with rfl | rfl | rfl | rfl
    · exact fun w _ _ hA => ⟨hA.2.1, trivial⟩
    · exact fun w _ _ hA => ⟨hA.2.1, trivial⟩
    · exact fun w _ _ hA => ⟨hA.2.1, trivial⟩
    · exact fun _ _ _ _ => ⟨trivial, trivial⟩
  · intro w log r w' _ hA hc
    rcases ho with rfl | rfl | rfl | rfl
    · cases hc <;> exact hA
    · cases hc <;> exact hA
    · cases hc <;> exact hA
    · cases hc
      exact hA

omit hself in
/-- Writing it makes the client the publisher. -/
theorem write_rule (bytes : List UInt8) (bufferSize : Nat) :
    Hoare (P.ctx p c) (Publishing P p k false) (perform (.write k bytes bufferSize))
      (fun _ => Publishing P p k true) (Failed (Publishing P p k false)) := by
  refine op_rule hfaults (fun w _ _ hA => ⟨hA.2.1, fun _ => hA.1.1.1.1⟩) ?_ ?_
  · rintro w log choice r w' hw ⟨⟨⟨⟨hs, -⟩, hstaying⟩, hpath⟩, ho, hd, hopen⟩ hact
    simp only [act, Config.act, Config.onOpen, if_pos hopen, Option.ite_none_right_eq_some,
      Option.some.injEq, Prod.mk.injEq] at hact
    obtain ⟨-, rfl, rfl⟩ := hact
    have hnote : P.note p c log (.write k bytes bufferSize) (.ok ()) =
        { log with publisher := some p } := if_pos ⟨hpath, rfl⟩
    rw [hnote]
    exact ⟨⟨⟨⟨hs, fun _ => rfl⟩, hstaying⟩, hpath⟩, ho, hd, hopen⟩
  · intro w log e _ hA _ he
    have hnote : P.note p c log (.write k bytes bufferSize) (.error e) = log :=
      if_neg fun hwrite => by cases hwrite.2
    rw [hnote]
    exact ⟨he, hA⟩

omit hfaults hself in
theorem Publishing.weaken {W : World ι × Handover ι} (hA : Publishing P p k b W) :
    Publishing P p k false W :=
  ⟨⟨⟨⟨hA.1.1.1.1, fun hb => by cases hb⟩, hA.1.1.2⟩, hA.1.2⟩, hA.2⟩

omit hself in
/-- Closing the PID file leaves the sidecar alone, whatever becomes of the close. -/
theorem closePidFile_rule :
    Hoare (P.ctx p c) (Publishing P p k b) (perform (.close k))
      (fun _ W => Holding p b W ∧ AfterClose P p k W) (Failed (AfterClose P p k)) := by
  have hkept : ∀ w (log : Handover ι) w', P.Coherent w → Publishing P p k b (w, log) →
      Change P.config p w (.close k) w' → k ∉ w'.opened →
      Holding p b (w', log) ∧ AfterClose P p k (w', log) := by
    rintro w log w' hw ⟨⟨⟨⟨⟨h, hh, ho, hd, hl⟩, hpub⟩, hstaying⟩, hpath⟩, hok, hdk, hopen⟩ hc hgone
    have hne : h ≠ k := fun heq =>
      absurd ((hw.stored hh).symm.trans (heq ▸ hpath)) P.lockfile_ne
    have hserial : k.serial < w.serial p := hok ▸ hw.wf.fs.serial_lt hopen
    cases hc with
    | same => exact absurd hopen hgone
    | close _ hopen' content hcontent =>
        refine ⟨⟨⟨⟨h, hh, ho, hd, ?_⟩, hpub⟩, hstaying⟩, ⟨hstaying, hpath⟩, hok, hdk, hserial, hgone⟩
        simpa [Function.update_of_ne hne] using hl
  refine op_rule hfaults (fun w _ _ hA => ⟨hA.2.1, trivial⟩) ?_ ?_
  · intro w log choice r w' hw hA hact
    have hopen : k ∈ w.opened := hA.2.2.2
    have hc := act_change hact
    simp only [act, Config.act, if_pos hopen, Option.some.injEq, Prod.mk.injEq] at hact
    obtain ⟨rfl, rfl⟩ := hact
    exact hkept w log _ hw hA hc (by simp)
  · intro w log e hw hA _ he
    have hopen : k ∈ w.opened := hA.2.2.2
    refine ⟨he, (hkept w log _ hw hA (Config.afterFault_change w _) ?_).2⟩
    simp [Config.afterFault, if_pos hopen]

omit hself in
/-- The closed file object is forgotten. -/
theorem dropPidFile_rule :
    Hoare (P.ctx p c) (AfterClose P p k) (perform (.drop k)) (fun _ => Staying p) E := by
  refine op_rule hfaults ?_ ?_ fun _ _ _ _ _ hf => hf.elim
  · rintro w log hw ⟨⟨-, hpath⟩, ho, -, hserial, hclosed⟩
    refine ⟨⟨ho, hserial, fun hfh => ?_⟩, fun _ => hclosed⟩
    exact P.lockfile_ne ((hw.stored hfh).symm.trans hpath)
  · intro w log choice r w' hw hA hact
    simp only [act, Config.act, Option.some.injEq, Prod.mk.injEq] at hact
    obtain ⟨rfl, rfl⟩ := hact
    exact hA.1.1

omit hself in
/-- The content of the PID file is replaced. -/
theorem storePid_rule :
    Hoare (P.ctx p c) (Publishing P p k false) (self.storePid k) (fun _ => Publishing P p k true)
      (Failed (Publishing P p k false)) := by
  refine Hoare.bind (quiet_rule hfaults (Or.inl rfl)) fun _ =>
    Hoare.bind (quiet_rule hfaults (Or.inr (Or.inl rfl))) fun _ =>
      Hoare.bind (write_rule hfaults self.pidText defaultBufferSize) fun _ => ?_
  have hflush : Hoare (P.ctx p c) (Publishing P p k true) (perform (.flush k))
      (fun _ => Publishing P p k true) (Failed (Publishing P p k true)) :=
    quiet_rule hfaults (Or.inr (Or.inr (Or.inl rfl)))
  exact hflush.conseq (fun _ _ hA => hA) (fun _ _ _ hA => hA) fun e _ _ hA => ⟨hA.1, hA.2.weaken⟩

/-- `_write_pid`: the PID file is the client's own, or the call has failed. -/
theorem writePid_rule :
    Hoare (P.ctx p c) (Holding p false) self.writePid (fun _ => Holding p true)
      (Failed (Staying p)) := by
  have hopen : Hoare (P.ctx p c) (Holding p false) (perform (.openFile self.filename .append))
      (fun k => Publishing P p k false) (Failed (Staying p)) := by
    rw [hself]
    exact openPidFile_rule hfaults
  refine Hoare.bind hopen fun k => ?_
  refine Hoare.onRaise (F := Failed (AfterClose P p k)) ?_ fun e => Hoare.of_fact fun he =>
    (dropPidFile_rule hfaults).of_post fun _ _ _ hA => ⟨he, hA⟩
  have hclose : Hoare (P.ctx p c) (Publishing P p k true) (perform (.close k))
      (fun _ => Holding p true) (Failed (AfterClose P p k)) :=
    (closePidFile_rule hfaults).of_post fun _ _ _ hA => hA.1
  refine Hoare.bind (R := fun _ => Publishing P p k true) ?_ fun _ => hclose
  refine Hoare.tryCatch (F := Failed (Publishing P p k false)) ?_ fun e => Hoare.of_fact fun he => ?_
  · refine Hoare.bind (storePid_rule hfaults self) fun _ => ?_
    have hfsync : Hoare (P.ctx p c) (Publishing P p k true) (perform (.fsync k))
        (fun _ => Publishing P p k true) (Failed (Publishing P p k true)) :=
      quiet_rule hfaults (Or.inr (Or.inr (Or.inr rfl)))
    refine Hoare.tryCatch hfsync fun e => ?_
    split
    · exact Hoare.pure fun _ _ hA => hA.2
    · exact Hoare.throw fun _ _ hA => ⟨hA.1, hA.2.weaken⟩
  · rw [if_pos he]
    refine Hoare.bind (R := fun _ => AfterClose P p k) ?_ fun _ =>
      Hoare.throw fun _ _ hA => ⟨he, hA⟩
    refine suppress_rule ((closePidFile_rule hfaults).conseq (fun _ _ hA => hA)
      (fun _ _ _ hA => hA.2) fun e' W _ hA => ?_)
    rw [Caught, if_pos hA.1]
    exact hA.2

/-! ## Letting go of the sidecar -/

omit hfaults hself in
/-- The operations by which a lock object gives up a handle of the sidecar. -/
def LettingGo (P : Processes ι) (o : Op ι) : Prop :=
  (∃ h : Handle ι Path, h.path = P.lockfile ∧ (o = .unlock h ∨ o = .close h)) ∨ o = .setFh none

omit hself in
/-- `Lock.release` of the inner lock keeps what those operations keep. -/
theorem lockRelease_rule {lock : Lock} (hquiet : lock.raiseOnReleaseError = false)
    {A : World ι × Handover ι → Prop} [(P.ctx p c).Stable A]
    (hA : ∀ w log w' o, LettingGo P o → A (w, log) → Change P.config p w o w' → A (w', log)) :
    Hoare (P.ctx p c) A lock.release (fun _ W => W.1.fh p = none ∧ A W) E := by
  have hgive : ∀ (h : Handle ι Path) o, (o = .unlock h ∨ o = .close h) →
      Hoare (P.ctx p c) (fun W => W.1.fh p = some h ∧ A W) (perform o)
        (fun _ W => W.1.fh p = some h ∧ A W) (Failed fun W => W.1.fh p = some h ∧ A W) := by
    intro h o ho
    refine keeps_rule hfaults ?_ ?_
    · rintro w log hw ⟨hfh, -⟩
      rcases ho with rfl | rfl
      · exact ⟨hw.wf.fh_owner hfh, trivial⟩
      · exact ⟨hw.wf.fh_owner hfh, trivial⟩
    · rintro w log r w' hw ⟨hfh, hs⟩ hc
      have hkept : A (w', log) := hA w log w' o (Or.inl ⟨h, hw.stored hfh, ho⟩) hs hc
      rcases ho with rfl | rfl
      · exact ⟨by cases hc <;> exact hfh, hkept⟩
      · exact ⟨by cases hc <;> exact hfh, hkept⟩
  have hcaught : ∀ (h : Handle ι Path) o (B : Exc → World ι × Handover ι → Prop),
      (o = .unlock h ∨ o = .close h) →
      Hoare (P.ctx p c) (fun W => W.1.fh p = some h ∧ A W) (perform o)
        (fun _ W => W.1.fh p = some h ∧ A W) (Caught (fun W => W.1.fh p = some h ∧ A W) B) := by
    intro h o B ho
    refine (hgive h o ho).conseq (fun _ _ hs => hs) (fun _ _ _ hs => hs) fun e W _ hs => ?_
    rw [Caught, if_pos hs.1]
    exact hs.2
  refine release_rule (C := P.ctx p c) (I := fun _ => False)
    (R := fun h W => W.1.fh p = some h ∧ A W) (U := fun h W => W.1.fh p = some h ∧ A W)
    (V := fun h W => W.1.fh p = some h ∧ A W) ?_ (fun h => hcaught h _ _ (Or.inl rfl))
    (fun h => hcaught h _ _ (Or.inr rfl)) ?_ (fun hraise => by rw [hquiet] at hraise; cases hraise)
    fun _ _ _ hf => hf.elim
  · refine (fh_rule hfaults).of_post fun v W _ hs => ?_
    cases v with
    | none => exact hs
    | some h => exact hs
  · intro h
    refine op_rule hfaults (fun w _ _ _ => ⟨(fun k hk => by cases hk), (fun k hk => by cases hk)⟩) ?_
      fun _ _ _ _ _ hf => hf.elim
    intro w log choice r w' hw hs hact
    have hc := act_change hact
    simp only [act, Config.act, Option.some.injEq, Prod.mk.injEq] at hact
    obtain ⟨rfl, rfl⟩ := hact
    exact ⟨by simp, hA w log _ _ (Or.inr rfl) hs.2 hc⟩

omit hfaults hself in
/-- They leave the record alone. -/
theorem Staying.keep {W W' : World ι × Handover ι} (h : Staying p W) (heq : W'.2 = W.2) :
    Staying p W' := by
  rw [Staying, heq]
  exact h

omit hself in
/-- Assigning `_inner_lock` during an acquisition. -/
theorem setInnerLock_rule (hc : c.acquires = true) (inner : Bool)
    {A B : World ι × Handover ι → Prop} [(P.ctx p c).Stable A] [(P.ctx p c).Stable B]
    (hset : ∀ w log, A (w, log) → B (w.setInner p inner, log)) :
    Hoare (P.ctx p c) A (perform (.setInnerLock inner)) (fun _ => B) E := by
  refine op_rule hfaults (fun _ _ _ _ => ⟨trivial, trivial⟩) ?_ fun _ _ _ _ _ hf => hf.elim
  intro w log choice r w' hw hs hact
  simp only [act, Config.act, Option.some.injEq, Prod.mk.injEq] at hact
  obtain ⟨rfl, rfl⟩ := hact
  have hnote : P.note p c log (.setInnerLock inner) (.ok ()) = log := by
    cases inner with
    | true => rfl
    | false => exact if_pos hc
  rw [hnote]
  exact hset w log hs

omit hself in
/-- Assigning `_acquired_lock`. -/
theorem setAcquiredLock_rule (value : Bool) {A : World ι × Handover ι → Prop}
    [(P.ctx p c).Stable A]
    (hset : ∀ w log, A (w, log) →
      A ({ w with acquired := Function.update w.acquired p value }, log)) :
    Hoare (P.ctx p c) A (perform (.setAcquiredLock value)) (fun _ => A) E := by
  refine op_rule hfaults (fun _ _ _ _ => ⟨trivial, trivial⟩) ?_ fun _ _ _ _ _ hf => hf.elim
  intro w log choice r w' hw hs hact
  simp only [act, Config.act, Option.some.injEq, Prod.mk.injEq] at hact
  obtain ⟨rfl, rfl⟩ := hact
  exact hset w log hs

/-! ## The calls -/

omit hfaults hself in
theorem Off.keep {W W' : World ι × Handover ι} (h : Off p W) (hinner : W'.1.inner p = W.1.inner p)
    (heq : W'.2 = W.2) : Off p W' :=
  ⟨hinner.trans h.1, h.2.keep heq⟩

omit hfaults hself in
theorem Off.idle {W : World ι × Handover ι} (h : Off p W) : Idle p W :=
  ⟨(fun hi => by rw [h.1] at hi; cases hi), h.2⟩

/-- The sidecar is taken, or its object is let go of. -/
theorem acquireSidecar_rule (hc : c.acquires = true) :
    Hoare (P.ctx p c) (Bare p)
      (PidFileLock.acquireSidecar self timeout checkInterval failWhenLocked)
      (fun _ => Holding p false) (fun _ => Off p) := by
  refine Hoare.tryCatch (acquireVerified_sidecar hfaults self hself timeout checkInterval
    failWhenLocked) fun e => Hoare.of_fact fun he => ?_
  rw [if_pos he]
  exact Hoare.bind (setInnerLock_rule (B := Off p) hfaults hc false fun w log hs =>
    ⟨by simp, hs⟩) fun _ => Hoare.throw fun _ _ hs => hs

omit hself in
/-- `_rollback_failed_acquire`. -/
theorem rollback_rule (hc : c.acquires = true) :
    Hoare (P.ctx p c) (Staying p)
      (PidFileLock.rollbackFailedAcquire (self.innerLock timeout checkInterval failWhenLocked))
      (fun _ => Off p) E := by
  have hrelease : Hoare (P.ctx p c) (Staying p)
      (self.innerLock timeout checkInterval failWhenLocked).release (fun _ => Bare p)
      (Caught (Bare p) E) :=
    lockRelease_rule hfaults rfl fun _ _ _ _ _ hs _ => hs
  refine Hoare.bind (suppress_rule hrelease) fun _ => ?_
  refine Hoare.bind (R := fun _ => Staying p) ?_ fun _ =>
    Hoare.bind (setInnerLock_rule (B := Off p) hfaults hc false fun w log hs => ⟨by simp, hs⟩)
      fun _ => setAcquiredLock_rule hfaults false fun _ _ hs => hs
  refine Hoare.bind (R := fun v W => v = none ∧ Staying p W) ?_ fun v => Hoare.of_fact ?_
  · exact (fh_rule hfaults).of_post fun v W _ hs => ⟨hs.1.symm.trans hs.2.1, hs.2.2⟩
  · rintro rfl
    exact Hoare.pure fun _ _ hs => hs

/-- `PidFileLock.acquire`: the client holds the sidecar and the PID file is its own, or it
has no inner lock. -/
theorem acquire_rule (hc : c.acquires = true) (failWhenLocked : Option Bool) :
    Hoare (P.ctx p c) (Idle p) (PidFileLock.acquire self timeout checkInterval failWhenLocked)
      (fun _ => Idle p) (fun _ => Off p) := by
  refine Hoare.onRaise (F := fun _ => Off p) ?_ fun e => ?_
  · refine Hoare.bind (R := fun _ => Bare p)
      ((discardLock_rule hfaults).of_pre fun _ _ hs => hs.2) fun _ => ?_
    refine Hoare.bind (setInnerLock_rule (B := Bare p) hfaults hc true fun _ _ hs => hs) fun _ => ?_
    refine Hoare.bind (acquireSidecar_rule hfaults self hself timeout checkInterval _ hc) fun _ => ?_
    refine Hoare.bind (R := fun _ => Holding p true) ?_ fun _ => ?_
    · refine Hoare.tryCatch (writePid_rule hfaults self hself) fun e => Hoare.of_fact fun he => ?_
      rw [if_pos he]
      exact Hoare.bind (rollback_rule hfaults self timeout checkInterval _ hc) fun _ =>
        Hoare.throw fun _ _ hs => hs
    · refine Hoare.bind (setAcquiredLock_rule hfaults true fun _ _ hs => hs) fun _ => ?_
      refine Hoare.bind (fh_rule hfaults) fun v => ?_
      cases v with
      | none =>
          refine Hoare.of_false ?_
          rintro W - ⟨hnone, ⟨⟨h, hfh, -⟩, -⟩, -⟩
          rw [hnone] at hfh
          cases hfh
      | some h =>
          have hacquired : Hoare (P.ctx p c) (fun W => W.1.fh p = some h ∧ Holding p true W)
              (perform .acquired) (fun _ => Idle p) (fun _ => Off p) := by
            refine op_rule hfaults (fun _ _ _ _ => ⟨trivial, trivial⟩) ?_
              fun _ _ _ _ _ hf => hf.elim
            rintro w log choice r w' hw ⟨-, ⟨hs, hpub⟩, hstaying⟩ hact
            simp only [act, Config.act, Option.some.injEq, Prod.mk.injEq] at hact
            obtain ⟨rfl, rfl⟩ := hact
            exact ⟨fun _ => ⟨hs, hpub rfl⟩, hstaying⟩
          exact Hoare.bind hacquired fun _ => Hoare.pure fun _ _ hs => hs
  · refine Hoare.bind (innerLock_rule hfaults) fun v => ?_
    cases v with
    | true => exact Hoare.pure fun _ _ hs => hs.2
    | false =>
        refine op_rule hfaults (fun _ _ _ _ => ⟨trivial, trivial⟩) ?_ fun _ _ _ _ _ hf => hf.elim
        intro w log choice r w' hw hs hact
        simp only [act, Config.act, Option.some.injEq, Prod.mk.injEq] at hact
        obtain ⟨rfl, rfl⟩ := hact
        exact hs.2

/-- After the unlock both files are removed, if they can be. -/
theorem removeFiles_rule :
    Hoare (P.ctx p c) (Going P p) (PidFileLock.removeFiles self) (fun _ => Off p) E := by
  have hlockfile : self.lockfile = P.lockfile := lockfile_eq self hself
  have hpid : Hoare (P.ctx p c) (Going P p) (perform (.unlink self.filename)) (fun _ => Off p)
      (Caught (Off p) E) := by
    rw [hself]
    refine op_rule hfaults (fun w log _ hs => ⟨trivial, fun _ => ⟨hs.1.2, hs.2⟩⟩) ?_ ?_
    · intro w log choice r w' hw hs hact
      have hafter : Off p (w', P.note p c log (.unlink P.filename) r) := by
        refine ⟨?_, ?_⟩
        · cases act_change hact <;> exact hs.1.1
        · simp [Staying, Processes.note]
      cases r with
      | ok v => exact hafter
      | error e =>
          refine (?_ : Caught _ _ e _)
          rw [Caught, if_pos (act_isException hact)]
          exact hafter
    · intro w log e hw hs _ he
      rw [Caught, if_pos he]
      exact ⟨hs.1.1, by simp [Staying, Processes.note]⟩
  have hkeeps : ∀ o : Op ι, (o = .pathExists P.lockfile ∨ o = .unlink P.lockfile) →
      Hoare (P.ctx p c) (Off p) (perform o) (fun _ => Off p) (Caught (Off p) E) := by
    intro o ho
    refine (keeps_rule (A := Off p) hfaults ?_ ?_).conseq (fun _ _ hs => hs) (fun _ _ _ hs => hs)
      fun e W _ hs => ?_
    · rcases ho with rfl | rfl
      · exact fun _ _ _ _ => ⟨trivial, trivial⟩
      · exact fun _ _ _ _ => ⟨trivial, fun heq => absurd heq P.lockfile_ne⟩
    · intro w log r w' _ hs hc
      rcases ho with rfl | rfl
      · cases hc
        exact hs
      · have hnote : P.note p c log (.unlink P.lockfile) r = log := if_neg P.lockfile_ne
        rw [hnote]
        cases hc <;> exact hs
    · rw [Caught, if_pos hs.1]
      exact hs.2
  refine Hoare.bind (suppress_rule hpid) fun _ => ?_
  rw [hlockfile]
  refine suppress_rule (Hoare.bind (hkeeps _ (Or.inl rfl)) fun present => ?_)
  cases present with
  | true => exact hkeeps _ (Or.inr rfl)
  | false => exact Hoare.pure fun _ _ hs => hs

/-- `PidFileLock.release`. -/
theorem pidRelease_rule (hc : c.acquires = false) :
    Hoare (P.ctx p c) (Idle p) (PidFileLock.release self) (fun _ => Idle p) E := by
  refine Hoare.bind (innerLock_rule hfaults) fun v => ?_
  cases v with
  | false => exact Hoare.pure fun _ _ hs => hs.2
  | true =>
      refine Hoare.bind (R := fun _ => Going P p) ?_ fun _ => ?_
      · refine op_rule hfaults (fun _ _ _ _ => ⟨trivial, trivial⟩) ?_ fun _ _ _ _ _ hf => hf.elim
        rintro w log choice r w' hw ⟨hi, hinner, -⟩ hact
        simp only [act, Config.act, Option.some.injEq, Prod.mk.injEq] at hact
        obtain ⟨rfl, rfl⟩ := hact
        have hnote : P.note p c log (.setInnerLock false) (.ok ()) =
            { log with leaving := Function.update log.leaving p true } :=
          if_neg (by simp [hc])
        rw [hnote]
        refine ⟨⟨by simp, by simp⟩, fun _ q hq => Or.inl ?_⟩
        exact Option.some.inj (hq.symm.trans (hinner hi).2)
      · have hgoing : ∀ w log w' o, LettingGo P o → Going P p (w, log) →
            Change P.config p w o w' → Going P p (w', log) := by
          rintro w log w' o ho ⟨⟨hinner, hleaving⟩, hharmless⟩ hchange
          refine ⟨⟨?_, hleaving⟩, fun hl q hq => (hharmless hl q hq).imp_right ?_⟩
          · rcases ho with ⟨h, -, rfl | rfl⟩ | rfl <;> cases hchange <;> exact hinner
          · rintro ⟨k, hopen, howner, hpath⟩
            rcases opened_of_change hchange hopen with hafter | rfl
            · exact ⟨k, hafter, howner, hpath⟩
            · -- the PID file is not what is being closed
              rcases ho with ⟨h, hlockfile, heq | heq⟩ | heq
              · cases heq
              · obtain rfl := Op.close.inj heq
                exact absurd (hlockfile.symm.trans hpath) P.lockfile_ne
              · cases heq
        have hrelease : Hoare (P.ctx p c) (Going P p) self.heldLock.release
            (fun _ W => W.1.fh p = none ∧ Going P p W)
            (Caught (fun W => W.1.fh p = none ∧ Going P p W) E) :=
          lockRelease_rule hfaults rfl hgoing
        refine Hoare.bind (suppress_rule hrelease) fun _ => ?_
        exact ((removeFiles_rule hfaults self hself).of_pre fun _ _ hs => hs.2).of_post
          fun _ _ _ hs => hs.idle

omit hfaults hself in
/-- What the idle client counts on does not depend on the rest of the world. -/
theorem Idle.keep {W W' : World ι × Handover ι} (hw : P.Coherent W.1) (h : Idle p W)
    (hinner : W'.1.inner p = W.1.inner p) (hfh : W'.1.fh p = W.1.fh p)
    (hdropped : W'.1.dropped = W.1.dropped)
    (hlock : ∀ k, k.path = P.lockfile → W'.1.lock k = W.1.lock k) (hlog : W'.2 = W.2) :
    Idle p W' := by
  refine ⟨fun hi => ?_, by rw [hlog]; exact h.2⟩
  obtain ⟨⟨k, hk, ho, hd, hl⟩, hpub⟩ := h.1 (hinner ▸ hi)
  refine ⟨⟨k, hfh.trans hk, ho, ?_, (hlock k (hw.stored hk)).trans hl⟩, by rw [hlog]; exact hpub⟩
  rw [hdropped]
  exact hd

omit hself in
/-- An operation that looks at the PID file. -/
theorem look_rule (ho : o = .readPidCalled ∨ (∃ value, o = .readPidReturns value) ∨
      o = .pathExists P.filename ∨ (∃ f, o = .read f) ∨ o = .acquiredLock) :
    Hoare (P.ctx p c) (Idle p) (perform o) (fun _ => Idle p) (Failed (Idle p)) := by
  refine keeps_rule hfaults ?_ ?_
  · rcases ho with rfl | ⟨value, rfl⟩ | rfl | ⟨f, rfl⟩ | rfl
    all_goals exact fun _ _ _ _ => ⟨trivial, trivial⟩
  · intro w log r w' hw hs hc
    rcases ho with rfl | ⟨value, rfl⟩ | rfl | ⟨f, rfl⟩ | rfl
    all_goals
      cases hc <;> exact hs.keep (P := P) hw rfl rfl rfl (fun _ _ => rfl) rfl

omit hself in
/-- The PID file is opened to be read. -/
theorem openToRead_rule :
    Hoare (P.ctx p c) (Idle p) (perform (.openFile P.filename .read))
      (fun f W => (f.owner = p ∧ f.path = P.filename) ∧ Idle p W) (Failed (Idle p)) := by
  refine op_rule hfaults (fun _ _ _ _ => ⟨by simp [Own], trivial⟩) ?_
    fun _ _ e _ hs _ he => ⟨he, hs⟩
  intro w log choice r w' hw hs hact
  simp only [act, Config.act] at hact
  split at hact
  · simp only [Option.some.injEq, Prod.mk.injEq] at hact
    obtain ⟨rfl, rfl⟩ := hact
    exact ⟨⟨rfl, rfl⟩, hs.keep (P := P) hw rfl rfl rfl (fun _ _ => rfl) rfl⟩
  · simp only [Option.some.injEq, Prod.mk.injEq] at hact
    obtain ⟨rfl, rfl⟩ := hact
    exact ⟨rfl, hs⟩

omit hself in
/-- And closed again. -/
theorem closeRead_rule {f : Handle ι Path} (howner : f.owner = p) (hpath : f.path = P.filename) :
    Hoare (P.ctx p c) (Idle p) (perform (.close f)) (fun _ => Idle p) (Failed (Idle p)) := by
  refine keeps_rule hfaults (fun _ _ _ _ => ⟨howner, trivial⟩) ?_
  intro w log r w' hw hs hc
  cases hc with
  | same => exact hs
  | close _ hopen content hcontent =>
      refine hs.keep (P := P) hw rfl rfl rfl (fun k hk => ?_) rfl
      have hne : k ≠ f := fun heq => P.lockfile_ne (hk.symm.trans (heq ▸ hpath))
      simp [Function.update_of_ne hne]

/-- `read_pid`. -/
theorem readPid_rule :
    Hoare (P.ctx p c) (Idle p) self.readPid (fun _ => Idle p) (Failed (Idle p)) := by
  refine Hoare.bind (look_rule hfaults (Or.inl rfl)) fun _ => ?_
  refine Hoare.bind (R := fun _ => Idle p) ?_ fun answer =>
    Hoare.bind (look_rule hfaults (Or.inr (Or.inl ⟨_, rfl⟩))) fun _ => Hoare.pure fun _ _ hs => hs
  rw [hself]
  refine Hoare.tryCatch (F := Failed (Idle p)) ?_ fun e => ?_
  · refine Hoare.bind (look_rule hfaults (Or.inr (Or.inr (Or.inl rfl)))) fun present => ?_
    cases present with
    | false => exact Hoare.pure fun _ _ hs => hs
    | true =>
        refine Hoare.bind (openToRead_rule hfaults) fun f => Hoare.of_fact fun hf => ?_
        have hclose : Hoare (P.ctx p c) (Idle p) (perform (.close f)) (fun _ => Idle p)
            (Failed (Idle p)) := closeRead_rule hfaults hf.1 hf.2
        refine Hoare.bind (R := fun _ => Idle p) ?_ fun _ => Hoare.pure fun _ _ hs => hs
        refine Hoare.withFinally (F := Failed (Idle p))
          (look_rule hfaults (Or.inr (Or.inr (Or.inr (Or.inl ⟨f, rfl⟩))))) (fun _ => hclose)
          fun e => Hoare.of_fact fun he => hclose.of_post fun _ _ _ hs => ⟨he, hs⟩
  · refine Hoare.of_fact fun he => ?_
    split
    · exact Hoare.pure fun _ _ hs => hs
    · exact Hoare.throw fun _ _ hs => ⟨he, hs⟩

/-- `__enter__`. -/
theorem enter_rule (hc : c.acquires = true) :
    Hoare (P.ctx p c) (Idle p) (PidFileLock.enter self) (fun _ => Idle p) (fun _ => Idle p) := by
  refine Hoare.tryCatch (F := fun _ => Off p) (Hoare.bind
    (acquire_rule hfaults self hself none none hc none) fun _ => Hoare.pure fun _ _ hs => hs)
    fun e => ?_
  split
  · exact (readPid_rule hfaults self hself).conseq (fun _ _ hs => hs.idle) (fun _ _ _ hs => hs)
      fun _ _ _ hs => hs.2
  · exact Hoare.throw fun _ _ hs => hs.idle

/-- `__exit__`. -/
theorem exit_rule (hc : c.acquires = false) :
    Hoare (P.ctx p c) (Idle p) (PidFileLock.exit self) (fun _ => Idle p) (fun _ => Idle p) := by
  refine Hoare.bind ((look_rule hfaults (Or.inr (Or.inr (Or.inr (Or.inr rfl))))).conseq
    (fun _ _ hs => hs) (fun _ _ _ hs => hs) fun _ _ _ hs => hs.2) fun v => ?_
  cases v with
  | false => exact Hoare.pure fun _ _ hs => hs
  | true =>
      refine Hoare.bind (pidRelease_rule hfaults self hself hc) fun _ => ?_
      exact setAcquiredLock_rule hfaults false fun w log hs => hs

end Rules

/-! ## Whole runs -/

section Runs

variable {P : Processes ι}

/-- Every call keeps the contract. -/
theorem handover_verified (hfaults : PlainFaults P.config) : P.discipline.Verified := by
  intro p (c : Call) w hw hidle _
  have hstable : (P.ctx p c).Stable (Idle p) := inferInstance
  have hself : (P.lock p).filename = P.filename := P.filename_lock p
  cases c with
  | acquire timeout checkInterval failWhenLocked =>
      exact Hoare.toCall hstable ((acquire_rule hfaults _ hself _ _ rfl _).conseq
        (fun _ _ hs => hs) (fun _ _ _ hs => hs) fun _ _ _ hs => hs.idle) hw hidle
  | enter => exact Hoare.toCall hstable (enter_rule hfaults _ hself rfl) hw hidle
  | release => exact Hoare.toCall hstable (pidRelease_rule hfaults _ hself rfl) hw hidle
  | exit => exact Hoare.toCall hstable (exit_rule hfaults _ hself rfl) hw hidle
  | readPid =>
      exact Hoare.toCall hstable ((readPid_rule hfaults _ hself).conseq (fun _ _ hs => hs)
        (fun _ _ _ hs => hs) fun _ _ _ hs => hs.2) hw hidle
  | write | flush => exact fun w' hw' hr => hstable.keep hw hw' hr hidle

/-- An operation takes a name away only by unlinking it. -/
theorem unlinks_of_gone {cfg : Config ι} {p : ι} {w w' : World ι} {o : Op ι} {path : Path}
    (hc : Change cfg p w o w') (hthere : w.names path ≠ none) (hgone : w'.names path = none) :
    o = .unlink path := by
  cases hc with
  | create path' kind i hn hi hkind =>
      by_cases hp : path = path'
      · rw [hp] at hgone
        simp at hgone
      · exact absurd (by simpa [Function.update_of_ne hp] using hgone) hthere
  | unlink path' i hn =>
      by_cases hp : path = path'
      · rw [hp]
      · exact absurd (by simpa [Function.update_of_ne hp] using hgone) hthere
  | _ => exact absurd hgone hthere

/-- In every run in which a process closes the PID file it has written only while no other
has begun a release and not yet tried to unlink it, no transition removes a PID file that
another process has written. -/
theorem release_spares_next_holder (hfaults : PlainFaults P.config) {s s' : P.observed.State}
    {l : P.observed.Label} (hs : Reach P.Start P.closesApart s) (hn : next s l = some s') :
    P.Spares s l s' := by
  have hholds : P.discipline.Holds s := by
    refine (handover_verified hfaults).sound (fun W hW => ?_) hs
    obtain ⟨hpristine, hlog⟩ := hW
    refine ⟨⟨hpristine.wf, ?_, fun hk => ?_, fun hopen => ?_⟩, fun p => ⟨fun hi => ?_, ?_⟩⟩
    · simp [Pinned, hpristine.opened]
    · simp [hpristine.fh] at hk
    · simp [hpristine.opened] at hopen
    · simp [hpristine.inner] at hi
    · rw [hlog]
      rfl
  intro hthere hgone q hpub
  cases l with
  | call p c =>
      obtain ⟨-, rfl⟩ := next_call hn
      exact absurd hgone hthere
  | event e =>
      obtain ⟨w', hevent, heq⟩ := Option.map_eq_some_iff.1 (next_event hn).1
      have hevent' : Config.finalize e s.world.1 = some w' := hevent
      obtain ⟨-, -, rfl⟩ := Config.finalize_cases hevent'
      rw [← heq] at hgone
      exact absurd hgone hthere
  | op p choice =>
      obtain ⟨c, o, k, r, hthread, hperform, -⟩ := next_op hn
      have hrecorded : P.observed.perform choice p c (s.world.1, s.world.2) o =
          some (r, s'.world) := hperform
      have hperform' : performOp P.config choice p c s.world.1 o = some (r, s'.world.1) :=
        (perform_recorded hrecorded).1
      obtain rfl := unlinks_of_gone (performOp_change hperform') hthere hgone
      obtain ⟨hleaving, hharmless⟩ := (hholds.permitted hthread).2 rfl
      rcases unlink_unused hperform' with heq | ⟨-, hunused⟩
      · rw [heq] at hgone
        exact absurd hgone hthere
      · have hown : q = p := own_pid_of_unlink hholds.1 hharmless hleaving hunused hpub
        exact ⟨choice, by rw [hown]⟩

end Runs

/-- Two processes whose system calls do not fail. -/
def twoProcesses : Processes Bool where
  filename := ['f']
  lock := fun p => { filename := ['f'], getpid := if p then 1 else 2 }
  mayRaise := fun _ _ _ => false
  filename_lock := fun _ => rfl

/-- No process has done anything, and there are no files. -/
def twoProcesses.start : twoProcesses.observed.State := ⟨(World.empty, .empty), fun _ => none⟩

/-- Process `p` performs `n` operations of its call. -/
def twoProcesses.steps (p : Bool) (n : Nat) : List twoProcesses.observed.Label :=
  (List.range n).map fun i => .op p { ino := i }

/-- The first process acquires and lets go of the sidecar in its release; then the second
acquires. -/
def twoProcesses.overtake : List twoProcesses.observed.Label :=
  .call true (.acquire none none none) :: steps true 16 ++
    .call true .release :: steps true 6 ++
    .call false (.acquire none none none) :: steps false 16

/-- The same, but the release of the first process ends while the second has the PID file
open; then the second begins to release. -/
def twoProcesses.apart : List twoProcesses.observed.Label :=
  .call true (.acquire none none none) :: steps true 16 ++
    .call true .release :: steps true 6 ++
    .call false (.acquire none none none) :: steps false 12 ++
    steps true 3 ++ steps false 4 ++
    .call false .release :: steps false 6

/-- Whether an operation meets the condition. -/
def twoProcesses.check (p : Bool) (o : Op Bool) (W : World Bool × Handover Bool) : Bool :=
  match o with
  | .close h => !(decide (h.path = ['f']) && decide (W.2.publisher = some p) && W.2.leaving !p)
  | _ => true

theorem twoProcesses_start : twoProcesses.Start (World.empty, .empty) := ⟨empty_pristine, rfl⟩

theorem twoProcesses_faults : PlainFaults twoProcesses.config := fun _ _ _ h => by cases h

/-- A run that meets the condition: the unlink of the first process finds the PID file open,
and the second removes what it has written itself. -/
theorem release_spares_next_holder_run :
    ∃ s s', runChecked (M := twoProcesses.observed) twoProcesses.check twoProcesses.apart
        twoProcesses.start = some s ∧ next s (.op false {}) = some s' ∧
      twoProcesses.Spares s (.op false {}) s' ∧
      (s.world.1.names ['f']).isSome = true ∧ (s'.world.1.names ['f']).isNone = true ∧
      s.world.2.publisher = some false := by
  have hobserve : (runChecked (M := twoProcesses.observed) twoProcesses.check twoProcesses.apart
      twoProcesses.start).bind (fun s => (next s (.op false {})).map fun s' =>
        (((s.world.1.names ['f']).isSome, (s'.world.1.names ['f']).isNone),
          s.world.2.publisher)) = some ((true, true), some false) := by rfl
  obtain ⟨s, hrun, hobserve⟩ := Option.bind_eq_some_iff.1 hobserve
  obtain ⟨s', hnext, hs⟩ := Option.map_eq_some_iff.1 hobserve
  obtain ⟨hnames, hpub⟩ := Prod.mk.inj hs
  obtain ⟨hthere, hgone⟩ := Prod.mk.inj hnames
  have hreach : Reach twoProcesses.Start twoProcesses.closesApart s := by
    refine Reach.checked (fun _ _ _ => trivial) ?_ (.start twoProcesses_start) hrun
    rintro p c o W hcheck h rfl hpath hpub q hq
    have hother : q = !p := by
      cases p <;> cases q <;> first | rfl | exact absurd rfl hq
    have hpath' : h.path = ['f'] := hpath
    have hcheck' : (!(decide (h.path = ['f']) && decide (W.2.publisher = some p) &&
        W.2.leaving !p)) = true := hcheck
    rw [hother]
    simpa [hpath', hpub] using hcheck'
  exact ⟨s, s', hrun, hnext, release_spares_next_holder twoProcesses_faults hreach hnext, hthere,
    hgone, hpub⟩

/-- Without the condition: the first process unlinks the PID file that the second has
written since the sidecar was unlocked. -/
theorem release_removes_next_pid :
    PlainFaults twoProcesses.config ∧
    ¬ ∀ (s s' : twoProcesses.observed.State) (l : twoProcesses.observed.Label),
      Reach twoProcesses.Start (Guard.free twoProcesses.observed) s → next s l = some s' →
      twoProcesses.Spares s l s' := by
  refine ⟨twoProcesses_faults, fun hclaim => ?_⟩
  have hobserve : (run twoProcesses.overtake twoProcesses.start).bind (fun s =>
      (next s (.op true {})).map fun s' =>
        (((s.world.1.names ['f']).isSome, (s'.world.1.names ['f']).isNone),
          s.world.2.publisher)) = some ((true, true), some false) := by rfl
  obtain ⟨s, hrun, hobserve⟩ := Option.bind_eq_some_iff.1 hobserve
  obtain ⟨s', hnext, hs⟩ := Option.map_eq_some_iff.1 hobserve
  obtain ⟨hnames, hpub⟩ := Prod.mk.inj hs
  obtain ⟨hthere, hgone⟩ := Prod.mk.inj hnames
  have hreach : Reach twoProcesses.Start (Guard.free twoProcesses.observed) s :=
    (Reach.start twoProcesses_start).run hrun
  obtain ⟨choice, hlabel⟩ := hclaim s s' _ hreach hnext (Option.isSome_iff_ne_none.1 hthere)
    (Option.isNone_iff_eq_none.1 hgone) false hpub
  cases hlabel

end Portalocker.Nt
