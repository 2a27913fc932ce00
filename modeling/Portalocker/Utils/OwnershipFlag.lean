import Portalocker.Utils.Attempts
set_option autoImplicit false
set_option linter.unusedSectionVars false

/-!
# The ownership flag of a `PidFileLock`

`_acquired_lock` says that the instance took the lock, `_inner_lock` that it has the
sidecar.  What one call makes of the two, with every outcome of contention and of the
unlinks of `release`, and with anything done by the others in between: `acquire` sets both
or neither, `release` forgets `_inner_lock` and leaves `_acquired_lock` to its caller, and
`__exit__` clears it after a `release` that has returned.  The triples hold of the code for
Windows as well where it is the same; `Windows/OwnershipFlag.lean` has the rest of it, and
the sequences of calls.
-/

namespace Portalocker

open Posix Interleaving World Contract

variable {ι : Type} [DecidableEq ι]

/-! ## The attributes -/

/-- Contention aside, the unlinks are what may fail, and in any way. -/
def UnlinksMayFail (cfg : Config ι) : Prop :=
  ∀ c o e, cfg.mayRaise c o e = true → ∃ path, o = .unlink path

/-- `_inner_lock` is set, and its handle holds the OS lock on the sidecar. -/
def PidFileLock.HasSidecar (self : PidFileLock) (p : ι) (w : World ι) : Prop :=
  w.inner p = true ∧
    ∃ h, w.fh p = some h ∧ h.path = self.lockfile ∧ h ∈ w.opened ∧ w.lock h ≠ none

/-- `_acquired_lock` tells the truth. -/
def PidFileLock.FlagAgrees (self : PidFileLock) (p : ι) (w : World ι) : Prop :=
  w.acquired p = true ↔ self.HasSidecar p w

/-- The attributes of the instance, and the handle of its inner lock. -/
def Flags (p : ι) (inner acquired : Bool) (v : Option (Handle ι Path)) (w : World ι) : Prop :=
  (w.inner p = inner ∧ w.acquired p = acquired) ∧ w.fh p = v

/-- The instance has no inner lock. -/
def Released (p : ι) (acquired : Bool) (w : World ι) : Prop :=
  w.inner p = false ∧ w.acquired p = acquired

/-- A new handle on the sidecar, and its lock. -/
def Arriving (self : PidFileLock) (p : ι) (acquired : Bool) (h : Handle ι Path)
    (m : Option LockMode) (w : World ι) : Prop :=
  (Flags p true acquired none w ∧ h.path = self.lockfile) ∧ Opened p h w ∧ LockIs p h m w

/-- The handle that is stored is locked on the sidecar. -/
def Grips (self : PidFileLock) (p : ι) (inner acquired : Bool) (h : Handle ι Path)
    (w : World ι) : Prop :=
  (Flags p inner acquired (some h) w ∧ h.path = self.lockfile) ∧ Opened p h w ∧
    LockIs p h (some .exclusive) w

/-- The handle is still stored, whatever has become of its lock. -/
def LetsGo (p : ι) (inner acquired : Bool) (h : Handle ι Path) (w : World ι) : Prop :=
  Flags p inner acquired (some h) w ∧ Opened p h w

/-- The new handle has been closed and can be dropped. -/
def Turned (p : ι) (acquired : Bool) (h : Handle ι Path) (w : World ι) : Prop :=
  Flags p true acquired none w ∧ h.owner = p ∧ h.serial < w.serial p

section Operations

variable {cfg : Config ι} {self : PidFileLock} {p : ι} {c : Call} {inner acquired : Bool}
  {v : Option (Handle ι Path)} {h q : Handle ι Path} {m : Option LockMode}

instance solo_inner (b : Bool) : (cfg.solo p c).Stable fun w => w.inner p = b :=
  stable_solo fun hu _ h => hu.inner.trans h

instance solo_acquired (b : Bool) : (cfg.solo p c).Stable fun w => w.acquired p = b :=
  stable_solo fun hu _ h => hu.acquired.trans h

instance stable_flags : (cfg.solo p c).Stable (Flags p inner acquired v) :=
  inferInstanceAs (Context.Stable _ fun _ => _ ∧ _)

instance stable_released : (cfg.solo p c).Stable (Released p acquired : World ι → Prop) :=
  inferInstanceAs (Context.Stable _ fun _ => _ ∧ _)

instance stable_arriving : (cfg.solo p c).Stable (Arriving self p acquired h m) :=
  inferInstanceAs (Context.Stable _ fun _ => _ ∧ _)

instance stable_grips : (cfg.solo p c).Stable (Grips self p inner acquired h) :=
  inferInstanceAs (Context.Stable _ fun _ => _ ∧ _)

instance stable_letsGo : (cfg.solo p c).Stable (LetsGo p inner acquired h) :=
  inferInstanceAs (Context.Stable _ fun _ => _ ∧ _)

instance stable_turned : (cfg.solo p c).Stable (Turned p acquired h) :=
  inferInstanceAs (Context.Stable _ fun _ => _ ∧ _)

/-- An operation that is no unlink. -/
theorem calm_rule (hfaults : UnlinksMayFail cfg) {o : Op ι} {P : World ι → Prop}
    {Q : Val o → World ι → Prop} {E : Exc → World ι → Prop} [(cfg.solo p c).Stable P]
    [∀ v, (cfg.solo p c).Stable (Q v)] [∀ e, (cfg.solo p c).Stable (E e)]
    (ho : ∀ path, o ≠ .unlink path) (hown : ∀ w, w.Wf → P w → Own p w o)
    (hact : ∀ w choice r w', w.Wf → P w → cfg.act choice p w o = some (r, w') → Ends Q E r w') :
    Hoare (cfg.solo p c) P (perform o) Q E := by
  have hstep : ∀ w r w', (cfg.solo p c).inv w → P w → (cfg.solo p c).step w o r w' →
      Ends Q E r w' := by
    rintro w r w' hw hP ⟨choice, h⟩
    rcases Config.performOp_cases h with h | ⟨e, he, -, -⟩
    · exact hact w choice r w' hw hP h
    · obtain ⟨path, heq⟩ := hfaults c o e he
      exact absurd heq (ho path)
  exact Hoare.step (fun w hw hP => hown w hw hP) fun w r w' hw _ hP hs => hstep w r w' hw hP hs

/-- An operation that has one outcome. -/
theorem calm_total (hfaults : UnlinksMayFail cfg) {o : Op ι} {P : World ι → Prop}
    {Q : Val o → World ι → Prop} {E : Exc → World ι → Prop} [(cfg.solo p c).Stable P]
    [∀ v, (cfg.solo p c).Stable (Q v)] [∀ e, (cfg.solo p c).Stable (E e)] {v : World ι → Val o}
    {f : World ι → World ι} (ho : ∀ path, o ≠ .unlink path)
    (hact : ∀ choice w, w.Wf → P w → cfg.act choice p w o = some (.ok (v w), f w))
    (hown : ∀ w, w.Wf → P w → Own p w o) (hQ : ∀ w, w.Wf → P w → Q (v w) (f w)) :
    Hoare (cfg.solo p c) P (perform o) Q E := by
  refine calm_rule hfaults ho hown ?_
  intro w choice r w' hw hP h
  rw [hact choice w hw hP, Option.some.injEq, Prod.mk.injEq] at h
  obtain ⟨rfl, rfl⟩ := h
  exact hQ w hw hP

variable (hfaults : UnlinksMayFail cfg)
include hfaults

section Acquire

variable {E : Exc → World ι → Prop} [∀ e, (cfg.solo p c).Stable (E e)]

/-- The handle is read. -/
theorem fh_flags :
    Hoare (cfg.solo p c) (Flags p inner acquired v) (perform .fh)
      (fun u w => u = v ∧ Flags p inner acquired v w) E := by
  exact calm_total hfaults (fun _ => nofun) (fun _ _ _ _ => rfl) (fun _ _ _ => trivial)
    fun _ _ hs => ⟨hs.2, hs⟩

/-- Waiting, or asking the clock. -/
theorem pause_flags {o : Op ι} (ho : (∃ timeout, o = .attempts timeout) ∨
      ∃ i checkInterval, o = .sleep i checkInterval) {P : World ι → Prop}
    [(cfg.solo p c).Stable P] : Hoare (cfg.solo p c) P (perform o) (fun _ => P) E := by
  rcases ho with ⟨timeout, rfl⟩ | ⟨i, checkInterval, rfl⟩
  · refine calm_rule hfaults (fun _ h => by cases h) (fun _ _ _ => trivial) ?_
    intro w choice r w' _ hP hact
    simp only [Config.act, Option.ite_none_left_eq_some, Option.some.injEq, Prod.mk.injEq] at hact
    obtain ⟨-, rfl, rfl⟩ := hact
    exact hP
  · refine calm_rule hfaults (fun _ h => by cases h) (fun _ _ _ => trivial) ?_
    intro w choice r w' _ hP hact
    simp only [Config.act, Option.some.injEq, Prod.mk.injEq] at hact
    obtain ⟨rfl, rfl⟩ := hact
    exact hP

/-- The sidecar is opened. -/
theorem openSidecar_flags :
    Hoare (cfg.solo p c) (Flags p true acquired none) (perform (.openFile self.lockfile .append))
      (fun h => Arriving self p acquired h none) E := by
  refine calm_rule hfaults (fun _ => nofun) (fun _ _ _ => by simp [Own]) ?_
  intro w choice r w' hw hs hact
  have hopened : ∀ i (w₁ : World ι), w₁.serial = w.serial → w₁.lock = w.lock →
      w₁.dropped = w.dropped → Flags p true acquired none w₁ →
      Arriving self p acquired (w₁.handle p self.lockfile i) none
        (w₁.openAt p self.lockfile i) := by
    intro i w₁ hserial hlock hdropped hs₁
    have hsame : w₁.handle p self.lockfile i = w.handle p self.lockfile i := by
      simp [Fs.handle, hserial]
    have hundropped : (w₁.openAt p self.lockfile i).dropped (w₁.handle p self.lockfile i) =
        false := by
      rw [openAt_dropped, hdropped, hsame]
      exact Bool.eq_false_iff.2 fun hd => absurd (hw.dropped_serial hd) (by simp)
    refine ⟨⟨hs₁, rfl⟩, ⟨rfl, hundropped, by simp⟩, rfl, hundropped, ?_⟩
    rw [openAt_toFs, Fs.openAt_lock, hlock, hsame]
    exact hw.fs.lock_open hw.fs.handle_not_mem
  simp only [Config.act] at hact
  split at hact
  · simp only [Option.some.injEq, Prod.mk.injEq] at hact
    obtain ⟨rfl, rfl⟩ := hact
    exact hopened _ w rfl rfl rfl hs
  · simp only [Option.ite_none_right_eq_some, Option.some.injEq, Prod.mk.injEq] at hact
    obtain ⟨-, rfl, rfl⟩ := hact
    exact hopened _ _ rfl rfl rfl hs

/-- The lock call. -/
theorem flock_flags (h : Handle ι Path) :
    Hoare (cfg.solo p c) (Arriving self p acquired h none) (perform (.flock h .lockMethod))
      (fun _ => Arriving self p acquired h (some .exclusive))
      (fun e w => e = .osError .EAGAIN ∧ Arriving self p acquired h none w) := by
  refine calm_rule hfaults (fun _ => nofun) (fun w _ hs => hs.2.1.1) ?_
  rintro w choice r w' - ⟨hs, hopen, ho, hd, hlock⟩ hact
  simp only [Config.act, Config.onOpen, if_pos hopen.2.2, LockFlags.mode, LockFlags.lockMethod,
    if_true] at hact
  split at hact
  · simp only [Option.some.injEq, Prod.mk.injEq] at hact
    obtain ⟨rfl, rfl⟩ := hact
    exact ⟨rfl, hs, hopen, ho, hd, hlock⟩
  · simp only [Option.some.injEq, Prod.mk.injEq] at hact
    obtain ⟨rfl, rfl⟩ := hact
    exact ⟨hs, hopen, ho, hd, by simp⟩

/-- A refused handle is closed. -/
theorem closeArriving_flags (h : Handle ι Path) :
    Hoare (cfg.solo p c) (Arriving self p acquired h none) (perform (.close h))
      (fun _ => Turned p acquired h) E := by
  refine calm_rule hfaults (fun _ => nofun) (fun w _ hs => hs.2.1.1) ?_
  rintro w choice r w' hw ⟨⟨hs, -⟩, ⟨ho, -, hopen⟩, -⟩ hact
  simp only [Config.act, if_pos hopen, Option.some.injEq, Prod.mk.injEq] at hact
  obtain ⟨rfl, rfl⟩ := hact
  exact ⟨hs, ho, ho ▸ hw.fs.serial_lt hopen⟩

/-- And forgotten. -/
theorem drop_flags (h : Handle ι Path) :
    Hoare (cfg.solo p c) (Turned p acquired h) (perform (.drop h))
      (fun _ => Flags p true acquired none) E := by
  exact calm_total hfaults (fun _ => nofun) (fun _ _ _ _ => rfl) (fun w _ hs => ⟨hs.2.1, hs.2.2,
    by simp [hs.1.2]⟩)
    fun _ _ hs => hs.1

/-- A locked one is stored. -/
theorem setFh_flags (h : Handle ι Path) :
    Hoare (cfg.solo p c) (Arriving self p acquired h (some .exclusive)) (perform (.setFh (some h)))
      (fun _ => Grips self p true acquired h) E := by
  refine calm_rule hfaults (fun _ => nofun) ?_ ?_
  · rintro w - ⟨-, ⟨ho, hd, hopen⟩, -⟩ k hk
    obtain rfl := Option.some.inj hk
    exact ⟨ho, hopen, hd⟩
  · rintro w choice r w' - ⟨⟨hs, hpath⟩, hrest⟩ hact
    simp only [Config.act, Option.some.injEq, Prod.mk.injEq] at hact
    obtain ⟨rfl, rfl⟩ := hact
    exact ⟨⟨⟨hs.1, by simp⟩, hpath⟩, hrest⟩

/-- `os.fstat` of the stored handle. -/
theorem fstat_flags (h : Handle ι Path) :
    Hoare (cfg.solo p c) (Grips self p true acquired h) (perform (.fstat h))
      (fun i w => i = h.ino ∧ Grips self p true acquired h w) E := by
  exact calm_total hfaults (fun _ => nofun) (fun _ _ _ hs => if_pos hs.2.1.2.2)
    (fun _ _ _ => trivial) fun _ _ hs => ⟨rfl, hs⟩

/-- `os.stat` of the path. -/
theorem stat_flags (path : Path) (h : Handle ι Path) :
    Hoare (cfg.solo p c) (Grips self p true acquired h) (perform (.stat path))
      (fun _ => Grips self p true acquired h)
      (fun e w => e = .osError .ENOENT ∧ Grips self p true acquired h w) := by
  refine calm_rule hfaults (fun _ => nofun) (fun _ _ _ => trivial) ?_
  intro w choice r w' _ hs hact
  simp only [Config.act] at hact
  split at hact
  · simp only [Option.some.injEq, Prod.mk.injEq] at hact
    obtain ⟨rfl, rfl⟩ := hact
    exact hs
  · simp only [Option.some.injEq, Prod.mk.injEq] at hact
    obtain ⟨rfl, rfl⟩ := hact
    exact ⟨rfl, hs⟩

/-! ## `Lock.release` -/

theorem unlock_flags (h : Handle ι Path) :
    Hoare (cfg.solo p c) (Grips self p inner acquired h) (perform (.unlock h))
      (fun _ => LetsGo p inner acquired h) E := by
  exact calm_total hfaults (fun _ => nofun) (fun _ _ _ hs => if_pos hs.2.1.2.2)
    (fun w _ hs => hs.2.1.1) fun _ _ hs => ⟨hs.1.1, hs.2.1⟩

theorem closeStored_flags (h : Handle ι Path) :
    Hoare (cfg.solo p c) (LetsGo p inner acquired h) (perform (.close h))
      (fun _ => Flags p inner acquired (some h)) E := by
  exact calm_total hfaults (fun _ => nofun) (fun _ _ _ hs => if_pos hs.2.2.2)
    (fun w _ hs => hs.2.1) fun _ _ hs => hs.1

theorem forget_flags (h : Handle ι Path) :
    Hoare (cfg.solo p c) (Flags p inner acquired (some h)) (perform (.setFh none))
      (fun _ => Flags p inner acquired none) E := by
  exact calm_total hfaults (fun _ => nofun) (fun _ _ _ _ => rfl) (fun w _ _ k hk => by cases hk)
    fun _ _ hs => ⟨hs.1, by simp⟩

/-- Reading the stored handle. -/
theorem stored_flags (h : Handle ι Path) :
    Hoare (cfg.solo p c) (Grips self p inner acquired h) (perform .fh)
      (fun v w => v = some h ∧ Grips self p inner acquired h w) E := by
  exact calm_total hfaults (fun _ => nofun) (fun _ _ _ _ => rfl) (fun _ _ _ => trivial)
    fun _ _ hs => ⟨hs.1.1.2, hs⟩

/-- The inner lock lets go of its handle. -/
theorem release_flags {lock : Lock} (hquiet : lock.raiseOnReleaseError = false)
    (h : Handle ι Path) :
    Hoare (cfg.solo p c) (Grips self p inner acquired h) lock.release
      (fun _ => Flags p inner acquired none) E := by
  refine release_rule (C := cfg.solo p c) (I := fun _ => False)
    (R := fun k w => k = h ∧ Grips self p inner acquired h w)
    (U := LetsGo p inner acquired) (V := fun k => Flags p inner acquired (some k)) ?_ ?_
    (fun k => closeStored_flags hfaults k) (fun k => forget_flags hfaults k)
    (fun hraise => absurd (hquiet.symm.trans hraise) (by simp)) fun _ _ _ hf => hf.elim
  · refine (stored_flags hfaults h).of_post ?_
    rintro v w - ⟨rfl, hs⟩
    exact ⟨rfl, hs⟩
  · intro k
    refine Hoare.of_fact ?_
    rintro rfl
    exact unlock_flags hfaults k

/-! ## The sidecar -/

/-- An `Exception` has left the instance without a handle. -/
def Declined (p : ι) (acquired : Bool) (e : Exc) (w : World ι) : Prop :=
  e.isException = true ∧ Flags p true acquired none w

omit hfaults in
instance stable_declined (e : Exc) : (cfg.solo p c).Stable (Declined (ι := ι) p acquired e) :=
  inferInstanceAs (Context.Stable _ fun _ => _ ∧ _)

omit hfaults in
theorem isException_of_isLockException {e : Exc} (he : e.isLockException = true) :
    e.isException = true := by
  cases e <;> first | rfl | cases he

omit hfaults in
theorem reports_isException {e e' : Exc} (h : Reports e e') (he : e.isLockException = true) :
    e'.isException = true := by
  unfold Reports at h
  rw [if_pos he] at h
  rcases h with rfl | rfl
  · exact isException_of_isLockException he
  · rfl

variable (timeout checkInterval : Option Rat) (failWhenLocked : Bool)

/-- `Lock.acquire` of the inner lock, which has no handle. -/
theorem lockAcquire_flags (b : Option Bool) :
    Hoare (cfg.solo p c) (Flags p true acquired none)
      ((self.innerLock timeout checkInterval failWhenLocked).acquire timeout checkInterval b)
      (Grips self p true acquired) (Declined p acquired) := by
  have hmode : openKind ['a'] = some .append := by decide
  refine lockAcquire_rule (C := cfg.solo p c) (Z := Flags p true acquired none)
    (N := fun h => Arriving self p acquired h none) hmode ?_ (openSidecar_flags hfaults) fun h => ?_
  · refine (fh_flags hfaults).of_post ?_
    rintro v w - ⟨rfl, hs⟩
    exact hs
  · refine acquireOpened_rule (N := Arriving self p acquired h none)
      (L := Arriving self p acquired h (some .exclusive))
      (T := fun e w => e.isLockException = true ∧ Arriving self p acquired h none w)
      (G := fun e w => e.isLockException = true ∧ Turned p acquired h w)
      (D := fun e w => e.isException = true ∧ Turned p acquired h w) ?_ ?_ ?_ ?_
      (fun _ _ _ _ ht => ht.2) (fun e _ => pause_flags hfaults (Or.inl ⟨_, rfl⟩))
      (fun i e _ => pause_flags hfaults (Or.inr ⟨_, _, rfl⟩)) (Hoare.pure fun _ _ hs => hs)
      (setFh_flags hfaults h) ?_
    · refine posixLock_rule (flock_flags hfaults h) ?_
      rintro e w - ⟨rfl, hs⟩
      exact ⟨rfl, hs⟩
    · exact fun e => Hoare.of_fact fun he =>
        (closeArriving_flags hfaults h).of_post fun _ _ _ hs => ⟨he, hs⟩
    · exact fun e e' w _ hreports hg => ⟨reports_isException hreports hg.1, hg.2⟩
    · intro e w _ he ht
      rw [isException_of_isLockException ht.1] at he
      cases he
    · exact fun e => Hoare.of_fact fun he =>
        (drop_flags hfaults h).of_post fun _ _ _ hs => ⟨he, hs⟩

/-- `_acquire_verified` of the sidecar. -/
theorem acquireVerified_flags (b : Option Bool) :
    Hoare (cfg.solo p c) (Flags p true acquired none)
      (TemporaryFileLock.acquireVerified (self.innerLock timeout checkInterval failWhenLocked)
        self.lockfile timeout checkInterval b)
      (Grips self p true acquired) (Declined p acquired) :=
  acquireVerified_rule (C := cfg.solo p c) (Z := Flags p true acquired none)
    (M := fun h _ => Grips self p true acquired h)
    (lockAcquire_flags hfaults timeout checkInterval failWhenLocked b)
    (fun h => fhMatchesPath_rule (S := Grips self p true acquired)
      (M := fun h _ => Grips self p true acquired h) (fstat_flags hfaults h)
      (stat_flags hfaults _ h))
    (fun h => release_flags hfaults rfl h) (fun _ _ hs => hs) (fun _ _ hs => ⟨rfl, hs⟩)
    (fun _ => pause_flags hfaults (Or.inl ⟨_, rfl⟩))
    fun _ _ => pause_flags hfaults (Or.inr ⟨_, _, rfl⟩)

theorem setInnerLock_flags (b : Bool) :
    Hoare (cfg.solo p c) (Flags p inner acquired v) (perform (.setInnerLock b))
      (fun _ => Flags p b acquired v) E := by
  exact calm_total hfaults (fun _ => nofun) (fun _ _ _ _ => rfl) (fun _ _ _ => trivial)
    fun _ _ hs => ⟨⟨by simp, hs.1.2⟩, hs.2⟩

/-- The sidecar is taken, or its object is let go of. -/
theorem acquireSidecar_flags :
    Hoare (cfg.solo p c) (Flags p true acquired none)
      (self.acquireSidecar timeout checkInterval failWhenLocked)
      (Grips self p true acquired) (fun _ => Released p acquired) := by
  refine Hoare.tryCatch (acquireVerified_flags hfaults timeout checkInterval failWhenLocked _)
    fun e => Hoare.of_fact fun he => ?_
  rw [if_pos he]
  exact Hoare.bind (setInnerLock_flags hfaults false) fun _ => Hoare.throw fun _ _ hs => hs.1

/-! ## The pid file -/

/-- The pid file is open besides. -/
def Writes (self : PidFileLock) (p : ι) (acquired : Bool) (h q : Handle ι Path) (w : World ι) :
    Prop :=
  Grips self p true acquired h w ∧ q.path = self.filename ∧ Opened p q w

omit hfaults in
instance stable_writes : (cfg.solo p c).Stable (Writes self p acquired h q) :=
  inferInstanceAs (Context.Stable _ fun _ => _ ∧ _)

omit hfaults in
/-- The pid file is not the sidecar. -/
theorem Writes.ne {w : World ι} (hs : Writes self p acquired h q w) : h ≠ q := by
  rintro rfl
  have hlength := congrArg List.length (hs.1.1.2.symm.trans hs.2.1)
  simp [PidFileLock.lockfile] at hlength

/-- Opening the pid file. -/
theorem openPidFile_flags (h : Handle ι Path) :
    Hoare (cfg.solo p c) (Grips self p true acquired h) (perform (.openFile self.filename .append))
      (fun q => Writes self p acquired h q) E := by
  refine calm_rule hfaults (fun _ => nofun) (fun _ _ _ => by simp [Own]) ?_
  intro w choice r w' hw hs hact
  have hopened : ∀ i (w₁ : World ι), w₁.serial = w.serial → w₁.dropped = w.dropped →
      Grips self p true acquired h w₁ →
      Writes self p acquired h (w₁.handle p self.filename i) (w₁.openAt p self.filename i) := by
    rintro i w₁ hserial hdropped ⟨hs₁, ⟨ho, hd, hopen⟩, hlock⟩
    have hundropped : (w₁.openAt p self.filename i).dropped (w₁.handle p self.filename i) =
        false := by
      rw [openAt_dropped, hdropped]
      exact Bool.eq_false_iff.2 fun hd => absurd (hw.dropped_serial hd) (by simp [hserial])
    exact ⟨⟨hs₁, ⟨ho, hd, List.mem_cons_of_mem _ hopen⟩, hlock⟩, rfl, rfl, hundropped, by simp⟩
  simp only [Config.act] at hact
  split at hact
  · simp only [Option.some.injEq, Prod.mk.injEq] at hact
    obtain ⟨rfl, rfl⟩ := hact
    exact hopened _ w rfl rfl hs
  · simp only [Option.ite_none_right_eq_some, Option.some.injEq, Prod.mk.injEq] at hact
    obtain ⟨-, rfl, rfl⟩ := hact
    exact hopened _ _ rfl rfl hs

/-- Writing it. -/
theorem storePid_flags (h q : Handle ι Path) :
    Hoare (cfg.solo p c) (Writes self p acquired h q) (self.storePid q)
      (fun _ => Writes self p acquired h q) E := by
  have hstep : ∀ {o : Op ι}, o = .seek q ∨ o = .truncate q ∨ o = .flush q ∨
      o = .write q self.pidText defaultBufferSize →
      Hoare (cfg.solo p c) (Writes self p acquired h q) (perform o)
        (fun _ => Writes self p acquired h q) E := by
    intro o ho
    rcases ho with rfl | rfl | rfl | rfl
    · exact calm_total hfaults (fun _ h => by cases h) (fun _ _ _ hs => if_pos hs.2.2.2.2)
        (fun w _ hs => hs.2.2.1) fun _ _ hs => hs
    · exact calm_total hfaults (fun _ h => by cases h) (fun _ _ _ hs => if_pos hs.2.2.2.2)
        (fun w _ hs => hs.2.2.1) fun _ _ hs => hs
    · exact calm_total hfaults (fun _ h => by cases h) (fun _ _ _ hs => if_pos hs.2.2.2.2)
        (fun w _ hs => hs.2.2.1) fun _ _ hs => hs
    · refine calm_rule hfaults (fun _ h => by cases h) (fun w _ hs => hs.2.2.1) ?_
      intro w choice r w' _ hs hact
      simp only [Config.act, Config.onOpen, if_pos hs.2.2.2.2, Option.ite_none_right_eq_some,
        Option.some.injEq, Prod.mk.injEq] at hact
      obtain ⟨-, rfl, rfl⟩ := hact
      exact hs
  exact Hoare.bind (hstep (Or.inl rfl)) fun _ => Hoare.bind (hstep (Or.inr (Or.inl rfl))) fun _ =>
    Hoare.bind (hstep (Or.inr (Or.inr (Or.inr rfl)))) fun _ => hstep (Or.inr (Or.inr (Or.inl rfl)))

theorem fsync_flags (h q : Handle ι Path) :
    Hoare (cfg.solo p c) (Writes self p acquired h q) (perform (.fsync q))
      (fun _ => Writes self p acquired h q) E := by
  exact calm_total hfaults (fun _ h => by cases h) (fun _ _ _ hs => if_pos hs.2.2.2.2)
    (fun _ _ _ => trivial) fun _ _ hs => hs

/-- Closing it leaves the sidecar alone. -/
theorem closePidFile_flags (h q : Handle ι Path) :
    Hoare (cfg.solo p c) (Writes self p acquired h q) (perform (.close q))
      (fun _ => Grips self p true acquired h) E := by
  refine calm_rule hfaults (fun _ => nofun) (fun w _ hs => hs.2.2.1) ?_
  intro w choice r w' _ hs hact
  have hne := hs.ne
  obtain ⟨⟨hs₁, ⟨ho, hd, hopen⟩, -, -, hlock⟩, -, -, -, hopenq⟩ := hs
  simp only [Config.act, if_pos hopenq, Option.some.injEq, Prod.mk.injEq] at hact
  obtain ⟨rfl, rfl⟩ := hact
  exact ⟨hs₁, ⟨ho, hd, by simpa using ⟨hopen, hne⟩⟩, ho, hd,
    by simpa [Function.update_of_ne hne] using hlock⟩

/-- `_write_pid`: no step of it fails. -/
theorem writePid_flags (h : Handle ι Path) :
    Hoare (cfg.solo p c) (Grips self p true acquired h) self.writePid
      (fun _ => Grips self p true acquired h) (fun _ _ => False) := by
  refine Hoare.bind (openPidFile_flags hfaults h) fun q => ?_
  refine Hoare.onRaise (F := fun _ _ => False) ?_ fun e => Hoare.of_false fun _ _ hf => hf
  refine Hoare.bind (R := fun _ => Writes self p acquired h q) ?_
    fun _ => closePidFile_flags hfaults h q
  refine Hoare.tryCatch (F := fun _ _ => False) ?_ fun e => Hoare.of_false fun _ _ hf => hf
  refine Hoare.bind (storePid_flags hfaults h q) fun _ => ?_
  exact Hoare.tryCatch (F := fun _ _ => False) (fsync_flags hfaults h q)
    fun e => Hoare.of_false fun _ _ hf => hf

/-! ## The calls -/

theorem setAcquiredLock_flags (b : Bool) (h : Handle ι Path) :
    Hoare (cfg.solo p c) (Grips self p true acquired h) (perform (.setAcquiredLock b))
      (fun _ => Grips self p true b h) E := by
  refine calm_rule hfaults (fun _ => nofun) (fun _ _ _ => trivial) ?_
  rintro w choice r w' - ⟨⟨hs, hpath⟩, hrest⟩ hact
  simp only [Config.act, Option.some.injEq, Prod.mk.injEq] at hact
  obtain ⟨rfl, rfl⟩ := hact
  exact ⟨⟨⟨⟨hs.1.1, by simp⟩, hs.2⟩, hpath⟩, hrest⟩

/-- An operation of the history. -/
theorem acquired_flags (h : Handle ι Path) :
    Hoare (cfg.solo p c) (Grips self p true acquired h) (perform .acquired)
      (fun _ => Grips self p true acquired h) E := by
  exact calm_total hfaults (fun _ => nofun) (fun _ _ _ _ => rfl) (fun _ _ _ => trivial)
    fun _ _ hs => hs

theorem discardLock_flags :
    Hoare (cfg.solo p c) (Released p acquired) (perform .discardLock)
      (fun _ => Flags p false acquired none) E := by
  exact calm_total hfaults (fun _ => nofun) (fun _ _ _ _ => rfl) (fun _ _ _ => trivial)
    fun _ _ hs => ⟨hs, by simp⟩

theorem innerLock_flags :
    Hoare (cfg.solo p c) (Released p acquired) (perform .innerLock)
      (fun b w => b = false ∧ Released p acquired w) E := by
  exact calm_total hfaults (fun _ => nofun) (fun _ _ _ _ => rfl) (fun _ _ _ => trivial)
    fun _ _ hs => ⟨hs.1, hs⟩

/-- The part of `acquire` that follows the sidecar: the pid is published, the flag set, and
the stored handle is what the rest goes on with. -/
theorem publish_flags (h : Handle ι Path) {handler : Exc → Py ι Unit}
    {rest : Option (Handle ι Path) → Py ι (Handle ι Path)}
    (hrest : Hoare (cfg.solo p c) (Grips self p true true h) (rest (some h))
      (fun k => Grips self p true true k) E) :
    Hoare (cfg.solo p c) (Grips self p true acquired h) (do
        tryCatch self.writePid handler
        perform (.setAcquiredLock true)
        let stored ← perform .fh
        rest stored) (fun k => Grips self p true true k) E := by
  refine Hoare.bind (R := fun _ => Grips self p true acquired h) ?_ fun _ => ?_
  · exact Hoare.tryCatch (writePid_flags hfaults h) fun e => Hoare.of_false fun _ _ hf => hf
  refine Hoare.bind (setAcquiredLock_flags hfaults true h) fun _ => ?_
  refine Hoare.bind (stored_flags hfaults h) fun v => Hoare.of_fact ?_
  rintro rfl
  exact hrest

/-- What `acquire` does when an exception leaves it: an object that is not stored goes. -/
theorem undo_flags :
    Hoare (cfg.solo p c) (Released p acquired)
      (do if ← perform .innerLock then return () else perform .discardLock)
      (fun _ => Released p acquired) E := by
  refine Hoare.bind (innerLock_flags hfaults) fun b => Hoare.of_fact ?_
  rintro rfl
  exact (discardLock_flags hfaults).of_post fun _ _ _ hs => hs.1

/-- `acquire`: the lock is taken and the flag set, or both attributes are as before. -/
theorem PidFileLock.acquire_flags (b : Option Bool) :
    Hoare (cfg.solo p c) (Released p acquired) (self.acquire timeout checkInterval b)
      (fun h => Grips self p true true h) (fun _ => Released p acquired) := by
  refine Hoare.onRaise (F := fun _ => Released p acquired) ?_ fun e => undo_flags hfaults
  refine Hoare.bind (discardLock_flags hfaults) fun _ =>
    Hoare.bind (setInnerLock_flags hfaults true) fun _ =>
      Hoare.bind (acquireSidecar_flags hfaults timeout checkInterval _) fun h => ?_
  exact publish_flags hfaults h
    (Hoare.bind (acquired_flags hfaults h) fun _ => Hoare.pure fun _ _ hs => hs)

/-- An operation that assigns neither attribute. -/
theorem other_flags {o : Op ι} (ho : ∀ path, o ≠ .unlink path)
    (hset : ∀ b, o ≠ .setInnerLock b ∧ o ≠ .setAcquiredLock b) (hown : ∀ w, Own p w o) :
    Hoare (cfg.solo p c) (Released p acquired) (perform o) (fun _ => Released p acquired)
      (fun _ => Released p acquired) := by
  refine calm_rule hfaults ho (fun w _ _ => hown w) ?_
  intro w choice r w' _ hs hact
  have hkept : Released p acquired w' := by
    cases Config.act_change hact with
    | setInnerLock b => exact absurd rfl (hset b).1
    | setAcquiredLock b => exact absurd rfl (hset b).2
    | _ => exact hs
  cases r with
  | ok v => exact hkept
  | error e => exact hkept

/-- A handle that is opened is the instance's own. -/
theorem openToRead_flags (path : Path) :
    Hoare (cfg.solo p c) (Released p acquired) (perform (.openFile path .read))
      (fun f w => f.owner = p ∧ Released p acquired w) (fun _ => Released p acquired) := by
  refine calm_rule hfaults (fun _ => nofun) (fun _ _ _ => by simp [Own]) ?_
  intro w choice r w' _ hs hact
  simp only [Config.act] at hact
  split at hact
  · simp only [Option.some.injEq, Prod.mk.injEq] at hact
    obtain ⟨rfl, rfl⟩ := hact
    exact ⟨rfl, hs⟩
  · simp only [Option.some.injEq, Prod.mk.injEq] at hact
    obtain ⟨rfl, rfl⟩ := hact
    exact hs

/-- `read_pid` assigns nothing. -/
theorem readPid_flags :
    Hoare (cfg.solo p c) (Released p acquired) self.readPid (fun _ => Released p acquired)
      (fun _ => Released p acquired) := by
  refine Hoare.bind (other_flags hfaults (fun _ => nofun) (fun _ => ⟨nofun, nofun⟩)
    fun _ => trivial) fun _ => ?_
  refine Hoare.bind (R := fun _ => Released p acquired) ?_ fun answer =>
    Hoare.bind (other_flags hfaults (fun _ => nofun) (fun _ => ⟨nofun, nofun⟩) fun _ => trivial)
      fun _ => Hoare.pure fun _ _ hs => hs
  refine Hoare.tryCatch (F := fun _ => Released p acquired) ?_ fun e => ?_
  · refine Hoare.bind (other_flags hfaults (fun _ => nofun) (fun _ => ⟨nofun, nofun⟩)
      fun _ => trivial) fun present => ?_
    cases present with
    | false => exact Hoare.pure fun _ _ hs => hs
    | true =>
        refine Hoare.bind (openToRead_flags hfaults self.filename) fun f =>
          Hoare.of_fact fun ho => ?_
        have hclose : Hoare (cfg.solo p c) (Released p acquired) (perform (.close f))
            (fun _ => Released p acquired) (fun _ => Released p acquired) :=
          other_flags hfaults (fun _ => nofun) (fun _ => ⟨nofun, nofun⟩) fun _ => ho
        refine Hoare.bind (R := fun _ => Released p acquired) ?_ fun _ =>
          Hoare.pure fun _ _ hs => hs
        exact Hoare.withFinally (other_flags hfaults (fun _ => nofun) (fun _ => ⟨nofun, nofun⟩)
          fun _ => trivial) (fun _ => hclose) fun _ => hclose
  · split
    · exact Hoare.pure fun _ _ hs => hs
    · exact Hoare.throw fun _ _ hs => hs

/-- `__enter__`, whatever its `acquire` does to take the lock. -/
theorem enter_flags {acquire : Py ι (Handle ι Path)}
    (hacquire : Hoare (cfg.solo p c) (Released p acquired) acquire
      (fun h => Grips self p true true h) fun _ => Released p acquired) :
    Hoare (cfg.solo p c) (Released p acquired) (tryCatch (do
        let _ ← acquire
        return none) fun e => if e = .alreadyLocked then self.readPid else throw e)
      (fun _ w => (∃ h, Grips self p true true h w) ∨ Released p acquired w)
      (fun _ => Released p acquired) := by
  refine Hoare.tryCatch (Hoare.bind hacquire fun h =>
    Hoare.pure fun _ _ hs => Or.inl ⟨h, hs⟩) fun e => ?_
  split
  · exact (readPid_flags hfaults).of_post fun _ _ _ hs => Or.inr hs
  · exact Hoare.throw fun _ _ hs => hs

/-- `release` of an instance that has no inner lock does nothing. -/
theorem releaseReleased_flags {release : Py ι Unit} :
    Hoare (cfg.solo p c) (Released p acquired)
      (do if ← perform .innerLock then release else return ()) (fun _ => Released p acquired)
      E := by
  refine Hoare.bind (innerLock_flags hfaults) fun b => Hoare.of_fact ?_
  rintro rfl
  exact Hoare.pure fun _ _ hs => hs

theorem clearAcquiredLock_flags (b : Bool) :
    Hoare (cfg.solo p c) (Released p acquired) (perform (.setAcquiredLock b))
      (fun _ => Released p b) E := by
  exact calm_total hfaults (fun _ => nofun) (fun _ _ _ _ => rfl) (fun _ _ _ => trivial)
    fun _ _ hs => ⟨hs.1, by simp⟩

/-- `__exit__` of such an instance. -/
theorem exitReleased_flags {release : Py ι Unit}
    (hrelease : Hoare (cfg.solo p c) (Released p acquired) release
      (fun _ => Released p acquired) E) :
    Hoare (cfg.solo p c) (Released p acquired) (do
        if ← perform .acquiredLock then do
          release
          perform (.setAcquiredLock false)
        else return ()) (fun _ => Released p false) E := by
  refine Hoare.bind (R := fun b w => b = acquired ∧ Released p acquired w) ?_ fun b =>
    Hoare.of_fact ?_
  · exact calm_total hfaults (fun _ => nofun) (fun _ _ _ _ => rfl) (fun _ _ _ => trivial)
      fun _ _ hs => ⟨hs.2, hs⟩
  · rintro rfl
    cases b with
    | false => exact Hoare.pure fun _ _ hs => hs
    | true =>
        exact Hoare.bind hrelease fun _ => clearAcquiredLock_flags hfaults false

end Acquire

/-! ## The unlinks of `release` -/

/-- An unlink has raised something that its caller does not ignore. -/
def unlinkFailing (ignores : Exc → Bool) : TraceEntry ι → Bool
  | ⟨_, .unlink _, .error e, _⟩ => !ignores e
  | _ => false

/-- One of these operations is such an unlink. -/
def unlinkFails (ignores : Exc → Bool) (tr : Trace ι) : Bool := tr.any (unlinkFailing ignores)

section Watched

variable {ignores : Exc → Bool} {P : World ι → Prop}

omit hfaults in
@[simp] theorem unlinkFails_append (tr : Trace ι) (entry : TraceEntry ι) :
    unlinkFails ignores (tr ++ [entry]) =
      (unlinkFails ignores tr || unlinkFailing ignores entry) := by
  simp [unlinkFails]

/-- The operation is no unlink. -/
def NoUnlink (o : Op ι) : Prop := ∀ path, o ≠ .unlink path

omit hfaults in
/-- What is proved of code without unlinks serves when the unlinks are watched. -/
theorem watched {α : Type} {x : Py ι α} {Q : α → World ι → Prop}
    {E : Exc → World ι → Prop} (hx : Code.Within NoUnlink x) (h : Hoare (cfg.solo p c) P x Q E)
    (b : Bool) :
    Hoare (cfg.soloTraced p c) (At P fun tr => unlinkFails ignores tr = b) x
      (fun v => At (Q v) fun tr => unlinkFails ignores tr = b)
      (fun e => At (E e) fun tr => unlinkFails ignores tr = b) := by
  rintro ⟨w, log⟩ hw ⟨hP, hlog⟩
  have hkept : (cfg.soloTraced p c).Stable fun W : World ι × Trace ι =>
      unlinkFails ignores W.2 = b :=
    Context.stable_trace (φ := fun tr : Trace ι => unlinkFails ignores tr = b)
  have hstep := (h.observed log).keeps_within (J := fun W => unlinkFails ignores W.2 = b) hx ?_
  · refine (hstep (w, log) hw ⟨⟨rfl, hP⟩, hlog⟩).mono ?_
    rintro outcome W - hends
    cases outcome with
    | ok v => exact ⟨hends.1.1, hends.2⟩
    | error e => exact ⟨hends.1.1, hends.2⟩
  · rintro W o r W' - - ho hJ ⟨-, htrace⟩
    rw [htrace, unlinkFails_append, hJ]
    cases o with
    | unlink path => exact absurd rfl (ho path)
    | _ => simp [unlinkFailing]

omit hfaults in
/-- The same for code that raises nothing. -/
theorem watched_total {α : Type} {x : Py ι α} {Q : α → World ι → Prop}
    {E : Exc → World ι × Trace ι → Prop} (hx : Code.Within NoUnlink x)
    (h : Hoare (cfg.solo p c) P x Q fun _ _ => False) (b : Bool) :
    Hoare (cfg.soloTraced p c) (At P fun tr => unlinkFails ignores tr = b) x
      (fun v => At (Q v) fun tr => unlinkFails ignores tr = b) E :=
  (watched hx h b).conseq (fun _ _ hs => hs) (fun _ _ _ hs => hs) fun _ _ _ hs => hs.1.elim

omit hfaults in
/-- An attribute that is read decides how the code goes on. -/
theorem watched_read {α : Type} {o : Op ι} {v : Val o} {f : Val o → Py ι α}
    {Q : α → World ι × Trace ι → Prop} {E : Exc → World ι × Trace ι → Prop}
    [(cfg.solo p c).Stable P] [∀ a, (cfg.soloTraced p c).Stable (Q a)]
    [∀ e, (cfg.soloTraced p c).Stable (E e)] (ho : NoUnlink o)
    (hread : Hoare (cfg.solo p c) P (perform o) (fun u w => u = v ∧ P w) fun _ _ => False)
    (hrest : Hoare (cfg.soloTraced p c) (At P fun tr => unlinkFails ignores tr = false) (f v) Q E) :
    Hoare (cfg.soloTraced p c) (At P fun tr => unlinkFails ignores tr = false) (perform o >>= f)
      Q E := by
  refine Hoare.bind (R := fun u W => u = v ∧
    At P (fun tr => unlinkFails ignores tr = false) W) ?_ fun u => Hoare.of_fact ?_
  · exact (watched (.call ho) hread false).conseq (fun _ _ hs => hs)
      (fun _ _ _ hs => ⟨hs.1.1, hs.1.2, hs.2⟩) fun _ _ _ hs => hs.1.elim
  · rintro rfl
    exact hrest

omit hfaults in
/-- One unlink, which may fail, and changes no more than the file's name. -/
theorem unlink_watched [(cfg.solo p c).Stable P] (path : Path)
    (hkept : ∀ w b, P w → P (w.unlink p path b)) :
    Hoare (cfg.soloTraced p c) (At P fun tr => unlinkFails ignores tr = false)
      (perform (.unlink path)) (fun _ => At P fun tr => unlinkFails ignores tr = false)
      (fun e => At P fun tr => unlinkFails ignores tr = !ignores e) := by
  refine solo_rule (fun _ _ _ _ => trivial) ?_ ?_
  · rintro w tr choice r w' - - ⟨hs, htr⟩ hact
    simp only [Config.act] at hact
    split at hact
    · simp only [Option.some.injEq, Prod.mk.injEq] at hact
      obtain ⟨rfl, rfl⟩ := hact
      exact ⟨hkept w _ hs, by simp [htr, unlinkFailing]⟩
    · simp only [Option.some.injEq, Prod.mk.injEq] at hact
      obtain ⟨rfl, rfl⟩ := hact
      exact ⟨hs, by simp [htr, unlinkFailing]⟩
  · rintro w tr e - ⟨hs, htr⟩ -
    exact ⟨hs, by simp [htr, unlinkFailing]⟩

omit hfaults in
/-- What is ignored does not count as a failure. -/
theorem suppress_watched [(cfg.solo p c).Stable P] {x : Py ι Unit}
    (hx : Hoare (cfg.soloTraced p c) (At P fun tr => unlinkFails ignores tr = false) x
      (fun _ => At P fun tr => unlinkFails ignores tr = false)
      (fun e => At P fun tr => unlinkFails ignores tr = !ignores e)) :
    Hoare (cfg.soloTraced p c) (At P fun tr => unlinkFails ignores tr = false)
      (Code.suppress ignores x) (fun _ => At P fun tr => unlinkFails ignores tr = false)
      (fun _ => At P fun tr => unlinkFails ignores tr = true) := by
  refine Hoare.suppress hx ?_ ?_
  · rintro e W - he ⟨hs, htr⟩
    exact ⟨hs, by simpa [he] using htr⟩
  · rintro e W - he ⟨hs, htr⟩
    exact ⟨hs, by simpa [he] using htr⟩

/-- `__exit__` of a lock that is held: the flag is cleared unless an unlink of its `release`
fails. -/
theorem exit_watched (h : Handle ι Path) {release : Py ι Unit}
    (hrelease : Hoare (cfg.soloTraced p c)
      (At (Grips self p true true h) fun tr => unlinkFails ignores tr = false) release
      (fun _ => At (Released p true) fun tr => unlinkFails ignores tr = false)
      (fun _ => At (Released p true) fun tr => unlinkFails ignores tr = true)) :
    Hoare (cfg.soloTraced p c)
      (At (Grips self p true true h) fun tr => unlinkFails ignores tr = false) (do
        if ← perform .acquiredLock then do
          release
          perform (.setAcquiredLock false)
        else return ()) (fun _ => At (Released p false) fun tr => unlinkFails ignores tr = false)
      (fun _ => At (Released p true) fun tr => unlinkFails ignores tr = true) := by
  have hread : Hoare (cfg.solo p c) (Grips self p true true h) (perform .acquiredLock)
      (fun b w => b = true ∧ Grips self p true true h w) (fun _ _ => False) := by
    exact calm_total hfaults (fun _ h => by cases h) (fun _ _ _ _ => rfl) (fun _ _ _ => trivial)
      fun _ _ hs => ⟨hs.1.1.1.2, hs⟩
  have hassigns : Code.Within NoUnlink (perform (.setAcquiredLock false) : Py ι Unit) :=
    .call fun _ h => by cases h
  refine watched_read (fun _ h => by cases h) hread ?_
  exact Hoare.bind hrelease fun _ =>
    watched_total hassigns (clearAcquiredLock_flags hfaults false) false

end Watched

/-! ## `release` -/

/-- Whether there is an inner lock. -/
theorem gripping_flags (h : Handle ι Path) :
    Hoare (cfg.solo p c) (Grips self p true acquired h) (perform .innerLock)
      (fun b w => b = true ∧ Grips self p true acquired h w) (fun _ _ => False) := by
  exact calm_total hfaults (fun _ => nofun) (fun _ _ _ _ => rfl) (fun _ _ _ => trivial)
    fun _ _ hs => ⟨hs.1.1.1.1, hs⟩

/-- The inner lock is forgotten. -/
theorem forgetInner_watched {ignores : Exc → Bool} (h : Handle ι Path) (b : Bool)
    {E : Exc → World ι × Trace ι → Prop} :
    Hoare (cfg.soloTraced p c)
      (At (Grips self p true acquired h) fun tr => unlinkFails ignores tr = b)
      (perform (.setInnerLock false))
      (fun _ => At (Grips self p false acquired h) fun tr => unlinkFails ignores tr = b) E := by
  refine watched_total (.call fun _ h => by cases h) ?_ b
  refine calm_rule hfaults (fun _ h => by cases h) (fun _ _ _ => trivial) ?_
  rintro w choice r w' - ⟨⟨hs, hpath⟩, hrest⟩ hact
  simp only [Config.act, Option.some.injEq, Prod.mk.injEq] at hact
  obtain ⟨rfl, rfl⟩ := hact
  exact ⟨⟨⟨⟨by simp, hs.1.2⟩, hs.2⟩, hpath⟩, hrest⟩

/-- And lets go of the sidecar. -/
theorem releaseInner_watched {ignores : Exc → Bool} (h : Handle ι Path) (b : Bool)
    {E : Exc → World ι × Trace ι → Prop} :
    Hoare (cfg.soloTraced p c)
      (At (Grips self p false acquired h) fun tr => unlinkFails ignores tr = b)
      (Code.suppress Exc.isException self.heldLock.release)
      (fun _ => At (Released p acquired) fun tr => unlinkFails ignores tr = b) E := by
  refine watched_total (.suppress (release_within _ (fun _ h => by cases h)
    (fun _ _ h => by cases h) (fun _ _ h => by cases h) fun _ h => by cases h)) ?_ b
  refine Hoare.suppress (F := fun _ _ => False) ?_ (fun _ _ _ _ hf => hf.elim) fun _ _ _ _ hf => hf
  exact (release_flags hfaults rfl h).of_post fun _ _ _ hs => hs.1

/-- `release` of a lock that is held: both ways out, the inner lock is forgotten and the
flag stays. -/
theorem release_watched (h : Handle ι Path) :
    Hoare (cfg.soloTraced p c)
      (At (Grips self p true acquired h) fun tr => unlinkFails Exc.isFileNotFound tr = false)
      self.release
      (fun _ => At (Released p acquired) fun tr => unlinkFails Exc.isFileNotFound tr = false)
      (fun _ => At (Released p acquired) fun tr => unlinkFails Exc.isFileNotFound tr = true) := by
  have hunlink : ∀ path, Hoare (cfg.soloTraced p c)
      (At (Grips self p true acquired h) fun tr => unlinkFails Exc.isFileNotFound tr = false)
      (unlinkIfPresent path)
      (fun _ => At (Grips self p true acquired h) fun tr =>
        unlinkFails Exc.isFileNotFound tr = false)
      (fun _ => At (Grips self p true acquired h) fun tr =>
        unlinkFails Exc.isFileNotFound tr = true) := fun path =>
    suppress_watched (unlink_watched path fun _ _ hs => hs)
  refine watched_read (fun _ => nofun) (gripping_flags hfaults h) ?_
  refine Hoare.bind (R := fun _ => At (Released p acquired) fun tr =>
    unlinkFails Exc.isFileNotFound tr = false) ?_ fun _ => Hoare.pure fun _ _ hs => hs
  refine Hoare.withFinally (R := fun _ => At (Grips self p true acquired h) fun tr =>
      unlinkFails Exc.isFileNotFound tr = false)
    (F := fun _ => At (Grips self p true acquired h) fun tr =>
      unlinkFails Exc.isFileNotFound tr = true) ?_
    (fun _ => Hoare.bind (forgetInner_watched hfaults h false)
      fun _ => releaseInner_watched hfaults h false)
    fun _ => Hoare.bind (forgetInner_watched hfaults h true)
      fun _ => releaseInner_watched hfaults h true
  exact Hoare.bind (hunlink self.filename) fun _ => hunlink self.lockfile

end Operations

end Portalocker
