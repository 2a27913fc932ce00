import Portalocker.Foundation.Regions
import Portalocker.Utils.Exclusion
set_option autoImplicit false
set_option linter.unusedSectionVars false

/-!
# `with` statements are critical sections

What a lock file is used for: a block of code that nobody else runs at the same time.  The
statements are `with TemporaryFileLock(...)` and `with PidFileLock(...).fail_closed()`; with
failures and interrupts at any operation of the locks, the block of such a statement runs
only while its instance has the verified lock, and so what every block keeps when it runs
alone, the blocks of one path keep together.
-/

namespace Portalocker

open Posix Interleaving Interleaving.Machine World Contract

variable {ι : Type} [DecidableEq ι]

namespace WithStatement

/-! ## The statements -/

/-- An exception, with the attribute `holder_pid` of an `AlreadyLocked`. -/
structure Raised where
  exc : Exc
  holderPid : Option Int := none

/-- The code of a lock that raises plain exceptions. -/
def plain {α : Type} (x : Py ι α) :
    Program (Op ι) (fun o => Except Exc (Val o)) (Except Raised Unit) :=
  x.run.bind fun
    | .ok _ => .ret (.ok ())
    | .error e => .ret (.error { exc := e })

/-- `except AlreadyLocked as exc: exc.holder_pid = self._lock.read_pid(); raise`. -/
def reportHolder (self : PidFileLock) (e : Exc) :
    Program (Op ι) (fun o => Except Exc (Val o)) (Except Raised Unit) :=
  if e = .alreadyLocked then
    self.readPid.run.bind fun
      | .ok pid => .ret (.error { exc := e, holderPid := pid })
      | .error e' => .ret (.error { exc := e' })
  else .ret (.error { exc := e })

/-- `_PidFileLockFailClosedContext.__enter__`. -/
def failClosedEnter (self : PidFileLock) :
    Program (Op ι) (fun o => Except Exc (Val o)) (Except Raised Unit) :=
  (self.acquire none none none).run.bind fun
    | .ok _ => .ret (.ok ())
    | .error e => reportHolder self e

/-- `__enter__` of the context manager; a `PidFileLock` is used through `fail_closed`. -/
def enter : Instance → Program (Op ι) (fun o => Except Exc (Val o)) (Except Raised Unit)
  | .lock self => plain (self.acquire none none none)
  | .rLock self => plain (self.acquire none none none)
  | .temporaryFileLock self => plain (self.acquire none none none)
  | .boundedSemaphore self => plain (self.acquire none none none)
  | .pidFileLock self => failClosedEnter self

/-- `__exit__` of the context manager. -/
def exit : Instance → Program (Op ι) (fun o => Except Exc (Val o)) (Except Raised Unit)
  | .lock self => plain self.release
  | .rLock self => plain self.release
  | .temporaryFileLock self => plain self.release
  | .boundedSemaphore _ => plain BoundedSemaphore.release
  | .pidFileLock self => plain self.exit

/-- The statements of all instances, over data of which each lock path has one. -/
def statements (cfg : Config ι) (S : Shared) (Block : Type)
    (block : ι → Block → Program S.Op S.Res (Except Raised Unit)) :
    Interleaving.Guarded (machine cfg) (Option Path) S where
  resource p := (cfg.object p).lockPath
  call := Call.enter
  Exc := Raised
  enter p := enter (cfg.object p)
  exit p := exit (cfg.object p)
  Block := Block
  block := block

/-! ## Acquisitions that have nothing to start with -/

/-- The stored handle is locked. -/
def Kept (p : ι) (h : Handle ι Path) (w : World ι) : Prop :=
  w.fh p = some h ∧ LockIs p h (some .exclusive) w

section Triples

variable {cfg : Config ι} {hcfg : Separated cfg} {g : Guard (machine cfg)} {p : ι} {c : Call}

/-- A triple about runs in which anything may fail. -/
abbrev FailingTriple (hcfg : Separated cfg) (g : Guard (machine cfg)) (p : ι) (c : Call) {α : Type}
    (P : World ι → Prop) (x : Py ι α) (Q : α → World ι → Prop) : Prop :=
  OwnTriple hcfg False g p c P x Q fun _ _ => True

instance stable_kept (h : Handle ι Path) :
    ((ownershipContract cfg hcfg False g).ctx p c).Stable (Kept p h) :=
  inferInstanceAs (Context.Stable _ fun _ => _ ∧ _)

/-- One operation, when nothing is said about its failures. -/
theorem failing_rule (hcall : ¬ IsRelease c) {o : Op ι} {P : World ι → Prop}
    {Q : Val o → World ι → Prop}
    [((ownershipContract cfg hcfg False g).ctx p c).Stable P]
    [∀ v, ((ownershipContract cfg hcfg False g).ctx p c).Stable (Q v)]
    (hpre : ∀ w, w.Wf → Ownership cfg w → P w → Own p w o ∧ ownershipPre cfg p w o)
    (hact : ∀ w choice v w', w.Wf → Ownership cfg w → P w →
      cfg.act choice p w o = some (.ok v, w') → Q v w') :
    FailingTriple hcfg g p c P (perform o) Q := by
  refine own_rule False.elim (fun w hw hi _ hs => ?_)
    (fun w choice r w' hw hi _ hs h => ?_) (fun _ _ _ _ _ _ => trivial)
    fun _ _ _ _ hrelease => absurd hrelease hcall
  · exact ⟨(hpre w hw hi hs).1, (hpre w hw hi hs).2, False.elim⟩
  · cases r with
    | ok v => exact hact w choice v w' hw hi hs h
    | error e => trivial

/-! ### `Lock.acquire` -/

theorem storeFh_locks (hcall : ¬ IsRelease c) {path : Path}
    (hpath : (cfg.object p).lockPath = some path) (h : Handle ι Path) :
    OwnTriple hcfg False g p c (fun w => Fresh p path h w ∧ LockIs p h (some .exclusive) w)
      (perform (.setFh (some h))) (fun _ => Kept p h) (Discarded False p h) := by
  refine own_rule False.elim ?_ ?_
    (fun w e _ _ hc hs => discarded_of_fresh hc hs.1) fun _ _ _ _ hrelease => absurd hrelease hcall
  · rintro w - - - ⟨⟨hfh, ⟨ho, hd, hopen⟩, rfl, -⟩, -⟩
    refine ⟨fun k hk => Option.some.inj hk ▸ ⟨ho, hopen, hd⟩, ⟨fun k hk => ?_, fun k hk => ?_⟩,
      False.elim⟩
    · rw [hfh] at hk
      cases hk
    · exact Option.some.inj hk ▸ hpath
  · rintro w choice r w' - - - ⟨-, hlock⟩ hact
    simp only [Config.act, Option.some.injEq, Prod.mk.injEq] at hact
    obtain ⟨rfl, rfl⟩ := hact
    exact ⟨Function.update_self .., hlock⟩

theorem acquireOpened_locks (hcall : ¬ IsRelease c) {self : Lock}
    (hflags : self.flags = .lockMethod) (hpath : (cfg.object p).lockPath = some self.filename)
    (timeout checkInterval : Rat) (b : Bool) (h : Handle ι Path) :
    FailingTriple hcfg g p c (Fresh p self.filename h)
      (self.acquireOpened timeout checkInterval b h) (Kept p) := by
  have hfresh : ∀ {w : World ι} (e : Exc), Fresh p self.filename h w →
      Discarded False p h e w := fun e hs => discarded_of_fresh id hs
  refine acquireOpened_rule (N := Fresh p self.filename h)
    (L := fun w => Fresh p self.filename h w ∧ LockIs p h (some .exclusive) w)
    (T := fun _ => Fresh p self.filename h) (G := fun _ w => w.fh p = none ∧ Closed p h w)
    (D := Discarded False p h) ?_ (fun e => ?_) ?_ (fun e w _ _ hs => hfresh e hs)
    (fun _ _ _ _ hs => hs) (fun e _ => ?_) (fun i e _ => ?_)
    (prepareFh_own False.elim hcall hpath self h) (storeFh_locks hcall hpath h) fun e => ?_
  · rw [hflags]
    exact posixLock_rule (flock_own False.elim h) fun _ _ _ hs => hs.1
  · refine (closeFresh_own False.elim hpath h).conseq (fun _ _ hs => hs) (fun _ _ _ hs => hs) ?_
    rintro e' w - ⟨-, hfh, hclosed⟩
    unfold Caught
    split
    · exact ⟨hfh, hclosed⟩
    · exact ⟨hfh, hclosed.1, hclosed.2.2.1, False.elim⟩
  · rintro e e' w - - ⟨hfh, hclosed⟩
    exact ⟨hfh, hclosed.1, hclosed.2.2.1, False.elim⟩
  · exact pause_own False.elim (Or.inl ⟨_, rfl⟩) fun w e' _ hs => hfresh e' hs
  · exact pause_own False.elim (Or.inr ⟨_, _, rfl⟩) fun w e' _ hs => hfresh e' hs
  · exact (dropLock_own False.elim h e).conseq (fun _ _ hs => hs) (fun _ _ _ _ => trivial)
      fun _ _ _ _ => trivial

/-- `Lock.acquire` of an instance that stores nothing. -/
theorem lockAcquire_locks (hcall : ¬ IsRelease c) {self : Lock} (hflags : self.flags = .lockMethod)
    (hmode : openKind self.mode = some .append)
    (hpath : (cfg.object p).lockPath = some self.filename) (timeout checkInterval : Option Rat)
    (b : Option Bool) :
    FailingTriple hcfg g p c (fun w => w.fh p = none) (self.acquire timeout checkInterval b)
      (Kept p) := by
  refine lockAcquire_rule (Z := fun w => w.fh p = none) (N := Fresh p self.filename) hmode ?_
    ((openLock_own False.elim hcall hpath).conseq (fun _ _ hs => hs) (fun _ _ _ hs => hs)
      fun _ _ _ _ => trivial)
    (acquireOpened_locks hcall hflags hpath _ _ _)
  refine (fh_own False.elim fun _ _ _ => trivial).of_post ?_
  rintro v w - ⟨rfl, hnone⟩
  rw [hnone]
  exact hnone

/-! ### `_acquire_verified` -/

theorem fstat_locks (h : Handle ι Path) :
    FailingTriple hcfg g p c (Kept p h) (perform (.fstat h)) fun i w => i = h.ino ∧ Kept p h w := by
  refine own_rule False.elim (fun _ _ _ _ _ => ⟨trivial, trivial, False.elim⟩) ?_
    (fun _ _ _ _ _ _ => trivial) fun _ _ _ _ _ => trivial
  intro w choice r w' _ _ _ hs hact
  simp only [Config.act] at hact
  rcases Config.onOpen_cases hact with ⟨-, hact⟩ | ⟨rfl, rfl⟩
  · simp only [Option.some.injEq, Prod.mk.injEq] at hact
    obtain ⟨rfl, rfl⟩ := hact
    exact ⟨rfl, hs⟩
  · trivial

/-- The comparison has found that the path names the inode that is locked. -/
def Passed (p : ι) (h : Handle ι Path) (matching : Bool) (w : World ι) : Prop :=
  matching = true → w.Verified p h

instance stable_passed (h : Handle ι Path) (b : Bool) :
    ((ownershipContract cfg hcfg False g).ctx p c).Stable (Passed p h b) :=
  inferInstanceAs (Context.Stable _ fun _ => b = true → _)

theorem stat_locks {path : Path} (hpath : (cfg.object p).lockPath = some path)
    (h : Handle ι Path) :
    FailingTriple hcfg g p c (Kept p h) (perform (.stat path))
      fun i => Passed p h (h.ino == i) := by
  refine own_rule False.elim (fun _ _ _ _ _ => ⟨trivial, trivial, False.elim⟩) ?_
    (fun _ _ _ _ _ _ => trivial) fun _ _ _ _ _ => trivial
  rintro w choice r w' - hi - ⟨hfh, hlock⟩ hact
  have hname : h.path = path := Option.some.inj ((hi.path hfh).symm.trans hpath)
  simp only [Config.act] at hact
  split at hact
  · simp only [Option.some.injEq, Prod.mk.injEq] at hact
    obtain ⟨rfl, rfl⟩ := hact
    intro hino
    have hmatch : w.Matches p path _ h := ⟨hfh, hname, beq_iff_eq.1 hino, by simp [hlock.2.2]⟩
    exact ⟨hfh, by simp [hmatch]⟩
  · simp only [Option.some.injEq, Prod.mk.injEq] at hact
    obtain ⟨rfl, rfl⟩ := hact
    trivial

theorem fhMatchesPath_locks {path : Path} (hpath : (cfg.object p).lockPath = some path)
    (h : Handle ι Path) :
    FailingTriple hcfg g p c (Kept p h) (fhMatchesPath h path) (Passed p h) := by
  refine Hoare.tryCatch (F := fun _ _ => True) (Hoare.bind (fstat_locks h) fun i => ?_) fun e => ?_
  · refine Hoare.of_fact fun hi => ?_
    subst hi
    exact Hoare.bind (stat_locks hpath h) fun j => Hoare.pure fun w _ hs => hs
  · split
    · exact Hoare.pure fun w _ _ hfalse => absurd hfalse Bool.false_ne_true
    · exact Hoare.throw fun _ _ _ => trivial

/-- `Lock.release` forgets the handle, whatever fails, unless it is interrupted. -/
theorem lockRelease_forgets {self : Lock} (hself : self.raiseOnReleaseError = false) :
    FailingTriple hcfg g p c (fun _ => True) self.release fun _ w => w.fh p = none := by
  intro w hw hs
  have hforgets : FailingTriple hcfg g p c (fun w' => w'.inner p = w.inner p) self.release
      fun _ w => w.fh p = none := by
    refine Hoare.of_post (release_rule (I := fun _ => True)
      (Z := fun w' => w'.fh p = none ∧ w'.inner p = w.inner p)
      (R := Releasing False p (w.inner p)) (U := Releasing False p (w.inner p))
      (V := Spent p (w.inner p)) ((fh_own False.elim fun _ _ _ => trivial).of_post ?_)
      (fun h => (unlock_own False.elim _ h).conseq (fun _ _ hs => hs) (fun _ _ _ hs => hs) ?_)
      (fun h => (close_own False.elim _ h).conseq (fun _ _ hs => hs) (fun _ _ _ hs => hs) ?_)
      (fun h => (forget_own False.elim _ h).conseq (fun _ _ hs => hs) (fun _ _ _ hs => hs)
        fun _ _ _ _ => trivial) (fun h => absurd (hself.symm.trans h) Bool.false_ne_true)
      fun _ _ _ _ _ => trivial) fun _ _ _ hs => hs.1
    · rintro v w' - ⟨rfl, hb⟩
      cases hfh : w'.fh p with
      | none => exact ⟨hfh, hb⟩
      | some h => exact ⟨hfh, hb, False.elim⟩
    · rintro e w' - hs
      unfold Caught at hs ⊢
      split
      · rwa [if_pos ‹_›] at hs
      · rw [if_neg ‹_›] at hs
        exact ⟨trivial, hs.2⟩
    · rintro e w' - ⟨-, hs⟩
      unfold Caught
      split
      · exact hs
      · trivial
  exact hforgets w hw rfl

/-- `_acquire_verified` of an instance that stores nothing: what it returns is verified. -/
theorem acquireVerified_verifies (hcall : ¬ IsRelease c) {self : Lock}
    (hflags : self.flags = .lockMethod) (hself : self.raiseOnReleaseError = false)
    (hmode : openKind self.mode = some .append)
    (hpath : (cfg.object p).lockPath = some self.filename) (timeout checkInterval : Option Rat)
    (b : Option Bool) :
    FailingTriple hcfg g p c (fun w => w.fh p = none)
      (TemporaryFileLock.acquireVerified self self.filename timeout checkInterval b)
      fun h w => w.Verified p h := by
  refine Hoare.of_post (acquireVerified_rule (Z := fun w => w.fh p = none) (M := Passed p)
    (lockAcquire_locks hcall hflags hmode hpath timeout checkInterval b)
    (fhMatchesPath_locks hpath)
    (fun h => (lockRelease_forgets hself).of_pre fun _ _ _ => trivial) (fun _ _ hs => hs)
    (fun _ _ _ => trivial)
    (fun t => pause_own False.elim (Or.inl ⟨_, rfl⟩) fun _ _ _ _ => trivial)
    fun i t => pause_own False.elim (Or.inr ⟨_, _, rfl⟩) fun _ _ _ _ => trivial) ?_
  exact fun h w _ hs => hs rfl

theorem acquired_verified (hcall : ¬ IsRelease c) (h : Handle ι Path) :
    FailingTriple hcfg g p c (fun w => w.Verified p h) (perform .acquired)
      fun _ w => w.Verified p h := by
  refine failing_rule hcall (fun _ _ _ _ => ⟨trivial, trivial⟩) ?_
  rintro w choice v w' - - hs hact
  simp only [Config.act, Option.some.injEq, Prod.mk.injEq] at hact
  obtain ⟨-, rfl⟩ := hact
  exact hs

/-- `TemporaryFileLock.acquire` of such an instance. -/
theorem temporaryAcquire_verifies (hcall : ¬ IsRelease c) {self : TemporaryFileLock}
    (hobject : cfg.object p = .temporaryFileLock self) (hflags : self.flags = .lockMethod)
    (timeout checkInterval : Option Rat) (b : Option Bool) :
    FailingTriple hcfg g p c (fun w => w.fh p = none) (self.acquire timeout checkInterval b)
      fun h w => w.Verified p h := by
  have hpath : (cfg.object p).lockPath = some self.toLock.filename := by rw [hobject]; rfl
  exact Hoare.bind (acquireVerified_verifies hcall hflags rfl rfl hpath timeout checkInterval b)
    fun h => Hoare.bind (acquired_verified hcall h) fun _ => Hoare.pure fun _ _ hs => hs

/-! ### `PidFileLock.acquire` -/

/-- Operations that leave the stored handle `k` and its path alone. -/
def Spares (k : Handle ι Path) : Op ι → Prop
  | .setFh _ | .discardLock | .unlink _ => False
  | .unlock h | .close h | .drop h => h ≠ k
  | _ => True

omit [DecidableEq ι] in
/-- The pid file is not the file of the sidecar. -/
theorem ne_of_pidFile {self : PidFileLock} (hcfg : Separated cfg)
    (hobject : cfg.object p = .pidFileLock self) {w : World ι} (hi : Ownership cfg w)
    {k h : Handle ι Path} (hv : w.Verified p k) (hpath : h.path = self.filename) : h ≠ k := by
  rintro rfl
  have hpid : (cfg.object p).pidPath = some h.path := by rw [hobject, hpath]; rfl
  exact hcfg.apart hpid (hi.path hv.1)

/-- Such an operation keeps the verified lock. -/
theorem verified_spared {o : Op ι} {w w' : World ι} {k : Handle ι Path} (hc : Change cfg p w o w')
    (ho : Spares k o) (hv : w.Verified p k) : w'.Verified p k := by
  obtain ⟨hfh, hconf⟩ := hv
  cases hc with
  | setFh | discardLock | unlink => exact ho.elim
  | unlock h hopen => exact ⟨hfh, by simpa [Function.update_of_ne (Ne.symm ho)] using hconf⟩
  | close h hopen content hcontent =>
      exact ⟨hfh, by simpa [Function.update_of_ne (Ne.symm ho)] using hconf⟩
  | compare path i hn => exact ⟨hfh, by simp [hconf]⟩
  | _ => exact ⟨hfh, hconf⟩

/-- An operation that spares the lock keeps it verified, whatever else it is about. -/
theorem spared_rule {o : Op ι} {P : World ι → Prop} {Q : Val o → World ι → Prop}
    {E : Exc → World ι → Prop} {k : Handle ι Path}
    [((ownershipContract cfg hcfg False g).ctx p c).Stable P]
    (h : OwnTriple hcfg False g p c P (perform o) Q E)
    (hspares : ∀ w, Ownership cfg w → P w → w.Verified p k → Spares k o) :
    OwnTriple hcfg False g p c (fun w => P w ∧ w.Verified p k) (perform o)
      (fun v w => Q v w ∧ w.Verified p k) (fun e w => E e w ∧ w.Verified p k) := by
  have hP : ((ownershipContract cfg hcfg False g).ctx p c).Stable P := inferInstance
  have hV : ((ownershipContract cfg hcfg False g).ctx p c).Stable fun w => w.Verified p k :=
    inferInstance
  rintro w hw ⟨hs, hv⟩ w' hw' hr
  have hs' : P w' := hP.keep hw hw' hr hs
  have hv' : w'.Verified p k := hV.keep hw hw' hr hv
  obtain ⟨hpre, hnext⟩ := h w hw hs w' hw' hr
  refine ⟨hpre, fun r w'' hstep w₃ hw₃ hr₃ => ?_⟩
  have hw'' := ((ownershipContract cfg hcfg False g).ctx p c).inv_step hw' hpre hstep
  obtain ⟨hg, choice, hperform⟩ := hstep
  have hv'' : w''.Verified p k := verified_spared (Config.performOp_change hperform)
    (hspares w' hw'.2.1 hs' hv') hv'
  have hends := hnext r w'' ⟨hg, choice, hperform⟩ w₃ hw₃ hr₃
  have hv₃ : w₃.Verified p k := hV.keep hw'' hw₃ hr₃ hv''
  cases r with
  | ok v => exact ⟨hends, hv₃⟩
  | error e => exact ⟨hends, hv₃⟩

/-- The instance writes its pid while the sidecar stays verified. -/
def Beside (self : PidFileLock) (p : ι) (k h : Handle ι Path) (w : World ι) : Prop :=
  Publishing False p self.filename h (fun _ => False) w ∧ w.Verified p k

section Pid

variable {self : PidFileLock} (hcall : ¬ IsRelease c)
  (hobject : cfg.object p = .pidFileLock self)

instance stable_beside (k h : Handle ι Path) :
    ((ownershipContract cfg hcfg False g).ctx p c).Stable (Beside self p k h) :=
  inferInstanceAs (Context.Stable _ fun _ => _ ∧ _)

include hcall hobject

/-- One operation on the pid file. -/
theorem beside_rule {o : Op ι} {k h : Handle ι Path} (ho : ∀ path kind, o ≠ .openFile path kind)
    (hpre : ∀ w, h.owner = p → h.path = self.filename → Own p w o ∧ ownershipPre cfg p w o)
    (hspares : h ≠ k → Spares k o) :
    OwnTriple hcfg False g p c (Beside self p k h) (perform o) (fun _ => Beside self p k h)
      fun _ => Beside self p k h := by
  refine (spared_rule (publish_rule (A := fun _ => False) (B := fun _ => False) False.elim hcall
    ho hpre (fun _ _ _ => False.elim) fun _ _ _ _ _ _ => False.elim) ?_).conseq
    (fun _ _ hs => hs) (fun _ _ _ hs => hs) ?_
  · exact fun w hi hs hv => hspares (ne_of_pidFile hcfg hobject hi hv hs.2.1)
  · exact fun e w _ hs => ⟨⟨hs.1.2.1, hs.1.2.2.1, hs.1.2.2.2, False.elim⟩, hs.2⟩

theorem openPid_verifies (k : Handle ι Path) :
    FailingTriple hcfg g p c (fun w => w.Verified p k)
      (perform (.openFile self.filename .append)) (Beside self p k) := by
  refine (spared_rule (P := fun _ => True) ((openPid_own False.elim hobject hcall).of_pre
    fun _ _ _ => False.elim) fun _ _ _ _ => trivial).conseq (fun _ _ hs => ⟨trivial, hs⟩) ?_
    fun _ _ _ _ => trivial
  exact fun h w _ hs => ⟨⟨hs.1.1, hs.1.2.1, hs.1.2.2.1, False.elim⟩, hs.2⟩

theorem storePid_verifies (k h : Handle ι Path) :
    OwnTriple hcfg False g p c (Beside self p k h) (self.storePid h) (fun _ => Beside self p k h)
      fun _ => Beside self p k h := by
  have hlock : (cfg.object p).lockPath ≠ some self.filename :=
    hcfg.apart (p := p) (by rw [hobject]; rfl)
  have hown : ∀ w : World ι, h.owner = p → h.path = self.filename →
      Own p w (.seek h) ∧ ownershipPre cfg p w (.seek h) := fun _ ho _ => ⟨ho, trivial⟩
  refine Hoare.bind (beside_rule hcall hobject (by simp) hown fun _ => trivial) fun _ => ?_
  refine Hoare.bind (beside_rule hcall hobject (by simp) hown fun _ => trivial) fun _ => ?_
  refine Hoare.bind (beside_rule hcall hobject (by simp)
    (fun _ ho hp => ⟨ho, fun heq => hlock (hp ▸ heq)⟩) fun _ => trivial) fun _ => ?_
  exact beside_rule hcall hobject (by simp) hown fun _ => trivial

theorem closePid_verifies (k h : Handle ι Path) :
    OwnTriple hcfg False g p c (Beside self p k h) (perform (.close h))
      (fun _ => Beside self p k h) fun _ => Beside self p k h :=
  beside_rule hcall hobject (by simp) (fun _ ho _ => ⟨ho, trivial⟩) fun hne => hne

/-- `_write_pid`. -/
theorem writePid_verifies (k : Handle ι Path) :
    FailingTriple hcfg g p c (fun w => w.Verified p k) self.writePid
      fun _ w => w.Verified p k := by
  refine Hoare.bind (openPid_verifies hcall hobject k) fun h => ?_
  refine Hoare.onRaise (F := fun _ => Beside self p k h) ?_ fun e => ?_
  · refine Hoare.bind (R := fun _ => Beside self p k h) (Hoare.tryCatch
      (F := fun _ => Beside self p k h) ?_ fun e => ?_) fun _ =>
      (closePid_verifies hcall hobject k h).of_post fun _ _ _ hs => hs.2
    · refine Hoare.bind (storePid_verifies hcall hobject k h) fun _ => ?_
      refine Hoare.tryCatch (F := fun _ => Beside self p k h)
        (beside_rule hcall hobject (by simp) (fun _ _ _ => ⟨trivial, trivial⟩) fun _ => trivial)
        fun e => ?_
      split
      · exact Hoare.pure fun _ _ hs => hs
      · exact Hoare.throw fun _ _ hs => hs
    · split
      · refine Hoare.bind (suppress_rule ((closePid_verifies hcall hobject k h).conseq
          (fun _ _ hs => hs) (fun _ _ _ hs => hs) fun e w _ hs => ?_)) fun _ =>
          Hoare.throw fun _ _ hs => hs
        unfold Caught
        split <;> exact hs
      · exact Hoare.throw fun _ _ hs => hs
  · refine (dropPid_own False.elim hobject h).conseq (fun w _ hs => ?_) (fun _ _ _ _ => trivial)
      fun _ _ _ _ => trivial
    exact ⟨id, hs.1.1, hs.1.2.1, hs.1.2.2.1⟩

/-- The sidecar part of `PidFileLock.acquire`. -/
theorem acquireSidecar_verifies (timeout checkInterval : Option Rat) (b : Bool) :
    FailingTriple hcfg g p c (fun w => w.fh p = none)
      (self.acquireSidecar timeout checkInterval b) fun h w => w.Verified p h := by
  have hpath : (cfg.object p).lockPath =
      some (self.innerLock timeout checkInterval b).filename := by rw [hobject]; rfl
  refine Hoare.tryCatch (F := fun _ _ => True)
    (acquireVerified_verifies hcall rfl rfl rfl hpath timeout checkInterval (some b)) fun e => ?_
  split
  · refine Hoare.bind (R := fun _ _ => True) ((setInner_own (P := fun _ => True) False.elim false
      fun _ hs => hs).conseq (fun _ _ hs => hs) (fun _ _ _ _ => trivial) fun _ _ _ _ => trivial)
      fun _ => ?_
    exact Hoare.throw fun _ _ _ => trivial
  · exact Hoare.throw fun _ _ _ => trivial

/-- `PidFileLock.acquire`: the instance makes itself a new sidecar object first. -/
theorem pidAcquire_verifies (timeout checkInterval : Option Rat) (b : Option Bool) :
    FailingTriple hcfg g p c (fun _ => True) (self.acquire timeout checkInterval b)
      fun _ w => ∃ k, w.Verified p k := by
  have hdiscard : FailingTriple hcfg g p c (fun _ => True) (perform .discardLock)
      fun _ w => w.fh p = none := by
    refine failing_rule hcall (fun _ _ _ _ => ⟨trivial, trivial⟩) ?_
    rintro w choice v w' - - - hact
    simp only [Config.act, Option.some.injEq, Prod.mk.injEq] at hact
    obtain ⟨-, rfl⟩ := hact
    exact Function.update_self ..
  refine Hoare.onRaise (F := fun _ _ => True) ?_ fun e => ?_
  · refine Hoare.bind hdiscard fun _ => ?_
    refine Hoare.bind (R := fun _ w => w.fh p = none) ((setInner_own False.elim true
      fun _ hs => hs).conseq (fun _ _ hs => hs) (fun _ _ _ hs => hs.2) fun _ _ _ _ => trivial)
      fun _ => ?_
    refine Hoare.bind (acquireSidecar_verifies hcall hobject timeout checkInterval _) fun h => ?_
    refine Hoare.bind (R := fun _ w => w.Verified p h)
      (Hoare.tryCatch (F := fun _ _ => True) (writePid_verifies hcall hobject h) fun e => ?_)
      fun _ => ?_
    · split
      · exact Hoare.bind (rollback_own False.elim id rfl) fun _ => Hoare.throw fun _ _ _ => trivial
      · exact Hoare.throw fun _ _ _ => trivial
    · refine Hoare.bind (R := fun _ w => w.Verified p h) ((setAcquired_own False.elim true
        fun _ hs => hs).conseq (fun _ _ hs => hs) (fun _ _ _ hs => hs) fun _ _ _ _ => trivial)
        fun _ => ?_
      refine Hoare.bind (fh_own False.elim fun _ _ _ => trivial) fun v => ?_
      cases v with
      | none => exact Hoare.throw fun _ _ _ => trivial
      | some k =>
          exact Hoare.bind ((acquired_verified hcall h).of_pre fun _ _ hs => hs.2) fun _ =>
            Hoare.pure fun _ _ hs => ⟨h, hs⟩
  · refine Hoare.bind (R := fun _ _ => True) ((innerLock_own (P := fun _ => True)
      False.elim).conseq (fun _ _ hs => hs) (fun _ _ _ _ => trivial) fun _ _ _ _ => trivial)
      fun b => ?_
    cases b with
    | true => exact Hoare.pure fun _ _ hs => hs
    | false => exact hdiscard.of_post fun _ _ _ _ => trivial

end Pid

end Triples

/-! ## The statements are critical regions -/

section Regions

variable {cfg : Config ι} {hcfg : Separated cfg} {g : Guard (machine cfg)} {p : ι} {c : Call}

/-- Code with plain exceptions ends as its triple says. -/
theorem plain_safe {α : Type} {x : Py ι α} {P Q : World ι → Prop}
    {C : Context (World ι) (Op ι) fun o => Except Exc (Val o)} [C.Stable Q]
    {E : World ι → Prop} [C.Stable E]
    (hx : Hoare C P x (fun _ => Q) fun _ => E) {w : World ι} (hw : C.inv w) (hs : P w) :
    C.Safe (plain x) (Ends (fun _ => Q) fun _ => E) w := by
  have hQ : C.Stable Q := inferInstance
  have hE : C.Stable E := inferInstance
  refine Context.Safe.bind hw (hx w hw hs) fun r w' hw' hr => ?_
  cases r with
  | ok a => exact fun w'' hw'' hrel => hQ.keep hw' hw'' hrel hr
  | error e => exact fun w'' hw'' hrel => hE.keep hw' hw'' hrel hr

/-- `fail_closed` enters with the verified lock, or raises. -/
theorem failClosedEnter_safe {self : PidFileLock} (hcall : ¬ IsRelease c)
    (hobject : cfg.object p = .pidFileLock self) {w : World ι}
    (hw : ((ownershipContract cfg hcfg False g).ctx p c).inv w) :
    ((ownershipContract cfg hcfg False g).ctx p c).Safe (failClosedEnter self)
      (Ends (fun _ w => ∃ k, w.Verified p k) fun _ _ => True) w := by
  have hholds : ((ownershipContract cfg hcfg False g).ctx p c).Stable
      fun w => ∃ k, w.Verified p k := inferInstance
  refine Context.Safe.bind hw (pidAcquire_verifies hcall hobject none none none w hw trivial) ?_
  intro r w' hw' hr
  cases r with
  | ok h => exact fun w'' hw'' hrel => hholds.keep hw' hw'' hrel hr
  | error e =>
      dsimp only [reportHolder]
      split
      · refine Context.Safe.bind hw'
          (PidFileLock.readPid_own False.elim hobject hcall w' hw' False.elim) fun r' w'' _ _ => ?_
        cases r' with
        | ok pid => exact fun _ _ _ => trivial
        | error e' => exact fun _ _ _ => trivial
      · exact fun _ _ _ => trivial

/-- A `TemporaryFileLock` has nothing that `acquire` could return; a `PidFileLock` makes a new
sidecar object in any case. -/
def Starts (cfg : Config ι) (p : ι) (w : World ι) : Prop :=
  (cfg.object p).pidPath = none → w.fh p = none

/-- Entering provides the verified lock, or raises. -/
theorem enter_safe (hcall : ¬ IsRelease c) {w : World ι}
    (hw : ((ownershipContract cfg hcfg False g).ctx p c).inv w) (hstarts : Starts cfg p w) :
    ((ownershipContract cfg hcfg False g).ctx p c).Safe (enter (cfg.object p))
      (Ends (fun _ w => ∃ h, w.Verified p h) fun _ _ => True) w := by
  rcases hcfg.object p with ⟨self, hobject, hflags⟩ | ⟨self, hobject⟩
  · rw [hobject]
    have hacquire : FailingTriple hcfg g p c (fun w => w.fh p = none)
        (self.acquire none none none) fun h w => w.Verified p h :=
      temporaryAcquire_verifies hcall hobject hflags none none none
    exact plain_safe (hacquire.of_post fun h _ _ hv => ⟨h, hv⟩) hw (hstarts (by rw [hobject]; rfl))
  · rw [hobject]
    exact failClosedEnter_safe hcall hobject hw

/-- Exiting keeps the contract. -/
theorem exit_safe {w : World ι} (hw : ((ownershipContract cfg hcfg False g).ctx p c).inv w)
    {h : Handle ι Path} (hv : w.Verified p h) :
    ((ownershipContract cfg hcfg False g).ctx p c).Safe (exit (cfg.object p))
      (fun _ _ => True) w := by
  have hsettled : Settled cfg p w := Or.inr ⟨h, hv⟩
  have hends : ∀ (r : Except Raised Unit) (w : World ι),
      ((ownershipContract cfg hcfg False g).ctx p c).inv w →
      Ends (fun _ _ => True) (fun _ _ => True) r w → True := fun _ _ _ _ => trivial
  rcases hcfg.object p with ⟨self, hobject, -⟩ | ⟨self, hobject⟩
  · rw [hobject]
    exact (plain_safe (Q := fun _ => True) (E := fun _ => True)
      ((TemporaryFileLock.release_own False.elim hobject).conseq (fun _ _ hs => hs)
        (fun _ _ _ _ => trivial) fun _ _ _ _ => trivial) hw hsettled).mono hends
  · rw [hobject]
    exact (plain_safe (Q := fun _ => True) (E := fun _ => True)
      ((PidFileLock.exit_own False.elim hobject).conseq (fun _ _ hs => hs)
        (fun _ _ _ _ => trivial) fun _ _ _ _ => trivial) hw
      ⟨fun _ => hsettled, False.elim⟩).mono hends

/-- Whoever is verified has its lock path alone, so the statements are critical regions. -/
def region (hcfg : Separated cfg) (g : Guard (machine cfg)) (S : Shared) (Block : Type)
    (block : ι → Block → Program S.Op S.Res (Except Raised Unit)) :
    Region (ownershipContract cfg hcfg False g).toDiscipline (statements cfg S Block block) where
  starts := Starts cfg
  token p w := ∃ h, World.Verified w p h
  exclusive := fun hw hp hq hpath => hp.elim fun _ hp => hq.elim fun _ hq =>
    hw.2.1.unique hw.1 hp hq hpath
  keep := fun hw _ hr hp => hp.imp fun _ hv => verified_stable hw.1 hr.1 hv
  enter := fun hw _ hstarts => (enter_safe (c := Call.enter) (by simp [IsRelease]) hw hstarts).mono
    fun r _ _ hr => by
      cases r with
      | ok u => exact hr
      | error e => exact False.elim
  exit := fun hw hv => hv.elim fun _ hv => (exit_safe (c := Call.enter) hw hv).mono
    fun _ _ _ _ => False.elim

end Regions

/-! ## The system -/

section System

variable (cfg : Config ι) (S : Shared) (Block : Type)
  (block : ι → Block → Program S.Op S.Res (Except Raised Unit))

/-- All calls of the instances, and the statements. -/
abbrev withBlocks : Machine ι := (machine cfg).guarded (statements cfg S Block block)

/-- Releases find settled instances, and a `TemporaryFileLock`'s statement one that stores
nothing. -/
abbrev calmly : Guard (withBlocks cfg S Block block) :=
  (settledReleases cfg).guarded (statements cfg S Block block) (Starts cfg)

/-- No instance has done anything, and the data are as the blocks keep them. -/
structure Begin (I : Option Path → S.Data → Prop)
    (W : RegionWorld ι (World ι) (Option Path) S.Data) : Prop where
  base : Pristine W.base
  inside : ∀ k, W.inside k = none
  data : ∀ k, I k (W.data k)

variable {cfg S Block block}

/-- `with` statements of lock files, with failures and interrupts of the locks anywhere:
sequential reasoning about the blocks is sound.  Whose block runs has the OS lock on the
inode that its path names; no two blocks of one path run together; and what every block
keeps of the path's datum when it runs alone holds whenever no instance of the path is in a
call. -/
theorem with_blocks_are_critical_sections (hcfg : Separated cfg)
    {I : Option Path → S.Data → Prop}
    (hkeeps : Region.Keeps (statements cfg S Block block) I)
    {s : (withBlocks cfg S Block block).State}
    (hs : Reach (Begin S I) (calmly cfg S Block block) s) :
    (∀ p, Region.InBlock s p → ∃ h path, World.fh s.world.base p = some h ∧
      (cfg.object p).lockPath = some path ∧ Fs.Owns (World.toFs s.world.base) path h) ∧
    (∀ p q, Region.InBlock s p → Region.InBlock s q →
      (cfg.object p).lockPath = (cfg.object q).lockPath → p = q) ∧
    ∀ path, (∀ p, (cfg.object p).lockPath = path → s.thread p = none) →
      I path (s.world.data path) := by
  have hverified := ownership_verified (g := settledReleases cfg) hcfg False.elim
    (fun _ _ _ hg hc _ => hg hc) (fun _ _ _ _ _ _ => False.elim)
  have hhold : ((region hcfg (settledReleases cfg) S Block block).discipline I).Holds s := by
    refine Region.holds hverified hkeeps ?_ hs
    intro W h0
    exact ⟨⟨⟨h0.base.wf, h0.base.ownership, False.elim⟩, fun _ => False.elim⟩, h0.inside, h0.data⟩
  refine ⟨fun p hp => ?_, fun p q hp hq hpath => Region.inBlock_unique hhold hp hq hpath,
    fun path hidle => Region.data_of_idle hhold hidle⟩
  have hi : Ownership cfg s.world.base := hhold.1.base.2.1
  obtain ⟨h, hv⟩ := Region.token_of_inBlock hhold hp
  exact ⟨h, h.path, hv.1, hi.path hv.1, hi.owns hv.2⟩

/-! ## Counting -/

/-- What a block does with a number. -/
inductive Counting where
  | get
  | put (n : Nat)

/-- A number, and how often it has been stored. -/
abbrev counter : Shared where
  Data := Nat × Nat
  Op := Counting
  Res
    | .get => Nat
    | .put _ => Unit
  Choice := Unit
  perform _ d
    | .get => some (d.1, d)
    | .put n => some ((), (n, d.2 + 1))

/-- Read the number, and store the next one. -/
def increment (_ : Bool) (_ : Unit) : Program counter.Op counter.Res (Except Raised Unit) :=
  .op .get fun n => .op (.put (n + 1)) fun _ => .ret (.ok ())

/-- The number counts how often it has been stored: no increment is lost. -/
def Counts (_ : Option Path) (d : Nat × Nat) : Prop := d.1 = d.2

theorem increment_keeps (cfg : Config Bool) :
    Region.Keeps (statements cfg counter Unit increment) Counts := by
  intro p b d hd d₁ _ hd₁
  refine ⟨trivial, fun n d₂ hget d₃ _ hd₃ => ⟨trivial, fun u d₄ hput d₅ _ hd₅ => ?_⟩⟩
  have hd₁ : d₁ = d := hd₁
  have hd₃ : d₃ = d₂ := hd₃
  have hd₅ : d₅ = d₄ := hd₅
  obtain ⟨_, hget⟩ := hget
  obtain ⟨_, hput⟩ := hput
  obtain ⟨rfl, rfl⟩ := Prod.mk.inj (Option.some.inj hget)
  obtain ⟨-, rfl⟩ := Prod.mk.inj (Option.some.inj hput)
  subst hd₁ hd₃ hd₅
  exact congrArg (· + 1) hd

end System

/-- Two instances of `fail_closed` on one path, which count. -/
abbrev counting : Machine Bool := withBlocks interruptible counter Unit increment

/-- All is idle, no file exists, and nothing has been counted. -/
def counting.start : counting.State :=
  ⟨⟨World.empty, fun _ => (0, 0), fun _ => none⟩, fun _ => none⟩

/-- Operations of one instance. -/
def counting.ops (p : Bool) (n : Nat) : List counting.Label := List.replicate n (.op p ({}, ()))

/-- The statement of one instance, which creates both files. -/
def counting.counts (p : Bool) (n : Nat) : List counting.Label :=
  .call p (.inr ()) :: (counting.ops p 8 ++ .op p ({ ino := 1 }, ()) :: counting.ops p n)

/-- One instance has read the number when the other one is refused. -/
def counting.refuses : List counting.Label :=
  counting.counts true 11 ++ .call false (.inr ()) :: counting.ops false 16

/-- It stores the next number, and then the other one counts. -/
def counting.finishes : List counting.Label :=
  counting.refuses ++ (counting.ops true 12 ++ counting.counts false 23)

/-- The guard restricts neither statements of `fail_closed` nor operations. -/
theorem counting.allowed {l : counting.Label} (hl : (∃ p, l = .call p (.inr ())) ∨
    ∃ p choice, l = .op p choice) (t : counting.State) :
    (calmly interruptible counter Unit increment).Allows t l := by
  rcases hl with ⟨p, rfl⟩ | ⟨p, choice, rfl⟩
  · exact fun hnone => by simp [interruptible, Instance.pidPath] at hnone
  · intro c o k _
    cases o <;> trivial

theorem counting.allowed_finishes {l : counting.Label} (hl : l ∈ counting.finishes)
    (t : counting.State) : (calmly interruptible counter Unit increment).Allows t l := by
  apply counting.allowed
  simp only [counting.finishes, counting.refuses, counting.counts, counting.ops, List.mem_append,
    List.mem_cons, List.mem_replicate] at hl
  rcases hl with ((rfl | ⟨-, rfl⟩ | rfl | ⟨-, rfl⟩) | rfl | ⟨-, rfl⟩) | ⟨-, rfl⟩ |
    rfl | ⟨-, rfl⟩ | rfl | ⟨-, rfl⟩
  all_goals first | exact Or.inl ⟨_, rfl⟩ | exact Or.inr ⟨_, _, rfl⟩

theorem counting.begin : Begin counter Counts counting.start.world :=
  ⟨empty_pristine, fun _ => rfl, fun _ => rfl⟩

/-- The one that is refused learns who has the lock, and no increment is lost. -/
theorem with_blocks_are_critical_sections_run :
    ∃ s s', run counting.refuses counting.start = some s ∧ Region.InBlock s true ∧
      World.answer s.world.base false = some (some 71) ∧
      (∃ h path, World.fh s.world.base true = some h ∧
        (interruptible.object true).lockPath = some path ∧
        Fs.Owns (World.toFs s.world.base) path h) ∧
      run counting.finishes counting.start = some s' ∧
      (∀ path, Counts path (s'.world.data path)) ∧
      (s'.world.data (interruptible.object true).lockPath).2 = 2 := by
  have hobserve : (run counting.refuses counting.start).map (fun s =>
      ((Region.nextStep (s.thread true)).isSome, World.answer s.world.base false)) =
      some (true, some (some 71)) := by rfl
  obtain ⟨s, hrun, hs⟩ := Option.map_eq_some_iff.1 hobserve
  obtain ⟨hblock, hanswer⟩ := Prod.mk.inj hs
  have hobserve' : (run counting.finishes counting.start).map (fun s =>
      ((s.thread true).isNone, (s.thread false).isNone,
        (s.world.data (interruptible.object true).lockPath).2)) = some (true, true, 2) := by rfl
  obtain ⟨s', hrun', hs'⟩ := Option.map_eq_some_iff.1 hobserve'
  obtain ⟨htrue, hs'⟩ := Prod.mk.inj hs'
  obtain ⟨hfalse, hstored⟩ := Prod.mk.inj hs'
  have hreach : Reach (Begin counter Counts) (calmly interruptible counter Unit increment) s :=
    (Reach.start counting.begin).append hrun fun l hl t =>
      counting.allowed_finishes (List.mem_append_left _ hl) t
  have hreach' : Reach (Begin counter Counts) (calmly interruptible counter Unit increment) s' :=
    (Reach.start counting.begin).append hrun' fun l hl t => counting.allowed_finishes hl t
  obtain ⟨howns, -, -⟩ := with_blocks_are_critical_sections interruptible_separated
    (increment_keeps interruptible) hreach
  obtain ⟨-, -, hcounts⟩ := with_blocks_are_critical_sections interruptible_separated
    (increment_keeps interruptible) hreach'
  refine ⟨s, s', hrun, hblock, hanswer, howns true hblock, hrun', fun path => ?_, hstored⟩
  apply hcounts path
  intro p _
  cases p with
  | true => exact Option.isNone_iff_eq_none.1 htrue
  | false => exact Option.isNone_iff_eq_none.1 hfalse

end WithStatement

end Portalocker
