import Portalocker.Utils.ReadersWriters
set_option autoImplicit false
set_option linter.unusedSectionVars false

/-!
# Lock files on Windows

On Windows a file that is open keeps its name, so no inode comparison is needed: whoever
has locked a path's file has locked the path.  The code of all lock classes for Windows
keeps the contract of `Utils/Waiting.lean`, the machine is a port of the one on POSIX, and
so the locks refine readers-writers locks, the files of `TemporaryFileLock` and
`PidFileLock` included, which come and go.
-/

namespace Portalocker.Nt

open Posix Interleaving Interleaving.Machine World Contract Waiting ReadersWriters

variable {ι : Type} [DecidableEq ι]

/-- The same instances, where an unlink may be refused. -/
def refusing (cfg : Config ι) : Config ι where
  object := cfg.object
  mayRaise := fun c o e => cfg.mayRaise c o e || (unlinks o && decide (e = .osError .EACCES))

section Code

variable {cfg : Config ι} {g : Guard (Portalocker.machine cfg)} {p : ι} {c : Call}

/-! ## `TemporaryFileLock` -/

theorem unlinkRetrying_calm (path : Path) (remaining i : Nat) :
    Code.Within (Waiting.Calm p) (unlinkRetrying path remaining i) := by
  induction remaining generalizing i with
  | zero => exact .pure _
  | succ remaining ih =>
      exact .tryCatch (.call trivial) fun e =>
        .ite (.step trivial fun _ => ih (i + 1)) (.ite (.pure _) (.throw _))

variable (hquiet : DropsQuiet cfg)
include hquiet

/-- `_acquire_verified`: the first handle is the answer. -/
theorem acquireVerified_waits (self : Lock) (hfits : Fits (cfg.object p) self)
    (timeout checkInterval : Option Rat) (failWhenLocked : Option Bool) :
    WaitTriple cfg g p c (Rest p) (acquireVerified self timeout checkInterval failWhenLocked)
      (fun h => Stands p (some h) (some h) 0) fun _ => Rest p := by
  refine Hoare.bind (timeoutGenerator_rule (Q := fun h => Stands p (some h) (some h) 0)
    (F := fun _ => Rest p) (Hoare.bind (lockAcquire_waits hquiet self hfits _ _ _)
      fun h => Hoare.pure fun _ _ hs => hs) (fun _ _ _ hs => hs)
    (fun _ => calm_rest (.call trivial)) fun _ _ => calm_rest (.call trivial)) fun outcome => ?_
  cases outcome with
  | ok h => exact Hoare.pure fun _ _ hs => hs
  | error e => exact Hoare.throw fun _ _ hs => hs

theorem temporaryAcquire_waits (self : TemporaryFileLock)
    (hfits : Fits (cfg.object p) self.toLock) (timeout checkInterval : Option Rat)
    (failWhenLocked : Option Bool) :
    WaitTriple cfg g p c (Rest p)
      (TemporaryFileLock.acquire self timeout checkInterval failWhenLocked)
      (fun _ => Rest p) fun _ => Rest p := by
  refine Hoare.bind (acquireVerified_waits hquiet self.toLock hfits _ _ _) fun h => ?_
  exact Hoare.of_pre (calm_rest (.step trivial fun _ => .pure _)) fun _ _ hs => hs.rest

omit hquiet in
theorem temporaryRelease_waits (self : TemporaryFileLock) :
    WaitTriple cfg g p c (Rest p) (TemporaryFileLock.release self) (fun _ => Rest p)
      fun _ => Rest p := by
  refine Hoare.bind fh_waits fun v => ?_
  cases v with
  | none => exact Hoare.pure fun _ _ hs => hs.rest
  | some h =>
      refine Hoare.bind ((lockRelease_waits self.toLock).conseq (fun _ _ hs => hs.rest)
        (fun _ _ _ hs => hs.rest) fun _ _ _ hs => hs) fun _ => ?_
      exact calm_rest (.step trivial fun b => .ite (unlinkRetrying_calm _ _ _) (.pure _))

/-! ## `PidFileLock` -/

theorem acquireSidecar_waits (self : PidFileLock) (hobject : cfg.object p = .pidFileLock self)
    (timeout checkInterval : Option Rat) (failWhenLocked : Bool) :
    WaitTriple cfg g p c (Rest p)
      (PidFileLock.acquireSidecar self timeout checkInterval failWhenLocked)
      (fun h => Stands p (some h) (some h) 0) fun _ => Rest p := by
  refine Hoare.tryCatch (acquireVerified_waits hquiet _ (fits_innerLock hobject) _ _ _) fun e => ?_
  split
  · exact Hoare.bind (calm_rest (.call trivial)) fun _ => Hoare.throw fun _ _ hs => hs
  · exact Hoare.throw fun _ _ hs => hs

/-- `PidFileLock.acquire`. -/
theorem pidAcquire_waits (self : PidFileLock) (hobject : cfg.object p = .pidFileLock self)
    (timeout checkInterval : Option Rat) (failWhenLocked : Option Bool) :
    WaitTriple cfg g p c (Rest p) (PidFileLock.acquire self timeout checkInterval failWhenLocked)
      (fun _ => Rest p) fun _ => Rest p :=
  pidAcquireWith_waits hquiet self _ (acquireSidecar_waits hquiet self hobject _ _ _)

omit hquiet in
/-- `PidFileLock.release`. -/
theorem pidRelease_waits (self : PidFileLock) :
    WaitTriple cfg g p c (Rest p) (PidFileLock.release self) (fun _ => Rest p)
      fun _ => Rest p := by
  refine Hoare.bind (calm_rest (.call trivial)) fun b => ?_
  split
  · refine Hoare.bind (calm_rest (.call trivial)) fun _ => Hoare.bind (R := fun _ => Rest p)
      (suppress_rule ((lockRelease_waits self.heldLock).conseq (fun _ _ hs => hs)
        (fun _ _ _ hs => hs.rest) fun e _ _ hs => caught_same hs)) fun _ => calm_rest ?_
    exact .bind (.suppress (.call trivial)) fun _ => .suppress (.step trivial fun b =>
      .ite (.call trivial) (.pure _))
  · exact Hoare.pure fun _ _ hs => hs

theorem enter_waits (self : PidFileLock) (hobject : cfg.object p = .pidFileLock self) :
    WaitTriple cfg g p c (Rest p) (PidFileLock.enter self) (fun _ => Rest p) fun _ => Rest p := by
  refine Hoare.tryCatch (Hoare.bind (pidAcquire_waits hquiet self hobject _ _ _) fun _ =>
    Hoare.pure fun _ _ hs => hs) fun e => ?_
  split
  · exact readPid_waits self
  · exact Hoare.throw fun _ _ hs => hs

omit hquiet in
theorem exit_waits (self : PidFileLock) :
    WaitTriple cfg g p c (Rest p) (PidFileLock.exit self) (fun _ => Rest p) fun _ => Rest p := by
  refine Hoare.bind (calm_rest (.call trivial)) fun b => ?_
  split
  · exact Hoare.bind (pidRelease_waits self) fun _ => calm_rest (.call trivial)
  · exact Hoare.pure fun _ _ hs => hs

end Code

/-! ## The machine is a port -/

section Port

variable {cfg : Config ι}

theorem dropsQuiet_refusing (hquiet : DropsQuiet cfg) : DropsQuiet (refusing cfg) := by
  intro c h e
  simp [refusing, unlinks, hquiet c h e]

/-- A refused unlink is one that has failed. -/
theorem performOp_refusing {choice : Choice} {p : ι} {c : Call} {w : World ι} {o : Op ι}
    {rw : Except Exc (Val o) × World ι} (h : performOp cfg choice p c w o = some rw) :
    ∃ original, (refusing cfg).performOp original p c w o = some rw := by
  obtain ⟨r, w'⟩ := rw
  rcases performOp_cases h with hact | ⟨e, hmay, rfl, rfl⟩
  · rcases act_cases hact with ⟨hact, -⟩ | ⟨path, rfl, -, rfl, rfl⟩
    · refine ⟨{ choice with fault := none }, ?_⟩
      have hsame : (refusing cfg).act { choice with fault := none } p w o =
          cfg.act choice p w o := rfl
      simp only [Config.performOp, hsame, hact]
    · exact ⟨{ fault := some (.osError .EACCES) }, by simp [Config.performOp, refusing, unlinks,
        Config.afterFault]⟩
  · exact ⟨{ fault := some e }, by simp [Config.performOp, refusing, hmay]⟩

/-- The machine on Windows. -/
def windows (cfg : Config ι) : Port (Portalocker.machine (refusing cfg)) where
  Choice := Choice
  perform := fun choice p c w o => performOp cfg choice p c w o
  body := fun p c => call (cfg.object p) c
  sound := performOp_refusing

/-- The code of all classes keeps the contract. -/
theorem windows_keeps (hquiet : DropsQuiet cfg) : Keeps (windows cfg) := by
  intro p (c : Call) w hw hidle
  have hquiet := dropsQuiet_refusing hquiet
  have hstable : ((waitingContract (refusing cfg) (Guard.free _)).ctx p c).Stable (Rest p) :=
    inferInstance
  have hcall : ∀ {α : Type} {x : Py ι α}, WaitTriple (refusing cfg) (Guard.free _) p c (Rest p) x
      (fun _ => Rest p) (fun _ => Rest p) →
      ((waitingContract (refusing cfg) (Guard.free _)).ctx p c).Safe x.toCall
        (fun _ => Rest p) w :=
    fun h => Hoare.toCall hstable h hw hidle
  have hnothing : ((waitingContract (refusing cfg) (Guard.free _)).ctx p c).Safe (.ret ())
      (fun _ => Rest p) w := fun w' hw' hr => hstable.keep hw hw' hr hidle
  have hsame := waiting_verified (g := Guard.free _) hquiet p c w hw hidle trivial
  have hshared : call (cfg.object p) c = (cfg.object p).call c →
      ((waitingContract (refusing cfg) (Guard.free _)).ctx p c).Safe ((windows cfg).body p c)
        (fun _ => Rest p) w := fun heq => by
    have hbody : (windows cfg).body p c = (cfg.object p).call c := heq
    rw [hbody]
    exact hsame
  cases hobject : cfg.object p with
  | lock self | rLock self | boundedSemaphore self => exact hshared (by rw [hobject]; rfl)
  | temporaryFileLock self =>
      have hfits : Fits ((refusing cfg).object p) self.toLock := by
        change Fits (cfg.object p) self.toLock
        rw [hobject]
        exact ⟨fun _ hp => Option.some.inj hp, rfl⟩
      simp only [windows, hobject]
      cases c with
      | acquire timeout checkInterval b =>
          exact hcall (temporaryAcquire_waits hquiet self hfits _ _ _)
      | enter => exact hcall (temporaryAcquire_waits hquiet self hfits _ _ _)
      | release | exit => exact hcall (temporaryRelease_waits self)
      | write | flush | readPid => exact hnothing
  | pidFileLock self =>
      have hself : (refusing cfg).object p = .pidFileLock self := hobject
      simp only [windows, hobject]
      cases c with
      | acquire timeout checkInterval b => exact hcall (pidAcquire_waits hquiet self hself _ _ _)
      | enter => exact hcall (enter_waits hquiet self hself)
      | release => exact hcall (pidRelease_waits self)
      | exit => exact hcall (exit_waits self)
      | readPid => exact hcall (readPid_waits self)
      | write | flush => exact hnothing

/-- Open files keep their names, crashes or not. -/
theorem windows_keepsNames : KeepsNames (windows cfg) := by
  intro s hs
  induction hs with
  | start h0 =>
      intro h hopen
      rw [Unclaimed.opened h0] at hopen
      cases hopen
  | @step s s' l hs hg hn ih =>
      cases l with
      | call p c =>
          obtain ⟨-, rfl⟩ := next_call hn
          exact ih
      | op p choice =>
          obtain ⟨c, o, k, r, hthread, hperform, -⟩ := next_op hn
          obtain ⟨-, hperform, -⟩ := perform_crashing hperform
          exact Pinned.performOp ih hperform
      | event e =>
          rcases event_crashing (next_event hn).1 with ⟨e', -, he, -⟩ | ⟨p, -, heq, -⟩
          · exact Pinned.finalize ih he
          · rw [heq]
            exact pinned_crash ih

/-! ## The system -/

/-- The machine on Windows, whose clients may crash. -/
abbrev crashing (cfg : Config ι) : Machine ι := (machine cfg).crashing World.crash

/-- No instance has done anything. -/
def NoneOpen (cfg : Config ι) (W : (crashing cfg).World) : Prop := Unclaimed (W.1 : World ι)

/-- The instances with a lock; who has crashed has none. -/
def locking (cfg : Config ι) (W : (crashing cfg).World) : Set ι := lockers (W.1 : World ι)

/-- Flags name one kind of lock, which is where the lockers of Windows do as `flock` does;
and giving up a reference does not raise. -/
structure OneKind (cfg : Config ι) : Prop where
  kinds : ∀ p, Waiting.lockMode (cfg.object p) ≠ none
  quiet : DropsQuiet cfg

/-- All lock classes on Windows, whatever fails, is interrupted or crashes: what can be seen
of a run is a history in which an instance that asks for an exclusive lock has its path
alone, until it gives it up or crashes; and the path of whoever has a lock names the file
that is locked, although locks remove their files. -/
theorem windows_locks_exclude (hcfg : OneKind cfg) {s : (crashing cfg).State}
    (hs : Reach (NoneOpen cfg) (Guard.free (crashing cfg)) s) :
    (∃ history, Observed crashOf (locking cfg) (NoneOpen cfg) (Guard.free (crashing cfg))
      history s) ∧
    (∀ history, Observed crashOf (locking cfg) (NoneOpen cfg) (Guard.free (crashing cfg))
        history s →
      (readersWriters cfg).Legal history (locking cfg s.world) ∧
      ∀ after between before p q,
        history = after ++ .grant q :: (between ++ .grant p :: before) →
        Conflicts cfg p q → .revoke p ∈ between) ∧
    ∀ p ∈ locking cfg s.world, ∃ h, World.fh s.world.1 p = some h ∧
      (∀ path, (cfg.object p).lockPath = some path → h.path = path) ∧
      Fs.names (World.toFs s.world.1) h.path = some h.ino ∧
      Fs.lock (World.toFs s.world.1) h = Waiting.lockMode (cfg.object p) :=
  port_histories (P := windows cfg) (windows_keeps hcfg.quiet) windows_keepsNames hs

end Port

/-- Two `TemporaryFileLock`s of one path. -/
def twoFiles : Config Bool where
  object _ := .temporaryFileLock { filename := ['f'] }
  mayRaise _ _ _ := false

/-- The first one acquires and releases, which removes the file; the other one acquires. -/
def twoFiles.handover : List (crashing twoFiles).Label :=
  .call true .enter :: List.replicate 7 (.op true {}) ++
    .call true .exit :: List.replicate 7 (.op true {}) ++
    .call false .enter :: List.replicate 7 (.op false {})

/-- The other one has the lock, on a new file. -/
theorem windows_locks_exclude_run :
    ∃ s, run twoFiles.handover ⟨(World.empty, fun _ => false), fun _ => none⟩ = some s ∧
      (∃ history, Observed crashOf (locking twoFiles) (NoneOpen twoFiles)
        (Guard.free (crashing twoFiles)) history s ∧
        (readersWriters twoFiles).Legal history (locking twoFiles s.world)) ∧
      ∃ h, World.fh s.world.1 false = some h ∧
        Fs.lock (World.toFs s.world.1) h = some .exclusive := by
  have hobserve : (run twoFiles.handover ⟨(World.empty, fun _ => false), fun _ => none⟩).bind
      (fun s => (World.fh s.world.1 false).map fun h => Fs.lock (World.toFs s.world.1) h) =
      some (some .exclusive) := by rfl
  obtain ⟨s, hrun, hs⟩ := Option.bind_eq_some_iff.1 hobserve
  obtain ⟨h, hfh, hlock⟩ := Option.map_eq_some_iff.1 hs
  have hreach : Reach (NoneOpen twoFiles) (Guard.free (crashing twoFiles)) s :=
    (Reach.start empty_unclaimed).run hrun
  have hkind : OneKind twoFiles :=
    ⟨fun _ => by simp [twoFiles, Waiting.lockMode, LockFlags.mode, LockFlags.lockMethod],
      fun _ _ _ => rfl⟩
  obtain ⟨⟨history, hobserved⟩, hlegal, -⟩ := windows_locks_exclude hkind hreach
  exact ⟨s, hrun, ⟨history, hobserved, (hlegal history hobserved).1⟩, h, hfh, hlock⟩

end Portalocker.Nt
