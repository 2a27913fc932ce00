import Portalocker.Utils.OwnershipFlag
import Portalocker.Windows.Exclusion
set_option autoImplicit false
set_option linter.unusedSectionVars false

/-!
# The ownership flag of a `PidFileLock`, on either platform

Every sequence of calls on one instance that acquires only while it holds nothing.  Its two
attributes agree after every call exactly when no call releases a held lock directly and no
`__exit__` meets an unlink that fails.  What a failure is depends on `os.name`: on Windows
`release` lets go of the sidecar first and ignores every `Exception` of its unlinks, on
POSIX it ignores a missing file only, and an `__exit__` that its `release` leaves with
another error does not come to clear `_acquired_lock`.

A refused unlink is the one thing the file system of Windows adds (`performOp_refusing`), so
the triples about POSIX are also about the calls there.
-/

namespace Portalocker

open Posix Interleaving World Contract

variable {ι : Type} [DecidableEq ι]

/-! ## The two platforms -/

/-- `os.name`. -/
inductive Platform where
  | posix
  | nt
  deriving DecidableEq

namespace Platform

/-- The code of a call. -/
def call : Platform → Instance → Call → Program (Op ι) (fun o => Except Exc (Val o)) Unit
  | posix => Instance.call
  | nt => Nt.call

/-- What the system below does. -/
def performOp (cfg : Config ι) : Platform → Choice → ι → Call → World ι → (o : Op ι) →
    Option (Except Exc (Val o) × World ι)
  | posix => cfg.performOp
  | nt => Nt.performOp cfg

/-- What `PidFileLock.release` ignores when an unlink raises it. -/
def ignores : Platform → Exc → Bool
  | posix => Exc.isFileNotFound
  | nt => Exc.isException

section Steps

variable {cfg : Config ι} {platform : Platform} {choice : Choice} {p : ι} {c : Call}
  {w w' : World ι} {o : Op ι} {r : Except Exc (Val o)}

theorem performOp_change (h : platform.performOp cfg choice p c w o = some (r, w')) :
    Change cfg p w o w' := by
  cases platform with
  | posix => exact Config.performOp_change h
  | nt => exact Nt.performOp_change h

/-- Neither platform does more than POSIX where an unlink may be refused. -/
theorem performOp_refusing (h : platform.performOp cfg choice p c w o = some (r, w')) :
    ∃ original, (Nt.refusing cfg).performOp original p c w o = some (r, w') := by
  cases platform with
  | posix =>
      rcases Config.performOp_cases h with hact | ⟨e, hmay, rfl, rfl⟩
      · refine ⟨{ choice with fault := none }, ?_⟩
        have hsame : (Nt.refusing cfg).act { choice with fault := none } p w o =
            cfg.act choice p w o := rfl
        simp only [Config.performOp, hsame, hact]
      · exact ⟨{ fault := some e }, by simp [Config.performOp, Nt.refusing, hmay]⟩
  | nt => exact Nt.performOp_refusing h

end Steps

/-- One call while the others, and other programs, do what they like. -/
def solo (platform : Platform) (cfg : Config ι) (p : ι) (c : Call) :
    Context (World ι) (Op ι) (fun o => Except Exc (Val o)) :=
  { cfg.solo p c with
    step := fun w o r w' => ∃ choice, platform.performOp cfg choice p c w o = some (r, w')
    inv_step := by
      rintro w o r w' hw hown ⟨choice, h⟩
      exact World.Wf.change hw hown (performOp_change h) }

/-- A call on either platform is one on POSIX where an unlink may be refused. -/
theorem executes_refusing {platform : Platform} {cfg : Config ι} {p : ι} {c : Call} {α : Type}
    {m : Program (Op ι) (fun o => Except Exc (Val o)) α} {w w' : World ι} {trace : Trace ι} {a : α}
    (h : (platform.solo cfg p c).Executes m w trace a w') :
    ((Nt.refusing cfg).solo p c).Executes m w trace a w' := by
  refine Context.Executes.mono (C := platform.solo cfg p c) (D := (Nt.refusing cfg).solo p c)
    (fun _ _ hp => hp) ?_ h
  rintro w o r w' ⟨choice, hperform⟩
  exact performOp_refusing hperform

end Platform

theorem UnlinksMayFail.refusing {cfg : Config ι} (hfaults : UnlinksMayFail cfg) :
    UnlinksMayFail (Nt.refusing cfg) := by
  intro c o e he
  simp only [Nt.refusing, Bool.or_eq_true, Bool.and_eq_true] at he
  rcases he with he | ⟨hunlinks, -⟩
  · exact hfaults c o e he
  · cases o with
    | unlink path => exact ⟨path, rfl⟩
    | _ => cases hunlinks

/-! ## The code for Windows -/

namespace Nt

section Operations

variable {cfg : Config ι} {self : PidFileLock} {p : ι} {c : Call} {acquired : Bool}
variable (hfaults : UnlinksMayFail cfg)
include hfaults

section Acquire

variable (timeout checkInterval : Option Rat) (failWhenLocked : Bool)

/-- `_acquire_verified` of the sidecar: the first handle is the answer. -/
theorem acquireVerified_flags (b : Option Bool) :
    Hoare (cfg.solo p c) (Flags p true acquired none)
      (acquireVerified (self.innerLock timeout checkInterval failWhenLocked) timeout
        checkInterval b)
      (Grips self p true acquired) (Declined p acquired) := by
  have hacquire : Hoare (cfg.solo p c) (Flags p true acquired none)
      ((self.innerLock timeout checkInterval failWhenLocked).acquire timeout checkInterval b)
      (Grips self p true acquired) (Declined p acquired) :=
    lockAcquire_flags hfaults timeout checkInterval failWhenLocked b
  refine Hoare.bind (timeoutGenerator_rule (Q := Grips self p true acquired)
    (F := fun _ _ => False) (Hoare.bind hacquire fun h => Hoare.pure fun _ _ hs => hs)
    (fun _ _ _ hf => hf.elim) (fun e => Hoare.of_false fun _ _ hf => hf)
    fun i e => Hoare.of_false fun _ _ hf => hf) fun outcome => ?_
  cases outcome with
  | ok h => exact Hoare.pure fun _ _ hs => hs
  | error e => exact Hoare.of_false fun _ _ hf => hf

/-- The sidecar is taken, or its object is let go of. -/
theorem acquireSidecar_flags :
    Hoare (cfg.solo p c) (Flags p true acquired none)
      (PidFileLock.acquireSidecar self timeout checkInterval failWhenLocked)
      (Grips self p true acquired) (fun _ => Released p acquired) := by
  refine Hoare.tryCatch (acquireVerified_flags hfaults timeout checkInterval failWhenLocked _)
    fun e => Hoare.of_fact fun he => ?_
  rw [if_pos he]
  exact Hoare.bind (setInnerLock_flags hfaults false) fun _ => Hoare.throw fun _ _ hs => hs.1

/-- `acquire`: the lock is taken and the flag set, or both attributes are as before. -/
theorem PidFileLock.acquire_flags (b : Option Bool) :
    Hoare (cfg.solo p c) (Released p acquired) (PidFileLock.acquire self timeout checkInterval b)
      (fun h => Grips self p true true h) (fun _ => Released p acquired) := by
  refine Hoare.onRaise (F := fun _ => Released p acquired) ?_ fun e => undo_flags hfaults
  refine Hoare.bind (discardLock_flags hfaults) fun _ =>
    Hoare.bind (setInnerLock_flags hfaults true) fun _ =>
      Hoare.bind (acquireSidecar_flags hfaults timeout checkInterval _) fun h => ?_
  exact publish_flags hfaults h
    (Hoare.bind (acquired_flags hfaults h) fun _ => Hoare.pure fun _ _ hs => hs)

end Acquire

/-- Both files are removed, and only what is no `Exception` gets out. -/
theorem removeFiles_watched :
    Hoare (cfg.soloTraced p c)
      (At (Released p acquired) fun tr => unlinkFails Exc.isException tr = false)
      (PidFileLock.removeFiles self)
      (fun _ => At (Released p acquired) fun tr => unlinkFails Exc.isException tr = false)
      (fun _ => At (Released p acquired) fun tr => unlinkFails Exc.isException tr = true) := by
  have hunlink : ∀ path, Hoare (cfg.soloTraced p c)
      (At (Released p acquired) fun tr => unlinkFails Exc.isException tr = false)
      (perform (.unlink path))
      (fun _ => At (Released p acquired) fun tr => unlinkFails Exc.isException tr = false)
      (fun e => At (Released p acquired) fun tr =>
        unlinkFails Exc.isException tr = !e.isException) := fun path =>
    unlink_watched path fun _ _ hs => hs
  have hexists : Hoare (cfg.solo p c) (Released p acquired) (perform (.pathExists self.lockfile))
      (fun _ => Released p acquired) (fun _ _ => False) := by
    exact calm_total hfaults (fun _ h => by cases h) (fun _ _ _ _ => rfl) (fun _ _ _ => trivial)
      fun _ _ hs => hs
  refine Hoare.bind (suppress_watched (hunlink self.filename)) fun _ => suppress_watched ?_
  refine Hoare.bind (watched_total (.call fun _ h => by cases h) hexists false) fun present => ?_
  cases present with
  | true => exact hunlink self.lockfile
  | false => exact Hoare.pure fun _ _ hs => hs

/-- `release` of a lock that is held: the sidecar is given up before anything is unlinked. -/
theorem release_watched (h : Handle ι Path) :
    Hoare (cfg.soloTraced p c)
      (At (Grips self p true acquired h) fun tr => unlinkFails Exc.isException tr = false)
      (PidFileLock.release self)
      (fun _ => At (Released p acquired) fun tr => unlinkFails Exc.isException tr = false)
      (fun _ => At (Released p acquired) fun tr => unlinkFails Exc.isException tr = true) := by
  refine watched_read (fun _ h => by cases h) (gripping_flags hfaults h) ?_
  exact Hoare.bind (forgetInner_watched hfaults h false) fun _ =>
    Hoare.bind (releaseInner_watched hfaults h false) fun _ => removeFiles_watched hfaults

end Operations

end Nt

/-! ## Sequences of calls -/

/-- A call that is over. -/
structure CallRecord (ι : Type) where
  call : Call
  before : World ι
  trace : Trace ι
  after : World ι

/-- The calls of the four methods, which acquire only while the instance holds nothing. -/
def Call.Allowed (p : ι) (w : World ι) : Call → Prop
  | .acquire _ _ _ | .enter => w.inner p = false
  | .release | .exit => True
  | _ => False

/-- Calls on the instance `p`, one after the other. -/
inductive CallSession (platform : Platform) (cfg : Config ι) (p : ι) :
    World ι → List (CallRecord ι) → World ι → Prop
  | start {w : World ι} : CallSession platform cfg p w [] w
  | call {w₀ w w' : World ι} {done : List (CallRecord ι)} {c : Call} {trace : Trace ι}
      (hs : CallSession platform cfg p w₀ done w) (hc : c.Allowed p w)
      (hrun : (platform.solo cfg p c).Executes (platform.call (cfg.object p) c) w trace () w') :
      CallSession platform cfg p w₀ (done ++ [⟨c, w, trace, w'⟩]) w'

/-- The call releases a held lock directly, or leaves its block while an unlink fails. -/
def CallRecord.LeavesFlag (platform : Platform) (p : ι) (t : CallRecord ι) : Prop :=
  t.before.inner p = true ∧
    (t.call = .release ∨ (t.call = .exit ∧ unlinkFails platform.ignores t.trace = true))

/-- The instance has nothing and knows, or has the sidecar and knows. -/
def PidFileLock.Consistent (self : PidFileLock) (p : ι) (w : World ι) : Prop :=
  Released p false w ∨ ∃ h, Grips self p true true h w

section Sessions

variable {platform : Platform} {cfg : Config ι} {self : PidFileLock} {p : ι} {w₀ w w' : World ι}
  {c : Call} {acquired : Bool} {h : Handle ι Path} {trace : Trace ι} {done : List (CallRecord ι)}

/-- Without an inner lock the flag has to be clear. -/
theorem Released.flagAgrees_iff (hs : Released p acquired w) :
    self.FlagAgrees p w ↔ acquired = false := by
  obtain ⟨hinner, rfl⟩ := hs
  simp [PidFileLock.FlagAgrees, PidFileLock.HasSidecar, hinner]

theorem Grips.flagAgrees (hs : Grips self p true true h w) : self.FlagAgrees p w := by
  obtain ⟨⟨⟨⟨hinner, hacquired⟩, hfh⟩, hpath⟩, ⟨-, -, hopen⟩, -, -, hlock⟩ := hs
  refine iff_of_true hacquired ⟨hinner, h, hfh, hpath, hopen, ?_⟩
  rw [hlock]
  exact Option.some_ne_none _

/-- What a triple proves of a whole call. -/
theorem settles {α : Type} {x : Py ι α} {P I : World ι → Prop} {Q : α → World ι → Prop}
    {E : Exc → World ι → Prop} [hI : ((Nt.refusing cfg).solo p c).Stable I]
    (hx : Hoare ((Nt.refusing cfg).solo p c) P x Q E) (hQ : ∀ v w, Q v w → I w)
    (hE : ∀ e w, E e w → I w) (hw : w.Wf) (hP : P w)
    (hrun : (platform.solo cfg p c).Executes x.toCall w trace () w') : w'.Wf ∧ I w' :=
  Context.Safe.executes (Hoare.toCall hI (hx.conseq (fun _ _ hs => hs)
    (fun v w _ => hQ v w) fun e w _ => hE e w) hw hP) hw (Platform.executes_refusing hrun)

/-- The same, for a call whose unlinks are watched. -/
theorem settles_watched {α : Type} {x : Py ι α} {P : World ι → Prop} {ignores : Exc → Bool}
    {I : World ι × Trace ι → Prop} {Q : α → World ι × Trace ι → Prop}
    {E : Exc → World ι × Trace ι → Prop} [hI : ((Nt.refusing cfg).soloTraced p c).Stable I]
    (hx : Hoare ((Nt.refusing cfg).soloTraced p c) (At P fun tr => unlinkFails ignores tr = false)
      x Q E) (hQ : ∀ v W, Q v W → I W) (hE : ∀ e W, E e W → I W) (hw : w.Wf) (hP : P w)
    (hrun : (platform.solo cfg p c).Executes x.toCall w trace () w') : w'.Wf ∧ I (w', trace) := by
  have hsafe : ((Nt.refusing cfg).soloTraced p c).Safe x.toCall (fun _ => I) (w, []) :=
    Hoare.toCall hI (hx.conseq (fun _ _ hs => hs) (fun v W _ => hQ v W) fun e W _ => hE e W) hw
      ⟨hP, rfl⟩
  exact Context.Executes.traced hsafe hw (Platform.executes_refusing hrun)

theorem PidFileLock.Consistent.flagAgrees (hs : self.Consistent p w) : self.FlagAgrees p w := by
  rcases hs with hs | ⟨h, hs⟩
  · exact hs.flagAgrees_iff.2 rfl
  · exact hs.flagAgrees

/-- A call on an instance without an inner lock. -/
theorem call_released (hfaults : UnlinksMayFail cfg) (hobject : cfg.object p = .pidFileLock self)
    (hw : w.Wf) (hs : Released p false w) (hc : c.Allowed p w)
    (hrun : (platform.solo cfg p c).Executes (platform.call (cfg.object p) c) w trace () w') :
    w'.Wf ∧ self.Consistent p w' := by
  have hstable : ((Nt.refusing cfg).solo p c).Stable (self.Consistent p) :=
    inferInstanceAs (Context.Stable _ fun _ => _ ∨ _)
  have hfaults := hfaults.refusing
  rw [hobject] at hrun
  cases c with
  | acquire timeout checkInterval failWhenLocked =>
      cases platform with
      | posix =>
          exact settles (PidFileLock.acquire_flags hfaults timeout checkInterval failWhenLocked)
            (fun h _ hs => Or.inr ⟨h, hs⟩) (fun _ _ hs => Or.inl hs) hw hs hrun
      | nt =>
          exact settles (Nt.PidFileLock.acquire_flags hfaults timeout checkInterval failWhenLocked)
            (fun h _ hs => Or.inr ⟨h, hs⟩) (fun _ _ hs => Or.inl hs) hw hs hrun
  | enter =>
      cases platform with
      | posix =>
          exact settles (enter_flags hfaults (PidFileLock.acquire_flags hfaults none none none))
            (fun _ _ hs => Or.symm hs) (fun _ _ hs => Or.inl hs) hw hs hrun
      | nt =>
          exact settles (enter_flags hfaults (Nt.PidFileLock.acquire_flags hfaults none none none))
            (fun _ _ hs => Or.symm hs) (fun _ _ hs => Or.inl hs) hw hs hrun
  | release =>
      cases platform with
      | posix | nt =>
          exact settles (releaseReleased_flags (E := fun _ _ => False) hfaults)
            (fun _ _ hs => Or.inl hs) (fun _ _ hs => hs.elim) hw hs hrun
  | exit =>
      cases platform with
      | posix | nt =>
          exact settles (exitReleased_flags (E := fun _ _ => False) hfaults
            (releaseReleased_flags hfaults)) (fun _ _ hs => Or.inl hs) (fun _ _ hs => hs.elim)
            hw hs hrun
  | readPid | write | flush => exact hc.elim

/-- `release` of a held lock on either platform. -/
theorem release_gripping (hfaults : UnlinksMayFail cfg) (hw : w.Wf)
    (hs : Grips self p true acquired h w)
    (hrun : (platform.solo cfg p c).Executes (platform.call (.pidFileLock self) .release) w trace ()
      w') : w'.Wf ∧ Released p acquired w' := by
  have hfaults := hfaults.refusing
  cases platform with
  | posix =>
      exact settles_watched (I := fun W => Released p acquired W.1) (release_watched hfaults h)
        (fun _ _ hs => hs.1) (fun _ _ hs => hs.1) hw hs hrun
  | nt =>
      exact settles_watched (I := fun W => Released p acquired W.1) (Nt.release_watched hfaults h)
        (fun _ _ hs => hs.1) (fun _ _ hs => hs.1) hw hs hrun

/-- `__exit__` of a held lock: whether the flag is still set is whether an unlink has failed. -/
theorem exit_gripping (hfaults : UnlinksMayFail cfg) (hw : w.Wf)
    (hs : Grips self p true true h w)
    (hrun : (platform.solo cfg p c).Executes (platform.call (.pidFileLock self) .exit) w trace ()
      w') : w'.Wf ∧ Released p (unlinkFails platform.ignores trace) w' := by
  have hfaults := hfaults.refusing
  have hends : ∀ b, At (Released p b) (fun tr => unlinkFails platform.ignores tr = b) (w', trace) →
      Released p (unlinkFails platform.ignores trace) w' := by
    rintro b ⟨hreleased, rfl⟩
    exact hreleased
  cases platform with
  | posix =>
      obtain ⟨hw', b, hat⟩ := settles_watched
        (I := fun W => ∃ b, At (Released p b) (fun tr => unlinkFails Exc.isFileNotFound tr = b) W)
        (exit_watched hfaults h (release_watched hfaults h)) (fun _ _ hs => ⟨_, hs⟩)
        (fun _ _ hs => ⟨_, hs⟩) hw hs hrun
      exact ⟨hw', hends b hat⟩
  | nt =>
      obtain ⟨hw', b, hat⟩ := settles_watched
        (I := fun W => ∃ b, At (Released p b) (fun tr => unlinkFails Exc.isException tr = b) W)
        (exit_watched hfaults h (Nt.release_watched hfaults h)) (fun _ _ hs => ⟨_, hs⟩)
        (fun _ _ hs => ⟨_, hs⟩) hw hs hrun
      exact ⟨hw', hends b hat⟩

/-- A call on an instance that has the sidecar: it gives it up, and only a direct release
and a failing unlink on exit leave the flag set. -/
theorem call_gripping (hfaults : UnlinksMayFail cfg) (hobject : cfg.object p = .pidFileLock self)
    (hw : w.Wf) (hs : Grips self p true true h w) (hc : c.Allowed p w)
    (hrun : (platform.solo cfg p c).Executes (platform.call (cfg.object p) c) w trace () w') :
    w'.Wf ∧ ∃ acquired, Released p acquired w' ∧
      (acquired = true ↔ (CallRecord.mk c w trace w').LeavesFlag platform p) := by
  have hinner : w.inner p = true := hs.1.1.1.1
  rw [hobject] at hrun
  cases c with
  | release =>
      obtain ⟨hw', hreleased⟩ := release_gripping hfaults hw hs hrun
      exact ⟨hw', true, hreleased, fun _ => ⟨hinner, Or.inl rfl⟩, fun _ => rfl⟩
  | exit =>
      obtain ⟨hw', hreleased⟩ := exit_gripping hfaults hw hs hrun
      refine ⟨hw', _, hreleased, fun hfails => ⟨hinner, Or.inr ⟨rfl, hfails⟩⟩, ?_⟩
      rintro ⟨-, hcall | ⟨-, hfails⟩⟩
      · cases hcall
      · exact hfails
  | acquire | enter => exact absurd (hinner.symm.trans hc) (by simp)
  | readPid | write | flush => exact hc.elim

/-- One call: the attributes agree after it exactly when it does not leave the flag behind. -/
theorem call_agrees_iff (hfaults : UnlinksMayFail cfg) (hobject : cfg.object p = .pidFileLock self)
    (hw : w.Wf) (hs : self.Consistent p w) (hc : c.Allowed p w)
    (hrun : (platform.solo cfg p c).Executes (platform.call (cfg.object p) c) w trace () w') :
    (self.FlagAgrees p w' ↔ ¬ (CallRecord.mk c w trace w').LeavesFlag platform p) ∧
      (¬ (CallRecord.mk c w trace w').LeavesFlag platform p → w'.Wf ∧ self.Consistent p w') := by
  rcases hs with hs | ⟨h, hs⟩
  · obtain ⟨hw', hs'⟩ := call_released hfaults hobject hw hs hc hrun
    have hkept : ¬ (CallRecord.mk c w trace w').LeavesFlag platform p := fun hleft =>
      absurd (hs.1.symm.trans hleft.1) (by simp)
    exact ⟨iff_of_true hs'.flagAgrees hkept, fun _ => ⟨hw', hs'⟩⟩
  · obtain ⟨hw', acquired, hs', hleaves⟩ := call_gripping hfaults hobject hw hs hc hrun
    rw [hs'.flagAgrees_iff, ← hleaves, Bool.not_eq_true]
    refine ⟨Iff.rfl, ?_⟩
    rintro rfl
    exact ⟨hw', Or.inl hs'⟩

/-- While no call has left the flag behind, the attributes are consistent. -/
theorem CallSession.consistent (hfaults : UnlinksMayFail cfg)
    (hobject : cfg.object p = .pidFileLock self) (hw : w₀.Wf) (hfresh : Released p false w₀)
    (hs : CallSession platform cfg p w₀ done w) (hkept : ∀ t ∈ done, ¬ t.LeavesFlag platform p) :
    w.Wf ∧ self.Consistent p w := by
  induction hs with
  | start => exact ⟨hw, Or.inl hfresh⟩
  | call hs hc hrun ih =>
      obtain ⟨hw', hcons⟩ := ih fun t ht => hkept t (List.mem_append_left _ ht)
      exact (call_agrees_iff hfaults hobject hw' hcons hc hrun).2
        (hkept _ (List.mem_append_right _ (List.mem_singleton_self _)))

/-- Over any sequence of calls on a fresh instance, `_acquired_lock` and `_inner_lock`
agree after every call exactly when no call releases a held lock directly and no
`__exit__` meets an unlink that fails for its platform. -/
theorem ownership_flag_agrees_iff (hfaults : UnlinksMayFail cfg)
    (hobject : cfg.object p = .pidFileLock self) (hw : w₀.Wf) (hfresh : Released p false w₀)
    (hs : CallSession platform cfg p w₀ done w) :
    (∀ t ∈ done, self.FlagAgrees p t.after) ↔ ∀ t ∈ done, ¬ t.LeavesFlag platform p := by
  induction hs with
  | start => simp
  | call hs hc hrun ih =>
      simp only [List.forall_mem_append, List.forall_mem_singleton]
      rw [ih]
      refine and_congr_right fun hkept => ?_
      obtain ⟨hw', hcons⟩ := hs.consistent hfaults hobject hw hfresh hkept
      exact (call_agrees_iff hfaults hobject hw' hcons hc hrun).1

end Sessions

/-! ## A run -/

/-- A file system on which a file cannot be unlinked at times. -/
def stuck : Config Unit where
  object _ := .pidFileLock { filename := ['f'], getpid := 7 }
  mayRaise _ o e := match o with
    | .unlink _ => e.isException
    | _ => false

theorem stuck_faults : UnlinksMayFail stuck := by
  intro c o e he
  cases o with
  | unlink path => exact ⟨path, rfl⟩
  | _ => cases he

namespace stuck

/-- The lock is taken on an empty file system. -/
def taken : Platform → List Choice
  | .posix =>
      [{}, {}, {}, { ino := 1 }, {}, {}, {}, {}, { ino := 2 }, {}, {}, {}, {}, {}, {}, {}, {}, {}]
  | .nt => [{}, {}, {}, { ino := 1 }, {}, {}, { ino := 2 }, {}, {}, {}, {}, {}, {}, {}, {}, {}]

/-- It is released. -/
def released : List Choice := [{}, {}, {}, {}, {}, {}, {}, {}]

/-- The block is left, and the pid file cannot be unlinked. -/
def unlinkRefused : Platform → List Choice
  | .posix => [{}, {}, { fault := some (.osError .EACCES) }, {}, {}, {}, {}, {}]
  | .nt => [{}, {}, {}, {}, {}, {}, {}, { fault := some (.osError .EACCES) }, {}, {}, {}]

/-- A call of the instance with these choices. -/
def plays (platform : Platform) (c : Call) (choices : List Choice) (w : World Unit) :
    Option (Trace Unit × Unit × World Unit) :=
  Program.play (fun choice w o => platform.performOp stuck choice () c w o) choices
    (platform.call (stuck.object ()) c) w

theorem plays_executes {platform : Platform} {c : Call} {choices : List Choice}
    {w w' : World Unit} {tr : Trace Unit} (h : plays platform c choices w = some (tr, (), w')) :
    (platform.solo stuck () c).Executes (platform.call (stuck.object ()) c) w tr () w' :=
  Context.Executes.of_play (C := platform.solo stuck () c) (fun {choice _ _ _ _} h => ⟨choice, h⟩) h

/-- A session that takes the lock and then makes another call. -/
theorem session {platform : Platform} {c : Call} (hc : ∀ w : World Unit, c.Allowed () w)
    {choices : List Choice} {w w' : World Unit} {tr tr' : Trace Unit}
    (htaken : plays platform (.acquire none none none) (taken platform) World.empty =
      some (tr, (), w)) (hcall : plays platform c choices w = some (tr', (), w')) :
    CallSession platform stuck () World.empty
      ([] ++ [⟨.acquire none none none, World.empty, tr, w⟩] ++ [⟨c, w, tr', w'⟩]) w' :=
  .call (.call .start (show World.empty.inner () = false from rfl) (plays_executes htaken)) (hc w)
    (plays_executes hcall)

end stuck

/-- A block whose unlink is refused is left: on POSIX the flag is still set, and on Windows
both attributes say that the lock is gone. -/
theorem ownership_flag_agrees_iff_run :
    (∃ (done : List (CallRecord Unit)) (w : World Unit),
      CallSession .posix stuck () World.empty done w ∧ w.inner () = false ∧ w.acquired () = true ∧
      ¬ ∀ t ∈ done, ¬ t.LeavesFlag .posix ()) ∧
    ∃ (done : List (CallRecord Unit)) (w : World Unit),
      CallSession .nt stuck () World.empty done w ∧ w.inner () = false ∧ w.acquired () = false ∧
      (∃ t ∈ done, unlinkFails Exc.isFileNotFound t.trace = true) ∧
      ∀ t ∈ done, PidFileLock.FlagAgrees { filename := ['f'], getpid := 7 } () t.after := by
  constructor
  · have hplayed : ((stuck.plays .posix (.acquire none none none) (stuck.taken .posix)
        World.empty).bind fun r₁ =>
          (stuck.plays .posix .exit (stuck.unlinkRefused .posix) r₁.2.2).map fun r₂ =>
            (r₂.2.2.inner (), r₂.2.2.acquired ())) = some (false, true) := by rfl
    obtain ⟨⟨tr₁, u₁, w₁⟩, hplay₁, hrest⟩ := Option.bind_eq_some_iff.1 hplayed
    obtain ⟨⟨tr₂, u₂, w₂⟩, hplay₂, hattributes⟩ := Option.map_eq_some_iff.1 hrest
    obtain ⟨hinner, hacquired⟩ := Prod.mk.inj hattributes
    have hsession := stuck.session (c := .exit) (fun _ => trivial) hplay₁ hplay₂
    refine ⟨_, w₂, hsession, hinner, hacquired, fun hkept => ?_⟩
    have hagrees := (ownership_flag_agrees_iff stuck_faults rfl World.empty_wf ⟨rfl, rfl⟩
      hsession).2 hkept _ (List.mem_append_right _ (List.mem_singleton_self _))
    obtain ⟨hset, -⟩ := hagrees.1 hacquired
    exact absurd (hset.symm.trans hinner) (by simp)
  · have hplayed : ((stuck.plays .nt (.acquire none none none) (stuck.taken .nt)
        World.empty).bind fun r₁ =>
          (stuck.plays .nt .exit (stuck.unlinkRefused .nt) r₁.2.2).map fun r₂ =>
            (r₂.2.2.inner (), r₂.2.2.acquired (), unlinkFails Exc.isFileNotFound r₂.1,
              unlinkFails Exc.isException r₂.1)) = some (false, false, true, false) := by rfl
    obtain ⟨⟨tr₁, u₁, w₁⟩, hplay₁, hrest⟩ := Option.bind_eq_some_iff.1 hplayed
    obtain ⟨⟨tr₂, u₂, w₂⟩, hplay₂, hobserved⟩ := Option.map_eq_some_iff.1 hrest
    obtain ⟨hinner, hobserved⟩ := Prod.mk.inj hobserved
    obtain ⟨hacquired, hobserved⟩ := Prod.mk.inj hobserved
    obtain ⟨hrefused, hignored⟩ := Prod.mk.inj hobserved
    have hsession := stuck.session (c := .exit) (fun _ => trivial) hplay₁ hplay₂
    refine ⟨_, w₂, hsession, hinner, hacquired,
      ⟨_, List.mem_append_right _ (List.mem_singleton_self _), hrefused⟩,
      (ownership_flag_agrees_iff stuck_faults rfl World.empty_wf ⟨rfl, rfl⟩ hsession).2 ?_⟩
    simp only [List.nil_append, List.forall_mem_append, List.forall_mem_singleton]
    constructor
    · rintro ⟨hinner, -⟩
      cases hinner
    · rintro ⟨-, hcall | ⟨-, hfails⟩⟩
      · cases hcall
      · exact absurd (hignored.symm.trans hfails) (by simp)

/-- The lock is acquired and released directly: `_acquired_lock` is still set, and there is
no inner lock. -/
theorem direct_release_leaves_flag :
    ¬ ∀ (done : List (CallRecord Unit)) (w : World Unit),
      CallSession .posix stuck () World.empty done w →
      ∀ t ∈ done, PidFileLock.FlagAgrees { filename := ['f'], getpid := 7 } () t.after := by
  intro hclaim
  have hplayed : ((stuck.plays .posix (.acquire none none none) (stuck.taken .posix)
      World.empty).bind fun r₁ =>
        (stuck.plays .posix .release stuck.released r₁.2.2).map fun r₂ =>
          (r₂.2.2.inner (), r₂.2.2.acquired ())) = some (false, true) := by rfl
  obtain ⟨⟨tr₁, u₁, w₁⟩, hplay₁, hrest⟩ := Option.bind_eq_some_iff.1 hplayed
  obtain ⟨⟨tr₂, u₂, w₂⟩, hplay₂, hattributes⟩ := Option.map_eq_some_iff.1 hrest
  obtain ⟨hinner, hacquired⟩ := Prod.mk.inj hattributes
  have hsession := stuck.session (c := .release) (fun _ => trivial) hplay₁ hplay₂
  have hagrees := hclaim _ _ hsession _
    (List.mem_append_right _ (List.mem_singleton_self _))
  obtain ⟨hset, -⟩ := hagrees.1 hacquired
  exact absurd (hset.symm.trans hinner) (by simp)

end Portalocker
