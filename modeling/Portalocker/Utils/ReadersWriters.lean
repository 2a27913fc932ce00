import Portalocker.Foundation.Ported
import Portalocker.Utils.Recovery
import Portalocker.Windows.PidFileLock
set_option autoImplicit false
set_option linter.unusedSectionVars false

/-!
# Locks are readers-writers locks

A lock file serves readers and writers: instances of one path whose flags say `SHARED` may
have it together, and one whose flags say `EXCLUSIVE` has it alone.  Where no name of an
open file goes away this is what the lock classes refine, on any port of their machine,
with failures, interrupts and crashes anywhere; the instances with a lock are those that
store a file they have locked.
-/

namespace Portalocker

open Posix Interleaving Interleaving.Machine World Contract

variable {ι : Type} [DecidableEq ι]

namespace ReadersWriters

/-! ## Who has a lock -/

/-- The instances that store a file they have locked. -/
def lockers (w : World ι) : Set ι := {p | ∃ h, w.fh p = some h ∧ w.lock h ≠ none}

/-- Two instances of one path, one of which writes. -/
def Conflicts (cfg : Config ι) (p q : ι) : Prop :=
  (∃ path, (cfg.object p).lockPath = some path ∧ (cfg.object q).lockPath = some path) ∧
    (Waiting.lockMode (cfg.object p) = some .exclusive ∨
      Waiting.lockMode (cfg.object q) = some .exclusive)

/-- One writer, or several readers. -/
def readersWriters (cfg : Config ι) : Arbiter ι := .exclusion (Conflicts cfg)

section Lockers

variable {cfg : Config ι} {w w' : World ι} {p q : ι}

theorem mem_lockers : p ∈ lockers w ↔ ∃ h, w.fh p = some h ∧ w.lock h ≠ none := Iff.rfl

/-- Whoever writes has the file alone. -/
theorem lockers_unique (hw : w.Wf) (hi : Waiting.Faithful cfg w) (hpin : Nt.Pinned w)
    (hp : p ∈ lockers w) (hq : q ∈ lockers w) (hconflicts : Conflicts cfg p q) : p = q := by
  obtain ⟨g, hg, hlockg⟩ := hp
  obtain ⟨h, hh, hlockh⟩ := hq
  obtain ⟨⟨path, hpathp, hpathq⟩, hwrites⟩ := hconflicts
  have hpath : g.path = h.path := (hi.stored hg hpathp).trans (hi.stored hh hpathq).symm
  have hsame : g = h := by
    rcases hwrites with hwrites | hwrites
    · refine (hpin.exclusive hw hpath.symm ?_ hlockh).symm
      obtain ⟨m, hm⟩ := Option.ne_none_iff_exists'.1 hlockg
      have hmode := hi.locked hm
      rw [hw.fh_owner hg, hwrites] at hmode
      rw [hm, hmode]
    · refine hpin.exclusive hw hpath ?_ hlockg
      obtain ⟨m, hm⟩ := Option.ne_none_iff_exists'.1 hlockh
      have hmode := hi.locked hm
      rw [hw.fh_owner hh, hwrites] at hmode
      rw [hm, hmode]
  rw [← hw.fh_owner hg, hsame, hw.fh_owner hh]

/-- What leaves an instance undisturbed leaves it its lock, and gives it none. -/
theorem lockers_of_undisturbed (hw : w.Wf) (hu : Undisturbed q w w') :
    q ∈ lockers w' ↔ q ∈ lockers w := by
  rw [mem_lockers, mem_lockers, hu.fh]
  refine exists_congr fun h => and_congr_right fun hfh => ?_
  rw [(hu.handle h (hw.fh_owner hfh) (hw.fh_dropped hfh)).file.lock]

theorem Unclaimed.lockers (h : Unclaimed w) : lockers w = ∅ := by
  apply Set.eq_empty_of_forall_notMem
  rintro p ⟨k, hfh, -⟩
  simp [h.fh p] at hfh

/-- A crash keeps names, and opens nothing. -/
theorem pinned_crash (hpin : Nt.Pinned w) : Nt.Pinned (w.crash p) :=
  fun h hopen => hpin h (List.mem_filter.1 hopen).1

end Lockers

/-! ## The refinement -/

section Refinement

variable {cfg : Config ι} {P : Port (machine cfg)}

/-- The port, whose clients may crash. -/
abbrev crashablePort (P : Port (machine cfg)) : Machine ι :=
  ((machine cfg).ported P).crashing World.crash

/-- No instance has done anything. -/
def NoneLocked (P : Port (machine cfg)) (W : (crashablePort P).World) : Prop :=
  Unclaimed (W.1 : World ι)

/-- The instances with a lock. -/
def lockHolding (P : Port (machine cfg)) (W : (crashablePort P).World) : Set ι :=
  lockers (W.1 : World ι)

/-- The contract of the instances, on the port and with crashes. -/
abbrev portedDiscipline (P : Port (machine cfg)) :
    Discipline (crashablePort P) (Guard.free (crashablePort P)) :=
  ((Waiting.waitingContract cfg (Guard.free (machine cfg))).toDiscipline.ported P).crashing
    Recovery.waiting_survives.ported

/-- The code of the port keeps the contract. -/
def Keeps (P : Port (machine cfg)) : Prop :=
  ∀ p c w, (Waiting.waitingContract cfg (Guard.free (machine cfg))).toDiscipline.inv w →
    Waiting.Rest p w →
    (((Waiting.waitingContract cfg (Guard.free (machine cfg))).toDiscipline.context p c).Safe
      (P.body p c) (fun _ => Waiting.Rest p) w)

/-- The port keeps the names of open files. -/
def KeepsNames (P : Port (machine cfg)) : Prop :=
  ∀ {s : (crashablePort P).State}, Reach (NoneLocked P) (Guard.free (crashablePort P)) s →
    Nt.Pinned (s.world.1 : World ι)

theorem ported_holds (hP : Keeps P) {s : (crashablePort P).State}
    (hs : Reach (NoneLocked P) (Guard.free (crashablePort P)) s) :
    (portedDiscipline P).Holds s := by
  refine ((Discipline.Verified.ported fun p c w hw hidle _ => hP p c w hw hidle).crashing
    Recovery.waiting_survives.ported).sound ?_ hs
  intro W h0
  have h0 : Unclaimed (W.1 : World ι) := h0
  exact ⟨⟨h0.wf, h0.fresh, Waiting.Unclaimed.faithful h0⟩,
    fun _ => Or.inr fun k _ _ _ => h0.unlocked k⟩

/-- An instance gets or loses its lock by its own transitions only. -/
theorem lockers_own (hP : Keeps P) {s s' : (crashablePort P).State} {l : (crashablePort P).Label}
    (hs : Reach (NoneLocked P) (Guard.free (crashablePort P)) s) (hn : next s l = some s') {q : ι}
    (hq : l.client crashOf ≠ some q) : q ∈ lockHolding P s'.world ↔ q ∈ lockHolding P s.world := by
  have hhold := ported_holds hP hs
  have hw : World.Wf s.world.1 := hhold.1.1
  cases l with
  | call p c =>
      obtain ⟨-, rfl⟩ := next_call hn
      rfl
  | op p choice =>
      have hqp : q ≠ p := fun heq => hq (congrArg some heq.symm)
      obtain ⟨c, o, k, r, hthread, hperform, -⟩ := next_op hn
      obtain ⟨hlive, hperform, -⟩ := perform_crashing hperform
      obtain ⟨original, horiginal⟩ := P.sound hperform
      have hpre := (hhold.permitted hthread).resolve_left (by simp [hlive])
      exact lockers_of_undisturbed hw
        (undisturbed_of_change hw hpre.1 (Config.performOp_change horiginal) hqp)
  | event e =>
      rcases event_crashing (next_event hn).1 with ⟨e', -, he, -⟩ | ⟨p, rfl, heq, -⟩
      · exact lockers_of_undisturbed hw (undisturbed_of_finalize he q)
      · have hqp : q ≠ p := fun h' => hq (congrArg some h'.symm)
        unfold lockHolding
        rw [heq]
        exact lockers_of_undisturbed hw (undisturbed_of_crash hqp)

/-- The locks of a port that keeps names refine the arbiter of readers and writers. -/
theorem port_refines (hP : Keeps P) (hnames : KeepsNames P) :
    Refines (readersWriters cfg) crashOf (lockHolding P) (NoneLocked P)
      (Guard.free (crashablePort P)) where
  start := fun W h0 => Unclaimed.lockers (w := W.1) h0
  admits := fun hs _ hp _ hq hconflicts =>
    have hinv := (ported_holds hP hs).1
    lockers_unique hinv.1 hinv.2.2 (hnames hs) hp hq hconflicts
  own := fun hs _ hn _ hq => lockers_own hP hs hn hq

/-- What can be seen of a run is a history in which a writer is alone, and whoever has a lock
has it on the file its path names, as its flags say. -/
theorem port_histories (hP : Keeps P) (hnames : KeepsNames P) {s : (crashablePort P).State}
    (hs : Reach (NoneLocked P) (Guard.free (crashablePort P)) s) :
    (∃ history, Observed crashOf (lockHolding P) (NoneLocked P) (Guard.free (crashablePort P))
      history s) ∧
    (∀ history, Observed crashOf (lockHolding P) (NoneLocked P) (Guard.free (crashablePort P))
        history s →
      (readersWriters cfg).Legal history (lockHolding P s.world) ∧
      ∀ after between before p q,
        history = after ++ .grant q :: (between ++ .grant p :: before) →
        Conflicts cfg p q → .revoke p ∈ between) ∧
    ∀ p ∈ lockHolding P s.world, ∃ h, World.fh s.world.1 p = some h ∧
      (∀ path, (cfg.object p).lockPath = some path → h.path = path) ∧
      Fs.names (World.toFs s.world.1) h.path = some h.ino ∧
      Fs.lock (World.toFs s.world.1) h = Waiting.lockMode (cfg.object p) := by
  have hrefines := port_refines hP hnames
  refine ⟨hrefines.observed hs, fun history hobserved => ?_, fun p hp => ?_⟩
  · have hlegal := hrefines.legal hobserved
    refine ⟨hlegal, ?_⟩
    rintro after between before p q rfl hconflicts
    exact hlegal.excludes hconflicts
  · obtain ⟨hw, -, hi⟩ := (ported_holds hP hs).1
    obtain ⟨h, hfh, hlock⟩ := hp
    obtain ⟨m, hm⟩ := Option.ne_none_iff_exists'.1 hlock
    have hmode := hi.locked hm
    rw [hw.fh_owner hfh] at hmode
    exact ⟨h, hfh, fun path hpath => hi.stored hfh hpath, hnames hs h (hw.fs.opened_of_lock hm),
      hm.trans hmode.symm⟩

end Refinement

/-! ## `Lock`, `RLock` and `BoundedSemaphore` on POSIX -/

section Posix

variable {cfg : Config ι}

/-- The classes that never unlink a file. -/
def keepsFiles : Instance → Bool
  | .lock _ | .rLock _ | .boundedSemaphore _ => true
  | .temporaryFileLock _ | .pidFileLock _ => false

/-- The operation removes a name. -/
def unlinks : Op ι → Bool
  | .unlink _ => true
  | _ => false

/-- The operation unlinks nothing. -/
def Keeping (o : Op ι) : Prop := unlinks o = false

theorem lockAcquire_keeping (self : Lock) (timeout checkInterval : Option Rat)
    (failWhenLocked : Option Bool) :
    Code.Within Keeping (self.acquire timeout checkInterval failWhenLocked : Py ι _) := by
  refine (lockAcquire_uses self timeout checkInterval failWhenLocked).mono fun o ho => ?_
  cases o with
  | unlink path => exact ho.elim
  | _ => rfl

theorem lockRelease_keeping (self : Lock) : Code.Within Keeping (self.release : Py ι Unit) := by
  refine (release_uses self).mono fun o ho => ?_
  cases o with
  | unlink path => exact ho.elim
  | _ => rfl

/-- Code that does something with the stored file, if there is one. -/
theorem stored_keeping {x : Option (Handle ι Path) → Py ι Unit}
    (hx : ∀ v, Code.Within Keeping (x v)) : Code.Within Keeping (perform .fh >>= x) :=
  .step rfl hx

theorem rLock_keeping (self : RLock) (timeout checkInterval : Option Rat)
    (failWhenLocked : Option Bool) :
    Code.Within Keeping (self.acquire timeout checkInterval failWhenLocked : Py ι _) ∧
      Code.Within Keeping (self.release : Py ι Unit) := by
  constructor
  · refine .bind (.step rfl fun count => .ite (.step rfl fun v => ?_)
      (lockAcquire_keeping self.toLock _ _ _)) fun h => .step rfl fun count =>
        .step rfl fun _ => .pure _
    cases v with
    | none => exact .throw _
    | some h => exact .pure _
  · exact .step rfl fun count => .ite (.throw _) (.bind (.step rfl fun count =>
      .ite (lockRelease_keeping self.toLock) (.pure _)) fun _ => .step rfl fun count =>
        .call rfl)

theorem tryLock_keeping (paths : List Path) :
    Code.Within Keeping (BoundedSemaphore.tryLock paths : Py ι Bool) := by
  induction paths with
  | nil => exact .pure _
  | cons path rest ih =>
      refine .step rfl fun _ => .bind (.tryCatch (.bind (lockAcquire_keeping _ _ _ _)
        fun _ => .pure _) fun e => .ite (.pure _) (.ite (.step rfl fun _ => .throw _)
          (.throw _))) fun b => .ite (.step rfl fun _ => .pure _) ih

theorem semaphore_keeping (self : BoundedSemaphore) (timeout checkInterval : Option Rat)
    (failWhenLocked : Option Bool) :
    Code.Within Keeping (self.acquire timeout checkInterval failWhenLocked : Py ι _) ∧
      Code.Within Keeping (BoundedSemaphore.release : Py ι Unit) := by
  constructor
  · refine .step rfl fun b => .ite (.throw _) (.bind (timeoutGenerator_within rfl
      (fun _ => rfl) (.bind (tryLock_keeping _) fun taken => .pure _)) fun outcome => ?_)
    cases outcome with
    | ok a => exact .step rfl fun _ => .pure _
    | error e => exact .ite (.throw _) (.pure _)
  · exact .step rfl fun b => .ite (.bind (lockRelease_keeping _) fun _ => .call rfl)
      (.pure _)

/-- No call of these classes unlinks. -/
theorem call_keeping {x : Instance} (hx : keepsFiles x = true) (c : Call) :
    (x.call c : Program (Op ι) _ Unit).Within Keeping := by
  cases x with
  | lock self =>
      cases c with
      | acquire | enter => exact Code.Within.toCall (lockAcquire_keeping self _ _ _)
      | release | exit => exact Code.Within.toCall (lockRelease_keeping self)
      | write | flush =>
          refine Code.Within.toCall (stored_keeping fun v => ?_)
          cases v with
          | none => exact .pure _
          | some h => exact .call rfl
      | readPid => exact trivial
  | rLock self =>
      cases c with
      | acquire | enter => exact Code.Within.toCall (rLock_keeping self _ _ _).1
      | release | exit => exact Code.Within.toCall (rLock_keeping self none none none).2
      | write | flush =>
          refine Code.Within.toCall (stored_keeping fun v => ?_)
          cases v with
          | none => exact .pure _
          | some h => exact .call rfl
      | readPid => exact trivial
  | boundedSemaphore self =>
      cases c with
      | acquire | enter => exact Code.Within.toCall (semaphore_keeping self _ _ _).1
      | release | exit => exact Code.Within.toCall (semaphore_keeping self none none none).2
      | write | flush | readPid => exact trivial
  | temporaryFileLock self | pidFileLock self => cases hx

/-- The machine itself, as a port. -/
def posix (cfg : Config ι) : Port (machine cfg) where
  Choice := Choice
  perform := fun choice p c w o => cfg.performOp choice p c w o
  body := fun p c => (cfg.object p).call c
  sound := fun h => ⟨_, h⟩

theorem posix_keeps (hquiet : Waiting.DropsQuiet cfg) : Keeps (posix cfg) :=
  fun p c w hw hidle => Waiting.waiting_verified hquiet p c w hw hidle trivial

/-- Where nothing is unlinked, open files keep their names. -/
theorem posix_keepsNames (hfiles : ∀ p, keepsFiles (cfg.object p) = true) :
    KeepsNames (posix cfg) := by
  intro s hs
  let kind : ι → Call → Op ι → Prop := fun _ _ => Keeping
  have hbody : ∀ p c, ((crashablePort (posix cfg)).body p c).Within (kind p c) :=
    fun p c => call_keeping (hfiles p) c
  induction hs with
  | start h0 =>
      intro h hopen
      rw [Unclaimed.opened h0] at hopen
      cases hopen
  | @step s s' l hs hg hn ih =>
      cases l with
      | call p c =>
          obtain ⟨-, rfl⟩ := next_call hn
          exact ih
      | op p choice =>
          obtain ⟨c, o, k, r, hthread, hperform, -⟩ := next_op hn
          obtain ⟨-, hperform, -⟩ := perform_crashing hperform
          have hkeeping := (Reach.within hbody hs hthread).1
          refine Nt.Pinned.change ih (Config.performOp_change hperform) fun path heq => ?_
          rw [heq] at hkeeping
          cases hkeeping
      | event e =>
          rcases event_crashing (next_event hn).1 with ⟨e', -, he, -⟩ | ⟨p, -, heq, -⟩
          · exact Nt.Pinned.finalize ih he
          · rw [heq]
            exact pinned_crash ih

/-- The instances with a lock; who has crashed has none. -/
def holding (cfg : Config ι) (W : (crashable cfg).World) : Set ι := lockers (W.1 : World ι)

/-- `Lock`s, `RLock`s and semaphores, whatever their flags, and whatever fails, is
interrupted or crashes: what can be seen of a run is a history in which an instance that
asks for an exclusive lock has its path alone, until it gives it up or crashes; and
whoever has a lock has it on the file its path names, as its flags say. -/
theorem locks_refine_readers_writers (hquiet : Waiting.DropsQuiet cfg)
    (hfiles : ∀ p, keepsFiles (cfg.object p) = true) {s : (crashable cfg).State}
    (hs : Reach (NoneClaimed cfg) (Guard.free (crashable cfg)) s) :
    (∃ history, Observed crashOf (holding cfg) (NoneClaimed cfg) (Guard.free (crashable cfg))
      history s) ∧
    (∀ history, Observed crashOf (holding cfg) (NoneClaimed cfg) (Guard.free (crashable cfg))
        history s →
      (readersWriters cfg).Legal history (holding cfg s.world) ∧
      ∀ after between before p q,
        history = after ++ .grant q :: (between ++ .grant p :: before) →
        Conflicts cfg p q → .revoke p ∈ between) ∧
    ∀ p ∈ holding cfg s.world, ∃ h, World.fh s.world.1 p = some h ∧
      (∀ path, (cfg.object p).lockPath = some path → h.path = path) ∧
      Fs.names (World.toFs s.world.1) h.path = some h.ino ∧
      Fs.lock (World.toFs s.world.1) h = Waiting.lockMode (cfg.object p) :=
  port_histories (P := posix cfg) (posix_keeps hquiet) (posix_keepsNames hfiles) hs

end Posix

/-- A reader and a writer of one file. -/
def readerWriter : Config Bool where
  object reads := .lock
    { filename := ['f'], flags := if reads then ⟨false, true, true⟩ else .lockMethod }
  mayRaise _ _ _ := false

/-- The reader gets its lock and crashes, and the writer gets its own. -/
def readerWriter.crashes : List (crashable readerWriter).Label :=
  .call true .enter :: List.replicate 4 (.op true {}) ++ .event (.inr true) ::
    .call false .enter :: List.replicate 4 (.op false {})

/-- The writer has the lock alone. -/
theorem locks_refine_readers_writers_run :
    ∃ s, run readerWriter.crashes ⟨(World.empty, fun _ => false), fun _ => none⟩ = some s ∧
      (∃ history, Observed crashOf (holding readerWriter) (NoneClaimed readerWriter)
        (Guard.free (crashable readerWriter)) history s ∧
        (readersWriters readerWriter).Legal history (holding readerWriter s.world)) ∧
      ∃ h, World.fh s.world.1 false = some h ∧
        Fs.lock (World.toFs s.world.1) h = some .exclusive := by
  have hobserve : (run readerWriter.crashes ⟨(World.empty, fun _ => false), fun _ => none⟩).bind
      (fun s => (World.fh s.world.1 false).map fun h => Fs.lock (World.toFs s.world.1) h) =
      some (some .exclusive) := by rfl
  obtain ⟨s, hrun, hs⟩ := Option.bind_eq_some_iff.1 hobserve
  obtain ⟨h, hfh, hlock⟩ := Option.map_eq_some_iff.1 hs
  have hreach : Reach (NoneClaimed readerWriter) (Guard.free (crashable readerWriter)) s :=
    (Reach.start empty_unclaimed).run hrun
  obtain ⟨⟨history, hobserved⟩, hlegal, -⟩ := locks_refine_readers_writers
    (fun _ _ _ => rfl) (fun _ => rfl) hreach
  exact ⟨s, hrun, ⟨history, hobserved, (hlegal history hobserved).1⟩, h, hfh, hlock⟩

end ReadersWriters

end Portalocker
