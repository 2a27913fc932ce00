import Mathlib.Algebra.Order.Floor.Semiring
import Mathlib.Data.Rat.Floor
import Mathlib.Tactic.Linarith
import Mathlib.Tactic.Push
import Portalocker.Foundation.Progress
import Portalocker.Utils.FailedAcquire
set_option autoImplicit false
set_option linter.unusedSectionVars false

/-!
# Verified acquisition while the path is swapped

Other programs may unlink and recreate the path at any moment.  `_acquire_verified` ends
all the same, since a clock that goes on while the loop sleeps allows a number of attempts
that the timeout alone bounds; it returns only a handle that was current while it was
locked, and it gives every other one back without unlinking anything.
-/

namespace Portalocker

open Posix Interleaving World Contract

variable {ι : Type} [DecidableEq ι]

/-! ## The clock of a retry loop -/

/-- What `time.perf_counter()` reads during one `_timeout_generator`. -/
structure Clock where
  start : Rat
  /-- at the test of the `while` before attempt `i + 1` -/
  test : Nat → Rat
  /-- after attempt `i + 1` -/
  resumed : Nat → Rat

namespace Clock

variable (clock : Clock)

/-- The pause after attempt `i + 1`. -/
def pause (checkInterval : Rat) (i : Nat) : Rat :=
  max (1 / 1000) ((i + 1) * checkInterval - (clock.resumed i - clock.start))

/-- The clock does not go back, and it advances by at least each sleep. -/
structure Advances (checkInterval : Rat) : Prop where
  first : clock.start ≤ clock.test 0
  attempt : ∀ i, clock.test i ≤ clock.resumed i
  sleep : ∀ i, clock.resumed i + clock.pause checkInterval i ≤ clock.test (i + 1)

/-- The `while` is entered exactly this often. -/
def Passes (timeout : Rat) (n : Nat) : Prop :=
  (∀ i, i < n → clock.test i < clock.start + timeout) ∧ clock.start + timeout ≤ clock.test n

variable {clock}

theorem Advances.elapsed {checkInterval : Rat} (h : clock.Advances checkInterval) (i : Nat) :
    clock.start + i / 1000 ≤ clock.test i := by
  induction i with
  | zero => simpa using h.first
  | succ i ih =>
      have hpause : (1 : Rat) / 1000 ≤ clock.pause checkInterval i := le_max_left _ _
      have hattempt := h.attempt i
      have hsleep := h.sleep i
      push_cast
      linarith

end Clock

/-- The attempts a timeout leaves time for after the first one. -/
def attemptsWithin (timeout : Rat) : Nat := ⌈1000 * timeout⌉₊

theorem Clock.Passes.le {clock : Clock} {timeout checkInterval : Rat} {n : Nat}
    (hp : clock.Passes timeout n) (ha : clock.Advances checkInterval) :
    n ≤ attemptsWithin timeout := by
  cases n with
  | zero => exact Nat.zero_le _
  | succ i =>
      have helapsed := ha.elapsed i
      have hentered := hp.1 i (Nat.lt_succ_self i)
      have hi : (i : Rat) < 1000 * timeout := by linarith
      exact Nat.lt_ceil.2 hi

/-- A question about the number of attempts is answered by a clock that advances. -/
def ClockAdvances (checkInterval : Rat) : TraceEntry ι → Prop
  | ⟨_, .attempts timeout, .ok n, _⟩ =>
      ∃ clock : Clock, clock.Advances checkInterval ∧ clock.Passes timeout n
  | _ => True

/-- No loop is granted more attempts than its timeout leaves time for. -/
def TimelyAnswer : (o : Op ι) → Except Exc (Val o) → Prop
  | .attempts timeout, .ok n => n ≤ attemptsWithin timeout
  | _, _ => True

theorem ClockAdvances.timely {checkInterval : Rat} {entry : TraceEntry ι}
    (h : ClockAdvances checkInterval entry) : TimelyAnswer entry.op entry.answer := by
  obtain ⟨w, o, answer, w'⟩ := entry
  cases o with
  | attempts timeout =>
      cases answer with
      | ok n =>
          obtain ⟨clock, hadvances, hpasses⟩ := h
          exact hpasses.le hadvances
      | error e => trivial
  | _ => trivial

/-! ## How many operations the call performs -/

section Bounds

/-- A loop whose attempts perform at most `n` operations each. -/
theorem timeoutGenerator_atMost {α : Type} {timeout checkInterval : Rat}
    {attempt : Py ι (Except Exc α)} {n : Nat} (h : Code.AtMost TimelyAnswer attempt n) :
    Code.AtMost TimelyAnswer (timeoutGenerator timeout checkInterval attempt)
      ((attemptsWithin timeout + 1) * (n + 1)) := by
  have hagain : ∀ remaining i failure, Code.AtMost TimelyAnswer
      (timeoutGenerator.again checkInterval attempt remaining i failure) (remaining * (n + 1)) := by
    intro remaining
    induction remaining with
    | zero => exact fun _ _ => .pure _
    | succ remaining ih =>
        intro i failure
        have hnext : Code.AtMost TimelyAnswer
            (timeoutGenerator.again checkInterval attempt (remaining + 1) i failure)
            (n + (remaining * (n + 1) + 1)) := by
          refine .bind h fun outcome => ?_
          cases outcome with
          | ok a => exact .pure _
          | error e => exact .step fun _ _ => ih (i + 1) e
        refine hnext.mono ?_
        rw [Nat.succ_mul]
        omega
  have hloop : Code.AtMost TimelyAnswer (timeoutGenerator timeout checkInterval attempt)
      (n + (attemptsWithin timeout * (n + 1) + 1)) := by
    refine .bind h fun outcome => ?_
    cases outcome with
    | ok a => exact .pure _
    | error e =>
        refine .step fun remaining hremaining => (hagain remaining 1 e).mono ?_
        exact Nat.mul_le_mul_right _ hremaining
  refine hloop.mono ?_
  rw [Nat.add_mul]
  omega

theorem posixLock_atMost (h : Handle ι Path) (flags : LockFlags) :
    Code.AtMost TimelyAnswer (PosixLocker.lock h flags) 1 :=
  .ite (.throw _) (.tryCatch (j := 0) .call fun _ => .throw _)

theorem tryClose_atMost (h : Handle ι Path) : Code.AtMost TimelyAnswer (Lock.tryClose h) 1 :=
  .suppress .call

theorem tryLock_atMost (self : Lock) (h : Handle ι Path) (failWhenLocked : Bool) :
    Code.AtMost TimelyAnswer (self.tryLock h failWhenLocked) 2 := by
  refine .tryCatch (n := 1) (j := 1) (.bind (n := 1) (j := 0) (posixLock_atMost h self.flags)
    fun _ => .pure _) fun e => .ite (.ite ?_ (.pure _)) (.ite ?_ (.throw _))
  · exact .bind (j := 0) (tryClose_atMost h) fun _ => .throw _
  · exact .bind (j := 0) (tryClose_atMost h) fun _ => .throw _

theorem prepareFh_atMost (self : Lock) (h : Handle ι Path) :
    Code.AtMost TimelyAnswer (self.prepareFh h) 2 :=
  .ite (.step fun _ _ => .call) (.pure _)

theorem getFh_atMost (self : Lock) : Code.AtMost TimelyAnswer (self.getFh : Py ι _) 1 := by
  unfold Lock.getFh
  split
  · exact .call
  · exact .throw _

theorem release_atMost (self : Lock) : Code.AtMost TimelyAnswer (self.release : Py ι Unit) 4 := by
  refine .step fun v _ => ?_
  cases v with
  | none => exact .pure _
  | some h =>
      refine .bind (n := 3) (j := 0) (.withFinally (n := 1) (j := 2) (.collect .call)
        (.bind (n := 1) (j := 1) (.collect .call) fun _ => .step fun _ _ => .pure (n := 0) _))
        fun errors => ?_
      dsimp only
      split
      · exact .throw _
      · exact .pure _

theorem fhMatchesPath_atMost (h : Handle ι Path) (filename : Path) :
    Code.AtMost TimelyAnswer (fhMatchesPath h filename) 2 :=
  .tryCatch (n := 2) (j := 0) (.step (n := 1) fun _ _ => .step (n := 0) fun _ _ => .pure _)
    fun _ => .ite (.pure _) (.throw _)

/-- What one `Lock.acquire` performs at most: three operations for each attempt and six
others. -/
theorem lockAcquire_atMost (self : Lock) (timeout checkInterval : Option Rat)
    (failWhenLocked : Option Bool) :
    Code.AtMost TimelyAnswer (self.acquire timeout checkInterval failWhenLocked : Py ι _)
      ((attemptsWithin (timeout.getD self.timeout) + 1) * 3 + 6) := by
  have hopened : ∀ h : Handle ι Path, Code.AtMost TimelyAnswer
      (self.acquireOpened (timeout.getD self.timeout) (checkInterval.getD self.checkInterval)
        (failWhenLocked.getD self.failWhenLocked) h)
      ((attemptsWithin (timeout.getD self.timeout) + 1) * 3 + 3 + 1) := by
    intro h
    refine .onRaise (.bind (timeoutGenerator_atMost (tryLock_atMost self h _)) fun outcome => ?_) .call
    cases outcome with
    | error e => exact ((tryClose_atMost h).bind (j := 0) fun _ => .throw _).mono (by omega)
    | ok a =>
        exact .bind (n := 2) (j := 1) (prepareFh_atMost self h) fun _ =>
          .step (n := 0) fun _ _ => .pure _
  refine .step (n := (attemptsWithin (timeout.getD self.timeout) + 1) * 3 + 5) fun v _ => ?_
  cases v with
  | some h => exact .pure _
  | none => exact (Code.AtMost.bind (getFh_atMost self) hopened).mono (by omega)

/-- What `_acquire_verified` performs at most. -/
def verifiedOperations (timeout : Rat) : Nat :=
  (attemptsWithin timeout + 1) * ((attemptsWithin timeout + 1) * 3 + 13)

theorem acquireVerified_atMost (lock : Lock) (filename : Path)
    (timeout checkInterval : Option Rat) (failWhenLocked : Option Bool) :
    Code.AtMost TimelyAnswer (TemporaryFileLock.acquireVerified lock filename timeout checkInterval
      failWhenLocked : Py ι _) (verifiedOperations (timeout.getD lock.timeout)) := by
  have hattempt : Code.AtMost TimelyAnswer (do
      let h ← lock.acquire timeout checkInterval failWhenLocked
      if ← fhMatchesPath h filename then return .ok h
      else do
        lock.release
        return .error .alreadyLocked : Py ι (Except Exc (Handle ι Path)))
      ((attemptsWithin (timeout.getD lock.timeout) + 1) * 3 + 6 + (2 + (4 + 0))) := by
    refine .bind (lockAcquire_atMost lock timeout checkInterval failWhenLocked) fun h =>
      .bind (fhMatchesPath_atMost h filename) fun matching => ?_
    cases matching with
    | true => exact .pure _
    | false => exact .bind (release_atMost lock) fun _ => .pure _
  refine (Code.AtMost.bind (j := 0) (timeoutGenerator_atMost hattempt) fun outcome => ?_).mono ?_
  · cases outcome with
    | ok h => exact .pure _
    | error e => exact .throw _
  · exact Nat.le_refl _

end Bounds

/-! ## Which operations they are -/

/-- `_acquire_verified` locks with the flags of its lock and unlinks nothing. -/
theorem acquireVerified_uses (lock : Lock) (filename : Path)
    (timeout checkInterval : Option Rat) (failWhenLocked : Option Bool) :
    Code.Within lock.Uses (TemporaryFileLock.acquireVerified lock filename timeout
      checkInterval failWhenLocked : Py ι _) := by
  refine .bind (timeoutGenerator_within trivial (fun _ => trivial) (.bind (lockAcquire_uses lock timeout
    checkInterval failWhenLocked) fun h => .bind (.tryCatch (.step trivial fun _ =>
      .step trivial fun _ => .pure _) fun _ => .ite (.pure _) (.throw _)) fun matching => ?_))
    fun outcome => ?_
  · cases matching with
    | true => exact .pure _
    | false =>
        exact .bind (release_uses lock) fun _ => .pure _
  · cases outcome with
    | ok h => exact .pure _
    | error e => exact .throw _

/-- Only a lock attempt with blocking flags waits for anybody. -/
theorem performOp_enabled {cfg : Config ι} {p : ι} {c : Call} {w : World ι} {o : Op ι}
    {lock : Lock} (ho : lock.Uses o) (hflags : lock.flags.nonBlocking = true)
    (hfresh : ∃ i, w.Fresh i) : ∃ choice r w', cfg.performOp choice p c w o = some (r, w') := by
  obtain ⟨i, hi⟩ := hfresh
  have hfile : ∀ {h : Handle ι Path} {α : Type} {x : Option (Except Exc α × World ι)},
      x.isSome = true → (Config.onOpen w h x).isSome = true := by
    intro h α x hx
    unfold Config.onOpen
    split
    · exact hx
    · rfl
  have hact : (cfg.act { ino := i } p w o).isSome = true := by
    cases o with
    | openFile path kind =>
        cases hname : w.names path with
        | some j => cases kind <;> simp [Config.act, hname]
        | none => cases kind <;> simp [Config.act, hname, hi]
    | flock h flags =>
        obtain rfl : flags = lock.flags := ho
        refine hfile ?_
        cases hmode : lock.flags.mode with
        | none => rfl
        | some mode =>
            dsimp only
            split
            · rfl
            · rfl
    | write h bytes bufferSize => exact hfile (by simp)
    | unlock h | seek h | flush h | truncate h | fsync h | read h | fstat h => exact hfile rfl
    | close h => by_cases hopen : h ∈ w.opened <;> simp [Config.act, hopen]
    | stat path => cases hname : w.names path <;> simp [Config.act, hname]
    | unlink path => exact ho.elim
    | attempts timeout => simp [Config.act]
    | _ => rfl
  obtain ⟨⟨r, w'⟩, hsome⟩ := Option.isSome_iff_exists.1 hact
  exact ⟨{ ino := i }, r, w', hsome⟩

/-! ## Against an arbitrary swapper -/

/-- Opening, locking, unlocking and closing may fail with any `Exception`; looking up the
inodes fails only because the path is missing. -/
def SwapFaults (cfg : Config ι) : Prop :=
  ∀ c o e, cfg.mayRaise c o e = true → e.isException = true ∧
    match o with
    | .openFile _ _ | .flock _ _ | .unlock _ | .close _ => True
    | _ => False

theorem SwapFaults.plain {cfg : Config ι} (h : SwapFaults cfg) : PlainFaults cfg := by
  intro c o e he
  obtain ⟨hexception, ho⟩ := h c o e he
  refine ⟨hexception, ?_⟩
  cases o with
  | openFile | flock | unlock | close => trivial
  | _ => exact ho.elim

/-- Without faults in the look-ups a call that fails has empty hands. -/
theorem Fails.emptyHanded {cfg : Config ι} {c : Call} {p : ι} {e : Exc}
    {W : World ι × Trace ι} (hfaults : SwapFaults cfg) (h : Fails cfg c p e W) :
    EmptyHanded p W := by
  rcases h with hempty | ⟨-, o, hexposing, hmay⟩
  · exact hempty
  · obtain ⟨-, ho⟩ := hfaults c o e hmay
    cases o with
    | openFile | flock | unlock | close => exact hexposing.elim
    | _ => exact ho.elim

/-- `_acquire_verified` on an instance without a handle, whatever happens to the path.  It
performs no more operations than the timeout allows and waits for nobody unless its flags
say so; what it returns was current at a moment after it was locked; every other handle it
has opened, whether it was locked or not, is unlocked, closed and gone; it unlinks nothing;
and when it raises nothing is held. -/
theorem acquireVerified_swapped {cfg : Config ι} {p : ι} {c : Call} (hfaults : SwapFaults cfg)
    (lock : Lock) (filename : Path) (timeout checkInterval : Option Rat)
    (failWhenLocked : Option Bool) {w : World ι} (hw : w.Wf) (hfree : w.fh p = none) :
    (∀ tr rest w', (cfg.solo p c).Begins (TemporaryFileLock.acquireVerified lock filename timeout
        checkInterval failWhenLocked).run w tr rest w' →
      (∀ entry ∈ tr, ClockAdvances (checkInterval.getD lock.checkInterval) entry) →
      tr.length ≤ verifiedOperations (timeout.getD lock.timeout) ∧
      ∀ o k, rest = .op o k → lock.flags.nonBlocking = true → (∃ i, w'.Fresh i) →
        ∃ choice r w'', cfg.performOp choice p c w' o = some (r, w'')) ∧
    ∀ tr outcome w', (cfg.solo p c).Executes (TemporaryFileLock.acquireVerified lock filename
        timeout checkInterval failWhenLocked).run w tr outcome w' →
      (∀ h, outcome = .ok h → PassedComparison filename h tr ∧
        w'.fh p = some h ∧ h ∈ w'.opened ∧ w'.lock h ≠ none) ∧
      (∀ h, .ok h ∈ opensOf tr → outcome ≠ .ok h →
        GivenBack h tr ∧ h ∉ w'.opened ∧ w'.lock h = none) ∧
      (∀ entry ∈ tr, ∀ path, entry.op ≠ .unlink path) ∧
      (∀ e, outcome = .error e → HoldsNothing p tr w') := by
  have hkind := acquireVerified_uses (ι := ι) lock filename timeout checkInterval failWhenLocked
  constructor
  · intro tr rest w' hbegins hclock
    refine ⟨hbegins.length_le (acquireVerified_atMost lock filename timeout checkInterval
      failWhenLocked) fun entry hentry => (hclock entry hentry).timely, ?_⟩
    rintro o k rfl hflags hfresh
    exact performOp_enabled (hbegins.within hkind).1.1 hflags hfresh
  · intro tr outcome w' hrun
    have hunlinks : ∀ entry ∈ tr, ∀ path, entry.op ≠ .unlink path := by
      intro entry hentry path heq
      have huses := (hrun.begins.within hkind).2 entry hentry
      rw [heq] at huses
      exact huses
    obtain ⟨hw', hends⟩ := (acquireVerified_accounted hfaults.plain lock filename timeout
      checkInterval failWhenLocked).executes hw (emptyHanded_start hfree) hrun
    cases outcome with
    | ok h =>
        obtain ⟨⟨⟨⟨hopen, hfh⟩, m, hlock⟩, -, hall⟩, hpassed⟩ := hends
        refine ⟨fun g hg => ?_, fun g hg hne => ?_, hunlinks, fun e he => (by cases he)⟩
        · obtain rfl := Except.ok.inj hg
          exact ⟨hpassed, hfh, hopen.2.2, by rw [hlock.2.2]; simp⟩
        · obtain ⟨⟨-, -, hclosed⟩, hback⟩ :=
            (hall.1 g hg).resolve_left fun heq => hne (congrArg Except.ok heq.symm)
          exact ⟨hback, hclosed, hw'.fs.lock_open hclosed⟩
    | error e =>
        have hempty := Fails.emptyHanded hfaults hends
        refine ⟨fun g hg => (by cases hg), fun g hg _ => ?_, hunlinks,
          fun _ _ => hempty.holdsNothing hw'⟩
        obtain ⟨⟨-, -, hclosed⟩, hback⟩ := (hempty.2.2.1 g hg).resolve_left id
        exact ⟨hback, hclosed, hw'.fs.lock_open hclosed⟩

/-! ## A run -/

/-- Two locks on one path; nothing fails. -/
def swapped : Config Bool where
  object _ := .temporaryFileLock { filename := ['f'] }
  mayRaise _ _ _ := false

theorem swapped_faults : SwapFaults swapped := fun _ _ _ he => by simp [swapped] at he

namespace swapped

/-- The other instance unlinks the path, if it is there. -/
def vanish (w : World Bool) : World Bool :=
  match w.names ['f'] with
  | some _ => w.unlink true ['f'] true
  | none => w

theorem vanish_passes (c : Call) (w : World Bool) :
    (swapped.solo false c).Passes w (vanish w) := by
  unfold vanish
  split
  · next i hn =>
    have hchange : Change swapped true w (.unlink ['f']) (w.unlink true ['f'] true) :=
      .unlink _ i hn
    have hundisturbed : Undisturbed false w (w.unlink true ['f'] true) :=
      ⟨rfl, rfl, rfl, rfl, by simp, rfl, rfl, fun _ hr => hr,
        fun h ho _ => ⟨.unlink, rfl, by simp [ho], fun _ => rfl⟩⟩
    exact ⟨⟨hundisturbed, fun _ _ hopen => hopen⟩,
      fun hw => World.Wf.change (o := .unlink ['f']) hw trivial hchange⟩
  · exact .refl _

/-- The choices of a call, and before which operation the path is unlinked: the first handle
is locked by then, and the second attempt is left alone. -/
def script : List (Bool × Choice) :=
  [(false, {}), (false, { ino := 1 }), (false, {}), (false, {}), (false, {}), (true, {}),
    (false, {}), (false, {}), (false, {}), (false, {}), (false, { count := 1 }), (false, {}),
    (false, { ino := 2 }), (false, {}), (false, {}), (false, {}), (false, {})]

def moves : List ((World Bool → World Bool) × Choice) :=
  script.map fun step => (if step.1 then vanish else id, step.2)

theorem moves_pass (c : Call) :
    ∀ move ∈ moves, ∀ w, (swapped.solo false c).Passes w (move.1 w) := by
  intro move hmove w
  obtain ⟨⟨swaps, choice⟩, -, rfl⟩ := List.mem_map.1 hmove
  cases swaps with
  | false => exact .refl w
  | true => exact vanish_passes c w

/-- A clock that is read once a second. -/
def seconds : Clock where
  start := 0
  test i := i
  resumed i := i

theorem seconds_advances : seconds.Advances defaultCheckInterval where
  first := le_refl _
  attempt _ := le_refl _
  sleep i := by
    have hi : (0 : Rat) ≤ i := Nat.cast_nonneg i
    have hpause : seconds.pause defaultCheckInterval i ≤ 1 := by
      refine max_le (by norm_num) ?_
      simp only [seconds, defaultCheckInterval]
      linarith
    simp only [seconds, Nat.cast_add, Nat.cast_one]
    simp only [seconds] at hpause
    linarith

/-- The stale handle, and the one that is returned. -/
def stale : Handle Bool Path := ⟨false, 0, ['f'], 1⟩

def current : Handle Bool Path := ⟨false, 1, ['f'], 2⟩

end swapped

/-- The answers of the generator's clock. -/
def attemptsOf : TraceEntry Bool → Option (Rat × Nat)
  | ⟨_, .attempts timeout, .ok n, _⟩ => some (timeout, n)
  | _ => none

/-- The path is swapped while the first handle is locked: that handle is given back, and the
second one, which is current, is returned. -/
theorem acquireVerified_swapped_run :
    ∃ (tr : Trace Bool) (w' : World Bool),
      (swapped.solo false (.acquire none none none)).Executes
        (TemporaryFileLock.acquireVerified { filename := ['f'] } ['f'] (some 1) none none).run
        World.empty tr (.ok swapped.current) w' ∧
      (∀ entry ∈ tr, ClockAdvances defaultCheckInterval entry) ∧
      tr.length ≤ verifiedOperations 1 ∧
      opensOf tr = [.ok swapped.stale, .ok swapped.current] ∧
      GivenBack swapped.stale tr ∧ w'.lock swapped.stale = none ∧
      PassedComparison ['f'] swapped.current tr ∧ w'.lock swapped.current ≠ none := by
  have hplayed : ((TemporaryFileLock.acquireVerified { filename := ['f'] } ['f'] (some 1) none
      none : Py Bool _).run.playAmong
      (fun choice w o => swapped.performOp choice false (.acquire none none none) w o)
      swapped.moves World.empty).map
      (fun r => (r.2.1, opensOf r.1, r.1.filterMap attemptsOf)) =
      some (.ok swapped.current, [.ok swapped.stale, .ok swapped.current], [(1, 1)]) := by rfl
  obtain ⟨⟨tr, outcome, w'⟩, hplay, hobserved⟩ := Option.map_eq_some_iff.1 hplayed
  obtain ⟨houtcome, hobserved⟩ := Prod.mk.inj hobserved
  obtain ⟨hopens, hanswers⟩ := Prod.mk.inj hobserved
  have hrun := Context.Executes.of_playAmong (C := swapped.solo false (.acquire none none none))
    (fun {choice w o r w'} h => ⟨choice, h⟩) (swapped.moves_pass _) hplay
  dsimp only at houtcome hopens hanswers
  subst houtcome
  have hclock : ∀ entry ∈ tr, ClockAdvances defaultCheckInterval entry := by
    rintro ⟨w, o, answer, w₁⟩ hentry
    cases o with
    | attempts timeout =>
        cases answer with
        | ok n =>
            have hmem : (timeout, n) ∈ [((1 : Rat), 1)] := by
              rw [← hanswers]
              exact List.mem_filterMap.2 ⟨_, hentry, rfl⟩
            obtain ⟨rfl, rfl⟩ := Prod.mk.inj (List.mem_singleton.1 hmem)
            refine ⟨swapped.seconds, swapped.seconds_advances, fun i hi => ?_, ?_⟩
            · obtain rfl : i = 0 := by omega
              simp [swapped.seconds]
            · simp [swapped.seconds]
        | error e => trivial
    | _ => trivial
  have hswapped := acquireVerified_swapped (p := false) (c := .acquire none none none)
    swapped_faults { filename := ['f'] } ['f'] (some 1) none none World.empty_wf rfl
  obtain ⟨hlength, -⟩ := hswapped.1 tr _ w' hrun.begins hclock
  obtain ⟨hreturned, hothers, -⟩ := hswapped.2 tr _ w' hrun
  obtain ⟨hpassed, -, -, hlocked⟩ := hreturned _ rfl
  obtain ⟨hback, -, hunlocked⟩ := hothers swapped.stale (by simp [hopens])
    (by simp [swapped.stale, swapped.current])
  exact ⟨tr, w', hrun, hclock, hlength, hopens, hback, hunlocked, hpassed, hlocked⟩

end Portalocker
