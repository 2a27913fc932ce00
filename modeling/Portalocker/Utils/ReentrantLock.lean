import Portalocker.Utils.Attempts
set_option autoImplicit false
set_option linter.unusedSectionVars false

/-!
# The count of an `RLock`

Any sequence of `acquire` and `release` calls on one `RLock`, with any exception raised at
any step and anything done by the others in between.  One call does one of six things
(`RLock.Does`); the count, the handle and the attempts to unlock and close it are an
invariant of the sequence (`RLock.Balanced`).
-/

namespace Portalocker

open Posix Interleaving World Contract

variable {ι : Type} [DecidableEq ι]

/-! ## The calls -/

/-- The constructor of an `RLock`, which takes no `raise_on_release_error`. -/
def RLock.init (filename : Path) (mode : List Char) (timeout checkInterval : Rat)
    (failWhenLocked : Bool) (flags : LockFlags) : RLock where
  toLock := Lock.init { filename, timeout, checkInterval, failWhenLocked, flags } mode

/-- A call on an `RLock`. -/
inductive Turn
  | acquire (timeout checkInterval : Option Rat) (failWhenLocked : Option Bool)
  | release

def Turn.call : Turn → Call
  | .acquire timeout checkInterval failWhenLocked => .acquire timeout checkInterval failWhenLocked
  | .release => .release

/-- The code of a call; it answers with the handle it returns, if any. -/
def RLock.turn (self : RLock) : Turn → Py ι (Option (Handle ι Path))
  | .acquire timeout checkInterval failWhenLocked => do
      let h ← self.acquire timeout checkInterval failWhenLocked
      return some h
  | .release => do
      self.release
      return none

/-- A call that is over. -/
structure PastCall (ι : Type) where
  turn : Turn
  before : World ι
  trace : Trace ι
  outcome : Except Exc (Option (Handle ι Path))
  after : World ι

/-- Calls of `p` on its `RLock`, one after the other. -/
inductive RLock.Session (cfg : Config ι) (p : ι) (self : RLock) :
    World ι → List (PastCall ι) → World ι → Prop
  | start {w : World ι} : Session cfg p self w [] w
  | turn {w₀ w w' : World ι} {done : List (PastCall ι)} {turn : Turn} {trace : Trace ι}
      {outcome : Except Exc (Option (Handle ι Path))} (hs : Session cfg p self w₀ done w)
      (hrun : (cfg.solo p turn.call).Executes (self.turn turn).run w trace outcome w') :
      Session cfg p self w₀ (done ++ [⟨turn, w, trace, outcome, w'⟩]) w'

/-- The call has returned from `acquire`. -/
def PastCall.acquired : PastCall ι → Bool
  | ⟨.acquire _ _ _, _, _, .ok _, _⟩ => true
  | _ => false

/-- The call has returned from `release`. -/
def PastCall.released : PastCall ι → Bool
  | ⟨.release, _, _, .ok _, _⟩ => true
  | _ => false

/-- How many calls of `acquire` and of `release` have succeeded. -/
def acquires (done : List (PastCall ι)) : Nat := done.countP PastCall.acquired

def releases (done : List (PastCall ι)) : Nat := done.countP PastCall.released

/-- The handles the calls have returned. -/
def returnedBy (done : List (PastCall ι)) : List (Handle ι Path) :=
  done.filterMap fun t => match t.outcome with
    | .ok v => v
    | .error _ => none

/-- The operations of all calls. -/
def logOf (done : List (PastCall ι)) : Trace ι := done.flatMap PastCall.trace

/-! ## What one call does -/

/-- The handle and the count of the instance; it has opened at least `k` files. -/
def HasCount (p : ι) (v : Option (Handle ι Path)) (n k : Nat) (w : World ι) : Prop :=
  w.fh p = v ∧ w.acquireCount p = n ∧ k ≤ w.serial p

/-- Which handles the operations have tried to unlock, and to close. -/
def Showing (unlocks closes : List (Handle ι Path)) (tr : Trace ι) : Prop :=
  unlocksOf tr = unlocks ∧ closesOf tr = closes

/-- Only handles opened since have been closed. -/
def ClosesNew (p : ι) (k : Nat) (W : World ι × Trace ι) : Prop :=
  unlocksOf W.2 = [] ∧ ∀ g ∈ closesOf W.2, k ≤ g.serial ∧ g.serial < W.1.serial p

section Rules

variable {cfg : Config ι} {p : ι} {c : Call} {v : Option (Handle ι Path)} {h : Handle ι Path}
  {n m k : Nat} {unlocks closes : List (Handle ι Path)} {w w' : World ι} {tr : Trace ι}

instance stable_hasCount : (cfg.solo p c).Stable (HasCount p v n k) := by
  unfold HasCount
  infer_instance

instance stable_closesNew : (cfg.soloTraced p c).Stable (ClosesNew p k) :=
  ⟨fun _ _ hr hc => by
    obtain ⟨⟨hu, -⟩, htrace⟩ := hr
    unfold ClosesNew
    rw [htrace, hu.serial]
    exact hc⟩

theorem Showing.unseen {entry : TraceEntry ι} (hs : Showing unlocks closes tr)
    (he : Unseen entry) : Showing unlocks closes (tr ++ [entry]) := by
  obtain ⟨-, -, hunlock, hclose, -⟩ := he
  constructor
  · simp [hs.1, hunlock]
  · simp [hs.2, hclose]

/-- The count is read. -/
theorem acquireCount_counted (hfaults : PlainFaults cfg) :
    Hoare (cfg.soloTraced p c) (At (HasCount p v n k) (Showing unlocks closes))
      (perform .acquireCount)
      (fun m W => m = n ∧ At (HasCount p v n k) (Showing unlocks closes) W) (fun _ _ => False) := by
  refine solo_rule (fun _ _ _ _ => trivial) ?_ fun w tr e _ _ he => (hfaults _ _ _ he).2.elim
  intro w tr choice r w' _ _ hP hact
  simp only [Config.act, Option.some.injEq, Prod.mk.injEq] at hact
  obtain ⟨rfl, rfl⟩ := hact
  exact ⟨hP.1.2.1, hP.1, hP.2.unseen ⟨rfl, rfl, rfl, rfl, rfl⟩⟩

/-- The count is assigned. -/
theorem setAcquireCount_counted (hfaults : PlainFaults cfg) :
    Hoare (cfg.soloTraced p c) (At (HasCount p v n k) (Showing unlocks closes))
      (perform (.setAcquireCount m))
      (fun _ => At (HasCount p v m k) (Showing unlocks closes)) (fun _ _ => False) := by
  refine solo_rule (fun _ _ _ _ => trivial) ?_ fun w tr e _ _ he => (hfaults _ _ _ he).2.elim
  intro w tr choice r w' _ _ hP hact
  simp only [Config.act, Option.some.injEq, Prod.mk.injEq] at hact
  obtain ⟨rfl, rfl⟩ := hact
  exact ⟨⟨hP.1.1, by simp, hP.1.2.2⟩, hP.2.unseen ⟨rfl, rfl, rfl, rfl, rfl⟩⟩

/-- The handle is read. -/
theorem fh_counted (hfaults : PlainFaults cfg) :
    Hoare (cfg.soloTraced p c) (At (HasCount p v n k) (Showing unlocks closes)) (perform .fh)
      (fun u W => u = v ∧ At (HasCount p v n k) (Showing unlocks closes) W) (fun _ _ => False) := by
  refine solo_rule (fun _ _ _ _ => trivial) ?_ fun w tr e _ _ he => (hfaults _ _ _ he).2.elim
  intro w tr choice r w' _ _ hP hact
  simp only [Config.act, Option.some.injEq, Prod.mk.injEq] at hact
  obtain ⟨rfl, rfl⟩ := hact
  exact ⟨hP.1.1, hP.1, hP.2.unseen ⟨rfl, rfl, rfl, rfl, rfl⟩⟩

/-- The operations of a `Lock` leave the count alone, and no file is unopened. -/
theorem uses_counts {o : Op ι} {self : Lock} (ho : self.Uses o) (hc : Change cfg p w o w') :
    w'.acquireCount p = w.acquireCount p ∧ w.serial p ≤ w'.serial p := by
  cases hc with
  | setAcquireCount m => exact ho.elim
  | openAt path kind i hn => exact ⟨rfl, by simp⟩
  | openEmptied path i hn => exact ⟨rfl, by simp⟩
  | create path kind i hn hi hkind => exact ⟨rfl, by simp⟩
  | _ => exact ⟨rfl, Nat.le_refl _⟩

/-- `Lock.acquire` on an instance without a handle. -/
theorem lockAcquire_counted (hfaults : PlainFaults cfg) (self : Lock)
    (timeout checkInterval : Option Rat) (failWhenLocked : Option Bool) :
    Hoare (cfg.soloTraced p c) (At (HasCount p none n k) (Showing [] []))
      (self.acquire timeout checkInterval failWhenLocked)
      (fun h W => k ≤ h.serial ∧ At (HasCount p (some h) n k) (Showing [] []) W)
      (fun _ W => HasCount p none n k W.1 ∧ ClosesNew p k W) := by
  rintro ⟨w, log⟩ hw ⟨⟨hfh, hcount, hserial⟩, hunlocks, hcloses⟩
  have hstable : (cfg.soloTraced p c).Stable
      fun W : World ι × Trace ι => W.1.acquireCount p = n ∧ k ≤ W.1.serial p :=
    Context.stable_world (P := fun w : World ι => w.acquireCount p = n ∧ k ≤ w.serial p)
  have hkeeps := ((Lock.acquire_attempts (c := c) (p := p) hfaults self timeout checkInterval
    failWhenLocked k).framed log).keeps_within
      (J := fun W => W.1.acquireCount p = n ∧ k ≤ W.1.serial p)
      (lockAcquire_uses self timeout checkInterval failWhenLocked) ?_
  · refine (hkeeps (w, log) hw ⟨⟨rfl, ⟨hfh, hserial⟩, rfl⟩, hcount, hserial⟩).mono ?_
    rintro outcome ⟨w', log'⟩ - hends
    cases outcome with
    | ok h =>
        obtain ⟨⟨tr, rfl, ⟨-, hk⟩, ⟨⟨-, hfh'⟩, -⟩, failed, -, htried⟩, hcount', hserial'⟩ := hends
        refine ⟨hk, ⟨hfh', hcount', hserial'⟩, ?_, ?_⟩
        · simp [hunlocks, htried.unlocks]
        · simp [hcloses, htried.closes]
    | error e =>
        obtain ⟨⟨tr, rfl, hE⟩, hcount', hserial'⟩ := hends
        rcases hE with ⟨hfh', -, -, hu, hcl, -⟩ |
          ⟨h, ⟨-, hk⟩, ⟨⟨⟨-, hshut, -⟩, hfh'⟩, e', -, hmissed⟩ | ⟨⟨-, hfh'⟩, habandoned, -⟩⟩
        · refine ⟨⟨hfh', hcount', hserial'⟩, ?_, fun g hg => ?_⟩
          · simp [hunlocks, hu]
          · simp [hcloses, hcl] at hg
        · obtain ⟨results, htried⟩ := hmissed.tried
          refine ⟨⟨hfh', hcount', hserial'⟩, ?_, fun g hg => ?_⟩
          · simp [hunlocks, htried.unlocks]
          · simp only [closesOf_append, hcloses, htried.closes, List.nil_append,
              List.mem_singleton] at hg
            subst hg
            exact ⟨hk, hshut⟩
        · refine ⟨⟨hfh', hcount', hserial'⟩, ?_, fun g hg => ?_⟩
          · simp [hunlocks, habandoned.unlocks]
          · simp [hcloses, habandoned.closes] at hg
  · rintro W o r W' - - huses ⟨hcountW, hserialW⟩ ⟨⟨choice, hperform⟩, -⟩
    obtain ⟨hcount', hserial'⟩ := uses_counts huses (Config.performOp_change hperform)
    exact ⟨hcount'.trans hcountW, Nat.le_trans hserialW hserial'⟩

/-- `Lock.release` of a handle, when its errors are not raised. -/
theorem lockRelease_counted (hfaults : PlainFaults cfg) {self : Lock}
    (hquiet : self.raiseOnReleaseError = false) :
    Hoare (cfg.soloTraced p c) (At (HasCount p (some h) n k) (Showing [] [])) self.release
      (fun _ => At (HasCount p none n k) (Showing [h] [h])) (fun _ _ => False) := by
  have hunlocked : ∀ {w w' : World ι} {tr : Trace ι} {r : Except Exc Unit}, w'.fh = w.fh →
      w'.acquireCount = w.acquireCount → w'.serial = w.serial →
      At (HasCount p (some h) n k) (Showing [] []) (w, tr) →
      At (HasCount p (some h) n k) (Showing [h] []) (w', tr ++ [⟨w, .unlock h, r, w'⟩]) := by
    rintro w w' tr r hfh hcount hserial ⟨⟨h₁, h₂, h₃⟩, h₄, h₅⟩
    dsimp only at h₁ h₂ h₃ h₄ h₅
    refine ⟨⟨?_, ?_, ?_⟩, ?_, ?_⟩
    · simpa [hfh] using h₁
    · simpa [hcount] using h₂
    · simpa [hserial] using h₃
    · simp [h₄, unlocking]
    · simp [h₅, closing]
  have hclosed : ∀ {w w' : World ι} {tr : Trace ι} {r : Except Exc Unit}, w'.fh = w.fh →
      w'.acquireCount = w.acquireCount → w'.serial = w.serial →
      At (HasCount p (some h) n k) (Showing [h] []) (w, tr) →
      At (HasCount p (some h) n k) (Showing [h] [h]) (w', tr ++ [⟨w, .close h, r, w'⟩]) := by
    rintro w w' tr r hfh hcount hserial ⟨⟨h₁, h₂, h₃⟩, h₄, h₅⟩
    dsimp only at h₁ h₂ h₃ h₄ h₅
    refine ⟨⟨?_, ?_, ?_⟩, ?_, ?_⟩
    · simpa [hfh] using h₁
    · simpa [hcount] using h₂
    · simpa [hserial] using h₃
    · simp [h₄, unlocking]
    · simp [h₅, closing]
  have hown : ∀ {w : World ι} {tr : Trace ι} {ups downs : List (Handle ι Path)}, w.Wf →
      At (HasCount p (some h) n k) (Showing ups downs) (w, tr) → h.owner = p :=
    fun hw hP => hw.fh_owner hP.1.1
  refine release_rule (R := fun g W => g = h ∧ At (HasCount p (some h) n k) (Showing [] []) W)
    (U := fun g W => g = h ∧ At (HasCount p (some h) n k) (Showing [h] []) W)
    (V := fun g W => g = h ∧ At (HasCount p (some h) n k) (Showing [h] [h]) W)
    (I := fun _ => False) ?_ (fun g => ?_) (fun g => ?_) (fun g => ?_) (fun htrue => ?_)
    fun _ _ _ hfalse => hfalse.elim
  · refine (fh_counted hfaults).of_post fun u W _ hW => ?_
    obtain ⟨rfl, hW⟩ := hW
    exact ⟨rfl, hW⟩
  · refine Hoare.of_fact ?_
    rintro rfl
    refine solo_rule (fun w tr hw hP => hown hw hP) ?_ ?_
    · intro w tr choice r w' _ _ hP hact
      simp only [Config.act] at hact
      rcases Config.onOpen_cases hact with ⟨-, hact⟩ | ⟨rfl, rfl⟩
      · simp only [Option.some.injEq, Prod.mk.injEq] at hact
        obtain ⟨rfl, rfl⟩ := hact
        exact ⟨rfl, hunlocked rfl rfl rfl hP⟩
      · have hexception : Exc.valueError.isException = true := rfl
        rw [Ends, Caught, if_pos hexception]
        exact ⟨rfl, hunlocked rfl rfl rfl hP⟩
    · intro w tr e _ hP he
      rw [Caught, if_pos (hfaults _ _ _ he).1]
      exact ⟨rfl, hunlocked rfl rfl rfl hP⟩
  · refine Hoare.of_fact ?_
    rintro rfl
    refine solo_rule (fun w tr hw hP => hown hw hP) ?_ ?_
    · intro w tr choice r w' _ _ hP hact
      simp only [Config.act] at hact
      split at hact
      · simp only [Option.some.injEq, Prod.mk.injEq] at hact
        obtain ⟨rfl, rfl⟩ := hact
        exact ⟨rfl, hclosed rfl rfl rfl hP⟩
      · simp only [Option.some.injEq, Prod.mk.injEq] at hact
        obtain ⟨rfl, rfl⟩ := hact
        exact ⟨rfl, hclosed rfl rfl rfl hP⟩
    · intro w tr e _ hP he
      rw [Caught, if_pos (hfaults _ _ _ he).1]
      have hsame : (Config.afterFault w (.close g)).fh = w.fh ∧
          (Config.afterFault w (.close g)).acquireCount = w.acquireCount ∧
          (Config.afterFault w (.close g)).serial = w.serial := by
        by_cases hopen : g ∈ w.opened
        · have heq : Config.afterFault w (.close g) = (w.store g (w.data g.ino) []).discard g :=
            if_pos hopen
          rw [heq]
          exact ⟨rfl, rfl, rfl⟩
        · have heq : Config.afterFault w (.close g) = w := if_neg hopen
          rw [heq]
          exact ⟨rfl, rfl, rfl⟩
      exact ⟨rfl, hclosed hsame.1 hsame.2.1 hsame.2.2 hP⟩
  · refine Hoare.of_fact fun _ => ?_
    refine solo_rule (fun _ _ _ _ h' heq => (by cases heq)) ?_
      fun w tr e _ _ he => (hfaults _ _ _ he).2.elim
    intro w tr choice r w' _ _ hP hact
    simp only [Config.act, Option.some.injEq, Prod.mk.injEq] at hact
    obtain ⟨rfl, rfl⟩ := hact
    exact ⟨⟨by simp, hP.1.2.1, hP.1.2.2⟩, hP.2.unseen ⟨rfl, rfl, rfl, rfl, rfl⟩⟩
  · rw [hquiet] at htrue
    cases htrue

/-! ### The two methods -/

/-- `RLock.acquire` on an instance whose count is zero. -/
theorem acquireFirst_counted (hfaults : PlainFaults cfg) (self : RLock)
    (timeout checkInterval : Option Rat) (failWhenLocked : Option Bool) :
    Hoare (cfg.soloTraced p c) (At (HasCount p none 0 k) (Showing [] []))
      (self.acquire timeout checkInterval failWhenLocked)
      (fun h W => k ≤ h.serial ∧ At (HasCount p (some h) 1 k) (Showing [] []) W)
      (fun _ W => HasCount p none 0 k W.1 ∧ ClosesNew p k W) := by
  have hworld : (cfg.soloTraced p c).Stable fun W : World ι × Trace ι => HasCount p none 0 k W.1 :=
    Context.stable_world (P := HasCount p none 0 k)
  refine Hoare.bind (R := fun h W => k ≤ h.serial ∧ At (HasCount p (some h) 0 k) (Showing [] []) W)
    (Hoare.bind ((acquireCount_counted hfaults).conseq (fun _ _ hP => hP) (fun _ _ _ hQ => hQ)
      fun _ _ _ hfalse => hfalse.elim) fun count => Hoare.of_fact ?_) fun h => Hoare.of_fact fun hk => ?_
  · rintro rfl
    exact lockAcquire_counted hfaults self.toLock timeout checkInterval failWhenLocked
  · refine Hoare.bind ((acquireCount_counted hfaults).conseq (fun _ _ hP => hP) (fun _ _ _ hQ => hQ)
      fun _ _ _ hfalse => hfalse.elim) fun count => Hoare.of_fact ?_
    rintro rfl
    refine Hoare.bind ((setAcquireCount_counted hfaults).conseq (fun _ _ hP => hP)
      (fun _ _ _ hQ => hQ) fun _ _ _ hfalse => hfalse.elim) fun _ => ?_
    exact Hoare.pure fun W _ hW => ⟨hk, hW⟩

/-- `RLock.acquire` on an instance that has the lock. -/
theorem acquireAgain_counted (hfaults : PlainFaults cfg) (self : RLock)
    (timeout checkInterval : Option Rat) (failWhenLocked : Option Bool) :
    Hoare (cfg.soloTraced p c) (At (HasCount p (some h) (n + 1) k) (Showing [] []))
      (self.acquire timeout checkInterval failWhenLocked)
      (fun g W => g = h ∧ At (HasCount p (some h) (n + 2) k) (Showing [] []) W)
      (fun _ _ => False) := by
  refine Hoare.bind (R := fun g W => g = h ∧ At (HasCount p (some h) (n + 1) k) (Showing [] []) W)
    (Hoare.bind (acquireCount_counted hfaults) fun count => Hoare.of_fact ?_)
    fun g => Hoare.of_fact ?_
  · rintro rfl
    rw [if_pos (Nat.le_add_left 1 n)]
    refine Hoare.bind (fh_counted hfaults) fun v => Hoare.of_fact ?_
    rintro rfl
    exact Hoare.pure fun W _ hW => ⟨rfl, hW⟩
  · rintro rfl
    refine Hoare.bind (acquireCount_counted hfaults) fun count => Hoare.of_fact ?_
    rintro rfl
    refine Hoare.bind (setAcquireCount_counted hfaults) fun _ => ?_
    exact Hoare.pure fun W _ hW => ⟨rfl, hW⟩

/-- `RLock.release` of a lock that is not held. -/
theorem releaseNone_counted (hfaults : PlainFaults cfg) (self : RLock) :
    Hoare (cfg.soloTraced p c) (At (HasCount p v 0 k) (Showing [] [])) self.release
      (fun _ _ => False)
      (fun e W => e = .lockException ∧ At (HasCount p v 0 k) (Showing [] []) W) := by
  refine Hoare.bind ((acquireCount_counted hfaults).conseq (fun _ _ hP => hP) (fun _ _ _ hQ => hQ)
    fun _ _ _ hfalse => hfalse.elim) fun count => Hoare.of_fact ?_
  rintro rfl
  exact Hoare.throw fun W _ hW => ⟨rfl, hW⟩

/-- The last `RLock.release`. -/
theorem releaseLast_counted (hfaults : PlainFaults cfg) {self : RLock}
    (hquiet : self.raiseOnReleaseError = false) :
    Hoare (cfg.soloTraced p c) (At (HasCount p (some h) 1 k) (Showing [] [])) self.release
      (fun _ => At (HasCount p none 0 k) (Showing [h] [h])) (fun _ _ => False) := by
  refine Hoare.bind (acquireCount_counted hfaults) fun count => Hoare.of_fact ?_
  rintro rfl
  refine Hoare.bind (R := fun _ => At (HasCount p none 1 k) (Showing [h] [h]))
    (Hoare.bind (acquireCount_counted hfaults) fun count => Hoare.of_fact ?_) fun _ => ?_
  · rintro rfl
    exact lockRelease_counted hfaults hquiet
  · refine Hoare.bind (acquireCount_counted hfaults) fun count => Hoare.of_fact ?_
    rintro rfl
    exact setAcquireCount_counted hfaults

/-- An `RLock.release` with others to come. -/
theorem releaseInner_counted (hfaults : PlainFaults cfg) (self : RLock) :
    Hoare (cfg.soloTraced p c) (At (HasCount p v (n + 2) k) (Showing [] [])) self.release
      (fun _ => At (HasCount p v (n + 1) k) (Showing [] [])) (fun _ _ => False) := by
  refine Hoare.bind (acquireCount_counted hfaults) fun count => Hoare.of_fact ?_
  rintro rfl
  refine Hoare.bind (R := fun _ => At (HasCount p v (n + 2) k) (Showing [] []))
    (Hoare.bind (acquireCount_counted hfaults) fun count => Hoare.of_fact ?_) fun _ => ?_
  · rintro rfl
    have hinner : n + 2 ≠ 1 := by omega
    rw [if_neg hinner]
    exact Hoare.pure fun _ _ hW => hW
  · refine Hoare.bind (acquireCount_counted hfaults) fun count => Hoare.of_fact ?_
    rintro rfl
    exact setAcquireCount_counted hfaults

end Rules

/-! ## The six things a call can do -/

/-- What a call that starts in `w` has done when it is over. -/
inductive RLock.Does (p : ι) (w : World ι) :
    Turn → Trace ι → Except Exc (Option (Handle ι Path)) → World ι → Prop
  /-- the lock is taken -/
  | first {timeout checkInterval : Option Rat} {failWhenLocked : Option Bool} {tr : Trace ι}
      {h : Handle ι Path} {w' : World ι} (hbefore : HasCount p none 0 0 w)
      (hnew : w.serial p ≤ h.serial) (hafter : HasCount p (some h) 1 (w.serial p) w')
      (hshows : Showing [] [] tr) :
      Does p w (.acquire timeout checkInterval failWhenLocked) tr (.ok (some h)) w'
  /-- it is not -/
  | fails {timeout checkInterval : Option Rat} {failWhenLocked : Option Bool} {tr : Trace ι}
      {w' : World ι} (e : Exc) (hbefore : HasCount p none 0 0 w)
      (hafter : HasCount p none 0 (w.serial p) w') (hcloses : ClosesNew p (w.serial p) (w', tr)) :
      Does p w (.acquire timeout checkInterval failWhenLocked) tr (.error e) w'
  /-- the instance has it already -/
  | again {timeout checkInterval : Option Rat} {failWhenLocked : Option Bool} {tr : Trace ι}
      {h : Handle ι Path} {w' : World ι} (n : Nat) (hbefore : HasCount p (some h) (n + 1) 0 w)
      (hafter : HasCount p (some h) (n + 2) (w.serial p) w') (hshows : Showing [] [] tr) :
      Does p w (.acquire timeout checkInterval failWhenLocked) tr (.ok (some h)) w'
  /-- there is nothing to release -/
  | refused {tr : Trace ι} {w' : World ι} (hbefore : HasCount p none 0 0 w)
      (hafter : HasCount p none 0 (w.serial p) w') (hshows : Showing [] [] tr) :
      Does p w .release tr (.error .lockException) w'
  /-- others remain -/
  | inner {tr : Trace ι} {h : Handle ι Path} {w' : World ι} (n : Nat)
      (hbefore : HasCount p (some h) (n + 2) 0 w)
      (hafter : HasCount p (some h) (n + 1) (w.serial p) w') (hshows : Showing [] [] tr) :
      Does p w .release tr (.ok none) w'
  /-- the lock is given back -/
  | last {tr : Trace ι} {h : Handle ι Path} {w' : World ι} (hbefore : HasCount p (some h) 1 0 w)
      (hafter : HasCount p none 0 (w.serial p) w') (hshows : Showing [h] [h] tr) :
      Does p w .release tr (.ok none) w'

section Turns

variable {cfg : Config ι} {p : ι} {self : RLock} {w w' : World ι} {turn : Turn} {tr : Trace ι}
  {outcome : Except Exc (Option (Handle ι Path))}

/-- A call on an instance whose handle and count agree does one of these. -/
theorem RLock.turn_does (hfaults : PlainFaults cfg) (hquiet : self.raiseOnReleaseError = false)
    (hw : w.Wf) (hagree : w.fh p = none ↔ w.acquireCount p = 0)
    (hrun : (cfg.solo p turn.call).Executes (self.turn turn).run w tr outcome w') :
    w'.Wf ∧ RLock.Does p w turn tr outcome w' := by
  have hshows : Showing ([] : List (Handle ι Path)) [] [] := ⟨rfl, rfl⟩
  cases hcount : w.acquireCount p with
  | zero =>
      have hfh : w.fh p = none := hagree.2 hcount
      have hbefore : HasCount p none 0 0 w := ⟨hfh, hcount, Nat.zero_le _⟩
      have hstart : HasCount p none 0 (w.serial p) w := ⟨hfh, hcount, Nat.le_refl _⟩
      cases turn with
      | acquire timeout checkInterval failWhenLocked =>
          have hworld : (cfg.soloTraced p (.acquire timeout checkInterval failWhenLocked)).Stable
              fun W : World ι × Trace ι => HasCount p none 0 (w.serial p) W.1 :=
            Context.stable_world (P := HasCount p none 0 (w.serial p))
          have htriple := Hoare.bind (acquireFirst_counted
            (c := .acquire timeout checkInterval failWhenLocked) (p := p) (k := w.serial p) hfaults
            self timeout checkInterval failWhenLocked) fun h =>
              Hoare.pure (Q := fun v W => ∃ h, v = some h ∧ w.serial p ≤ h.serial ∧
                At (HasCount p (some h) 1 (w.serial p)) (Showing [] []) W)
                (a := some h) fun W _ hW => ⟨h, rfl, hW⟩
          obtain ⟨hw', hends⟩ := htriple.executes hw ⟨hstart, hshows⟩ hrun
          refine ⟨hw', ?_⟩
          cases outcome with
          | ok v =>
              obtain ⟨h, rfl, hnew, hafter, hshown⟩ := hends
              exact .first hbefore hnew hafter hshown
          | error e => exact .fails e hbefore hends.1 hends.2
      | release =>
          have htriple := Hoare.bind (releaseNone_counted (c := .release) (p := p) (v := none)
            (k := w.serial p) hfaults self) fun _ =>
              Hoare.pure (Q := fun (_ : Option (Handle ι Path)) _ => False) (a := none)
                fun _ _ hfalse => hfalse
          obtain ⟨hw', hends⟩ := htriple.executes hw ⟨hstart, hshows⟩ hrun
          refine ⟨hw', ?_⟩
          cases outcome with
          | ok v => exact hends.elim
          | error e =>
              obtain ⟨rfl, hafter, hshown⟩ := hends
              exact .refused hbefore hafter hshown
  | succ n =>
      obtain ⟨h, hfh⟩ : ∃ h, w.fh p = some h := by
        refine Option.ne_none_iff_exists'.1 fun hnone => ?_
        rw [hagree.1 hnone] at hcount
        cases hcount
      have hstart : HasCount p (some h) (n + 1) (w.serial p) w := ⟨hfh, hcount, Nat.le_refl _⟩
      have hbefore : HasCount p (some h) (n + 1) 0 w := ⟨hfh, hcount, Nat.zero_le _⟩
      cases turn with
      | acquire timeout checkInterval failWhenLocked =>
          have htriple := Hoare.bind (acquireAgain_counted
            (c := .acquire timeout checkInterval failWhenLocked) (p := p) (h := h) (n := n)
            (k := w.serial p) hfaults self timeout checkInterval failWhenLocked) fun g =>
              Hoare.pure (Q := fun v W => v = some h ∧
                At (HasCount p (some h) (n + 2) (w.serial p)) (Showing [] []) W)
                (a := some g) fun W _ hW => ⟨congrArg some hW.1, hW.2⟩
          obtain ⟨hw', hends⟩ := htriple.executes hw ⟨hstart, hshows⟩ hrun
          refine ⟨hw', ?_⟩
          cases outcome with
          | ok v =>
              obtain ⟨rfl, hafter, hshown⟩ := hends
              exact .again n hbefore hafter hshown
          | error e => exact hends.elim
      | release =>
          cases n with
          | zero =>
              have htriple := Hoare.bind (releaseLast_counted (c := .release) (p := p) (h := h)
                (k := w.serial p) hfaults hquiet) fun _ =>
                  Hoare.pure (Q := fun v W => v = none ∧
                    At (HasCount p none 0 (w.serial p)) (Showing [h] [h]) W)
                    (a := (none : Option (Handle ι Path))) fun W _ hW => ⟨rfl, hW⟩
              obtain ⟨hw', hends⟩ := htriple.executes hw ⟨hstart, hshows⟩ hrun
              refine ⟨hw', ?_⟩
              cases outcome with
              | ok v =>
                  obtain ⟨rfl, hafter, hshown⟩ := hends
                  exact .last hbefore hafter hshown
              | error e => exact hends.elim
          | succ n =>
              have htriple := Hoare.bind (releaseInner_counted (c := .release) (p := p)
                (v := some h) (n := n) (k := w.serial p) hfaults self) fun _ =>
                  Hoare.pure (Q := fun v W => v = none ∧
                    At (HasCount p (some h) (n + 1) (w.serial p)) (Showing [] []) W)
                    (a := (none : Option (Handle ι Path))) fun W _ hW => ⟨rfl, hW⟩
              obtain ⟨hw', hends⟩ := htriple.executes hw ⟨hstart, hshows⟩ hrun
              refine ⟨hw', ?_⟩
              cases outcome with
              | ok v =>
                  obtain ⟨rfl, hafter, hshown⟩ := hends
                  exact .inner n hbefore hafter hshown
              | error e => exact hends.elim

end Turns

/-! ## Sequences of calls -/

section Logs

variable {done : List (PastCall ι)} {t : PastCall ι}

theorem acquires_append : acquires (done ++ [t]) =
    acquires done + (if t.acquired then 1 else 0) := by
  simp [acquires, List.countP_append, List.countP_singleton]

theorem releases_append : releases (done ++ [t]) =
    releases done + (if t.released then 1 else 0) := by
  simp [releases, List.countP_append, List.countP_singleton]

theorem logOf_append : logOf (done ++ [t]) = logOf done ++ t.trace := by
  simp [logOf]

theorem returnedBy_append : returnedBy (done ++ [t]) = returnedBy done ++ (match t.outcome with
    | .ok v => v
    | .error _ => none).toList := by
  simp only [returnedBy, List.filterMap_append, List.append_cancel_left_eq]
  split <;> rename_i v heq
  · cases v <;> simp [heq]
  · simp [heq]

end Logs

/-- What every sequence of calls keeps. -/
structure RLock.Balanced (p : ι) (done : List (PastCall ι)) (w : World ι) : Prop where
  wf : w.Wf
  count : w.acquireCount p + releases done = acquires done
  agree : w.fh p = none ↔ w.acquireCount p = 0
  held : ∀ h, w.fh p = some h → h ∈ returnedBy done
  returned : ∀ h ∈ returnedBy done, h.serial < w.serial p
  logged : ∀ h, h ∈ unlocksOf (logOf done) ∨ h ∈ closesOf (logOf done) → h.serial < w.serial p
  once : ∀ h ∈ returnedBy done,
    (unlocksOf (logOf done)).count h = (if w.fh p = some h then 0 else 1) ∧
      (closesOf (logOf done)).count h = (if w.fh p = some h then 0 else 1)

section Balance

variable {cfg : Config ι} {p : ι} {self : RLock} {w₀ w w' : World ι} {done : List (PastCall ι)}
  {turn : Turn} {tr : Trace ι} {outcome : Except Exc (Option (Handle ι Path))}

/-- A call that returns no new handle and tries to unlock and close none. -/
theorem RLock.Balanced.quiet {done' : List (PastCall ι)} (hb : RLock.Balanced p done w)
    (hw' : w'.Wf) (hcount : w'.acquireCount p + releases done' = acquires done')
    (hagree : w'.fh p = none ↔ w'.acquireCount p = 0) (hfh : w'.fh p = w.fh p)
    (hserial : w.serial p ≤ w'.serial p) (hlog : logOf done' = logOf done ++ tr)
    (hshows : Showing [] [] tr) (hreturned : ∀ h, h ∈ returnedBy done' ↔ h ∈ returnedBy done) :
    RLock.Balanced p done' w' where
  wf := hw'
  count := hcount
  agree := hagree
  held h hh := (hreturned h).2 (hb.held h (by rwa [hfh] at hh))
  returned h hh := Nat.lt_of_lt_of_le (hb.returned h ((hreturned h).1 hh)) hserial
  logged h hh := by
    rw [hlog, unlocksOf_append, closesOf_append, hshows.1, hshows.2, List.append_nil,
      List.append_nil] at hh
    exact Nat.lt_of_lt_of_le (hb.logged h hh) hserial
  once h hh := by
    rw [hlog, unlocksOf_append, closesOf_append, hshows.1, hshows.2, List.append_nil,
      List.append_nil, hfh]
    exact hb.once h ((hreturned h).1 hh)

/-- One more call. -/
theorem RLock.Balanced.step (hb : RLock.Balanced p done w) (hw' : w'.Wf)
    (hdoes : RLock.Does p w turn tr outcome w') :
    RLock.Balanced p (done ++ [⟨turn, w, tr, outcome, w'⟩]) w' := by
  have hcount := hb.count
  cases hdoes with
  | @first timeout checkInterval failWhenLocked _ h _ hbefore hnew hafter hshows =>
      obtain ⟨hfh, hzero, -⟩ := hbefore
      obtain ⟨hfh', hone, hserial⟩ := hafter
      rw [hzero] at hcount
      have hlt : h.serial < w'.serial p := hw'.fh_serial hfh'
      have hold : ∀ g, g.serial < w.serial p → g ≠ h := by
        rintro g hg rfl
        omega
      have hmem : ∀ g, g ∈ returnedBy (done ++ [⟨.acquire timeout checkInterval failWhenLocked, w,
          tr, .ok (some h), w'⟩]) ↔ g ∈ returnedBy done ∨ g = h := by
        intro g
        rw [returnedBy_append]
        simp
      refine ⟨hw', ?_, ?_, ?_, ?_, ?_, ?_⟩
      · rw [acquires_append, releases_append, hone]
        simp only [PastCall.acquired, PastCall.released, if_true, Bool.false_eq_true, if_false]
        omega
      · rw [hfh', hone]
        simp
      · intro g hg
        rw [hfh'] at hg
        exact (hmem g).2 (Or.inr (Option.some.inj hg).symm)
      · intro g hg
        rcases (hmem g).1 hg with hg | rfl
        · exact Nat.lt_of_lt_of_le (hb.returned g hg) hserial
        · exact hlt
      · intro g hg
        rw [logOf_append, unlocksOf_append, closesOf_append, hshows.1, hshows.2, List.append_nil,
          List.append_nil] at hg
        exact Nat.lt_of_lt_of_le (hb.logged g hg) hserial
      · intro g hg
        rw [logOf_append, unlocksOf_append, closesOf_append, hshows.1, hshows.2, List.append_nil,
          List.append_nil, hfh']
        rcases (hmem g).1 hg with hg | rfl
        · have hne : some h ≠ some g := fun heq => hold g (hb.returned g hg) (Option.some.inj heq).symm
          have honce := hb.once g hg
          rw [hfh] at honce
          simpa [hne] using honce
        · have hunlocks : g ∉ unlocksOf (logOf done) := fun hmem =>
            hold g (hb.logged g (Or.inl hmem)) rfl
          have hcloses : g ∉ closesOf (logOf done) := fun hmem =>
            hold g (hb.logged g (Or.inr hmem)) rfl
          simp [List.count_eq_zero.2 hunlocks, List.count_eq_zero.2 hcloses]
  | @fails timeout checkInterval failWhenLocked _ _ e hbefore hafter hcloses =>
      obtain ⟨hfh, hzero, -⟩ := hbefore
      obtain ⟨hfh', hzero', hserial⟩ := hafter
      obtain ⟨hunlocks, hnew⟩ := hcloses
      dsimp only at hunlocks hnew
      have hreturned : returnedBy (done ++ [⟨.acquire timeout checkInterval failWhenLocked, w, tr,
          .error e, w'⟩]) = returnedBy done := by
        rw [returnedBy_append]
        simp
      refine ⟨hw', ?_, ?_, ?_, ?_, ?_, ?_⟩
      · rw [hzero] at hcount
        rw [acquires_append, releases_append, hzero']
        simpa [PastCall.acquired, PastCall.released] using hcount
      · simp [hfh', hzero']
      · intro g hg
        rw [hfh'] at hg
        cases hg
      · intro g hg
        rw [hreturned] at hg
        exact Nat.lt_of_lt_of_le (hb.returned g hg) hserial
      · intro g hg
        rw [logOf_append, unlocksOf_append, closesOf_append, hunlocks, List.append_nil,
          List.mem_append, ← or_assoc] at hg
        rcases hg with hg | hg
        · exact Nat.lt_of_lt_of_le (hb.logged g hg) hserial
        · exact (hnew g hg).2
      · intro g hg
        rw [hreturned] at hg
        have honce := hb.once g hg
        have hnot : g ∉ closesOf tr := fun hmem => by
          have := (hnew g hmem).1
          have := hb.returned g hg
          omega
        rw [logOf_append, unlocksOf_append, closesOf_append, hunlocks, List.append_nil,
          List.count_append, List.count_eq_zero.2 hnot, Nat.add_zero, hfh', ← hfh]
        exact honce
  | @again _ _ _ _ h _ n hbefore hafter hshows =>
      obtain ⟨hfh, hn, -⟩ := hbefore
      obtain ⟨hfh', hn', hserial⟩ := hafter
      rw [hn] at hcount
      refine hb.quiet hw' ?_ ?_ (hfh'.trans hfh.symm) hserial logOf_append hshows fun g => ?_
      · rw [acquires_append, releases_append, hn']
        simp only [PastCall.acquired, PastCall.released, if_true, Bool.false_eq_true, if_false]
        omega
      · simp [hfh', hn']
      · rw [returnedBy_append]
        simp only [Option.toList_some, List.mem_append, List.mem_singleton, or_iff_left_iff_imp]
        rintro rfl
        exact hb.held _ hfh
  | @refused _ _ hbefore hafter hshows =>
      obtain ⟨hfh, hzero, -⟩ := hbefore
      obtain ⟨hfh', hzero', hserial⟩ := hafter
      refine hb.quiet hw' ?_ ?_ (hfh'.trans hfh.symm) hserial logOf_append hshows fun g => ?_
      · rw [hzero] at hcount
        rw [acquires_append, releases_append, hzero']
        simpa [PastCall.acquired, PastCall.released] using hcount
      · simp [hfh', hzero']
      · rw [returnedBy_append]
        simp
  | @inner _ h _ n hbefore hafter hshows =>
      obtain ⟨hfh, hn, -⟩ := hbefore
      obtain ⟨hfh', hn', hserial⟩ := hafter
      rw [hn] at hcount
      refine hb.quiet hw' ?_ ?_ (hfh'.trans hfh.symm) hserial logOf_append hshows fun g => ?_
      · rw [acquires_append, releases_append, hn']
        simp only [PastCall.acquired, PastCall.released, if_true, Bool.false_eq_true, if_false]
        omega
      · simp [hfh', hn']
      · rw [returnedBy_append]
        simp
  | @last _ h _ hbefore hafter hshows =>
      obtain ⟨hfh, hone, -⟩ := hbefore
      obtain ⟨hfh', hzero, hserial⟩ := hafter
      rw [hone] at hcount
      have hheld := hb.held h hfh
      have hreturned : returnedBy (done ++ [⟨.release, w, tr, .ok none, w'⟩]) =
          returnedBy done := by
        rw [returnedBy_append]
        simp
      refine ⟨hw', ?_, ?_, ?_, ?_, ?_, ?_⟩
      · rw [acquires_append, releases_append, hzero]
        simp only [PastCall.acquired, PastCall.released, if_true, Bool.false_eq_true, if_false]
        omega
      · simp [hfh', hzero]
      · intro g hg
        rw [hfh'] at hg
        cases hg
      · intro g hg
        rw [hreturned] at hg
        exact Nat.lt_of_lt_of_le (hb.returned g hg) hserial
      · intro g hg
        rw [logOf_append, unlocksOf_append, closesOf_append, hshows.1, hshows.2, List.mem_append,
          List.mem_append, List.mem_singleton] at hg
        have hold : g.serial < w.serial p := by
          rcases hg with (hg | rfl) | (hg | rfl)
          · exact hb.logged g (Or.inl hg)
          · exact hb.returned g hheld
          · exact hb.logged g (Or.inr hg)
          · exact hb.returned g hheld
        exact Nat.lt_of_lt_of_le hold hserial
      · intro g hg
        rw [hreturned] at hg
        have honce := hb.once g hg
        rw [hfh] at honce
        rw [logOf_append, unlocksOf_append, closesOf_append, hshows.1, hshows.2,
          List.count_append, List.count_append, hfh']
        by_cases hgh : h = g
        · subst hgh
          simpa using honce
        · have hne : some h ≠ some g := fun heq => hgh (Option.some.inj heq)
          simpa [hne, List.count_singleton, hgh] using honce

/-- Every sequence of calls on a fresh instance keeps the balance. -/
theorem RLock.Session.balanced (hfaults : PlainFaults cfg)
    (hquiet : self.raiseOnReleaseError = false) (hw : w₀.Wf) (hfree : w₀.fh p = none)
    (hfresh : w₀.acquireCount p = 0) (hs : RLock.Session cfg p self w₀ done w) :
    RLock.Balanced p done w := by
  induction hs with
  | start =>
      refine ⟨hw, by simp [hfresh, releases, acquires], by simp [hfree, hfresh], ?_, ?_, ?_, ?_⟩
      · intro h hh
        rw [hfree] at hh
        cases hh
      · intro h hh
        cases hh
      · rintro h (hh | hh) <;> cases hh
      · intro h hh
        cases hh
  | turn hs hrun ih =>
      obtain ⟨hw', hdoes⟩ := RLock.turn_does hfaults hquiet ih.wf ih.agree hrun
      exact ih.step hw' hdoes

end Balance

/-! ## What the caller sees -/

/-- A call after the calls in `earlier`: `acquire` fails only on a lock that is not held,
and changes nothing then; `release` fails exactly on such a lock, with a `LockException`
and changing nothing; unlock and close are attempted once each, in the release that
balances the calls. -/
def RLock.CountsRight (p : ι) (earlier : List (PastCall ι)) (t : PastCall ι) : Prop :=
  match t.turn with
  | .acquire _ _ _ =>
      (∀ e, t.outcome = .error e → acquires earlier = releases earlier ∧
        t.after.fh p = t.before.fh p ∧ t.after.acquireCount p = t.before.acquireCount p) ∧
      ∀ v, t.outcome = .ok v → Showing [] [] t.trace ∧ ∃ h, v = some h ∧ t.after.fh p = some h ∧
        (releases earlier < acquires earlier → t.before.fh p = some h)
  | .release =>
      ((∃ e, t.outcome = .error e) ↔ acquires earlier = releases earlier) ∧
      (∀ e, t.outcome = .error e → e = .lockException ∧ Showing [] [] t.trace ∧
        t.after.fh p = t.before.fh p ∧ t.after.acquireCount p = t.before.acquireCount p) ∧
      ∀ v, t.outcome = .ok v →
        if acquires earlier = releases earlier + 1 then
          ∃ h, t.before.fh p = some h ∧ Showing [h] [h] t.trace ∧ t.after.fh p = none
        else Showing [] [] t.trace ∧ t.after.fh p = t.before.fh p

theorem RLock.Does.countsRight {p : ι} {w w' : World ι} {done : List (PastCall ι)} {turn : Turn}
    {tr : Trace ι} {outcome : Except Exc (Option (Handle ι Path))}
    (hcount : w.acquireCount p + releases done = acquires done)
    (hdoes : RLock.Does p w turn tr outcome w') :
    RLock.CountsRight p done ⟨turn, w, tr, outcome, w'⟩ := by
  cases hdoes with
  | first hbefore hnew hafter hshows =>
      obtain ⟨-, hzero, -⟩ := hbefore
      refine ⟨fun e he => (by cases he), fun v hv => ⟨hshows, _, (Except.ok.inj hv).symm, hafter.1,
        fun hlt => ?_⟩⟩
      omega
  | fails e hbefore hafter hcloses =>
      obtain ⟨hfh, hzero, -⟩ := hbefore
      exact ⟨fun _ _ => ⟨by omega, hafter.1.trans hfh.symm, hafter.2.1.trans hzero.symm⟩,
        fun v hv => (by cases hv)⟩
  | again n hbefore hafter hshows =>
      exact ⟨fun e he => (by cases he), fun v hv => ⟨hshows, _, (Except.ok.inj hv).symm, hafter.1,
        fun _ => hbefore.1⟩⟩
  | refused hbefore hafter hshows =>
      obtain ⟨hfh, hzero, -⟩ := hbefore
      refine ⟨⟨fun _ => by omega, fun _ => ⟨_, rfl⟩⟩, fun e he => ?_, fun v hv => (by cases hv)⟩
      exact ⟨(Except.error.inj he).symm, hshows, hafter.1.trans hfh.symm,
        hafter.2.1.trans hzero.symm⟩
  | inner n hbefore hafter hshows =>
      obtain ⟨hfh, hn, -⟩ := hbefore
      refine ⟨⟨fun ⟨e, he⟩ => (by cases he), fun heq => ?_⟩, fun e he => (by cases he),
        fun v _ => ?_⟩
      · omega
      · rw [if_neg (by omega)]
        exact ⟨hshows, hafter.1.trans hfh.symm⟩
  | last hbefore hafter hshows =>
      obtain ⟨hfh, hone, -⟩ := hbefore
      refine ⟨⟨fun ⟨e, he⟩ => (by cases he), fun heq => ?_⟩, fun e he => (by cases he),
        fun v _ => ?_⟩
      · omega
      · rw [if_pos (by omega)]
        exact ⟨_, hfh, hshows, hafter.1⟩

/-- The calls of a session, one by one. -/
theorem RLock.Session.countsRight {cfg : Config ι} {p : ι} {self : RLock} {w₀ w : World ι}
    {done : List (PastCall ι)} (hfaults : PlainFaults cfg)
    (hquiet : self.raiseOnReleaseError = false) (hw : w₀.Wf) (hfree : w₀.fh p = none)
    (hfresh : w₀.acquireCount p = 0) (hs : RLock.Session cfg p self w₀ done w)
    {earlier later : List (PastCall ι)} {t : PastCall ι} (heq : done = earlier ++ t :: later) :
    RLock.CountsRight p earlier t := by
  induction hs generalizing later with
  | start => cases earlier <;> cases heq
  | turn hs hrun ih =>
      rcases List.eq_nil_or_concat later with rfl | ⟨rest, last, rfl⟩
      · obtain ⟨rfl, hlist⟩ := List.append_inj' heq rfl
        obtain rfl := List.head_eq_of_cons_eq hlist
        have hb := hs.balanced hfaults hquiet hw hfree hfresh
        obtain ⟨-, hdoes⟩ := RLock.turn_does hfaults hquiet hb.wf hb.agree hrun
        exact hdoes.countsRight hb.count
      · have hconcat : ∀ {calls : List (PastCall ι)} {call : PastCall ι},
            calls ++ [call] = earlier ++ t :: rest.concat last → calls = earlier ++ t :: rest := by
          intro calls call heq
          rw [List.concat_eq_append, ← List.cons_append, ← List.append_assoc] at heq
          exact (List.append_inj' heq rfl).1
        exact ih (hconcat heq)

/-- The count of an `RLock`, over any sequence of calls: it has a handle exactly while more
calls of `acquire` than of `release` have succeeded; every call counts right; and a handle
that was returned has been unlocked and closed exactly once unless it is still held. -/
theorem rLock_counts {cfg : Config ι} {p : ι} (hfaults : PlainFaults cfg) (filename : Path)
    (mode : List Char) (timeout checkInterval : Rat) (failWhenLocked : Bool) (flags : LockFlags)
    {w₀ w : World ι} {done : List (PastCall ι)} (hw : w₀.Wf) (hfree : w₀.fh p = none)
    (hfresh : w₀.acquireCount p = 0)
    (hs : (RLock.init filename mode timeout checkInterval failWhenLocked flags).Session cfg p
      w₀ done w) :
    (releases done ≤ acquires done ∧
      ((∃ h, w.fh p = some h) ↔ releases done < acquires done)) ∧
    (∀ earlier t later, done = earlier ++ t :: later → RLock.CountsRight p earlier t) ∧
    ∀ h ∈ returnedBy done,
      (unlocksOf (logOf done)).count h = (if w.fh p = some h then 0 else 1) ∧
        (closesOf (logOf done)).count h = (if w.fh p = some h then 0 else 1) := by
  have hb := hs.balanced hfaults rfl hw hfree hfresh
  have hcount := hb.count
  refine ⟨⟨by omega, ?_⟩, fun earlier t later heq => hs.countsRight hfaults rfl hw hfree hfresh heq,
    hb.once⟩
  rw [← Option.ne_none_iff_exists', ne_eq, hb.agree]
  omega

/-- A file system on which unlocking may fail. -/
def sticky : Config Unit where
  object _ := .rLock (RLock.init ['f'] ['a'] 0 0 false .lockMethod)
  mayRaise _ o e := match o with
    | .unlock _ => e.isException
    | _ => false

theorem sticky_faults : PlainFaults sticky := by
  intro c o e he
  cases o with
  | unlock => exact ⟨he, trivial⟩
  | _ => cases he

namespace sticky

/-- The lock. -/
def lock : RLock := RLock.init ['f'] ['a'] 0 0 false .lockMethod

/-- Calls with these choices, after the ones that are done. -/
def turns (done : List (PastCall Unit)) (w : World Unit) :
    List (Turn × List Choice) → Option (List (PastCall Unit) × World Unit)
  | [] => some (done, w)
  | (turn, choices) :: rest =>
      (Program.play (fun choice w o => sticky.performOp choice () turn.call w o) choices
        (lock.turn turn : Py Unit _).run w).bind fun r =>
          turns (done ++ [⟨turn, w, r.1, r.2.1, r.2.2⟩]) r.2.2 rest

theorem turns_session {script : List (Turn × List Choice)} {done done' : List (PastCall Unit)}
    {w w' : World Unit} (hs : lock.Session sticky () World.empty done w)
    (h : turns done w script = some (done', w')) :
    lock.Session sticky () World.empty done' w' := by
  induction script generalizing done w with
  | nil =>
      simp only [turns, Option.some.injEq, Prod.mk.injEq] at h
      obtain ⟨rfl, rfl⟩ := h
      exact hs
  | cons call rest ih =>
      obtain ⟨⟨tr, outcome, w₁⟩, hplay, hrest⟩ := Option.bind_eq_some_iff.1 h
      have hrun := Context.Executes.of_play (C := sticky.solo () call.1.call)
        (fun {choice _ _ _ _} h => ⟨choice, h⟩) hplay
      exact ih (hs.turn hrun) hrest

/-- The lock is taken twice and released twice, where the system call that unlocks it fails,
and then once more. -/
def script : List (Turn × List Choice) :=
  [(.acquire none none none, [{}, {}, { ino := 1 }, {}, {}, {}, {}]),
    (.acquire none none none, [{}, {}, {}, {}]), (.release, [{}, {}, {}, {}]),
    (.release, [{}, {}, {}, { fault := some (.osError .EACCES) }, {}, {}, {}, {}]),
    (.release, [{}])]

/-- The handle of both acquires. -/
def handle : Handle Unit Path := ⟨(), 0, ['f'], 1⟩

end sticky

/-- The second acquire returns the handle of the first, and of three releases the second
unlocks and closes it. -/
theorem rLock_counts_run :
    ∃ (done : List (PastCall Unit)) (w : World Unit),
      sticky.lock.Session sticky () World.empty done w ∧
      done.map PastCall.outcome = [.ok (some sticky.handle), .ok (some sticky.handle), .ok none,
        .ok none, .error .lockException] ∧
      (∀ earlier t later, done = earlier ++ t :: later → RLock.CountsRight () earlier t) ∧
      (unlocksOf (logOf done)).count sticky.handle = 1 ∧
      (closesOf (logOf done)).count sticky.handle = 1 := by
  have hplayed : (sticky.turns [] World.empty sticky.script).map (fun r =>
      (r.1.map PastCall.outcome, r.2.fh (), returnedBy r.1)) =
      some ([.ok (some sticky.handle), .ok (some sticky.handle), .ok none, .ok none,
        .error .lockException], none, [sticky.handle, sticky.handle]) := by rfl
  obtain ⟨⟨done, w⟩, hplay, hobserved⟩ := Option.map_eq_some_iff.1 hplayed
  obtain ⟨houtcomes, hobserved⟩ := Prod.mk.inj hobserved
  obtain ⟨hfh, hreturned⟩ := Prod.mk.inj hobserved
  dsimp only at houtcomes hfh hreturned
  have hsession := sticky.turns_session .start hplay
  obtain ⟨-, hright, honce⟩ := rLock_counts sticky_faults ['f'] ['a'] 0 0 false .lockMethod
    World.empty_wf rfl rfl hsession
  have hcounts := honce sticky.handle (by simp [hreturned])
  rw [hfh] at hcounts
  exact ⟨done, w, hsession, houtcomes, hright, hcounts⟩

end Portalocker
