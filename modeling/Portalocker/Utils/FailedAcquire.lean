import Mathlib.Data.List.Induction
import Portalocker.Utils.VerifiedAcquire
set_option autoImplicit false
set_option linter.unusedSectionVars false

/-!
# What a failed `acquire` leaves behind

`Lock.acquire` and `TemporaryFileLock.acquire` on an instance without a handle, with any
exception raised at any step.  A call that fails has closed what it opened unless one of
the steps raises that no handler guards while the file is open: the steps of
`_prepare_fh`, the clock between two attempts, and the two look-ups of the inode
comparison when they raise anything but `FileNotFoundError`.  The comparison belongs to the
code for POSIX, which this is about; for Windows `_acquire_verified` makes none.
-/

namespace Portalocker

open Posix Interleaving World Contract

variable {ι : Type} [DecidableEq ι]

/-! ## The condition -/

/-- None of the unguarded steps raises while a file the call has opened is still open. -/
def Guarded (tr : Trace ι) : Prop :=
  ∀ before entry after, tr = before ++ entry :: after → exposing entry = true →
    (accountOf before).1 = []

/-- Nothing is left of the call: the instance has no handle, and every file the call has
opened has been closed by it and is neither open nor locked any more. -/
def HoldsNothing (p : ι) (tr : Trace ι) (w : World ι) : Prop :=
  w.fh p = none ∧ (accountOf tr).1 = [] ∧
    ∀ h, .ok h ∈ opensOf tr → h ∈ closesOf tr ∧ h ∉ w.opened ∧ w.lock h = none

section Account

variable {tr : Trace ι} {entry : TraceEntry ι}

/-- An unguarded step opens and closes nothing. -/
theorem exposing_quiet (h : exposing entry = true) :
    opening entry = none ∧ closing entry = none := by
  obtain ⟨w, o, answer, w'⟩ := entry
  cases o with
  | openFile path kind => simp [exposing] at h
  | close k => simp [exposing] at h
  | _ => exact ⟨rfl, rfl⟩

/-- The account says whether an unguarded step has raised at a bad moment. -/
theorem account_exposed (entry : TraceEntry ι) :
    (accountOf (tr ++ [entry])).2 = true ↔
      (accountOf tr).2 = true ∨ (exposing entry = true ∧ (accountOf tr).1 ≠ []) := by
  rw [accountOf_append]
  cases he : exposing entry with
  | true =>
      obtain ⟨hopen, hclose⟩ := exposing_quiet he
      cases hpending : (accountOf tr).1 <;> simp [account, hopen, hclose, he, hpending]
  | false =>
      cases hopen : opening entry with
      | none => cases hclose : closing entry <;> simp [account, hopen, hclose, he]
      | some r => cases r <;> cases hclose : closing entry <;> simp [account, hopen, hclose, he]

theorem guarded_iff : Guarded tr ↔ (accountOf tr).2 = false := by
  induction tr using List.reverseRecOn with
  | nil =>
      refine ⟨fun _ => rfl, fun _ before entry after heq => ?_⟩
      cases before <;> cases heq
  | append_singleton tr entry ih =>
      rw [← Bool.not_eq_true, account_exposed, not_or, Bool.not_eq_true, ← ih]
      constructor
      · intro hguarded
        refine ⟨fun before e after heq he => hguarded before e (after ++ [entry]) (by simp [heq]) he, ?_⟩
        rintro ⟨he, hpending⟩
        exact hpending (hguarded tr entry [] rfl he)
      · rintro ⟨hguarded, hlast⟩ before e after heq he
        rcases List.eq_nil_or_concat after with rfl | ⟨rest, last, rfl⟩
        · obtain ⟨rfl, hlist⟩ := List.append_inj' heq rfl
          obtain rfl : entry = e := List.head_eq_of_cons_eq hlist
          exact Classical.byContradiction fun hpending => hlast ⟨he, hpending⟩
        · have hconcat : tr ++ [entry] = (before ++ e :: rest) ++ [last] := by simp [heq]
          obtain ⟨rfl, -⟩ := List.append_inj' hconcat rfl
          exact hguarded before e rest rfl he

end Account

/-! ## The two calls -/

section Calls

variable {cfg : Config ι} {p : ι} {c : Call} {w w' : World ι} {tr : Trace ι}

/-- A call that has opened nothing yet. -/
theorem emptyHanded_start (hfree : w.fh p = none) : EmptyHanded p (w, ([] : Trace ι)) := by
  refine ⟨hfree, rfl, fun g hg => ?_, fun attempt hattempt => ?_⟩
  · cases hg
  · cases hattempt

theorem EmptyHanded.holdsNothing (hw : w.Wf) (h : EmptyHanded p (w, tr)) : HoldsNothing p tr w := by
  obtain ⟨hfh, haccount, hall, -⟩ := h
  refine ⟨hfh, congrArg Prod.fst haccount, fun g hg => ?_⟩
  obtain ⟨⟨-, -, hclosed⟩, -, hcloses⟩ := (hall g hg).resolve_left id
  exact ⟨hcloses, hclosed, hw.fs.lock_open hclosed⟩

/-- How a call that starts without a handle fails decides what it leaves behind. -/
theorem Fails.holdsNothing_iff {e : Exc} (hw : w.Wf) (h : Fails cfg c p e (w, tr)) :
    HoldsNothing p tr w ↔ Guarded tr := by
  rw [guarded_iff]
  rcases h with hempty | ⟨⟨hpending, hexposed⟩, -⟩
  · refine ⟨fun _ => congrArg Prod.snd hempty.2.1, fun _ => hempty.holdsNothing hw⟩
  · dsimp only at hpending hexposed
    refine ⟨fun hnothing => absurd hnothing.2.1 hpending, fun hguarded => ?_⟩
    rw [hexposed] at hguarded
    cases hguarded

end Calls

/-- A call on an instance without a handle that raises leaves nothing behind exactly when
none of the unguarded steps has raised while a file was open. -/
theorem failed_acquire_holds_nothing_iff {cfg : Config ι} {p : ι} {c : Call}
    (hfaults : PlainFaults cfg) (timeout checkInterval : Option Rat) (failWhenLocked : Option Bool)
    {w w' : World ι} {tr : Trace ι} {e : Exc} (hw : w.Wf) (hfree : w.fh p = none) :
    (∀ (self : Lock) (mode : List Char),
      (cfg.solo p c).Executes ((self.init mode).acquire timeout checkInterval failWhenLocked).run
        w tr (.error e) w' → (HoldsNothing p tr w' ↔ Guarded tr)) ∧
    ∀ self : TemporaryFileLock,
      (cfg.solo p c).Executes (self.acquire timeout checkInterval failWhenLocked).run
        w tr (.error e) w' → (HoldsNothing p tr w' ↔ Guarded tr) := by
  constructor
  · intro self mode hrun
    obtain ⟨hw', hfails⟩ := (acquire_accounted hfaults (self.init mode) timeout checkInterval
      failWhenLocked).executes hw (emptyHanded_start hfree) hrun
    exact Fails.holdsNothing_iff hw' hfails
  · intro self hrun
    obtain ⟨hw', hfails⟩ := (temporaryAcquire_accounted hfaults self timeout checkInterval
      failWhenLocked).executes hw (emptyHanded_start hfree) hrun
    exact Fails.holdsNothing_iff hw' hfails

/-- A file system on which emptying a file and looking up a path may fail. -/
def ailing : Config Unit where
  object _ := .temporaryFileLock { filename := ['f'] }
  mayRaise _ o e := match o with
    | .truncate _ | .stat _ => e.isException
    | _ => false

theorem ailing_faults : PlainFaults ailing := by
  intro c o e he
  cases o with
  | truncate | stat => exact ⟨he, trivial⟩
  | _ => cases he

namespace ailing

/-- The file is locked, and `truncate` fails. -/
def truncateFails : List Choice :=
  [{}, { ino := 1 }, {}, {}, { fault := some (.osError (.other 5)) }, {}]

/-- The file is locked and stored, and `stat` of the path fails. -/
def statFails : List Choice :=
  [{}, { ino := 1 }, {}, {}, {}, {}, {}, { fault := some (.osError .EACCES) }]

end ailing

theorem failed_acquire_holds_nothing_iff_run :
    ∃ (tr : Trace Unit) (w' : World Unit),
      (ailing.solo () (.acquire none none none)).Executes
        (Lock.acquire (Lock.init { filename := ['f'] } ['w']) none none none : Py Unit _).run
        World.empty tr (.error (.osError (.other 5))) w' ∧
      (HoldsNothing () tr w' ↔ Guarded tr) := by
  have hplayed : (Program.play
      (fun choice w o => ailing.performOp choice () (.acquire none none none) w o)
      ailing.truncateFails
      (Lock.acquire (Lock.init { filename := ['f'] } ['w']) none none none : Py Unit _).run
      World.empty).map (fun r => r.2.1) = some (.error (.osError (.other 5))) := by rfl
  obtain ⟨⟨tr, outcome, w'⟩, hplay, houtcome⟩ := Option.map_eq_some_iff.1 hplayed
  have hrun := Context.Executes.of_play (C := ailing.solo () (.acquire none none none))
    (fun {choice w o r w'} h => ⟨choice, h⟩) hplay
  dsimp only at houtcome
  subst houtcome
  exact ⟨tr, w', hrun, (failed_acquire_holds_nothing_iff ailing_faults none none none
    World.empty_wf rfl).1 _ _ hrun⟩

/-- Calls that fail and keep a file: `truncate` raises, and the handle stays open and
locked; `stat` raises, and the instance keeps the handle. -/
theorem failed_acquire_keeps_file :
    (¬ ∀ (self : Lock) (mode : List Char) (w w' : World Unit) (tr : Trace Unit) (e : Exc),
      w.Wf → w.fh () = none →
      (ailing.solo () (.acquire none none none)).Executes
        ((self.init mode).acquire none none none).run w tr (.error e) w' →
      HoldsNothing () tr w') ∧
    ¬ ∀ (self : TemporaryFileLock) (w w' : World Unit) (tr : Trace Unit) (e : Exc),
      w.Wf → w.fh () = none →
      (ailing.solo () (.acquire none none none)).Executes (self.acquire none none none).run
        w tr (.error e) w' →
      HoldsNothing () tr w' := by
  constructor
  · intro hclaim
    have hplayed : (Program.play
        (fun choice w o => ailing.performOp choice () (.acquire none none none) w o)
        ailing.truncateFails
        (Lock.acquire (Lock.init { filename := ['f'] } ['w']) none none none : Py Unit _).run
        World.empty).map (fun r => (r.2.1, opensOf r.1, r.2.2.opened)) =
        some (.error (.osError (.other 5)), [.ok ⟨(), 0, ['f'], 1⟩], [⟨(), 0, ['f'], 1⟩]) := by rfl
    obtain ⟨⟨tr, outcome, w'⟩, hplay, hobserved⟩ := Option.map_eq_some_iff.1 hplayed
    obtain ⟨houtcome, hseen⟩ := Prod.mk.inj hobserved
    obtain ⟨hopens, hopened⟩ := Prod.mk.inj hseen
    have hrun := Context.Executes.of_play (C := ailing.solo () (.acquire none none none))
      (fun {choice w o r w'} h => ⟨choice, h⟩) hplay
    dsimp only at houtcome hopens hopened
    subst houtcome
    obtain ⟨-, -, hnothing⟩ := hclaim { filename := ['f'] } ['w'] _ _ _ _ World.empty_wf rfl hrun
    obtain ⟨-, hclosed, -⟩ := hnothing ⟨(), 0, ['f'], 1⟩ (by rw [hopens]; exact List.mem_singleton_self _)
    exact hclosed (by rw [hopened]; exact List.mem_singleton_self _)
  · intro hclaim
    have hplayed : (Program.play
        (fun choice w o => ailing.performOp choice () (.acquire none none none) w o)
        ailing.statFails
        (TemporaryFileLock.acquire { filename := ['f'] } none none none : Py Unit _).run
        World.empty).map (fun r => (r.2.1, r.2.2.fh ())) =
        some (.error (.osError .EACCES), some ⟨(), 0, ['f'], 1⟩) := by rfl
    obtain ⟨⟨tr, outcome, w'⟩, hplay, hobserved⟩ := Option.map_eq_some_iff.1 hplayed
    obtain ⟨houtcome, hstored⟩ := Prod.mk.inj hobserved
    have hrun := Context.Executes.of_play (C := ailing.solo () (.acquire none none none))
      (fun {choice w o r w'} h => ⟨choice, h⟩) hplay
    dsimp only at houtcome hstored
    subst houtcome
    obtain ⟨hnone, -⟩ := hclaim { filename := ['f'] } _ _ _ _ World.empty_wf rfl hrun
    rw [hstored] at hnone
    cases hnone

end Portalocker
