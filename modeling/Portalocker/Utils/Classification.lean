import Mathlib.Data.List.DropRight
import Portalocker.Utils.RetryLoop
set_option autoImplicit false
set_option linter.unusedSectionVars false

/-!
# What `AlreadyLocked` says

The locker turns `EACCES` and `EAGAIN` into `AlreadyLocked` and every other error of the
system call into a plain `LockException`.  A call that fails fast raises `AlreadyLocked`
for both, and every slot of a semaphore is taken with such a call, so what
`AlreadyLocked` says of the attempts it rests on depends on how the call was made.
-/

namespace Portalocker

open Posix Interleaving World Contract

variable {ι : Type} [DecidableEq ι]

/-- Somebody else has the lock. -/
def IsContention : Exc → Prop
  | .osError .EACCES | .osError .EAGAIN => True
  | _ => False

/-- `fcntl` fails for another reason. -/
def OtherFailure : Exc → Prop
  | .osError .EACCES | .osError .EAGAIN => False
  | .osError _ | .eofError => True
  | _ => False

/-- The attempt failed, and for this reason. -/
def FailedWith (reason : Exc → Prop) (r : Except Exc Unit) : Prop := ∃ e, r = .error e ∧ reason e

/-- `fcntl` fails with an `OSError` of any number or an `EOFError`; what closing a file
raises is an `Exception`. -/
def FcntlFaults (cfg : Config ι) : Prop :=
  ∀ c o e, cfg.mayRaise c o e = true →
    ((∃ h flags, o = .flock h flags) ∧ ((∃ n, e = .osError n) ∨ e = .eofError)) ∨
      (∃ h, o = .close h) ∧ e.isException = true

section Errors

variable {cfg : Config ι} {c : Call} {h : Handle ι Path} {flags : LockFlags} {e : Exc}

theorem FcntlFaults.locking (hfaults : FcntlFaults cfg) : LockingFaults cfg := by
  intro c o e he
  rcases hfaults c o e he with ⟨⟨_, _, rfl⟩, ⟨n, rfl⟩ | rfl⟩ | ⟨⟨_, rfl⟩, hexception⟩
  · exact ⟨rfl, trivial⟩
  · exact ⟨rfl, trivial⟩
  · exact ⟨hexception, trivial⟩

/-- What a lock attempt fails with. -/
theorem FcntlFaults.canFail (hfaults : FcntlFaults cfg) (he : CanFail cfg c h flags e) :
    (∃ n, e = .osError n) ∨ e = .eofError := by
  rcases he with he | he
  · exact Or.inl he
  · rcases hfaults c _ e he with ⟨-, he⟩ | ⟨⟨g, heq⟩, -⟩
    · exact he
    · cases heq

/-- It is one of the two, and the locker tells them apart. -/
theorem translate_cases (he : (∃ n, e = .osError n) ∨ e = .eofError) :
    (IsContention e ∧ ¬ OtherFailure e ∧ PosixLocker.translate e = .alreadyLocked) ∨
      (OtherFailure e ∧ ¬ IsContention e ∧ PosixLocker.translate e = .lockException) := by
  rcases he with ⟨n, rfl⟩ | rfl
  · cases n <;> simp [IsContention, OtherFailure, PosixLocker.translate]
  · simp [IsContention, OtherFailure, PosixLocker.translate]

theorem translate_isLockException (he : (∃ n, e = .osError n) ∨ e = .eofError) :
    (PosixLocker.translate e).isLockException = true := by
  rcases translate_cases he with ⟨-, -, heq⟩ | ⟨-, -, heq⟩ <;> rw [heq] <;> rfl

end Errors

/-! ## `Lock` -/

/-- How an `acquire` that opens its file and raises has failed. -/
structure FailedAttempt (failWhenLocked : Bool) (path : Path) (e : Exc) (tr : Trace ι)
    (h : Handle ι Path) (failed : List (Except Exc Unit)) (e₀ : Exc) : Prop where
  path : h.path = path
  retried : ∀ r ∈ failed, Retried failWhenLocked r
  fcntl : (∃ n, e₀ = .osError n) ∨ e₀ = .eofError
  raised : e = Lock.report failWhenLocked (PosixLocker.translate e₀)
  tried : Tried h (failed ++ [.error e₀]) [h] tr

/-- An `acquire` that raises has not opened its file, or a last attempt has failed. -/
theorem failed_acquire {cfg : Config ι} {p : ι} {c : Call} (hfaults : FcntlFaults cfg)
    {self : Lock} (hflags : self.flags = .lockMethod) {failWhenLocked : Bool} {e : Exc}
    {w : World ι} {tr : Trace ι} {n : Nat}
    (hE : At (fun w => w.fh p = none) (self.Unopened cfg c e) (w, tr) ∨
      ∃ h : Handle ι Path, (h.path = self.filename ∧ n ≤ h.serial) ∧
        self.GivesUp cfg c failWhenLocked p h e (w, tr)) :
    (e ≠ .alreadyLocked ∧ triesOf tr = [] ∧ (openKind self.mode = none ∨ .error e ∈ opensOf tr)) ∨
      ∃ h failed e₀, FailedAttempt failWhenLocked self.filename e tr h failed e₀ := by
  rcases hE with ⟨-, hopens, htries, -⟩ | ⟨h, ⟨hpath, -⟩, hgives⟩
  · left
    rcases hopens with ⟨-, hkind, rfl⟩ | ⟨hopens, hwhy⟩
    · exact ⟨by simp, htries, Or.inl hkind⟩
    · refine ⟨?_, htries, Or.inr (by rw [hopens]; exact List.mem_singleton_self _)⟩
      rcases hwhy with ⟨n, rfl⟩ | ⟨path, kind, hmay⟩
      · simp
      · rcases hfaults c _ e hmay with ⟨⟨_, _, ho⟩, -⟩ | ⟨⟨_, ho⟩, -⟩ <;> cases ho
  · right
    obtain ⟨-, e', rfl, hmissed⟩ := hgives.closed hfaults.locking
    rcases hmissed with ⟨hrefused, -, -⟩ | ⟨-, failed, e₀, hretried, hcan, rfl, htried⟩
    · rw [hflags] at hrefused
      cases hrefused
    · exact ⟨h, failed, e₀, hpath, hretried, hfaults.canFail hcan, rfl, htried⟩

namespace FailedAttempt

variable {path : Path} {e e₀ : Exc} {tr : Trace ι}
  {h : Handle ι Path} {failed : List (Except Exc Unit)}

/-- A call that fails fast raises `AlreadyLocked`, after its only attempt. -/
theorem fast (hf : FailedAttempt true path e tr h failed e₀) :
    e = .alreadyLocked ∧ opensOf tr = [.ok h] ∧ triesOf tr = [(h, .error e₀)] := by
  have hnone : failed = [] := by
    rcases failed with _ | ⟨r, rest⟩
    · rfl
    · cases (hf.retried r (List.mem_cons_self ..)).1
  refine ⟨?_, hf.tried.opens, ?_⟩
  · simp [hf.raised, Lock.report, translate_isLockException hf.fcntl]
  · rw [hf.tried.tries, hnone]
    rfl

/-- A call that does not fail fast raises what the locker made of its last attempt. -/
theorem slow (hf : FailedAttempt false path e tr h failed e₀) :
    e = PosixLocker.translate e₀ ∧ (triesOf tr).getLast? = some (h, .error e₀) := by
  refine ⟨?_, ?_⟩
  · simp [hf.raised, Lock.report, translate_isLockException hf.fcntl]
  · rw [hf.tried.tries, List.map_append]
    simp

end FailedAttempt

/-- For a `Lock` with the default flags, `AlreadyLocked` means contention exactly when the
call does not fail fast or no attempt fails for another reason. -/
theorem lock_alreadyLocked_iff {cfg : Config ι} {p : ι} {c : Call} (hfaults : FcntlFaults cfg)
    {self : Lock} (hflags : self.flags = .lockMethod) (timeout checkInterval : Option Rat)
    (failWhenLocked : Option Bool) {w w' : World ι} {tr : Trace ι}
    {outcome : Except Exc (Handle ι Path)} (hw : w.Wf)
    (hrun : (cfg.solo p c).Executes (self.acquire timeout checkInterval failWhenLocked).run
      w tr outcome w') :
    (outcome = .error .alreadyLocked →
        ∃ attempt, (triesOf tr).getLast? = some attempt ∧ FailedWith IsContention attempt.2) ↔
      (failWhenLocked.getD self.failWhenLocked = false ∨
        ∀ attempt ∈ triesOf tr, ¬ FailedWith OtherFailure attempt.2) := by
  cases hfh : w.fh p with
  | some h =>
      obtain ⟨-, hends⟩ := (Lock.acquire_stored hfaults.locking.plain self timeout checkInterval
        failWhenLocked h).executes hw ⟨hfh, rfl⟩ hrun
      cases outcome with
      | ok g =>
          obtain ⟨-, -, -, htries, -⟩ := hends
          simp [htries]
      | error e => exact hends.elim
  | none =>
      obtain ⟨-, hends⟩ := (Lock.acquire_attempts hfaults.locking.plain self timeout checkInterval
        failWhenLocked 0).executes hw ⟨⟨hfh, Nat.zero_le _⟩, rfl⟩ hrun
      generalize failWhenLocked.getD self.failWhenLocked = fast at hends ⊢
      cases outcome with
      | ok g =>
          obtain ⟨-, -, failed, hretried, htried⟩ := hends
          refine ⟨fun _ => ?_, fun _ houtcome => by cases houtcome⟩
          cases fast with
          | false => exact Or.inl rfl
          | true =>
              right
              intro attempt hattempt
              rw [htried.tries] at hattempt
              obtain ⟨r, hr, rfl⟩ := List.mem_map.1 hattempt
              rcases List.mem_append.1 hr with hr | hr
              · cases (hretried r hr).1
              · obtain rfl := List.mem_singleton.1 hr
                rintro ⟨e, he, -⟩
                cases he
      | error e =>
          rcases failed_acquire hfaults hflags hends with
            ⟨hne, htries, -⟩ | ⟨h, failed, e₀, hfailed⟩
          · exact ⟨fun _ => Or.inr (by simp [htries]),
              fun _ heq => absurd (Except.error.inj heq) hne⟩
          · cases fast with
            | true =>
                obtain ⟨rfl, -, htries⟩ := hfailed.fast
                rw [htries]
                rcases translate_cases hfailed.fcntl with ⟨hc, hother, -⟩ | ⟨hother, hc, -⟩
                · simp [FailedWith, hc, hother]
                · simp [FailedWith, hc, hother]
            | false =>
                obtain ⟨rfl, hlast⟩ := hfailed.slow
                refine ⟨fun _ => Or.inl rfl, fun _ heq => ⟨_, hlast, e₀, rfl, ?_⟩⟩
                rcases translate_cases hfailed.fcntl with ⟨hc, -, -⟩ | ⟨-, -, htranslate⟩
                · exact hc
                · rw [htranslate] at heq
                  cases heq

/-! ## `BoundedSemaphore` -/

section Sweep

variable {cfg : Config ι} {p : ι} {c : Call}

/-- Every attempt so far has failed, and the last ones were made on these slots. -/
def SlotsTaken (slots : List Path) (tr : Trace ι) : Prop :=
  (∀ r ∈ opensOf tr, ∃ h, r = .ok h) ∧ ∃ earlier sweep, triesOf tr = earlier ++ sweep ∧
    sweep.map (fun attempt => attempt.1.path) = slots ∧
    ∀ attempt ∈ earlier ++ sweep,
      FailedWith (fun e => (∃ n, e = .osError n) ∨ e = .eofError) attempt.2

/-- An attempt has locked a slot. -/
def SlotLocked (tr : Trace ι) : Prop := ∃ attempt ∈ triesOf tr, attempt.2 = .ok ()

/-- A slot could not be opened, and `e` is not about a lock. -/
def SlotUnopened (e : Exc) (tr : Trace ι) : Prop :=
  e ≠ .alreadyLocked ∧ ∃ r ∈ opensOf tr, ∃ e', r = .error e'

/-- An assertion that operations other than openings and attempts keep. -/
def Lasting (φ : Trace ι → Prop) : Prop :=
  ∀ {tr : Trace ι} {entry : TraceEntry ι}, Unseen entry → φ tr → φ (tr ++ [entry])

theorem SlotsTaken.lasting (slots : List Path) : Lasting (SlotsTaken (ι := ι) slots) := by
  rintro tr entry ⟨hopen, htry, -, -⟩ h
  simpa [SlotsTaken, hopen, htry] using h

theorem SlotLocked.lasting : Lasting (SlotLocked (ι := ι)) := by
  rintro tr entry ⟨-, htry, -, -⟩ h
  simpa [SlotLocked, htry] using h

theorem SlotUnopened.lasting (e : Exc) : Lasting (SlotUnopened (ι := ι) e) := by
  rintro tr entry ⟨hopen, -, -, -⟩ h
  simpa [SlotUnopened, hopen] using h

/-- A new sweep begins. -/
theorem SlotsTaken.again {slots : List Path} {tr : Trace ι} (h : SlotsTaken slots tr) :
    SlotsTaken [] tr := by
  obtain ⟨hopen, earlier, sweep, htries, -, hfailed⟩ := h
  exact ⟨hopen, earlier ++ sweep, [], by rw [htries, List.append_nil], rfl,
    by rwa [List.append_nil]⟩

/-- One more slot is taken. -/
theorem SlotsTaken.slot {slots : List Path} {log tr : Trace ι} {path : Path} {e e₀ : Exc}
    {h : Handle ι Path} {failed : List (Except Exc Unit)} (hlog : SlotsTaken slots log)
    (hf : FailedAttempt true path e tr h failed e₀) : SlotsTaken (slots ++ [path]) (log ++ tr) := by
  obtain ⟨hopen, earlier, sweep, htries, hslots, hfailed⟩ := hlog
  obtain ⟨-, hopens, htry⟩ := hf.fast
  refine ⟨?_, earlier, sweep ++ [(h, .error e₀)], ?_, ?_, ?_⟩
  · intro r hr
    rw [opensOf_append, hopens] at hr
    rcases List.mem_append.1 hr with hr | hr
    · exact hopen r hr
    · exact ⟨h, List.mem_singleton.1 hr⟩
  · rw [triesOf_append, htries, htry, List.append_assoc]
  · rw [List.map_append, hslots]
    simp [hf.path]
  · intro attempt hattempt
    rw [← List.append_assoc] at hattempt
    rcases List.mem_append.1 hattempt with hattempt | hattempt
    · exact hfailed attempt hattempt
    · obtain rfl := List.mem_singleton.1 hattempt
      exact ⟨e₀, rfl, hf.fcntl⟩

/-- An operation on the instance's own attributes, or of the loop. -/
theorem unseen_rule {o : Op ι} {φ : Trace ι → Prop} {E : Exc → World ι × Trace ι → Prop}
    {P : World ι → Prop} [∀ e, (cfg.soloTraced p c).Stable (E e)] [(cfg.solo p c).Stable P]
    (hfaults : FcntlFaults cfg) (hφ : Lasting φ) (hown : ∀ w, Own p w o)
    (hunseen : ∀ w v w', Unseen (⟨w, o, .ok v, w'⟩ : TraceEntry ι))
    (hact : ∀ w choice r w', cfg.act choice p w o = some (r, w') → (∃ v, r = .ok v) ∧ P w') :
    Hoare (cfg.soloTraced p c) (At (fun _ => True) φ) (perform o) (fun _ => At P φ) E := by
  refine solo_rule (fun w _ _ _ => hown w) ?_ ?_
  · rintro w tr choice r w' - - ⟨-, htr⟩ h
    obtain ⟨⟨v, rfl⟩, hP⟩ := hact w choice r w' h
    exact ⟨hP, hφ (hunseen w _ w') htr⟩
  · intro w tr e _ _ he
    rcases hfaults c o e he with ⟨⟨_, _, rfl⟩, -⟩ | ⟨⟨_, rfl⟩, -⟩
    · cases (hunseen w () w).2.1
    · cases (hunseen w () w).2.2.2.1

/-- What a slot's `acquire` raises says that the slot is taken, or could not be opened. -/
def SlotRaises (slots : List Path) (filename : Path) (e : Exc) (tr : Trace ι) : Prop :=
  if e = .alreadyLocked then SlotsTaken (slots ++ [filename]) tr else SlotUnopened e tr

theorem SlotRaises.lasting (slots : List Path) (filename : Path) (e : Exc) :
    Lasting (SlotRaises (ι := ι) slots filename e) := by
  unfold SlotRaises
  split
  · exact SlotsTaken.lasting _
  · exact SlotUnopened.lasting e

theorem slotAcquire_taken (hfaults : FcntlFaults cfg) (slots : List Path) (filename : Path) :
    Hoare (cfg.soloTraced p c) (At (fun w => w.fh p = none) (SlotsTaken slots))
      ((BoundedSemaphore.slotLock filename).acquire none none none)
      (fun _ => At (fun _ => True) SlotLocked)
      (fun e => At (fun _ => True) (SlotRaises slots filename e)) := by
  rintro ⟨w, log⟩ hw ⟨hfh, htaken⟩
  have hacquire := (Lock.acquire_attempts (c := c) (p := p) hfaults.locking.plain
    (BoundedSemaphore.slotLock filename) none none none 0).framed log
  refine (hacquire.conseq (fun W _ (hP : W.2 = log ∧ W.1.fh p = none) =>
    ⟨hP.1, ⟨hP.2, Nat.zero_le _⟩, rfl⟩) ?_ ?_) (w, log) hw ⟨rfl, hfh⟩
  · rintro h ⟨w', log'⟩ - ⟨tr, rfl, -, -, failed, -, htried⟩
    refine ⟨trivial, (h, .ok ()), ?_, rfl⟩
    dsimp only
    rw [triesOf_append, htried.tries, List.map_append]
    simp
  · rintro e ⟨w', log'⟩ - ⟨tr, rfl, hE⟩
    refine ⟨trivial, ?_⟩
    rcases failed_acquire hfaults rfl hE with ⟨hne, -, hkind | hopen⟩ | ⟨h, failed, e₀, hfailed⟩
    · exact absurd (show openKind ['a'] = none from hkind) (by decide)
    · rw [SlotRaises, if_neg hne]
      exact ⟨hne, _, by rw [opensOf_append]; exact List.mem_append_right _ hopen, e, rfl⟩
    · rw [SlotRaises, if_pos hfailed.fast.1]
      exact htaken.slot hfailed

/-- One slot is tried. -/
theorem trySlot_taken (hfaults : FcntlFaults cfg) (slots : List Path) (filename : Path) :
    Hoare (cfg.soloTraced p c) (At (fun w => w.fh p = none) (SlotsTaken slots))
      (BoundedSemaphore.trySlot filename)
      (fun taken => At (fun _ => True) fun tr =>
        if taken = true then SlotLocked tr else SlotsTaken (slots ++ [filename]) tr)
      (fun e => At (fun _ => True) (SlotUnopened e)) := by
  refine Hoare.tryCatch (Hoare.bind (slotAcquire_taken hfaults slots filename) fun _ =>
    Hoare.pure fun _ _ hP => hP) fun e => ?_
  by_cases he : e = .alreadyLocked
  · subst he
    exact Hoare.pure fun _ _ hP => hP
  · have hraises : ∀ W : World ι × Trace ι,
        At (fun _ => True) (SlotRaises slots filename e) W → At (fun _ => True) (SlotUnopened e) W := by
      rintro W ⟨-, hraised⟩
      rw [SlotRaises, if_neg he] at hraised
      exact ⟨trivial, hraised⟩
    cases hexception : e.isException with
    | true =>
        simp only [he, if_false, if_true]
        refine Hoare.bind (unseen_rule (P := fun _ => True) hfaults
          (SlotRaises.lasting slots filename e) (fun _ => trivial)
          (fun _ _ _ => ⟨rfl, rfl, rfl, rfl,
            rfl⟩) ?_) fun _ => Hoare.throw fun W _ hW => hraises W hW
        intro w choice r w' h
        simp only [Config.act, Option.some.injEq, Prod.mk.injEq] at h
        exact ⟨⟨_, h.1.symm⟩, trivial⟩
    | false =>
        simp only [he, if_false, Bool.false_eq_true]
        exact Hoare.throw fun W _ hW => hraises W hW

/-- A sweep over the remaining slots. -/
theorem sweep_taken (hfaults : FcntlFaults cfg) (slots rest : List Path) :
    Hoare (cfg.soloTraced p c) (At (fun _ => True) (SlotsTaken slots))
      (BoundedSemaphore.tryLock rest)
      (fun taken => At (fun _ => True) fun tr =>
        if taken = true then SlotLocked tr else SlotsTaken (slots ++ rest) tr)
      (fun e => At (fun _ => True) (SlotUnopened e)) := by
  induction rest generalizing slots with
  | nil => exact Hoare.pure fun W _ hW => by simpa using hW
  | cons filename rest ih =>
      refine Hoare.bind (R := fun _ => At (fun w => w.fh p = none) (SlotsTaken slots)) ?_ fun _ => ?_
      · refine unseen_rule hfaults (SlotsTaken.lasting slots) (fun _ => trivial)
          (fun _ _ _ => ⟨rfl, rfl, rfl, rfl, rfl⟩) ?_
        intro w choice r w' h
        simp only [Config.act, Option.some.injEq, Prod.mk.injEq] at h
        obtain ⟨rfl, rfl⟩ := h
        exact ⟨⟨_, rfl⟩, by simp⟩
      · refine Hoare.bind (trySlot_taken hfaults slots filename) fun taken => ?_
        cases taken with
        | true =>
            refine Hoare.bind (R := fun _ => At (fun _ => True) SlotLocked) ?_ fun _ =>
              Hoare.pure fun _ _ hW => hW
            refine unseen_rule hfaults SlotLocked.lasting (fun _ => trivial)
              (fun _ _ _ => ⟨rfl, rfl, rfl, rfl, rfl⟩) ?_
            intro w choice r w' h
            simp only [Config.act, Option.some.injEq, Prod.mk.injEq] at h
            exact ⟨⟨_, h.1.symm⟩, trivial⟩
        | false =>
            refine (ih (slots ++ [filename])).of_post fun taken W _ hW => ?_
            simpa using hW

/-- How `acquire` of a semaphore ends. -/
def SemaphoreRaises (self : BoundedSemaphore) (failWhenLocked : Bool) (e : Exc) (tr : Trace ι) :
    Prop :=
  SlotUnopened e tr ∨ (e = .assertionError ∧ triesOf tr = []) ∨
    (e = .alreadyLocked ∧ failWhenLocked = true ∧ SlotsTaken self.getFilenames tr)

theorem BoundedSemaphore.acquire_taken (hfaults : FcntlFaults cfg) (self : BoundedSemaphore)
    (timeout checkInterval : Option Rat) (failWhenLocked : Option Bool) :
    Hoare (cfg.soloTraced p c) (At (fun _ => True) (· = []))
      (self.acquire timeout checkInterval failWhenLocked)
      (fun _ => At (fun _ => True) fun tr =>
        SlotLocked tr ∨ failWhenLocked.getD self.failWhenLocked = false)
      (fun e => At (fun _ => True)
        (SemaphoreRaises self (failWhenLocked.getD self.failWhenLocked) e)) := by
  have hpause : ∀ {o : Op ι}, ((∃ timeout, o = .attempts timeout) ∨
      ∃ i checkInterval, o = .sleep i checkInterval) → ∀ e : Exc,
      Hoare (cfg.soloTraced p c)
        (fun W => e = .alreadyLocked ∧ At (fun _ => True) (SlotsTaken self.getFilenames) W)
        (perform o)
        (fun _ W => e = .alreadyLocked ∧ At (fun _ => True) (SlotsTaken self.getFilenames) W)
        (fun e => At (fun _ => True) (SlotUnopened e)) := by
    intro o ho e
    refine Hoare.of_fact fun he => ?_
    refine (unseen_rule (P := fun _ => True) hfaults (SlotsTaken.lasting self.getFilenames) ?_ ?_ ?_).of_post
      fun _ _ _ hW => ⟨he, hW⟩
    · rcases ho with ⟨_, rfl⟩ | ⟨_, _, rfl⟩ <;> exact fun _ => trivial
    · rcases ho with ⟨_, rfl⟩ | ⟨_, _, rfl⟩ <;> exact fun _ _ _ => ⟨rfl, rfl, rfl, rfl, rfl⟩
    · intro w choice r w' h
      rcases ho with ⟨_, rfl⟩ | ⟨_, _, rfl⟩
      · simp only [Config.act, Option.ite_none_left_eq_some, Option.some.injEq,
          Prod.mk.injEq] at h
        exact ⟨⟨_, h.2.1.symm⟩, trivial⟩
      · simp only [Config.act, Option.some.injEq, Prod.mk.injEq] at h
        exact ⟨⟨_, h.1.symm⟩, trivial⟩
  have hsweep : Hoare (cfg.soloTraced p c) (At (fun _ => True) (SlotsTaken []))
      (do return if ← BoundedSemaphore.tryLock self.getFilenames then .ok ()
        else .error .alreadyLocked : Py ι (Except Exc Unit))
      (Ends (fun _ => At (fun _ => True) SlotLocked) fun e W =>
        e = .alreadyLocked ∧ At (fun _ => True) (SlotsTaken self.getFilenames) W)
      (fun e => At (fun _ => True) (SlotUnopened e)) := by
    refine Hoare.bind (sweep_taken hfaults [] self.getFilenames) fun taken => ?_
    cases taken with
    | true => exact Hoare.pure fun _ _ hW => hW
    | false => exact Hoare.pure fun _ _ hW => ⟨rfl, by simpa using hW⟩
  refine Hoare.bind (R := fun _ => At (fun _ => True) fun tr =>
    SlotsTaken [] tr ∧ triesOf tr = []) ?_ fun held => ?_
  · refine Hoare.of_pre (P := At (fun _ => True) fun tr => SlotsTaken [] tr ∧ triesOf tr = []) ?_ ?_
    · refine unseen_rule hfaults ?_ (fun _ => trivial) (fun _ _ _ => ⟨rfl, rfl, rfl, rfl, rfl⟩) ?_
      · exact fun hunseen h => ⟨SlotsTaken.lasting [] hunseen h.1, by simp [h.2, hunseen.2.1]⟩
      · intro w choice r w' h
        simp only [Config.act, Option.some.injEq, Prod.mk.injEq] at h
        exact ⟨⟨_, h.1.symm⟩, trivial⟩
    · rintro ⟨w, tr⟩ - ⟨-, rfl⟩
      exact ⟨trivial, ⟨by simp [opensOf], [], [], rfl, rfl, by simp⟩, rfl⟩
  · cases held with
    | true => exact Hoare.throw fun _ _ hW => ⟨trivial, Or.inr (Or.inl ⟨rfl, hW.2.2⟩)⟩
    | false =>
        refine Hoare.bind (R := Ends (fun _ => At (fun _ => True) SlotLocked) fun e W =>
          e = .alreadyLocked ∧ At (fun _ => True) (SlotsTaken self.getFilenames) W) ?_ fun outcome => ?_
        · refine (timeoutGenerator_rule hsweep (fun e W _ hW => ⟨trivial, hW.2.2.again⟩)
            (hpause (Or.inl ⟨_, rfl⟩)) fun i => hpause (Or.inr ⟨_, _, rfl⟩)).conseq
            (fun _ _ hW => ⟨trivial, hW.2.1⟩) (fun _ _ _ hW => hW)
            fun _ _ _ hW => ⟨trivial, Or.inl hW.2⟩
        · cases outcome with
          | ok u =>
              refine Hoare.bind (R := fun _ => At (fun _ => True) SlotLocked) ?_ fun _ =>
                Hoare.pure fun _ _ hW => ⟨trivial, Or.inl hW.2⟩
              refine unseen_rule hfaults SlotLocked.lasting (fun _ => trivial)
                (fun _ _ _ => ⟨rfl, rfl, rfl, rfl, rfl⟩) ?_
              intro w choice r w' h
              simp only [Config.act, Option.some.injEq, Prod.mk.injEq] at h
              exact ⟨⟨_, h.1.symm⟩, trivial⟩
          | error e =>
              refine Hoare.of_fact fun he => ?_
              dsimp only
              split
              · rename_i hfast
                exact Hoare.throw fun _ _ hW => ⟨trivial, Or.inr (Or.inr ⟨he, hfast, hW.2⟩)⟩
              · rename_i hslow
                exact Hoare.pure fun _ _ _ => ⟨trivial, Or.inr (Bool.eq_false_iff.2 hslow)⟩

end Sweep

/-- The last sweep: as many attempts as the semaphore has slots. -/
def lastSweep (self : BoundedSemaphore) (tr : Trace ι) : List (Handle ι Path × Except Exc Unit) :=
  (triesOf tr).rtake self.maximum

/-- For a `BoundedSemaphore`, `AlreadyLocked` means that every slot was found locked by
somebody else exactly when it is not raised at all or no attempt of the last sweep fails
for another reason. -/
theorem semaphore_alreadyLocked_iff {cfg : Config ι} {p : ι} {c : Call} (hfaults : FcntlFaults cfg)
    (self : BoundedSemaphore) (timeout checkInterval : Option Rat) (failWhenLocked : Option Bool)
    {w w' : World ι} {tr : Trace ι} {outcome : Except Exc Bool} (hw : w.Wf)
    (hrun : (cfg.solo p c).Executes (self.acquire timeout checkInterval failWhenLocked).run
      w tr outcome w') :
    (outcome = .error .alreadyLocked →
        (lastSweep self tr).map (fun attempt => attempt.1.path) = self.getFilenames ∧
        ∀ attempt ∈ lastSweep self tr, FailedWith IsContention attempt.2) ↔
      (failWhenLocked.getD self.failWhenLocked = false ∨
        (∃ attempt ∈ triesOf tr, attempt.2 = .ok ()) ∨ (∃ r ∈ opensOf tr, ∃ e, r = .error e) ∨
        ∀ attempt ∈ lastSweep self tr, ¬ FailedWith OtherFailure attempt.2) := by
  obtain ⟨-, hends⟩ := (BoundedSemaphore.acquire_taken hfaults self timeout checkInterval
    failWhenLocked).executes hw ⟨trivial, rfl⟩ hrun
  cases outcome with
  | ok taken =>
      refine ⟨fun _ => ?_, fun _ houtcome => by cases houtcome⟩
      rcases hends.2 with hlocked | hslow
      · exact Or.inr (Or.inl hlocked)
      · exact Or.inl hslow
  | error e =>
      rcases hends.2 with ⟨hne, hopen⟩ | ⟨rfl, htries⟩ | ⟨rfl, hfast, hopen, earlier, sweep, htries,
        hslots, hfailed⟩
      · exact ⟨fun _ => Or.inr (Or.inr (Or.inl hopen)),
          fun _ heq => absurd (Except.error.inj heq) hne⟩
      · refine ⟨fun _ => Or.inr (Or.inr (Or.inr ?_)), fun _ heq => by cases heq⟩
        simp [lastSweep, htries, List.rtake]
      · have hlast : lastSweep self tr = sweep := by
          have hlength : sweep.length = self.maximum := by
            have := congrArg List.length hslots
            simpa [BoundedSemaphore.getFilenames] using this
          simp [lastSweep, htries, List.rtake, hlength]
        rw [hlast]
        constructor
        · intro hclaim
          refine Or.inr (Or.inr (Or.inr fun attempt hattempt => ?_))
          rintro ⟨e, he, hother⟩
          obtain ⟨e', he', hcontention⟩ := (hclaim rfl).2 attempt hattempt
          obtain rfl : e = e' := Except.error.inj (he.symm.trans he')
          obtain ⟨e', he', hfcntl⟩ := hfailed attempt (List.mem_append_right _ hattempt)
          obtain rfl : e = e' := Except.error.inj (he.symm.trans he')
          rcases translate_cases hfcntl with ⟨-, hnot, -⟩ | ⟨-, hnot, -⟩
          · exact hnot hother
          · exact hnot hcontention
        · rintro (hslow | ⟨attempt, hattempt, hok⟩ | ⟨r, hr, e, rfl⟩ | hnone) -
          · rw [hfast] at hslow
            cases hslow
          · rw [htries] at hattempt
            obtain ⟨e, he, -⟩ := hfailed attempt hattempt
            rw [hok] at he
            cases he
          · obtain ⟨h, hh⟩ := hopen _ hr
            cases hh
          · refine ⟨hslots, fun attempt hattempt => ?_⟩
            obtain ⟨e, he, hfcntl⟩ := hfailed attempt (List.mem_append_right _ hattempt)
            rcases translate_cases hfcntl with ⟨hcontention, -, -⟩ | ⟨hother, -, -⟩
            · exact ⟨e, he, hcontention⟩
            · exact absurd ⟨e, he, hother⟩ (hnone attempt hattempt)

/-! ## Both -/

/-- When `AlreadyLocked` means contention. -/
theorem already_locked_iff_contention {cfg : Config ι} {p : ι} {c : Call}
    (hfaults : FcntlFaults cfg) :
    (∀ (self : Lock) (timeout checkInterval : Option Rat) (failWhenLocked : Option Bool)
        (w w' : World ι) (tr : Trace ι) (outcome : Except Exc (Handle ι Path)),
        self.flags = .lockMethod → w.Wf →
        (cfg.solo p c).Executes (self.acquire timeout checkInterval failWhenLocked).run
          w tr outcome w' →
        ((outcome = .error .alreadyLocked →
            ∃ attempt, (triesOf tr).getLast? = some attempt ∧ FailedWith IsContention attempt.2) ↔
          (failWhenLocked.getD self.failWhenLocked = false ∨
            ∀ attempt ∈ triesOf tr, ¬ FailedWith OtherFailure attempt.2))) ∧
      ∀ (self : BoundedSemaphore) (timeout checkInterval : Option Rat)
        (failWhenLocked : Option Bool) (w w' : World ι) (tr : Trace ι) (outcome : Except Exc Bool),
        w.Wf →
        (cfg.solo p c).Executes (self.acquire timeout checkInterval failWhenLocked).run
          w tr outcome w' →
        ((outcome = .error .alreadyLocked →
            (lastSweep self tr).map (fun attempt => attempt.1.path) = self.getFilenames ∧
            ∀ attempt ∈ lastSweep self tr, FailedWith IsContention attempt.2) ↔
          (failWhenLocked.getD self.failWhenLocked = false ∨
            (∃ attempt ∈ triesOf tr, attempt.2 = .ok ()) ∨ (∃ r ∈ opensOf tr, ∃ e, r = .error e) ∨
            ∀ attempt ∈ lastSweep self tr, ¬ FailedWith OtherFailure attempt.2)) :=
  ⟨fun _ timeout checkInterval failWhenLocked _ _ _ _ hflags hw hrun =>
      lock_alreadyLocked_iff hfaults hflags timeout checkInterval failWhenLocked hw hrun,
    fun self timeout checkInterval failWhenLocked _ _ _ _ hw hrun =>
      semaphore_alreadyLocked_iff hfaults self timeout checkInterval failWhenLocked hw hrun⟩

/-! ## Runs -/

/-- A file system on which an attempt may meet contention or fail with `ENOLCK`. -/
def unsupported : Config Unit where
  object _ := .lock { filename := ['f'] }
  mayRaise _ o e := match o with
    | .flock _ _ => e = .osError .EAGAIN ∨ e = .osError (.other 37)
    | _ => false

theorem unsupported_faults : FcntlFaults unsupported := by
  intro c o e he
  cases o with
  | flock h flags =>
      have he' : e = .osError .EAGAIN ∨ e = .osError (.other 37) := by simpa [unsupported] using he
      rcases he' with rfl | rfl
      · exact Or.inl ⟨⟨h, flags, rfl⟩, Or.inl ⟨_, rfl⟩⟩
      · exact Or.inl ⟨⟨h, flags, rfl⟩, Or.inl ⟨_, rfl⟩⟩
  | _ => cases he

/-- An operation that goes as usual. -/
def unsupported.regular : Choice := {}

/-- One attempt at a file that somebody else has locked. -/
def unsupported.refused (ino : Nat) : List Choice :=
  [regular, { ino := ino }, { fault := some (.osError .EAGAIN) }, regular, regular]

/-- One sweep over two slots, which others have. -/
def unsupported.contends : List Choice :=
  [regular, regular] ++ refused 1 ++ [regular] ++ refused 2 ++ [regular]

/-- A semaphore of two slots. -/
def slotPair : BoundedSemaphore where
  maximum := 2
  name := ['s']
  directory := ['d']

theorem not_other_of_contention {r : Except Exc Unit} (h : r = .error (.osError .EAGAIN)) :
    ¬ FailedWith OtherFailure r := by
  rintro ⟨e, he, hother⟩
  obtain rfl := Except.error.inj (h.symm.trans he)
  exact hother

/-- A lock that fails fast, and a sweep over two slots: both raise `AlreadyLocked`, and all
their attempts have met contention. -/
theorem already_locked_iff_contention_run :
    (∃ (tr : Trace Unit) (w' : World Unit),
      (unsupported.solo () (.acquire none none none)).Executes
        (Lock.acquire { filename := ['f'], failWhenLocked := true } none none none :
          Py Unit _).run World.empty tr (.error .alreadyLocked) w' ∧
      ∃ attempt, (triesOf tr).getLast? = some attempt ∧ FailedWith IsContention attempt.2) ∧
    ∃ (tr : Trace Unit) (w' : World Unit),
      (unsupported.solo () (.acquire none none none)).Executes
        (slotPair.acquire none none none : Py Unit _).run World.empty tr
          (.error .alreadyLocked) w' ∧
      (lastSweep slotPair tr).map (fun attempt => attempt.1.path) = slotPair.getFilenames ∧
      ∀ attempt ∈ lastSweep slotPair tr, FailedWith IsContention attempt.2 := by
  have hlock : (Program.play
      (fun choice w o => unsupported.performOp choice () (.acquire none none none) w o)
      (unsupported.refused 1)
      (Lock.acquire { filename := ['f'], failWhenLocked := true } none none none : Py Unit _).run
      World.empty).map (fun r => ((triesOf r.1).map Prod.snd, r.2.1)) =
      some ([.error (.osError .EAGAIN)], .error .alreadyLocked) := by rfl
  have hslots : (Program.play
      (fun choice w o => unsupported.performOp choice () (.acquire none none none) w o)
      unsupported.contends (slotPair.acquire none none none : Py Unit _).run World.empty).map
      (fun r => ((lastSweep slotPair r.1).map Prod.snd, r.2.1)) =
      some ([.error (.osError .EAGAIN), .error (.osError .EAGAIN)], .error .alreadyLocked) := by
    rfl
  obtain ⟨⟨tr, outcome, w'⟩, hplay, hobserved⟩ := Option.map_eq_some_iff.1 hlock
  obtain ⟨htries, houtcome⟩ := Prod.mk.inj hobserved
  obtain ⟨⟨tr₂, outcome₂, w₂⟩, hplay₂, hobserved₂⟩ := Option.map_eq_some_iff.1 hslots
  obtain ⟨hsweep, houtcome₂⟩ := Prod.mk.inj hobserved₂
  have hrun := Context.Executes.of_play (C := unsupported.solo () (.acquire none none none))
    (fun {choice w o r w'} h => ⟨choice, h⟩) hplay
  have hrun₂ := Context.Executes.of_play (C := unsupported.solo () (.acquire none none none))
    (fun {choice w o r w'} h => ⟨choice, h⟩) hplay₂
  dsimp only at htries houtcome hsweep houtcome₂
  obtain rfl : outcome = .error .alreadyLocked := houtcome
  obtain rfl : outcome₂ = .error .alreadyLocked := houtcome₂
  have hiff := already_locked_iff_contention (p := ()) (c := .acquire none none none)
    unsupported_faults
  refine ⟨⟨tr, w', hrun, (hiff.1 { filename := ['f'], failWhenLocked := true } none none none _ _ _
    _ rfl World.empty_wf hrun).2 (Or.inr fun attempt hattempt => not_other_of_contention ?_) rfl⟩,
    tr₂, w₂, hrun₂, (hiff.2 slotPair none none none _ _ _ _ World.empty_wf hrun₂).2
      (Or.inr (Or.inr (Or.inr fun attempt hattempt => not_other_of_contention ?_))) rfl⟩
  · have hmem := List.mem_map_of_mem (f := Prod.snd) hattempt
    rw [htries] at hmem
    exact List.mem_singleton.1 hmem
  · have hmem := List.mem_map_of_mem (f := Prod.snd) hattempt
    rw [hsweep] at hmem
    simpa using hmem

/-- A call that fails fast raises `AlreadyLocked` when `fcntl` fails with `ENOLCK`. -/
theorem enolck_is_already_locked :
    ¬ ∀ (self : Lock) (w w' : World Unit) (tr : Trace Unit) (outcome : Except Exc (Handle Unit Path)),
      self.flags = .lockMethod → w.Wf →
      (unsupported.solo () (.acquire none none none)).Executes (self.acquire none none none).run
        w tr outcome w' →
      outcome = .error .alreadyLocked →
        ∃ attempt, (triesOf tr).getLast? = some attempt ∧ FailedWith IsContention attempt.2 := by
  intro hclaim
  have hlock : (Program.play
      (fun choice w o => unsupported.performOp choice () (.acquire none none none) w o)
      [{}, { ino := 1 }, { fault := some (.osError (.other 37)) }, {}, {}]
      (Lock.acquire { filename := ['f'], failWhenLocked := true } none none none : Py Unit _).run
      World.empty).map (fun r => (triesOf r.1, r.2.1)) =
      some ([(⟨(), 0, ['f'], 1⟩, .error (.osError (.other 37)))], .error .alreadyLocked) := by rfl
  obtain ⟨⟨tr, outcome, w'⟩, hplay, hobserved⟩ := Option.map_eq_some_iff.1 hlock
  obtain ⟨htries, houtcome⟩ := Prod.mk.inj hobserved
  have hrun := Context.Executes.of_play (C := unsupported.solo () (.acquire none none none))
    (fun {choice w o r w'} h => ⟨choice, h⟩) hplay
  dsimp only at htries houtcome
  obtain ⟨attempt, hlast, e, he, hcontention⟩ :=
    hclaim { filename := ['f'], failWhenLocked := true } _ _ _ _ rfl World.empty_wf hrun houtcome
  rw [htries] at hlast
  obtain rfl := Option.some.inj hlast
  obtain rfl := Except.error.inj he
  exact hcontention

end Portalocker
