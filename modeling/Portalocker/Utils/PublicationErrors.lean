import Portalocker.Foundation.Chains
set_option autoImplicit false
set_option linter.unusedSectionVars false

/-!
# The errors of a publication that fails

What `PidFileLock.acquire` does once it has its sidecar lock: `_write_pid`,
`_rollback_failed_acquire` and the handler that splices the errors of the two into one
chain.  The exceptions are objects of a type `α`, and the heap is their `__cause__`; the
`Faults` of a call say which of its operations raises which object.  Where a close fails
after another error its own error becomes the cause of that one, in place of the cause it
had; the condition under which nothing is lost is `Spliceable`.
-/

namespace Portalocker.Publication

open Chains Relation

variable {α : Type} [DecidableEq α]

/-! ## The code -/

/-- The operations of `_write_pid` on the open file, in their order. -/
inductive PidStep
  | seek
  | truncate
  | write
  | flush
  | fsync
  deriving DecidableEq

/-- What raises in a call, and what kind of exception an object is. -/
structure Faults (α : Type) where
  /-- `except Exception` catches it -/
  isException : α → Bool
  /-- an `OSError` whose errno is `EINVAL` or `ENOTSUP` -/
  notSupported : α → Bool
  openError : Option α
  stepError : PidStep → Option α
  /-- what closing the pid file raises -/
  closeError : Option α
  /-- what the release of the inner lock raises -/
  releaseError : Option α
  /-- the release clears the handle of the inner lock -/
  releaseClears : Bool
  /-- what the fallback close raises -/
  fallbackError : Option α

/-- The causes of the exceptions and the attributes of the lock. -/
structure State (α : Type) where
  cause : α → Option α
  /-- `_inner_lock` is set -/
  innerLock : Bool
  /-- the handle of the inner lock is set -/
  innerFh : Bool
  acquiredLock : Bool
  /-- history: the fallback close has been attempted -/
  fallbackTried : Bool

/-- `raise e from c`, and `e.__cause__ = c`. -/
def State.setCause (s : State α) (e c : α) : State α := { s with cause := link s.cause e c }

/-- The sidecar lock has just been acquired. -/
def State.start (cause : α → Option α) : State α := ⟨cause, true, true, false, false⟩

namespace Faults

/-- What the operations on the open file raise: the first error there is, but `fsync` may
lack support. -/
def operationError (F : Faults α) : Option α :=
  match [PidStep.seek, .truncate, .write, .flush].findSome? F.stepError with
  | some error => some error
  | none => (F.stepError .fsync).filter fun error => !F.notSupported error

/-- `_write_pid`: what it raises. -/
def writePid (F : Faults α) (s : State α) : Option α × State α :=
  match F.openError with
  | some error => (some error, s)
  | none =>
      match F.operationError with
      | none => (F.closeError, s)
      | some error =>
          if F.isException error then
            match F.closeError with
            | none => (some error, s)
            | some closeError =>
                if F.isException closeError then (some error, s.setCause error closeError)
                else (some closeError, s)
          else (some error, s)

/-- The fallback close of a handle that the release has left set. -/
def closeLeft (F : Faults α) (cleanupError : Option α) (s : State α) :
    Except α (Option α) × State α :=
  if s.innerFh then
    let closed := { s with innerFh := false, fallbackTried := true }
    match F.fallbackError with
    | none => (.ok cleanupError, closed)
    | some closeError =>
        if F.isException closeError then
          match cleanupError with
          | none => (.ok (some closeError), closed)
          | some error => (.ok (some error), closed.setCause error closeError)
        else (.error closeError, closed)
  else (.ok cleanupError, s)

/-- The end of `_rollback_failed_acquire`. -/
def resetAttributes : Except α (Option α) × State α → Except α (Option α) × State α
  | (.ok cleanupError, s) => (.ok cleanupError, { s with innerLock := false, acquiredLock := false })
  | (.error interrupt, s) => (.error interrupt, s)

/-- `_rollback_failed_acquire`: the cleanup error it returns, or an exception that leaves it. -/
def rollbackFailedAcquire (F : Faults α) (s : State α) : Except α (Option α) × State α :=
  let released := { s with innerFh := s.innerFh && !F.releaseClears }
  match F.releaseError with
  | none => resetAttributes (F.closeLeft none released)
  | some error =>
      if F.isException error then resetAttributes (F.closeLeft (some error) released)
      else (.error error, released)

/-- The handler of `acquire`: the exception that leaves it.  There is no result if the
loop over the causes has not ended after `fuel` rounds. -/
def handlePublicationError (F : Faults α) (fuel : Nat) (error : α) (s : State α) :
    Option (α × State α) :=
  match F.rollbackFailedAcquire s with
  | (.error interrupt, s') => some (interrupt, s')
  | (.ok none, s') => some (error, s')
  | (.ok (some cleanupError), s') =>
      match s'.cause error with
      | none => some (error, s'.setCause error cleanupError)
      | some publicationCause =>
          (tail s'.cause fuel cleanupError).map fun causeTail =>
            (error, (s'.setCause causeTail publicationCause).setCause error cleanupError)

/-- `acquire`, from the sidecar lock on: what it raises. -/
def acquire (F : Faults α) (fuel : Nat) (s : State α) : Option (Option α × State α) :=
  match F.writePid s with
  | (none, s') => some (none, { s' with acquiredLock := true })
  | (some error, s') =>
      if F.isException error then
        (F.handlePublicationError fuel error s').map fun r => (some r.1, r.2)
      else some (some error, s')

/-! ## What is asked of it -/

/-- The errors that `_write_pid` meets: the publication error, and the error of the close
after it. -/
def publicationErrors (F : Faults α) : List α :=
  match F.openError with
  | some error => [error]
  | none => F.operationError.toList ++ F.closeError.toList

/-- The errors that the rollback meets. -/
def cleanupErrors (F : Faults α) : List α :=
  F.releaseError.toList ++ if F.releaseClears then [] else F.fallbackError.toList

/-- All errors of the call. -/
def errors (F : Faults α) : List α := F.publicationErrors ++ F.cleanupErrors

/-- The call ends and raises the publication error; its chain of causes ends and passes
every error with its own causes; a handle that was left has been closed, and the lock is
as if it had never been acquired. -/
def Transactional (F : Faults α) (cause : α → Option α) (error : α) : Prop :=
  ∃ s : State α, (∃ n, ∀ fuel, n ≤ fuel → F.acquire fuel (.start cause) = some (some error, s)) ∧
    Ends s.cause error ∧
    (∀ e ∈ F.errors, ∀ x, Reaches cause e x → Reaches s.cause error x) ∧
    (F.releaseClears = false → s.fallbackTried = true) ∧
    s.innerLock = false ∧ s.innerFh = false ∧ s.acquiredLock = false

end Faults

/-! ## When it is so -/

section Strands

variable (cause : α → Option α)

/-- What the errors of one side have behind them: the chain of the only one; or the first
one, whose cause is the second one now, and the chain of that. -/
def Strand : List α → α → Prop
  | [], _ => False
  | [error], x => Reaches cause error x
  | error :: closeError :: _, x => x = error ∨ Reaches cause closeError x

/-- The chain of the second error does not come back to the first one. -/
def Sound : List α → Prop
  | error :: closeError :: _ => ¬ Reaches cause closeError error
  | _ => True

/-- The cause that the first error had before the second one, if any, is among these. -/
def Covered (kept : α → Prop) : List α → Prop
  | error :: _ :: _ => ∀ x, cause error = some x → kept x
  | _ => True

/-- The errors of the two sides can be spliced into one chain without a loss. -/
structure Spliceable (publication cleanup : List α) : Prop where
  publication_sound : Sound cause publication
  cleanup_sound : Sound cause cleanup
  /-- the two strands have no exception in common -/
  apart : ∀ x, Strand cause publication x → ¬ Strand cause cleanup x
  /-- a cause that is overwritten is on one of the strands anyway -/
  publication_covered :
    Covered cause (fun x => Strand cause publication x ∨ Strand cause cleanup x) publication
  cleanup_covered :
    Covered cause (fun x => Strand cause publication x ∨ Strand cause cleanup x) cleanup

end Strands

/-- The causes once the second error of a side is the cause of the first. -/
def paired (cause : α → Option α) (error : α) : Option α → α → Option α
  | none => cause
  | some closeError => link cause error closeError

/-! ## One strand -/

section Strand

variable {cause : α → Option α} {error c x y : α} {closeError : Option α}

theorem ends_paired_iff (hends : ∀ e ∈ error :: closeError.toList, Ends cause e) :
    Ends (paired cause error closeError) error ↔ Sound cause (error :: closeError.toList) := by
  cases closeError with
  | none => exact iff_of_true (hends error (by simp)) trivial
  | some closeError => exact ends_link_iff.trans (and_iff_right (hends closeError (by simp)))

theorem reaches_paired_iff (h : Sound cause (error :: closeError.toList)) :
    Reaches (paired cause error closeError) error x ↔
      Strand cause (error :: closeError.toList) x := by
  cases closeError with
  | none => exact Iff.rfl
  | some closeError => exact reaches_link_iff h

theorem strand_self : Strand cause (error :: closeError.toList) error := by
  cases closeError with
  | none => exact ReflTransGen.refl
  | some closeError => exact Or.inl rfl

/-- Pairing another error does not concern a chain that does not pass it. -/
theorem paired_agrees (h : ¬ Reaches cause x c) :
    ∀ z, Reaches cause x z → cause z = paired cause c closeError z := by
  cases closeError with
  | none => exact fun _ _ => rfl
  | some closeError => exact link_agrees h

theorem paired_of_ne (h : x ≠ error) : paired cause error closeError x = cause x := by
  cases closeError with
  | none => rfl
  | some closeError => exact link_of_ne h

theorem reaches_paired_of_apart (h : ¬ Reaches cause x c) :
    Reaches (paired cause c closeError) x y ↔ Reaches cause x y :=
  (reaches_congr (paired_agrees h)).symm

theorem ends_paired_of_apart (h : ¬ Reaches cause x c) :
    Ends (paired cause c closeError) x ↔ Ends cause x := by
  cases closeError with
  | none => exact Iff.rfl
  | some closeError => exact ends_link_of_apart h

/-- The same, said of the chain afterwards. -/
theorem apart_of_paired (h : ¬ Reaches (paired cause c closeError) x c) : ¬ Reaches cause x c := by
  intro hreach
  cases closeError with
  | none => exact h hreach
  | some closeError => exact h hreach.to_link

end Strand

/-! ## Two strands -/

section Spliced

variable {cause : α → Option α} {error c t x : α} {closeError fallbackError : Option α}

/-- The causes once the chain of the cleanup error has been put between the error and its
cause; `t` is the end of that chain. -/
def spliced (cause : α → Option α) (error c t : α) : α → Option α :=
  match cause error with
  | none => link cause error c
  | some publicationCause => link (link cause t publicationCause) error c

/-- The new chain ends when the old one does and the two have nothing in common. -/
theorem ends_spliced_iff (ht : Reaches cause c t) (hlast : cause t = none) :
    Ends (spliced cause error c t) error ↔
      Ends cause error ∧ ∀ x, Reaches cause error x → ¬ Reaches cause c x := by
  have hc : Ends cause c := (ends_iff_of_reaches ht).2 (.stop hlast)
  unfold spliced
  cases hp : cause error with
  | none =>
      refine ends_link_iff.trans ⟨fun h => ⟨.stop hp, fun x hx => ?_⟩, fun h =>
        ⟨hc, h.2 error ReflTransGen.refl⟩⟩
      rw [hx.of_none hp]
      exact h.2
  | some p =>
      rw [ends_link_iff, ends_splice_iff ht, ends_iff_of_next hp]
      constructor
      · rintro ⟨⟨hends, htail⟩, herror⟩
        rw [reaches_splice_iff ht hlast htail, not_or] at herror
        refine ⟨hends, fun x hx hcx => ?_⟩
        rcases ReflTransGen.cases_head hx with rfl | ⟨y, hy, hrest⟩
        · exact herror.1 hcx
        · -- the rest of the two chains is one, up to the end of both
          rw [hp] at hy
          obtain rfl := Option.some.inj hy
          exact htail (hrest.trans (hcx.last ht hlast))
      · rintro ⟨hends, hapart⟩
        have htail : ¬ Reaches cause p t := fun h => hapart t (h.step hp) ht
        refine ⟨⟨hends, htail⟩, ?_⟩
        rw [reaches_splice_iff ht hlast htail, not_or]
        refine ⟨hapart error ReflTransGen.refl, fun hback => ?_⟩
        exact not_ends_of_cycle (TransGen.head' hp hback) ((ends_iff_of_next hp).2 hends)

theorem reaches_spliced_iff (ht : Reaches cause c t) (hlast : cause t = none)
    (hapart : ∀ x, Reaches cause error x → ¬ Reaches cause c x) (hends : Ends cause error) :
    Reaches (spliced cause error c t) error x ↔ Reaches cause error x ∨ Reaches cause c x := by
  have herror : ¬ Reaches cause c error := hapart error ReflTransGen.refl
  unfold spliced
  cases hp : cause error with
  | none =>
      refine (reaches_link_iff herror).trans (or_congr_left ⟨?_, fun h => h.of_none hp⟩)
      rintro rfl
      exact ReflTransGen.refl
  | some p =>
      have htail : ¬ Reaches cause p t := fun h => hapart t (h.step hp) ht
      have hback : ¬ Reaches cause p error := fun h =>
        not_ends_of_cycle (TransGen.head' hp h) hends
      have hsplice := reaches_splice_iff (x := error) ht hlast htail
      rw [reaches_link_iff (by rw [hsplice]; exact not_or.2 ⟨herror, hback⟩),
        reaches_splice_iff ht hlast htail]
      constructor
      · rintro (rfl | hreach | hreach)
        · exact Or.inl ReflTransGen.refl
        · exact Or.inr hreach
        · exact Or.inl (hreach.step hp)
      · rintro (hreach | hreach)
        · rcases ReflTransGen.cases_head hreach with rfl | ⟨y, hy, hrest⟩
          · exact Or.inl rfl
          · rw [hp] at hy
            obtain rfl := Option.some.inj hy
            exact Or.inr (Or.inr hrest)
        · exact Or.inr (Or.inl hreach)

/-- Away from the error of the one side only the other side has changed. -/
theorem paired_swap (hx : x ≠ error) :
    paired (paired cause error closeError) c fallbackError x = paired cause c fallbackError x := by
  by_cases hc : x = c
  · subst hc
    cases fallbackError with
    | none => exact paired_of_ne hx
    | some f => exact link_self.trans link_self.symm
  · rw [paired_of_ne hc, paired_of_ne hc, paired_of_ne hx]

/-- The chain of the one side, when the other side is paired as well. -/
theorem paired_error_chain (h : ¬ Reaches (paired (paired cause error closeError) c fallbackError)
    error c) :
    (∀ x, Reaches (paired (paired cause error closeError) c fallbackError) error x ↔
      Reaches (paired cause error closeError) error x) ∧
    (Ends (paired (paired cause error closeError) c fallbackError) error ↔
      Ends (paired cause error closeError) error) :=
  ⟨fun _ => reaches_paired_of_apart (apart_of_paired h), ends_paired_of_apart (apart_of_paired h)⟩

/-- The chain of the other side. -/
theorem paired_cleanup_chain (closeError : Option α)
    (h : ¬ Reaches (paired cause c fallbackError) c error) :
    (∀ x, Reaches (paired (paired cause error closeError) c fallbackError) c x ↔
      Reaches (paired cause c fallbackError) c x) ∧
    (Ends (paired (paired cause error closeError) c fallbackError) c ↔
      Ends (paired cause c fallbackError) c) := by
  have hagree : ∀ z, Reaches (paired cause c fallbackError) c z →
      paired cause c fallbackError z =
        paired (paired cause error closeError) c fallbackError z := by
    intro z hz
    refine (paired_swap ?_).symm
    rintro rfl
    exact h hz
  have hreaches : ∀ x, Reaches (paired (paired cause error closeError) c fallbackError) c x ↔
      Reaches (paired cause c fallbackError) c x := fun x => (reaches_congr hagree).symm
  refine ⟨hreaches, fun hends => ?_, fun hends => hends.congr hagree⟩
  exact hends.congr fun z hz => (hagree z ((hreaches z).1 hz)).symm

theorem cleanup_apart_of_paired
    (h : ¬ Reaches (paired (paired cause error closeError) c fallbackError) c error) :
    ¬ Reaches (paired cause c fallbackError) c error := by
  intro hreach
  have hagree : ∀ z, ¬ z = error → paired cause c fallbackError z =
      paired (paired cause error closeError) c fallbackError z := fun z hz => (paired_swap hz).symm
  obtain ⟨x, rfl, hx⟩ := hreach.meets hagree rfl
  exact h hx

/-- Both strands are chains that end and have nothing in common, exactly when they are
sound and apart. -/
theorem paired_iff (herror : ∀ e ∈ error :: closeError.toList, Ends cause e)
    (hcleanup : ∀ e ∈ c :: fallbackError.toList, Ends cause e) :
    (Ends (paired (paired cause error closeError) c fallbackError) error ∧
      Ends (paired (paired cause error closeError) c fallbackError) c ∧
      ∀ x, Reaches (paired (paired cause error closeError) c fallbackError) error x →
        ¬ Reaches (paired (paired cause error closeError) c fallbackError) c x) ↔
    Sound cause (error :: closeError.toList) ∧ Sound cause (c :: fallbackError.toList) ∧
      ∀ x, Strand cause (error :: closeError.toList) x →
        ¬ Strand cause (c :: fallbackError.toList) x := by
  constructor
  · rintro ⟨hends, hcends, hapart⟩
    obtain ⟨hreaches, hends'⟩ := paired_error_chain fun h => hapart c h ReflTransGen.refl
    obtain ⟨hcreaches, hcends'⟩ := paired_cleanup_chain closeError
      (cleanup_apart_of_paired (hapart error ReflTransGen.refl))
    have hsound := (ends_paired_iff herror).1 (hends'.1 hends)
    have hcsound := (ends_paired_iff hcleanup).1 (hcends'.1 hcends)
    refine ⟨hsound, hcsound, fun x hx hcx => ?_⟩
    rw [← reaches_paired_iff hsound, ← hreaches] at hx
    rw [← reaches_paired_iff hcsound, ← hcreaches] at hcx
    exact hapart x hx hcx
  · rintro ⟨hsound, hcsound, hapart⟩
    have hc : ¬ Reaches (paired cause error closeError) error c := by
      rw [reaches_paired_iff hsound]
      exact fun h => hapart c h strand_self
    have he : ¬ Reaches (paired cause c fallbackError) c error := by
      rw [reaches_paired_iff hcsound]
      exact fun h => hapart error strand_self h
    obtain ⟨hcreaches, hcends'⟩ := paired_cleanup_chain closeError he
    refine ⟨(ends_paired_of_apart hc).2 ((ends_paired_iff herror).2 hsound),
      hcends'.2 ((ends_paired_iff hcleanup).2 hcsound), fun x hx hcx => ?_⟩
    rw [reaches_paired_of_apart hc, reaches_paired_iff hsound] at hx
    rw [hcreaches, reaches_paired_iff hcsound] at hcx
    exact hapart x hx hcx

/-- What the two chains pass then. -/
theorem reaches_paired_pair (hsound : Sound cause (error :: closeError.toList))
    (hcsound : Sound cause (c :: fallbackError.toList))
    (hapart : ∀ x, Strand cause (error :: closeError.toList) x →
      ¬ Strand cause (c :: fallbackError.toList) x) :
    (Reaches (paired (paired cause error closeError) c fallbackError) error x ↔
      Strand cause (error :: closeError.toList) x) ∧
    (Reaches (paired (paired cause error closeError) c fallbackError) c x ↔
      Strand cause (c :: fallbackError.toList) x) := by
  have hc : ¬ Reaches (paired cause error closeError) error c := by
    rw [reaches_paired_iff hsound]
    exact fun h => hapart c h strand_self
  have he : ¬ Reaches (paired cause c fallbackError) c error := by
    rw [reaches_paired_iff hcsound]
    exact fun h => hapart error strand_self h
  obtain ⟨hcreaches, -⟩ := paired_cleanup_chain closeError he
  rw [reaches_paired_of_apart hc, reaches_paired_iff hsound, hcreaches,
    reaches_paired_iff hcsound]
  exact ⟨Iff.rfl, Iff.rfl⟩

end Spliced

/-! ## Nothing is lost -/

section Covered

variable {cause : α → Option α} {publication cleanup : List α}

/-- The strands are closed under the causes when the overwritten ones are among them. -/
theorem strand_step {errors : List α} {kept : α → Prop} (hcovered : Covered cause kept errors)
    (hkept : ∀ x, Strand cause errors x → kept x) {x y : α} (hx : Strand cause errors x)
    (hxy : cause x = some y) : kept y := by
  match errors, hcovered, hkept, hx with
  | [error], _, hkept, hx => exact hkept y (ReflTransGen.tail hx hxy)
  | error :: closeError :: rest, hcovered, hkept, hx =>
      rcases hx with rfl | hx
      · exact hcovered y hxy
      · exact hkept y (Or.inr (hx.tail hxy))

theorem strand_head {error : α} {rest : List α} : Strand cause (error :: rest) error := by
  cases rest with
  | nil => exact ReflTransGen.refl
  | cons closeError rest => exact Or.inl rfl

/-- Every error of a side is on its strand. -/
theorem strand_mem {error : α} {closeError : Option α} {e : α}
    (he : e ∈ error :: closeError.toList) : Strand cause (error :: closeError.toList) e := by
  rcases List.mem_cons.1 he with rfl | he
  · exact strand_head
  · obtain rfl := Option.mem_toList.1 he
    exact Or.inr ReflTransGen.refl

/-- All errors with all their causes are on the strands exactly when the overwritten
causes are. -/
theorem covered_iff
    (hpublication : ∀ e ∈ publication, Strand cause publication e)
    (hcleanup : ∀ e ∈ cleanup, Strand cause cleanup e) :
    (∀ e ∈ publication ++ cleanup, ∀ x, Reaches cause e x →
      Strand cause publication x ∨ Strand cause cleanup x) ↔
    Covered cause (fun x => Strand cause publication x ∨ Strand cause cleanup x) publication ∧
      Covered cause (fun x => Strand cause publication x ∨ Strand cause cleanup x) cleanup := by
  constructor
  · intro hall
    have hside : ∀ errors : List α, (∀ e ∈ errors, e ∈ publication ++ cleanup) →
        Covered cause (fun x => Strand cause publication x ∨ Strand cause cleanup x) errors := by
      intro errors hsub
      match errors, hsub with
      | [], _ => trivial
      | [_], _ => trivial
      | error :: closeError :: rest, hsub =>
          exact fun x hx => hall error (hsub error (by simp)) x (ReflTransGen.single hx)
    exact ⟨hside publication fun e he => List.mem_append_left _ he,
      hside cleanup fun e he => List.mem_append_right _ he⟩
  · rintro ⟨hcovered, hcovered'⟩ e he x hx
    have hstart : Strand cause publication e ∨ Strand cause cleanup e :=
      (List.mem_append.1 he).imp (hpublication e) (hcleanup e)
    induction hx with
    | refl => exact hstart
    | tail _ hstep ih =>
        rcases ih with hside | hside
        · exact strand_step hcovered (fun _ => Or.inl) hside hstep
        · exact strand_step hcovered' (fun _ => Or.inr) hside hstep

end Covered

/-! ## The functions -/

section Functions

variable {F : Faults α} {cause : α → Option α} {error : α} {s : State α}

/-- What `_write_pid` does when it fails and everything it meets is an `Exception`. -/
theorem writePid_spec (hfail : F.publicationErrors.head? = some error)
    (hcaught : ∀ e ∈ F.publicationErrors, F.isException e = true) :
    ∃ closeError : Option α, F.publicationErrors = error :: closeError.toList ∧
      F.writePid s = (some error, { s with cause := paired s.cause error closeError }) := by
  unfold Faults.publicationErrors at hfail hcaught ⊢
  unfold Faults.writePid
  cases hopen : F.openError with
  | some e =>
      simp only [hopen, List.head?_cons, Option.some.injEq] at hfail
      subst hfail
      exact ⟨none, rfl, rfl⟩
  | none =>
      simp only [hopen] at hfail hcaught ⊢
      cases hop : F.operationError with
      | none =>
          cases hclose : F.closeError with
          | none => simp [hop, hclose] at hfail
          | some e =>
              simp only [hop, hclose, Option.toList_none, Option.toList_some, List.nil_append,
                List.head?_cons, Option.some.injEq] at hfail
              subst hfail
              exact ⟨none, rfl, rfl⟩
      | some e =>
          simp only [hop, Option.toList_some, List.singleton_append, List.head?_cons,
            Option.some.injEq] at hfail hcaught
          subst hfail
          cases hclose : F.closeError with
          | none => exact ⟨none, rfl, by simp [hcaught e (by simp), paired]⟩
          | some closeError =>
              have hboth := hcaught closeError (by simp [hclose])
              exact ⟨some closeError, rfl, by simp [hcaught e (by simp), hboth, paired,
                State.setCause]⟩

/-- An interrupt leaves `_write_pid` at once. -/
theorem writePid_interrupted (h : ∃ e ∈ F.publicationErrors, F.isException e = false) :
    ∃ interrupt, F.writePid s = (some interrupt, s) ∧ F.isException interrupt = false := by
  obtain ⟨e, he, hkind⟩ := h
  unfold Faults.publicationErrors at he
  unfold Faults.writePid
  cases hopen : F.openError with
  | some e' =>
      simp only [hopen, List.mem_singleton] at he
      subst he
      exact ⟨e, rfl, hkind⟩
  | none =>
      simp only [hopen] at he ⊢
      cases hop : F.operationError with
      | none =>
          simp only [hop, Option.toList_none, List.nil_append, Option.mem_toList] at he
          exact ⟨e, by rw [Option.mem_def.1 he], hkind⟩
      | some e' =>
          simp only [hop, Option.toList_some, List.singleton_append, List.mem_cons] at he ⊢
          cases hkind' : F.isException e' with
          | false => exact ⟨e', by simp, hkind'⟩
          | true =>
              rcases he with rfl | he
              · rw [hkind] at hkind'
                cases hkind'
              · have hclose : F.closeError = some e := Option.mem_toList.1 he
                exact ⟨e, by simp [hclose, hkind], hkind⟩

/-- The state after a rollback that meets these errors. -/
def State.rolledBack (s : State α) (releaseClears : Bool) (cleanup : List α) : State α where
  cause := match cleanup with
    | [] => s.cause
    | e :: rest => paired s.cause e rest.head?
  innerLock := false
  innerFh := false
  acquiredLock := false
  fallbackTried := s.fallbackTried || !releaseClears

/-- What the rollback does when everything it meets is an `Exception`. -/
theorem rollback_spec (hfh : s.innerFh = true)
    (hcaught : ∀ e ∈ F.cleanupErrors, F.isException e = true) :
    F.rollbackFailedAcquire s =
      (.ok F.cleanupErrors.head?, s.rolledBack F.releaseClears F.cleanupErrors) := by
  unfold Faults.cleanupErrors at hcaught ⊢
  unfold Faults.rollbackFailedAcquire Faults.closeLeft
  cases hrelease : F.releaseError <;> cases hclears : F.releaseClears <;>
    cases hfallback : F.fallbackError <;>
    simp only [hrelease, hclears, hfallback, Option.toList_none, Option.toList_some,
      List.nil_append, List.singleton_append, List.append_nil, if_true, Bool.false_eq_true,
      if_false, List.mem_cons, List.not_mem_nil, forall_eq_or_imp,
      forall_eq, or_false] at hcaught <;>
    simp [hfh, hcaught, Faults.resetAttributes, State.rolledBack, State.setCause, paired]

/-- An interrupt leaves the rollback. -/
theorem rollback_interrupted (hfh : s.innerFh = true)
    (h : ∃ e ∈ F.cleanupErrors, F.isException e = false) :
    ∃ interrupt s', F.rollbackFailedAcquire s = (.error interrupt, s') ∧
      F.isException interrupt = false := by
  obtain ⟨e, he, hkind⟩ := h
  unfold Faults.cleanupErrors at he
  have hfallback : e ∈ (if F.releaseClears then [] else F.fallbackError.toList) →
      F.releaseClears = false ∧ F.fallbackError = some e := by
    intro hmem
    cases hclears : F.releaseClears with
    | true => simp [hclears] at hmem
    | false => exact ⟨rfl, by simpa [hclears] using hmem⟩
  unfold Faults.rollbackFailedAcquire Faults.closeLeft
  cases hrelease : F.releaseError with
  | none =>
      obtain ⟨hclears, hclose⟩ := hfallback (by simpa [hrelease] using he)
      exact ⟨e, _, by simp [hfh, hclears, hclose, hkind, Faults.resetAttributes]; rfl, hkind⟩
  | some r =>
      cases hkind' : F.isException r with
      | false => exact ⟨r, _, by simp [hkind']; rfl, hkind'⟩
      | true =>
          have hne : e ≠ r := by
            rintro rfl
            rw [hkind] at hkind'
            cases hkind'
          have hmem : e ∈ (if F.releaseClears then [] else F.fallbackError.toList) := by
            simpa [hrelease, hne] using he
          obtain ⟨hclears, hclose⟩ := hfallback hmem
          exact ⟨e, _, by simp [hfh, hclears, hclose, hkind, hkind', Faults.resetAttributes]; rfl,
            hkind⟩

/-- The handler, when the rollback returns no error. -/
theorem handle_quiet (hfh : s.innerFh = true) (hcleanup : F.cleanupErrors = []) (fuel : Nat) :
    F.handlePublicationError fuel error s = some (error, s.rolledBack F.releaseClears []) := by
  have hrollback : F.rollbackFailedAcquire s = (.ok none, s.rolledBack F.releaseClears []) := by
    have hspec := rollback_spec hfh (F := F) (by simp [hcleanup])
    rwa [hcleanup] at hspec
  simp [Faults.handlePublicationError, hrollback]

/-- The handler, when the rollback returns an error whose chain ends. -/
theorem handle_splices (error : α) {c : α} {rest : List α} (hfh : s.innerFh = true)
    (hcaught : ∀ e ∈ F.cleanupErrors, F.isException e = true)
    (hcleanup : F.cleanupErrors = c :: rest)
    (hends : Ends (s.rolledBack F.releaseClears (c :: rest)).cause c) :
    ∃ t n, Reaches (s.rolledBack F.releaseClears (c :: rest)).cause c t ∧
      (s.rolledBack F.releaseClears (c :: rest)).cause t = none ∧
      ∀ fuel, n ≤ fuel → F.handlePublicationError fuel error s =
        some (error, { s.rolledBack F.releaseClears (c :: rest) with
          cause := spliced (s.rolledBack F.releaseClears (c :: rest)).cause error c t }) := by
  have hrollback := rollback_spec hfh hcaught
  rw [hcleanup] at hrollback
  obtain ⟨t, n, htail⟩ := hends.tail
  obtain ⟨hreach, hlast⟩ := tail_spec (htail n (Nat.le_refl n))
  refine ⟨t, n, hreach, hlast, fun fuel hfuel => ?_⟩
  simp only [Faults.handlePublicationError, hrollback, List.head?_cons]
  unfold spliced
  cases hp : (s.rolledBack F.releaseClears (c :: rest)).cause error with
  | none => rfl
  | some p =>
      simp only [htail fuel hfuel]
      rfl

/-- The handler ends with a finite chain only if the chain of the cleanup error ends. -/
theorem handle_ends {c error' : α} {rest : List α} {s' : State α} {fuel : Nat}
    (hfh : s.innerFh = true) (hcaught : ∀ e ∈ F.cleanupErrors, F.isException e = true)
    (hcleanup : F.cleanupErrors = c :: rest)
    (h : F.handlePublicationError fuel error s = some (error', s'))
    (hends : Ends s'.cause error) : Ends (s.rolledBack F.releaseClears (c :: rest)).cause c := by
  have hrollback := rollback_spec hfh hcaught
  rw [hcleanup] at hrollback
  simp only [Faults.handlePublicationError, hrollback, List.head?_cons] at h
  cases hp : (s.rolledBack F.releaseClears (c :: rest)).cause error with
  | none =>
      simp only [hp, Option.some.injEq, Prod.mk.injEq] at h
      obtain ⟨-, rfl⟩ := h
      exact (ends_link_iff.1 hends).1
  | some p =>
      simp only [hp, Option.map_eq_some_iff] at h
      obtain ⟨t, htail, -⟩ := h
      obtain ⟨hreach, hlast⟩ := tail_spec htail
      exact (ends_iff_of_reaches hreach).2 (.stop hlast)

/-- The state in which the handler begins. -/
theorem acquire_of_failure (cause : α → Option α)
    (hfail : F.publicationErrors.head? = some error)
    (hcaught : ∀ e ∈ F.publicationErrors, F.isException e = true) :
    ∃ closeError : Option α, F.publicationErrors = error :: closeError.toList ∧
      ∀ fuel, F.acquire fuel (.start cause) = (F.handlePublicationError fuel error
        { State.start cause with cause := paired cause error closeError }).map
          fun r => (some r.1, r.2) := by
  obtain ⟨closeError, hlist, hwrite⟩ := writePid_spec (s := .start cause) hfail hcaught
  refine ⟨closeError, hlist, fun fuel => ?_⟩
  have hkind : F.isException error = true := hcaught error (by simp [hlist])
  simp only [Faults.acquire, hwrite, hkind, if_true]
  rfl

/-- After an interrupt the call does not do what is asked. -/
theorem not_transactional_of_interrupt (hfail : F.publicationErrors.head? = some error)
    (h : ∃ e ∈ F.errors, F.isException e = false) : ¬ F.Transactional cause error := by
  rintro ⟨s, ⟨n, hn⟩, -, -, -, hinner, -⟩
  have hrun := hn n (Nat.le_refl n)
  by_cases hcaught : ∀ e ∈ F.publicationErrors, F.isException e = true
  · -- the interrupt comes from the rollback, and replaces the publication error
    obtain ⟨e, he, hkind⟩ := h
    have hcleanup : ∃ e ∈ F.cleanupErrors, F.isException e = false := by
      rcases List.mem_append.1 he with he | he
      · rw [hcaught e he] at hkind
        cases hkind
      · exact ⟨e, he, hkind⟩
    obtain ⟨closeError, hlist, hacquire⟩ := acquire_of_failure cause hfail hcaught
    obtain ⟨interrupt, s', hrollback, hinterrupt⟩ := rollback_interrupted
      (s := { State.start cause with cause := paired cause error closeError }) rfl hcleanup
    rw [hacquire] at hrun
    simp only [Faults.handlePublicationError, hrollback, Option.map_some, Option.some.injEq,
      Prod.mk.injEq] at hrun
    have herror : F.isException error = true := hcaught error (by simp [hlist])
    rw [hrun.1, herror] at hinterrupt
    cases hinterrupt
  · have hpub : ∃ e ∈ F.publicationErrors, F.isException e = false := by
      simpa using hcaught
    obtain ⟨interrupt, hwrite, hkind⟩ := writePid_interrupted (s := .start cause) hpub
    simp only [Faults.acquire, hwrite, hkind, Bool.false_eq_true, if_false, Option.some.injEq,
      Prod.mk.injEq] at hrun
    rw [← hrun.2] at hinner
    cases hinner

/-- The rollback meets nothing, or an error and perhaps one of the fallback close. -/
theorem cleanupErrors_cases (F : Faults α) : F.cleanupErrors = [] ∨
    ∃ (c : α) (fallbackError : Option α), F.cleanupErrors = c :: fallbackError.toList := by
  unfold Faults.cleanupErrors
  cases F.releaseError with
  | some c =>
      cases F.releaseClears with
      | true => exact Or.inr ⟨c, none, rfl⟩
      | false => exact Or.inr ⟨c, F.fallbackError, rfl⟩
  | none =>
      cases F.releaseClears with
      | true => exact Or.inl rfl
      | false =>
          cases F.fallbackError with
          | none => exact Or.inl rfl
          | some c => exact Or.inr ⟨c, none, rfl⟩

theorem spliceable_iff {publication cleanup : List α}
    (hpublication : ∀ e ∈ publication, Strand cause publication e)
    (hcleanup : ∀ e ∈ cleanup, Strand cause cleanup e) :
    Spliceable cause publication cleanup ↔
      (Sound cause publication ∧ Sound cause cleanup ∧
        ∀ x, Strand cause publication x → ¬ Strand cause cleanup x) ∧
      ∀ e ∈ publication ++ cleanup, ∀ x, Reaches cause e x →
        Strand cause publication x ∨ Strand cause cleanup x := by
  rw [covered_iff hpublication hcleanup]
  exact ⟨fun h => ⟨⟨h.1, h.2, h.3⟩, h.4, h.5⟩, fun h => ⟨h.1.1, h.1.2.1, h.1.2.2, h.2.1, h.2.2⟩⟩

/-- A rollback without an error. -/
theorem transactional_iff_of_quiet (hfail : F.publicationErrors.head? = some error)
    (hcaught : ∀ e ∈ F.publicationErrors, F.isException e = true)
    (hfinite : ∀ e ∈ F.publicationErrors, Ends cause e) (hcleanup : F.cleanupErrors = []) :
    F.Transactional cause error ↔ Spliceable cause F.publicationErrors F.cleanupErrors := by
  obtain ⟨closeError, hlist, hacquire⟩ := acquire_of_failure cause hfail hcaught
  rw [hlist] at hfinite
  rw [hcleanup, hlist, spliceable_iff (fun e he => strand_mem he) (by simp)]
  have hrun : ∀ fuel, F.acquire fuel (.start cause) = some (some error,
      { State.start cause with cause := paired cause error closeError }.rolledBack
        F.releaseClears []) := by
    intro fuel
    rw [hacquire, handle_quiet rfl hcleanup]
    rfl
  have herrors : F.errors = error :: closeError.toList ++ [] := by
    rw [Faults.errors, hlist, hcleanup]
  constructor
  · rintro ⟨s, ⟨n, hn⟩, hends, hall, -⟩
    have hsame := hn n (Nat.le_refl n)
    rw [hrun] at hsame
    obtain ⟨-, rfl⟩ := Prod.mk.inj (Option.some.inj hsame)
    have hsound := (ends_paired_iff hfinite).1 hends
    refine ⟨⟨hsound, trivial, fun _ _ h => h⟩, fun e he x hx => Or.inl ?_⟩
    exact (reaches_paired_iff hsound).1 (hall e (herrors ▸ he) x hx)
  · rintro ⟨⟨hsound, -, -⟩, hall⟩
    refine ⟨_, ⟨0, fun fuel _ => hrun fuel⟩, (ends_paired_iff hfinite).2 hsound, ?_, ?_, rfl, rfl,
      rfl⟩
    · intro e he x hx
      rcases hall e (herrors ▸ he) x hx with hside | hside
      · exact (reaches_paired_iff hsound).2 hside
      · exact hside.elim
    · intro hclears
      simp [State.rolledBack, hclears]

/-- A rollback with an error. -/
theorem transactional_iff_of_cleanup {c : α} {fallbackError : Option α}
    (hfail : F.publicationErrors.head? = some error)
    (hcaught : ∀ e ∈ F.errors, F.isException e = true) (hfinite : ∀ e ∈ F.errors, Ends cause e)
    (hcleanup : F.cleanupErrors = c :: fallbackError.toList) :
    F.Transactional cause error ↔ Spliceable cause F.publicationErrors F.cleanupErrors := by
  have hcaught' : ∀ e ∈ F.cleanupErrors, F.isException e = true := fun e he =>
    hcaught e (List.mem_append_right _ he)
  obtain ⟨closeError, hlist, hacquire⟩ := acquire_of_failure cause hfail fun e he =>
    hcaught e (List.mem_append_left _ he)
  have herrors : F.errors = error :: closeError.toList ++ (c :: fallbackError.toList) := by
    rw [Faults.errors, hlist, hcleanup]
  have hfinite₁ : ∀ e ∈ error :: closeError.toList, Ends cause e := fun e he =>
    hfinite e (herrors ▸ List.mem_append_left _ he)
  have hfinite₂ : ∀ e ∈ c :: fallbackError.toList, Ends cause e := fun e he =>
    hfinite e (herrors ▸ List.mem_append_right _ he)
  have hcause : ({ State.start cause with cause := paired cause error closeError }.rolledBack
      F.releaseClears (c :: fallbackError.toList)).cause =
        paired (paired cause error closeError) c fallbackError := by
    cases fallbackError <;> rfl
  rw [hcleanup, hlist, spliceable_iff (fun e he => strand_mem he) (fun e he => strand_mem he)]
  constructor
  · rintro ⟨s, ⟨n, hn⟩, hends, hall, -⟩
    have hrun := hn n (Nat.le_refl n)
    rw [hacquire, Option.map_eq_some_iff] at hrun
    obtain ⟨⟨error', s'⟩, hhandle, hsame⟩ := hrun
    obtain ⟨-, rfl⟩ := Prod.mk.inj hsame
    have hcends := handle_ends rfl hcaught' hcleanup hhandle hends
    obtain ⟨t, n', hreach, hlast, hsplices⟩ :=
      handle_splices error rfl hcaught' hcleanup hcends
    have hagain := hn (max n n') (Nat.le_max_left n n')
    rw [hacquire, hsplices _ (Nat.le_max_right n n')] at hagain
    obtain ⟨-, rfl⟩ := Prod.mk.inj (Option.some.inj hagain)
    simp only [hcause] at hends hall hcends hreach hlast
    obtain ⟨herror, hapart⟩ := (ends_spliced_iff hreach hlast).1 hends
    have hparts := (paired_iff hfinite₁ hfinite₂).1 ⟨herror, hcends, hapart⟩
    refine ⟨hparts, fun e he x hx => ?_⟩
    obtain ⟨hfirst, hsecond⟩ := reaches_paired_pair (x := x) hparts.1 hparts.2.1 hparts.2.2
    rw [← hfirst, ← hsecond, ← reaches_spliced_iff hreach hlast hapart herror]
    exact hall e (herrors ▸ he) x hx
  · rintro ⟨hparts, hall⟩
    obtain ⟨herror, hcends, hapart⟩ := (paired_iff hfinite₁ hfinite₂).2 hparts
    obtain ⟨t, n, hreach, hlast, hsplices⟩ := handle_splices error rfl hcaught' hcleanup
      (s := { State.start cause with cause := paired cause error closeError })
      (by rw [hcause]; exact hcends)
    refine ⟨_, ⟨n, fun fuel hfuel => by rw [hacquire, hsplices fuel hfuel]; rfl⟩, ?_, ?_, ?_, rfl,
      rfl, rfl⟩
    · simp only [hcause] at hreach hlast ⊢
      exact (ends_spliced_iff hreach hlast).2 ⟨herror, hapart⟩
    · intro e he x hx
      simp only [hcause] at hreach hlast ⊢
      obtain ⟨hfirst, hsecond⟩ := reaches_paired_pair (x := x) hparts.1 hparts.2.1 hparts.2.2
      rw [reaches_spliced_iff hreach hlast hapart herror, hfirst, hsecond]
      exact hall e (herrors ▸ he) x hx
    · intro hclears
      simp [State.rolledBack, hclears]

end Functions

/-- A failed publication is undone with all its errors in one chain exactly when nothing
that was raised is an interrupt and the errors can be spliced: a close error that was put
behind an error did not come from it, the chains of the two sides have no exception in
common, and a cause that was overwritten, if there was one, is on one of them anyway. -/
theorem publication_transactional_iff (F : Faults α) (cause : α → Option α) {error : α}
    (hfail : F.publicationErrors.head? = some error)
    (hfinite : ∀ e ∈ F.errors, Ends cause e) :
    F.Transactional cause error ↔ (∀ e ∈ F.errors, F.isException e = true) ∧
      Spliceable cause F.publicationErrors F.cleanupErrors := by
  by_cases hcaught : ∀ e ∈ F.errors, F.isException e = true
  · rw [and_iff_right hcaught]
    rcases cleanupErrors_cases F with hcleanup | ⟨c, fallbackError, hcleanup⟩
    · exact transactional_iff_of_quiet hfail (fun e he => hcaught e (List.mem_append_left _ he))
        (fun e he => hfinite e (List.mem_append_left _ he)) hcleanup
    · exact transactional_iff_of_cleanup hfail hcaught hfinite hcleanup
  · refine iff_of_false (not_transactional_of_interrupt hfail ?_) fun h => hcaught h.1
    simpa using hcaught

/-- Writing the PID fails with `0` and closing the pid file with `1`; the release of the
inner lock fails with `2`, leaves the handle, and closing that fails with `3`. -/
def Faults.everywhere : Faults Nat where
  isException _ := true
  notSupported _ := false
  openError := none
  stepError step := if step = .write then some 0 else none
  closeError := some 1
  releaseError := some 2
  releaseClears := false
  fallbackError := some 3

/-- No error had a cause before: all four are in one chain. -/
theorem publication_transactional_iff_run :
    Faults.everywhere.Transactional (fun _ => none) 0 := by
  refine (publication_transactional_iff Faults.everywhere (fun _ => none) rfl
    fun e _ => .stop rfl).2 ⟨fun _ _ => rfl, ?_⟩
  have hsingle : ∀ {a x : Nat}, Reaches (fun _ : Nat => none) a x → x = a :=
    fun h => h.of_none rfl
  have hstrands : ∀ {a b x : Nat}, Strand (fun _ => none) [a, b] x → x = a ∨ x = b :=
    fun h => h.imp id hsingle
  refine ⟨fun h => ?_, fun h => ?_, fun x hx hx' => ?_, fun x hx => (by cases hx),
    fun x hx => (by cases hx)⟩
  · have := hsingle h
    omega
  · have := hsingle h
    omega
  · have := hstrands hx
    have := hstrands hx'
    omega

/-- Opening the pid file fails with `0`; the release fails with `2`, which was raised from
`4`, and leaves the handle, and closing that fails with `3`. -/
def Faults.releaseFromCause : Faults Nat where
  isException _ := true
  notSupported _ := false
  openError := some 0
  stepError _ := none
  closeError := none
  releaseError := some 2
  releaseClears := false
  fallbackError := some 3

/-- The error of the fallback close takes the place of the cause that the release error
had. -/
theorem fallback_close_hides_cause :
    ¬ ∀ (F : Faults Nat) (cause : Nat → Option Nat) (error : Nat),
      F.publicationErrors.head? = some error → (∀ e ∈ F.errors, F.isException e = true) →
      (∀ e ∈ F.errors, Ends cause e) → F.Transactional cause error := by
  intro hclaim
  have hlast : Ends (link (fun _ => none) 2 4) 4 := .stop (by decide)
  have hends : ∀ e ∈ Faults.releaseFromCause.errors, Ends (link (fun _ => none) 2 4) e := by
    intro e he
    have hmem : e = 0 ∨ e = 2 ∨ e = 3 := by
      simpa [Faults.errors, Faults.publicationErrors, Faults.cleanupErrors,
        Faults.releaseFromCause] using he
    rcases hmem with rfl | rfl | rfl
    · exact .stop (by decide)
    · exact .step (by decide) hlast
    · exact .stop (by decide)
  obtain ⟨s, ⟨n, hn⟩, -, hall, -⟩ := hclaim Faults.releaseFromCause (link (fun _ => none) 2 4) 0
    rfl (fun _ _ => rfl) hends
  have hrun := hn n (Nat.le_refl n)
  obtain ⟨-, rfl⟩ := Prod.mk.inj (Option.some.inj hrun)
  have hlost := hall 2 (by decide) 4 (ReflTransGen.single (by decide))
  -- the chain is 0, 2, 3
  rcases ReflTransGen.cases_head hlost with heq | ⟨x, hx, hrest⟩
  · omega
  obtain rfl : 2 = x := Option.some.inj hx
  rcases ReflTransGen.cases_head hrest with heq | ⟨y, hy, hrest⟩
  · omega
  obtain rfl : 3 = y := Option.some.inj hy
  have hend := Reaches.of_none hrest (by rfl)
  omega

end Portalocker.Publication
