import Mathlib.Logic.Function.Basic
import Portalocker.Foundation.Chains
set_option autoImplicit false
set_option linter.unusedSectionVars false

/-!
# The errors a strict `with` block leaves behind

`Lock.release` and `Lock.__exit__` as they treat the exception objects: which one they
raise, and how they set `__cause__` and `__context__`.  The exceptions are a heap of
links; the interpreter sets the context of whatever is raised while another exception is
being handled.  Following `__cause__` where it is set and `__context__` where it is not,
a traceback starts from the exception that leaves the block.
-/

namespace Portalocker

open Chains Relation

variable {α : Type} [DecidableEq α]

/-- The links between the exception objects `α`. -/
structure ErrorHeap (α : Type) where
  cause : α → Option α
  context : α → Option α

namespace ErrorHeap

/-- What follows an exception in a traceback: `__cause__` when it is set, and otherwise
`__context__`. -/
def chain (H : ErrorHeap α) (e : α) : Option α :=
  match H.cause e with
  | some c => some c
  | none => H.context e

/-- `b` is linked from `a` in either way. -/
def Behind (H : ErrorHeap α) (a b : α) : Prop := H.cause a = some b ∨ H.context a = some b

def setCause (H : ErrorHeap α) (e : α) (v : Option α) : ErrorHeap α :=
  { H with cause := Function.update H.cause e v }

def setContext (H : ErrorHeap α) (e : α) (v : Option α) : ErrorHeap α :=
  { H with context := Function.update H.context e v }

/-- `raise e`: the interpreter sets the context of `e` to the exception being handled. -/
def raised (H : ErrorHeap α) (handled : Option α) (e : α) : ErrorHeap α :=
  if handled = none ∨ handled = some e then H else H.setContext e handled

end ErrorHeap

/-! ## The two methods -/

namespace Strict

/-- `Lock.release` with `raise_on_release_error`, once unlock and close have both been
tried and have failed with these errors: the error it raises, and the heap then. -/
def release (unlockError closeError handled : Option α) (H : ErrorHeap α) :
    Option α × ErrorHeap α :=
  match unlockError.toList ++ closeError.toList with
  | [] => (none, H)
  | [primaryError] => (some primaryError, H.raised handled primaryError)
  | primaryError :: second :: _ =>
      (some primaryError, (H.setCause primaryError (some second)).raised handled primaryError)

/-- `Lock.__exit__`: the exception that leaves the block, and the heap then. -/
def exit (unlockError closeError excValue : Option α) (H : ErrorHeap α) :
    Option α × ErrorHeap α :=
  match excValue with
  | none => release unlockError closeError none H
  | some body =>
      match release unlockError closeError (some body) H with
      | (none, H') => (some body, H')
      | (some releaseError, H') =>
          let previousContext := H'.context body
          (some body, (H'.setContext releaseError previousContext).setContext body (some releaseError))

end Strict

/-! ## What may be there when the block is left -/

/-- The exception of the body and the errors of the release, when both have been tried: all
chains behind them are finite, and the errors are new. -/
structure ErrorHeap.Left (H : ErrorHeap α) (body : α) (errors : List α) : Prop where
  behind : Acc (fun b a => H.Behind a b) body
  finite : ∀ e ∈ errors, Acc (fun b a => H.Behind a b) e
  fresh : ∀ e ∈ errors, ¬ ReflTransGen H.Behind body e
  distinct : errors.Nodup

/-- The exception of the body leaves the block, its chain ends, and every error of the
release is on it. -/
def KeepsErrors (body : α) (errors : List α) (leaves : Option α) (H : ErrorHeap α) : Prop :=
  leaves = some body ∧ Ends H.chain body ∧ ∀ e ∈ errors, Reaches H.chain body e

/-- The exception of the body has no cause; and an error that was raised alone was not
raised from one whose chain comes back to the body's exception, or, if both calls failed,
the chain of the close error comes back neither to it nor to the unlock error. -/
def ErrorHeap.Separate (H : ErrorHeap α) (body : α) : List α → Prop
  | [] => True
  | [e] => H.cause body = none ∧ ∀ x, H.cause e = some x → ¬ Reaches H.chain x body
  | unlockError :: closeError :: _ =>
      H.cause body = none ∧ ¬ Reaches H.chain closeError body ∧
        ¬ Reaches H.chain closeError unlockError

/-! ## The links after the block -/

/-- The links after `__exit__` has put the release error `e`, whose cause is `cause` then,
between the exception of the body and its old context. -/
def ErrorHeap.linked (H : ErrorHeap α) (body e : α) (cause : Option α) : ErrorHeap α where
  cause := Function.update H.cause e cause
  context := Function.update (Function.update H.context e (H.context body)) body (some e)

section Linked

variable {H : ErrorHeap α} {body e x y : α} {cause : Option α}

theorem ErrorHeap.chain_behind (h : H.chain x = some y) : H.Behind x y := by
  unfold ErrorHeap.chain at h
  split at h
  · rename_i c hc
    exact Or.inl (hc.trans h)
  · exact Or.inr h

theorem ErrorHeap.reaches_behind (h : Reaches H.chain x y) : ReflTransGen H.Behind x y :=
  ReflTransGen.mono (fun _ _ hstep => ErrorHeap.chain_behind hstep) _ _ h

/-- A finite chain does not come back. -/
theorem ErrorHeap.not_back (hx : Acc (fun b a => H.Behind a b) x) (hxy : H.Behind x y) :
    ¬ ReflTransGen H.Behind y x := by
  intro hback
  have hcycle : TransGen H.Behind x x := TransGen.head' hxy hback
  have hswap : TransGen (fun b a => H.Behind a b) x x := transGen_swap.1 hcycle
  have hirrefl : ∀ z, Acc (TransGen fun b a => H.Behind a b) z →
      ¬ TransGen (fun b a => H.Behind a b) z z := by
    intro z hz
    induction hz with
    | intro z _ ih => exact fun hzz => ih z hzz hzz
  exact hirrefl x hx.transGen hswap

theorem ErrorHeap.ends_of_acc (hx : Acc (fun b a => H.Behind a b) x) : Ends H.chain x :=
  Ends.of_acc (fun _ _ h => ErrorHeap.chain_behind h) hx

theorem ErrorHeap.linked_chain (hbody : x ≠ body) (he : x ≠ e) :
    (H.linked body e cause).chain x = H.chain x := by
  simp [ErrorHeap.chain, ErrorHeap.linked, hbody, he]

theorem ErrorHeap.linked_chain_body (hne : e ≠ body) :
    (H.linked body e cause).chain body = match H.cause body with
      | some c => some c
      | none => some e := by
  simp [ErrorHeap.chain, ErrorHeap.linked, hne.symm]

theorem ErrorHeap.linked_chain_error (hne : e ≠ body) :
    (H.linked body e cause).chain e = match cause with
      | some c => some c
      | none => H.context body := by
  cases cause <;> simp [ErrorHeap.chain, ErrorHeap.linked, hne]

/-- A chain that passes neither the body's exception nor the error is left alone. -/
theorem ErrorHeap.linked_congr (hbody : ¬ Reaches H.chain x body) (he : ¬ Reaches H.chain x e) :
    ∀ z, Reaches H.chain x z → H.chain z = (H.linked body e cause).chain z := by
  intro z hz
  refine (ErrorHeap.linked_chain ?_ ?_).symm
  · rintro rfl
    exact hbody hz
  · rintro rfl
    exact he hz

/-- What the new links make of the chain from the body's exception. -/
theorem ErrorHeap.linked_keeps_iff (hbody : Acc (fun b a => H.Behind a b) body)
    (hfresh : ¬ ReflTransGen H.Behind body e)
    (hcause : ∀ x, cause = some x → Acc (fun b a => H.Behind a b) x) :
    (Ends (H.linked body e cause).chain body ∧ Reaches (H.linked body e cause).chain body e) ↔
      H.cause body = none ∧
        ∀ x, cause = some x → ¬ Reaches H.chain x body ∧ ¬ Reaches H.chain x e := by
  have hne : e ≠ body := by
    rintro rfl
    exact hfresh ReflTransGen.refl
  -- a chain that begins behind the body's exception meets neither of the two
  have haway : ∀ k, H.Behind body k → ¬ Reaches H.chain k body ∧ ¬ Reaches H.chain k e := by
    intro k hk
    refine ⟨fun hback => ErrorHeap.not_back hbody hk (ErrorHeap.reaches_behind hback),
      fun hhit => ?_⟩
    exact hfresh (ReflTransGen.head hk (ErrorHeap.reaches_behind hhit))
  constructor
  · rintro ⟨hends, hreaches⟩
    have hnone : H.cause body = none := by
      cases hk : H.cause body with
      | none => rfl
      | some k =>
          have hnext : (H.linked body e cause).chain body = some k := by
            rw [ErrorHeap.linked_chain_body hne, hk]
          obtain ⟨hkbody, hke⟩ := haway k (Or.inl hk)
          rcases ReflTransGen.cases_head hreaches with heq | ⟨z, hz, hrest⟩
          · exact absurd heq.symm hne
          · rw [hnext] at hz
            obtain rfl := Option.some.inj hz
            exact absurd ((reaches_congr (ErrorHeap.linked_congr hkbody hke)).2 hrest) hke
    refine ⟨hnone, fun x hx => ?_⟩
    have hfirst : (H.linked body e cause).chain body = some e := by
      rw [ErrorHeap.linked_chain_body hne, hnone]
    have hsecond : (H.linked body e cause).chain e = some x := by
      rw [ErrorHeap.linked_chain_error hne, hx]
    -- the chain from `x` would lead back to the error
    have hagree : ∀ z, ¬ (z = body ∨ z = e) → H.chain z = (H.linked body e cause).chain z := by
      intro z hz
      rw [not_or] at hz
      exact (ErrorHeap.linked_chain hz.1 hz.2).symm
    have hloop : ∀ z, z = body ∨ z = e → Reaches H.chain x z → False := by
      intro z hz hreach
      obtain ⟨y, hy, hyreach⟩ := hreach.meets hagree hz
      have hback : Reaches (H.linked body e cause).chain x e := by
        rcases hy with rfl | rfl
        · exact hyreach.tail hfirst
        · exact hyreach
      have hcycle : ¬ Ends (H.linked body e cause).chain e :=
        not_ends_of_cycle (TransGen.head' hsecond hback)
      exact hcycle ((ends_iff_of_next hfirst).1 hends)
    exact ⟨hloop body (Or.inl rfl), hloop e (Or.inr rfl)⟩
  · rintro ⟨hnone, hapart⟩
    have hfirst : (H.linked body e cause).chain body = some e := by
      rw [ErrorHeap.linked_chain_body hne, hnone]
    refine ⟨(ends_iff_of_next hfirst).2 ?_, ReflTransGen.single hfirst⟩
    cases hc : cause with
    | some x =>
        have hsecond : (H.linked body e (some x)).chain e = some x :=
          ErrorHeap.linked_chain_error hne
        obtain ⟨hxbody, hxe⟩ := hapart x hc
        exact (ends_iff_of_next hsecond).2
          ((ErrorHeap.ends_of_acc (hcause x hc)).congr (ErrorHeap.linked_congr hxbody hxe))
    | none =>
        have hsecond : (H.linked body e none).chain e = H.context body :=
          ErrorHeap.linked_chain_error hne
        cases hp : H.context body with
        | none => exact .stop (hsecond.trans hp)
        | some k =>
            obtain ⟨hkbody, hke⟩ := haway k (Or.inr hp)
            exact (ends_iff_of_next (hsecond.trans hp)).2
              ((ErrorHeap.ends_of_acc (hbody.inv (Or.inr hp))).congr
                (ErrorHeap.linked_congr hkbody hke))

end Linked

/-! ## The block -/

section Exit

variable {H : ErrorHeap α} {body : α}

/-- Raising an error while the body's exception is handled, and putting it before the old
context of that exception. -/
theorem ErrorHeap.relink (G : ErrorHeap α) {e : α} (hne : e ≠ body) :
    (((G.raised (some body) e).setContext e ((G.raised (some body) e).context body)).setContext
      body (some e)) = ⟨G.cause, Function.update (Function.update G.context e (G.context body))
        body (some e)⟩ := by
  have hhandled : ¬ (some body = none ∨ some body = some e) := by
    rintro (hnone | hsame)
    · cases hnone
    · exact hne (Option.some.inj hsame).symm
  rw [ErrorHeap.raised, if_neg hhandled]
  simp [ErrorHeap.setContext, hne.symm]

theorem Strict.exit_of_release {unlockError closeError : Option α} {e : α} {G : ErrorHeap α}
    (h : Strict.release unlockError closeError (some body) H = (some e, G)) :
    Strict.exit unlockError closeError (some body) H =
      (some body, (G.setContext e (G.context body)).setContext body (some e)) := by
  simp only [Strict.exit, h]

theorem Strict.exit_alone {e : α} (hne : e ≠ body) {unlockError closeError : Option α}
    (halone : unlockError.toList ++ closeError.toList = [e]) :
    Strict.exit unlockError closeError (some body) H =
      (some body, H.linked body e (H.cause e)) := by
  have hrelease : Strict.release unlockError closeError (some body) H =
      (some e, H.raised (some body) e) := by
    unfold Strict.release
    rw [halone]
  rw [Strict.exit_of_release hrelease, ErrorHeap.relink H hne]
  simp [ErrorHeap.linked]

theorem Strict.exit_both {u c : α} (hne : u ≠ body) :
    Strict.exit (some u) (some c) (some body) H = (some body, H.linked body u (some c)) := by
  have hrelease : Strict.release (some u) (some c) (some body) H =
      (some u, (H.setCause u (some c)).raised (some body) u) := rfl
  rw [Strict.exit_of_release hrelease, ErrorHeap.relink (H.setCause u (some c)) hne]
  simp [ErrorHeap.linked, ErrorHeap.setCause]

/-- The errors that are left behind. -/
theorem ErrorHeap.Left.error {errors : List α} (h : H.Left body errors) {e : α} (he : e ∈ errors) :
    e ≠ body ∧ ¬ ReflTransGen H.Behind body e := by
  refine ⟨?_, h.fresh e he⟩
  rintro rfl
  exact h.fresh e he ReflTransGen.refl

end Exit

/-- Leaving a strict block with an exception: it is what leaves, and its chain ends and
passes every error of the release, exactly when the chains are separate. -/
theorem strict_exit_keeps_errors_iff (H : ErrorHeap α) (body : α)
    (unlockError closeError : Option α)
    (hleft : H.Left body (unlockError.toList ++ closeError.toList)) :
    KeepsErrors body (unlockError.toList ++ closeError.toList)
        (Strict.exit unlockError closeError (some body) H).1
        (Strict.exit unlockError closeError (some body) H).2 ↔
      H.Separate body (unlockError.toList ++ closeError.toList) := by
  -- one error: it keeps the cause it was raised with
  have halone : ∀ e, unlockError.toList ++ closeError.toList = [e] →
      (KeepsErrors body (unlockError.toList ++ closeError.toList)
        (Strict.exit unlockError closeError (some body) H).1
        (Strict.exit unlockError closeError (some body) H).2 ↔
      H.Separate body (unlockError.toList ++ closeError.toList)) := by
    intro e he
    have hmem : e ∈ unlockError.toList ++ closeError.toList := by
      rw [he]
      exact List.mem_singleton_self e
    obtain ⟨hne, hfresh⟩ := hleft.error hmem
    have hfinite : ∀ x, H.cause e = some x → Acc (fun b a => H.Behind a b) x :=
      fun x hx => (hleft.finite e hmem).inv (Or.inl hx)
    have hiff := ErrorHeap.linked_keeps_iff hleft.behind hfresh hfinite
    rw [Strict.exit_alone hne he, he]
    constructor
    · rintro ⟨-, hends, hreaches⟩
      obtain ⟨hnone, hapart⟩ := hiff.1 ⟨hends, hreaches e (List.mem_singleton_self e)⟩
      exact ⟨hnone, fun x hx => (hapart x hx).1⟩
    · rintro ⟨hnone, hapart⟩
      have hkeeps := hiff.2 ⟨hnone, fun x hx => ⟨hapart x hx, fun hback =>
        ErrorHeap.not_back (hleft.finite e hmem) (Or.inl hx) (ErrorHeap.reaches_behind hback)⟩⟩
      refine ⟨rfl, hkeeps.1, fun e' he' => ?_⟩
      rw [List.mem_singleton.1 he']
      exact hkeeps.2
  cases unlockError with
  | none =>
      cases closeError with
      | none =>
          refine ⟨fun _ => trivial, fun _ => ⟨rfl, ErrorHeap.ends_of_acc hleft.behind, ?_⟩⟩
          intro e he
          cases he
      | some c => exact halone c rfl
  | some u =>
      cases closeError with
      | none => exact halone u rfl
      | some c =>
          -- both: the close error becomes the cause of the unlock error
          obtain ⟨hne, hfresh⟩ := hleft.error (e := u) (by simp)
          have hfinite : ∀ x, some c = some x → Acc (fun b a => H.Behind a b) x := by
            rintro x hx
            obtain rfl := Option.some.inj hx
            exact hleft.finite c (by simp)
          have hiff := ErrorHeap.linked_keeps_iff hleft.behind hfresh hfinite
          rw [Strict.exit_both hne]
          constructor
          · rintro ⟨-, hends, hreaches⟩
            obtain ⟨hnone, hapart⟩ := hiff.1 ⟨hends, hreaches u (by simp)⟩
            exact ⟨hnone, hapart c rfl⟩
          · rintro ⟨hnone, hapart⟩
            have hkeeps := hiff.2 ⟨hnone, fun x hx => Option.some.inj hx ▸ hapart⟩
            have hcause : (H.linked body u (some c)).chain u = some c :=
              ErrorHeap.linked_chain_error hne
            refine ⟨rfl, hkeeps.1, fun e he => ?_⟩
            have hcases : e = u ∨ e = c := by simpa using he
            rcases hcases with rfl | rfl
            · exact hkeeps.2
            · exact hkeeps.2.tail hcause

namespace ErrorHeap

/-- Links that all go down, from errors that are above the exception of the body. -/
theorem left_of_rank {H : ErrorHeap α} {body : α} {errors : List α} (rank : α → Nat)
    (hrank : ∀ x y, H.Behind x y → rank y < rank x) (hfresh : ∀ e ∈ errors, rank body < rank e)
    (hdistinct : errors.Nodup) : H.Left body errors := by
  have hacc : ∀ e, Acc (fun b a => H.Behind a b) e := fun e =>
    Subrelation.accessible (fun hr => hrank _ _ hr)
      (InvImage.accessible rank (Nat.lt_wfRel.wf.apply _))
  have hdown : ∀ {x y}, ReflTransGen H.Behind x y → rank y ≤ rank x := by
    intro x y hreach
    induction hreach with
    | refl => exact Nat.le_refl _
    | tail _ hstep ih => exact Nat.le_trans (Nat.le_of_lt (hrank _ _ hstep)) ih
  exact ⟨hacc body, fun e _ => hacc e, fun e he hreach =>
    absurd (hfresh e he) (Nat.not_lt.2 (hdown hreach)), hdistinct⟩

/-- The body has raised `0`, unlock has failed with `1` and close with `2`. -/
def bothFail : ErrorHeap Nat where
  cause _ := none
  context e := if e = 1 ∨ e = 2 then some 0 else none

/-- The body has raised `0` from `3`, and unlock has failed with `1`. -/
def fromCause : ErrorHeap Nat where
  cause e := if e = 0 then some 3 else none
  context e := if e = 1 then some 0 else none

/-- The body has raised `0` while handling `3`, unlock has failed with `1`, and close with
`2`, which it has raised from `4`. -/
def closeFrom : ErrorHeap Nat where
  cause e := if e = 2 then some 4 else none
  context e := if e = 0 then some 3 else if e = 1 ∨ e = 2 then some 0 else none

theorem bothFail_behind {x y : Nat} (h : bothFail.Behind x y) : (x = 1 ∨ x = 2) ∧ y = 0 := by
  simp only [Behind, bothFail, Option.ite_none_right_eq_some, Option.some.injEq] at h
  grind

theorem fromCause_behind {x y : Nat} (h : fromCause.Behind x y) :
    (x = 0 ∧ y = 3) ∨ (x = 1 ∧ y = 0) := by
  simp only [Behind, fromCause, Option.ite_none_right_eq_some, Option.some.injEq] at h
  grind

theorem closeFrom_behind {x y : Nat} (h : closeFrom.Behind x y) :
    (x = 2 ∧ y = 4) ∨ (x = 0 ∧ y = 3) ∨ ((x = 1 ∨ x = 2) ∧ y = 0) := by
  simp only [Behind, closeFrom, Option.ite_none_right_eq_some, Option.some.injEq] at h
  grind

theorem bothFail_left : bothFail.Left 0 [1, 2] := by
  refine left_of_rank (fun e => if e = 0 then 0 else 1) (fun x y h => ?_) (by decide) (by decide)
  have := bothFail_behind h
  grind

theorem fromCause_left : fromCause.Left 0 [1] := by
  refine left_of_rank (fun e => if e = 3 then 0 else if e = 0 then 1 else 2) (fun x y h => ?_)
    (by decide) (by decide)
  have := fromCause_behind h
  grind

theorem closeFrom_left : closeFrom.Left 0 [1, 2] := by
  refine left_of_rank (fun e => if e = 3 ∨ e = 4 then 0 else if e = 0 then 1 else 2)
    (fun x y h => ?_) (by decide) (by decide)
  have := closeFrom_behind h
  grind

end ErrorHeap

/-- Both calls of the release fail.  When the close error was raised from an older one, both
errors stay visible; when it only has the context it was raised in, they do not. -/
theorem strict_exit_keeps_errors_iff_run :
    KeepsErrors 0 [1, 2] (Strict.exit (some 1) (some 2) (some 0) ErrorHeap.closeFrom).1
        (Strict.exit (some 1) (some 2) (some 0) ErrorHeap.closeFrom).2 ∧
      ¬ KeepsErrors 0 [1, 2] (Strict.exit (some 1) (some 2) (some 0) ErrorHeap.bothFail).1
        (Strict.exit (some 1) (some 2) (some 0) ErrorHeap.bothFail).2 := by
  constructor
  · refine (strict_exit_keeps_errors_iff ErrorHeap.closeFrom 0 (some 1) (some 2)
      ErrorHeap.closeFrom_left).2 ⟨rfl, ?_⟩
    have hpast : ∀ e, Reaches ErrorHeap.closeFrom.chain 2 e → e = 2 ∨ e = 4 := by
      intro e hreach
      rcases ReflTransGen.cases_head hreach with heq | ⟨z, hz, hrest⟩
      · exact Or.inl heq.symm
      · obtain rfl : 4 = z := Option.some.inj hz
        exact Or.inr (Reaches.of_none hrest rfl)
    exact ⟨fun hbody => by simpa using hpast 0 hbody, fun hunlock => by simpa using hpast 1 hunlock⟩
  · intro hkeeps
    obtain ⟨-, hapart, -⟩ := (strict_exit_keeps_errors_iff ErrorHeap.bothFail 0 (some 1) (some 2)
      ErrorHeap.bothFail_left).1 hkeeps
    exact hapart (ReflTransGen.single rfl)

/-- Both calls of the release fail: the chain of the body's exception goes round through
the close error.  And an exception that was raised from another one hides the unlock
error. -/
theorem strict_exit_loses_errors :
    ¬ (∀ (H : ErrorHeap Nat) (body : Nat) (unlockError closeError : Option Nat),
      H.Left body (unlockError.toList ++ closeError.toList) →
      (∀ e ∈ unlockError.toList ++ closeError.toList, H.context e = some body) →
      Ends (Strict.exit unlockError closeError (some body) H).2.chain body) ∧
    ¬ ∀ (H : ErrorHeap Nat) (body : Nat) (unlockError closeError : Option Nat),
      H.Left body (unlockError.toList ++ closeError.toList) →
      (∀ e ∈ unlockError.toList ++ closeError.toList, H.context e = some body) →
      ∀ e ∈ unlockError.toList ++ closeError.toList,
        Reaches (Strict.exit unlockError closeError (some body) H).2.chain body e := by
  constructor
  · intro hclaim
    have hends := hclaim ErrorHeap.bothFail 0 (some 1) (some 2) ErrorHeap.bothFail_left (by decide)
    have hbody : (Strict.exit (some 1) (some 2) (some 0) ErrorHeap.bothFail).2.chain 0 = some 1 := by
      decide
    have hunlock : (Strict.exit (some 1) (some 2) (some 0) ErrorHeap.bothFail).2.chain 1 =
        some 2 := by decide
    have hclose : (Strict.exit (some 1) (some 2) (some 0) ErrorHeap.bothFail).2.chain 2 =
        some 0 := by decide
    refine not_ends_of_cycle (TransGen.head' hbody ?_) hends
    exact ReflTransGen.head hunlock (ReflTransGen.single hclose)
  · intro hclaim
    have hreaches := hclaim ErrorHeap.fromCause 0 (some 1) none ErrorHeap.fromCause_left (by decide) 1
      (by decide)
    have hfirst : (Strict.exit (some 1) none (some 0) ErrorHeap.fromCause).2.chain 0 = some 3 := by
      decide
    have hlast : (Strict.exit (some 1) none (some 0) ErrorHeap.fromCause).2.chain 3 = none := by
      decide
    rcases ReflTransGen.cases_head hreaches with heq | ⟨z, hz, hrest⟩
    · omega
    · rw [hfirst] at hz
      obtain rfl := Option.some.inj hz
      rcases ReflTransGen.cases_head hrest with heq | ⟨y, hy, -⟩
      · omega
      · rw [hlast] at hy
        cases hy

end Portalocker
