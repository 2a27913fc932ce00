import Mathlib.Logic.Function.Basic
set_option autoImplicit false

/-!
# Programs as trees of atomic operations

A sequential piece of code that runs next to others is modelled by the tree of
the atomic operations it performs.  A node carries one operation and one
continuation for each result the environment may answer it with; a leaf is the
value the code ends with.  Nothing in the tree says what an operation does: the
same program is given to different machines (`Foundation/Machine.lean`), one in
which other clients run between any two operations and one in which every
answer is arbitrary.

The tree is an inductive type, so a program always ends.  A loop whose length
only the environment knows asks for that length with an operation and then
recurses on the answer.

`Code` adds exceptions: every operation may answer with one, and `tryCatch`,
`withFinally` and `suppress` are the usual statements over them.
-/

namespace Interleaving

/-- The tree of atomic operations a piece of code performs. -/
inductive Program (Op : Type) (Res : Op → Type) (α : Type) : Type
  | ret (value : α)
  | op (operation : Op) (next : Res operation → Program Op Res α)

namespace Program

variable {Op : Type} {Res : Op → Type} {α β γ : Type}

/-- Run `f` on the value the program ends with. -/
def bind : Program Op Res α → (α → Program Op Res β) → Program Op Res β
  | ret value, f => f value
  | op operation next, f => op operation fun answer => (next answer).bind f

instance : Monad (Program Op Res) where
  pure := ret
  bind := bind

@[simp] theorem pure_eq_ret (value : α) :
    (pure value : Program Op Res α) = ret value := rfl

@[simp] theorem bind_eq_bind (m : Program Op Res α) (f : α → Program Op Res β) :
    (m >>= f) = m.bind f := rfl

@[simp] theorem ret_bind (value : α) (f : α → Program Op Res β) :
    (ret value).bind f = f value := rfl

@[simp] theorem op_bind (operation : Op) (next : Res operation → Program Op Res α)
    (f : α → Program Op Res β) :
    (op operation next).bind f = op operation fun answer => (next answer).bind f := rfl

end Program

/-! ## Code that may raise -/

/-- Code over the operations `Op` that may raise an exception of type `Exc`;
every operation answers with its value or with an exception. -/
abbrev Code (Exc Op : Type) (Val : Op → Type) (α : Type) : Type :=
  ExceptT Exc (Program Op fun o => Except Exc (Val o)) α

namespace Code

variable {Exc Op : Type} {Val : Op → Type} {α β : Type}

/-- The code that performs one operation; an exception it answers with is
raised. -/
def call (o : Op) : Code Exc Op Val (Val o) :=
  ExceptT.mk (.op o .ret)

/-- Run `body` and hand its outcome, a value or an exception, to the caller. -/
def attempt (body : Code Exc Op Val α) : Code Exc Op Val (Except Exc α) :=
  ExceptT.mk (body.run.bind fun outcome => .ret (.ok outcome))

/-- `try: body finally: cleanup`.  The cleanup runs on every exit; an exception
of its own replaces the one of the body. -/
def withFinally (body : Code Exc Op Val α) (cleanup : Code Exc Op Val β) :
    Code Exc Op Val (α × β) := do
  let outcome ← attempt body
  let b ← cleanup
  match outcome with
  | .ok a => return (a, b)
  | .error e => throw e

/-- `with contextlib.suppress(kind): body`. -/
def suppress (kind : Exc → Bool) (body : Code Exc Op Val Unit) : Code Exc Op Val Unit :=
  tryCatch body fun e => if kind e then return () else throw e

/-- Run `body` and collect the exception of the given kind it raises, if any. -/
def collect (kind : Exc → Bool) (body : Code Exc Op Val Unit) :
    Code Exc Op Val (List Exc) :=
  tryCatch (do body; return []) fun e => if kind e then return [e] else throw e

/-- Run `body`; when an exception leaves it, run `onExit` before the exception
goes on. -/
def onRaise (body : Code Exc Op Val α) (onExit : Code Exc Op Val Unit) :
    Code Exc Op Val α :=
  tryCatch body fun e => do onExit; throw e

/-- A call of the code from outside: its outcome goes to the caller. -/
def toCall (body : Code Exc Op Val α) : Program Op (fun o => Except Exc (Val o)) Unit :=
  body.run.bind fun _ => .ret ()

end Code

end Interleaving
