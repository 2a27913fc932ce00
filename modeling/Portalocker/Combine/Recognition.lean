import Portalocker.Combine.Layout
import Portalocker.Combine.Statements
set_option autoImplicit false

/-!
# Which relative imports are inlined

`_read_file` looks at one line at a time.  This module says for which layouts of a statement
nothing of it is left in the output and every module it names is read.
-/

namespace Portalocker.Combine

/-! ## What is asked for -/

/-- This module is to be read. -/
def Asked (ys : List Yield) (n : Name) : Prop := ∃ indent, .inline indent n ∈ ys

section Asked

variable {ys : List Yield} {named : List Name} {files : Files} {limit : Nat} {seen : List Name}

@[simp] theorem asked_own {line : Line} {n : Name} : Asked (.own line :: ys) n ↔ Asked ys n := by
  simp [Asked]

end Asked

/-! ## What an open parenthesis takes -/

section Lines

variable {st : Locals} {line : Line} {lines : List Line}

end Lines

/-! ## The layouts that are recognised -/

section Recognised

variable {st : Locals} {s : ImportStatement} {l : Layout s}

end Recognised

/-- `from .m import a, b`, or the same in parentheses. -/
def importTwo (parenthesised : Bool) : ImportStatement where
  module := some "m".toList
  targets := [("a".toList, none), ("b".toList, none)]
  parenthesised := parenthesised
  trailingComma := false
  module_ok := by decide
  targets_ne := by decide
  targets_ok := by decide
  comma_ok := nofun

def plain : Layout (importTwo false) where
  indent := []
  pieces := [(.word "from".toList, [.blank ' ']), (.mark '.', []), (.word "m".toList, [.blank ' ']),
    (.word "import".toList, [.blank ' ']), (.word "a".toList, []), (.mark ',', [.blank ' ']),
    (.word "b".toList, [])]
  comment := none
  indent_ok := nofun
  tokens_eq := by rfl
  laid := by simp [Laid, Trivia.Allowed, Token.IsWord]
  comment_ok := nofun

/-- A block that only type checkers read stands before it. -/
def typeChecking : List Line :=
  ["if TYPE_CHECKING:\n".toList, "    import io\n".toList]

end Portalocker.Combine
