import Portalocker.Combine.Text
set_option autoImplicit false

/-!
# Layouts of a relative import

The statements `from .m import names` and `from . import names` with everything that
Python's grammar leaves open: parentheses, aliases, a trailing comma, and between the tokens
whitespace, line continuations and, inside parentheses, line ends and comments.  A layout is
a sequence of physical lines; only the first of them can look like a relative import.
-/

namespace Portalocker.Combine

/-! ## The statement -/

/-- A name that is none of the keywords of the statement. -/
def IsIdentifier (name : Name) : Prop :=
  IsName name ∧ name ∉ ["from".toList, "import".toList, "as".toList]

instance : DecidablePred IsIdentifier := fun name =>
  inferInstanceAs (Decidable (IsName name ∧ _))

/-- `from .m import names`, or `from . import names` without a module. -/
structure ImportStatement where
  module : Option Name
  /-- each name with its alias -/
  targets : List (Name × Option Name)
  parenthesised : Bool
  trailingComma : Bool
  module_ok : ∀ m ∈ module, IsIdentifier m
  targets_ne : targets ≠ []
  targets_ok : ∀ t ∈ targets, IsIdentifier t.1 ∧ ∀ other ∈ t.2, IsIdentifier other
  comma_ok : trailingComma = true → parenthesised = true

inductive Token
  | word (text : Name)
  | mark (c : Char)

namespace Token

def text : Token → List Char
  | .word text => text
  | .mark c => [c]

def IsWord : Token → Prop
  | .word _ => True
  | .mark _ => False

/-- The token can stand behind the keyword that begins the statement. -/
def Follows : Token → Prop
  | .word text => IsName text ∧ text ≠ "from".toList
  | .mark c => c ∈ ['.', '(', ')', ',']

end Token

namespace ImportStatement

/-- The modules it names. -/
def named (s : ImportStatement) : List Name :=
  match s.module with
  | some m => [m]
  | none => s.targets.map Prod.fst

/-- `name` or `name as alias`. -/
def targetTokens (t : Name × Option Name) : List Token :=
  .word t.1 :: (t.2.toList.flatMap fun other => [.word "as".toList, .word other])

/-- The tokens after `from` and the dot. -/
def tail (s : ImportStatement) : List Token :=
  s.module.toList.map .word ++ .word "import".toList ::
    ((if s.parenthesised then [.mark '('] else []) ++
      ([.mark ','].intercalate (s.targets.map targetTokens) ++
        ((if s.trailingComma then [.mark ','] else []) ++
          if s.parenthesised then [.mark ')'] else [])))

def tokens (s : ImportStatement) : List Token := .word "from".toList :: .mark '.' :: s.tail

end ImportStatement

/-! ## Layouts -/

/-- What may stand between two tokens. -/
inductive Trivia
  | blank (c : Char)
  | continuation
  | newline
  | comment (text : List Char)

namespace Trivia

def text : Trivia → List Char
  | .blank c => [c]
  | .continuation => ['\\', '\n']
  | .newline => ['\n']
  | .comment text => '#' :: (text ++ ['\n'])

/-- Line ends and comments are allowed inside parentheses only. -/
def Allowed (inside : Bool) : Trivia → Prop
  | .blank c => c ∈ [' ', '\t', '\x0c']
  | .continuation => True
  | .newline => inside = true
  | .comment text => inside = true ∧ '\n' ∉ text

end Trivia

/-- Tokens, each with what follows it. -/
abbrev Pieces : Type := List (Token × List Trivia)

/-- What a token does to the parentheses it is in. -/
def Token.inside (inside : Bool) : Token → Bool
  | .mark '(' => true
  | .mark ')' => false
  | _ => inside

/-- The tokens can be told apart, and what stands between them is allowed there. -/
def Laid (inside : Bool) : Pieces → Prop
  | [] => True
  | (t, gap) :: rest =>
      (∀ x ∈ gap, x.Allowed (t.inside inside)) ∧
        (t.IsWord → gap = [] → ∀ next ∈ rest.head?, ¬next.1.IsWord) ∧
          Laid (t.inside inside) rest

def Pieces.text (pieces : Pieces) : List Char :=
  pieces.flatMap fun piece => piece.1.text ++ piece.2.flatMap Trivia.text

/-- The lines of a text, each with its newline. -/
def linesOf : List Char → List Line
  | [] => []
  | c :: s =>
      if c = '\n' then [c] :: linesOf s
      else
        match linesOf s with
        | [] => [[c]]
        | line :: rest => (c :: line) :: rest

/-- One way to write the statement: on lines of its own, with a comment behind it. -/
structure Layout (s : ImportStatement) where
  indent : List Char
  pieces : Pieces
  comment : Option (List Char)
  indent_ok : ∀ c ∈ indent, c ∈ [' ', '\t', '\x0c']
  tokens_eq : pieces.map Prod.fst = s.tokens
  laid : Laid false pieces
  comment_ok : ∀ text ∈ comment, '\n' ∉ text

namespace Layout

variable {s : ImportStatement}

/-- The end of the last line. -/
def ending (l : Layout s) : List Char :=
  (l.comment.toList.flatMap fun text => '#' :: text) ++ ['\n']

/-- The statement, from its first token on. -/
def text (l : Layout s) : List Char := l.pieces.text ++ l.ending

/-- Its physical lines. -/
def lines (l : Layout s) : List Line := linesOf (l.indent ++ l.text)

end Layout

/-! ## Lines -/

section Lines

variable {s : List Char} {line : Line} {more : List Line} {c : Char}

end Lines

/-! ## Only the first line looks like an import -/

/-- What every relative import begins with. -/
def start : List Char := "from .".toList

/-- No line but the first begins like a relative import. -/
def LinesClean (s : List Char) : Prop := ∀ a b, s = a ++ '\n' :: b → ¬start <+: lstrip b

/-- Nor does the first. -/
def Clean (s : List Char) : Prop := ¬start <+: lstrip s ∧ LinesClean s

section Clean

variable {s t u : List Char} {c : Char} {inside : Bool} {gap : List Trivia} {pieces : Pieces}

theorem LinesClean.append (hu : '\n' ∉ u) (h : LinesClean s) : LinesClean (u ++ s) := by
  induction u with
  | nil => exact h
  | cons c u ih =>
      rw [List.mem_cons, not_or] at hu
      intro a b heq
      cases a with
      | nil => exact absurd (List.cons.inj heq).1.symm hu.1
      | cons d a => exact ih hu.2 a b (List.cons.inj heq).2

theorem Clean.newline (h : Clean s) : LinesClean ('\n' :: s) := by
  intro a b heq
  cases a with
  | nil => exact (List.cons.inj heq).2 ▸ h.1
  | cons d a => exact h.2 a b (List.cons.inj heq).2

theorem Clean.cons (hspace : isSpace c = false) (hf : c ≠ 'f') (h : LinesClean s) :
    Clean (c :: s) := by
  constructor
  · rw [lstrip, List.dropWhile_cons_of_neg (by simp [hspace])]
    exact fun hprefix => hf (List.cons_prefix_cons.1 hprefix).1.symm
  · have hnot : '\n' ∉ [c] := by
      intro hmem
      rw [← List.mem_singleton.1 hmem] at hspace
      exact absurd hspace (by decide)
    exact h.append hnot

end Clean

/-! ## The lines of a layout -/

namespace ImportStatement

variable {s : ImportStatement}

theorem IsIdentifier.follows {name : Name} (h : IsIdentifier name) : Token.Follows (.word name) :=
  ⟨h.1, fun heq => h.2 (heq ▸ List.mem_cons_self)⟩

end ImportStatement

namespace Layout

variable {s : ImportStatement}

end Layout

end Portalocker.Combine
