import Mathlib.Data.List.DropRight
set_option autoImplicit false

/-!
# Lines of source text

The string methods and the regular expressions of `__main__.py`, on ASCII text.  A line is
what the iteration over an open file yields, its newline included.
-/

namespace Portalocker.Combine

abbrev Line : Type := List Char

/-- The name of a module: the file is `src_path / f'{name}.py'`. -/
abbrev Name : Type := List Char

/-! ## String methods -/

/-- `str.isspace` of one character. -/
def isSpace (c : Char) : Bool :=
  c = ' ' || (9 ≤ c.toNat && c.toNat ≤ 13) || (28 ≤ c.toNat && c.toNat ≤ 31)

/-- What `\w` matches. -/
def isWord (c : Char) : Bool := c.isAlphanum || c = '_'

/-- A parenthesis. -/
def isParen (c : Char) : Bool := c = '(' || c = ')'

/-- `str.lstrip`. -/
def lstrip (s : Line) : Line := s.dropWhile isSpace

/-- `str.strip`. -/
def strip (s : Line) : Line := (lstrip s).rdropWhile isSpace

/-- `line[: len(line) - len(stripped)]`. -/
def indentOf (line : Line) : List Char := line.take (line.length - (lstrip line).length)

/-- `pattern in s`. -/
def isIn (pattern : List Char) : Line → Bool
  | [] => pattern.isEmpty
  | c :: s => pattern.isPrefixOf (c :: s) || isIn pattern s

/-- `'__future__' in line`. -/
def mentionsFuture (line : Line) : Bool := isIn "__future__".toList line

/-! ## Regular expressions -/

/-- `_TYPE_CHECKING_RE.match`. -/
def matchTypeChecking (stripped : Line) : Bool :=
  match "if ".toList.isPrefixOf? stripped with
  | none => false
  | some rest =>
      match "TYPE_CHECKING".toList.isPrefixOf? (("typing.".toList.isPrefixOf? rest).getD rest) with
      | none => false
      | some rest => (lstrip rest).head? = some ':'

/-- `[^()]+$`, at a place where the rest of the line is this. -/
def matchNames (rest : Line) : Option Line :=
  if rest ≠ [] ∧ rest.any isParen = false then some rest else none

/-- The groups of `_RELATIVE_IMPORT_RE`. -/
structure RelativeImport where
  from_ : Name
  paren : Bool
  names : Line
  deriving DecidableEq

/-- ` import (?P<paren>\(?)(?P<names>[^()]+)$`. -/
def matchImport (rest : Line) : Option (Bool × Line) :=
  match " import ".toList.isPrefixOf? rest with
  | none => none
  | some ('(' :: rest) => (matchNames rest).map fun names => (true, names)
  | some rest => (matchNames rest).map fun names => (false, names)

/-- `(?P<from>.*?)` and what follows it: the shortest that leads to a match. -/
def matchFrom : Line → Option RelativeImport
  | [] => none
  | c :: rest =>
      match matchImport (c :: rest) with
      | some (paren, names) => some ⟨[], paren, names⟩
      | none =>
          if c = '\n' then none
          else (matchFrom rest).map fun found => { found with from_ := c :: found.from_ }

/-- `_RELATIVE_IMPORT_RE.match`. -/
def matchRelativeImport (stripped : Line) : Option RelativeImport :=
  ("from .".toList.isPrefixOf? stripped).bind matchFrom

/-- `_USELESS_ASSIGNMENT_RE.sub('', line)`. -/
def dropUselessAssignment (line : Line) : Line :=
  let name := line.takeWhile isWord
  if name ≠ [] ∧ line = name ++ " = ".toList ++ name ++ ['\n'] then [] else line

/-- `re.sub(rf'\b({joined_names})\.', '', line)`; `prevWord` says whether the character
before is one that `\w` matches, and the next `skip` characters belong to a match.  The
names are those of modules, so at most one of them matches at a place, in any order. -/
def dropQualifiers (names : List Name) (prevWord : Bool) : Nat → Line → Line
  | _, [] => []
  | skip + 1, _ :: rest => dropQualifiers names false skip rest
  | 0, c :: rest =>
      match names.find? fun name =>
          (name ++ ['.']).isPrefixOf (c :: rest) && prevWord != isWord c with
      | some name => dropQualifiers names false name.length rest
      | none => c :: dropQualifiers names (isWord c) 0 rest

/-- `_clean_line`. -/
def cleanLine (line : Line) (names : List Name) : Line :=
  dropUselessAssignment (if names = [] then line else dropQualifiers names false 0 line)

/-- `_reindent`. -/
def reindent (lines : List Line) (indent : List Char) : List Line :=
  if indent = [] then lines
  else lines.map fun line => if strip line ≠ [] then indent ++ line else line

example : cleanLine "x = constants.LockFlags.EXCLUSIVE\n".toList ["constants".toList] =
    "x = LockFlags.EXCLUSIVE\n".toList := by decide

example : cleanLine "spam = spam\n".toList [] = [] := by decide

/-! ## Whitespace -/

/-- A word, such as the name of a module. -/
def IsName (name : Name) : Prop := name ≠ [] ∧ ∀ c ∈ name, isWord c = true

/-- Only whitespace. -/
def IsBlank (s : Line) : Prop := ∀ c ∈ s, isSpace c = true

scoped instance : LawfulBEq Name := inferInstance

-- given by name: instance search may prefer to try all characters there are
instance : DecidablePred IsName := fun name =>
  have := List.decidableBAll (fun c => isWord c = true) name
  inferInstanceAs (Decidable (name ≠ [] ∧ ∀ c ∈ name, isWord c = true))

instance : DecidablePred IsBlank := fun s => List.decidableBAll (fun c => isSpace c = true) s

section Whitespace

variable {indent body pre post s : Line} {name : Name} {c : Char}

theorem isWord_le (h : isWord c = true) : 48 ≤ c.toNat := by
  delta isWord Char.isAlphanum Char.isAlpha Char.isUpper Char.isLower Char.isDigit at h
  simp only [Bool.or_eq_true, Bool.and_eq_true, decide_eq_true_eq, ge_iff_le, UInt32.le_iff_toNat_le] at h
  rcases h with ((⟨h, -⟩ | ⟨h, -⟩) | ⟨h, -⟩) | rfl
  · exact Nat.le_trans (by decide) h
  · exact Nat.le_trans (by decide) h
  · exact Nat.le_trans (by decide) h
  · decide

theorem isSpace_of_isWord (h : isWord c = true) : isSpace c = false := by
  have hle := isWord_le h
  rw [Bool.eq_false_iff]
  intro hspace
  simp only [isSpace, Bool.or_eq_true, Bool.and_eq_true, decide_eq_true_eq] at hspace
  rcases hspace with (rfl | hspace) | hspace
  · exact absurd hle (by decide)
  · omega
  · omega

/-- A name has no other characters than those of a word. -/
theorem IsName.ne_of_mem (h : IsName name) (hc : c ∈ name) {d : Char} (hd : isWord d = false) :
    c ≠ d := by
  rintro rfl
  exact absurd ((h.2 c hc).symm.trans hd) (by simp)

theorem IsName.not_mem (h : IsName name) {d : Char} (hd : isWord d = false) : d ∉ name :=
  fun hmem => h.ne_of_mem hmem hd rfl

theorem IsName.head (h : IsName name) (s : Line) :
    ∀ c ∈ (name ++ s).head?, isSpace c = false := by
  intro c hc
  rw [List.head?_append_of_ne_nil _ h.1] at hc
  exact isSpace_of_isWord (h.2 c (List.mem_of_mem_head? hc))

theorem lstrip_append (hindent : IsBlank indent) (hbody : ∀ c ∈ body.head?, isSpace c = false) :
    lstrip (indent ++ body) = body := by
  unfold lstrip
  rw [List.dropWhile_append_of_pos hindent]
  cases body with
  | nil => rfl
  | cons c body => exact List.dropWhile_cons_of_neg (by simpa using hbody c rfl)

theorem indentOf_append (hindent : IsBlank indent)
    (hbody : ∀ c ∈ body.head?, isSpace c = false) : indentOf (indent ++ body) = indent := by
  rw [indentOf, lstrip_append hindent hbody]
  simp

/-- What is around a name is stripped. -/
theorem strip_append (hpre : IsBlank pre) (hpost : IsBlank post) (hname : IsName name) :
    strip (pre ++ (name ++ post)) = name := by
  have hlast : ∀ c ∈ name.reverse.head?, isSpace c = false := fun c hc =>
    isSpace_of_isWord (hname.2 c (List.mem_reverse.1 (List.mem_of_mem_head? hc)))
  have hpost' : IsBlank post.reverse := fun c hc => hpost c (List.mem_reverse.1 hc)
  have hrest := lstrip_append hpost' hlast
  unfold lstrip at hrest
  rw [strip, lstrip_append hpre (hname.head post), List.rdropWhile, List.reverse_append, hrest,
    List.reverse_reverse]

/-- Only whitespace is stripped away to nothing. -/
theorem strip_eq_nil_iff : strip s = [] ↔ IsBlank s := by
  rw [strip, List.rdropWhile_eq_nil_iff]
  constructor
  · intro h c hc
    rw [← List.takeWhile_append_dropWhile (p := isSpace) (l := s), List.mem_append] at hc
    rcases hc with hc | hc
    · exact List.mem_takeWhile_imp hc
    · exact h c hc
  · exact fun h c hc => h c (List.dropWhile_subset isSpace hc)

end Whitespace

/-- What stands between separators, or one of them. -/
theorem mem_intercalate {α : Type} {a sep : α} {pieces : List (List α)}
    (h : a ∈ [sep].intercalate pieces) : a = sep ∨ ∃ piece ∈ pieces, a ∈ piece := by
  induction pieces with
  | nil => cases h
  | cons piece pieces ih =>
      cases pieces with
      | nil =>
          rw [List.intercalate_singleton] at h
          exact .inr ⟨piece, List.mem_cons_self, h⟩
      | cons next pieces =>
          rw [List.intercalate_cons_cons, List.mem_append, List.mem_append,
            List.mem_singleton] at h
          rcases h with (h | h) | h
          · exact .inr ⟨piece, List.mem_cons_self, h⟩
          · exact .inl h
          · rcases ih h with h | ⟨other, hmem, h⟩
            · exact .inl h
            · exact .inr ⟨other, List.mem_cons_of_mem _ hmem, h⟩

/-! ## What the regular expressions match -/

section Matches

variable {name : Name} {paren : Bool} {names rest s : Line} {found : RelativeImport}

theorem matchNames_eq_some : matchNames rest = some names ↔
    rest = names ∧ names ≠ [] ∧ names.any isParen = false := by
  unfold matchNames
  split
  · rename_i h
    constructor
    · intro heq
      obtain rfl := Option.some.inj heq
      exact ⟨rfl, h⟩
    · rintro ⟨rfl, -⟩
      rfl
  · rename_i h
    constructor
    · intro heq
      cases heq
    · rintro ⟨rfl, hrest⟩
      exact absurd hrest h

/-- The parenthesis that a match may have found. -/
def opening (paren : Bool) : List Char := if paren then ['('] else []

theorem matchImport_eq_some : matchImport rest = some (paren, names) ↔
    rest = " import ".toList ++ (opening paren ++ names) ∧ names ≠ [] ∧
      names.any isParen = false := by
  have hnone : ∀ {t : Line}, matchNames ('(' :: t) = none := fun {t} => by
    simp [matchNames, isParen]
  unfold matchImport
  split
  · rename_i h
    refine ⟨nofun, ?_⟩
    rintro ⟨rfl, -⟩
    rw [List.isPrefixOf?_eq_some_iff_append_eq.2 rfl] at h
    cases h
  · rename_i t h
    obtain rfl := List.isPrefixOf?_eq_some_iff_append_eq.1 h
    rw [Option.map_eq_some_iff]
    constructor
    · rintro ⟨names', hnames, heq⟩
      obtain ⟨rfl, rfl⟩ := Prod.mk.inj heq
      obtain ⟨rfl, hrest⟩ := matchNames_eq_some.1 hnames
      exact ⟨rfl, hrest⟩
    · rintro ⟨heq, hne, hparens⟩
      have htail := List.append_cancel_left heq
      cases paren with
      | true =>
          obtain rfl : t = names := (List.cons.inj htail).2
          exact ⟨t, matchNames_eq_some.2 ⟨rfl, hne, hparens⟩, rfl⟩
      | false =>
          obtain rfl : '(' :: t = names := htail
          simp [isParen] at hparens
  · rename_i t hopen h
    obtain rfl := List.isPrefixOf?_eq_some_iff_append_eq.1 h
    rw [Option.map_eq_some_iff]
    constructor
    · rintro ⟨names', hnames, heq⟩
      obtain ⟨rfl, rfl⟩ := Prod.mk.inj heq
      obtain ⟨rfl, hrest⟩ := matchNames_eq_some.1 hnames
      exact ⟨rfl, hrest⟩
    · rintro ⟨heq, hne, hparens⟩
      have htail := List.append_cancel_left heq
      cases paren with
      | true => exact absurd htail (hopen names)
      | false =>
          obtain rfl : t = names := htail
          exact ⟨t, matchNames_eq_some.2 ⟨rfl, hne, hparens⟩, rfl⟩

/-- `from .name import names`, with or without an opening parenthesis. -/
def importLine (name : Name) (paren : Bool) (names : Line) : Line :=
  "from .".toList ++ (name ++ (" import ".toList ++ (opening paren ++ names)))

theorem matchFrom_sound (h : matchFrom s = some found) :
    s = found.from_ ++ (" import ".toList ++ (opening found.paren ++ found.names)) ∧
      found.names ≠ [] ∧ found.names.any isParen = false := by
  induction s generalizing found with
  | nil => cases h
  | cons c s ih =>
      unfold matchFrom at h
      split at h
      · rename_i heq
        obtain rfl := Option.some.inj h
        exact matchImport_eq_some.1 heq
      · split at h
        · cases h
        · obtain ⟨found', hfound, rfl⟩ := Option.map_eq_some_iff.1 h
          obtain ⟨hs, hrest⟩ := ih hfound
          exact ⟨congrArg (c :: ·) hs, hrest⟩

/-- What has been matched is such a line. -/
theorem matchRelativeImport_sound (h : matchRelativeImport s = some found) :
    s = importLine found.from_ found.paren found.names ∧ found.names ≠ [] ∧
      found.names.any isParen = false := by
  obtain ⟨t, hprefix, hfrom⟩ := Option.bind_eq_some_iff.1 h
  obtain ⟨rfl, hrest⟩ := matchFrom_sound hfrom
  exact ⟨(List.isPrefixOf?_eq_some_iff_append_eq.1 hprefix).symm, hrest⟩

theorem matchFrom_append (hname : ' ' ∉ name ∧ '\n' ∉ name) (hne : names ≠ [])
    (hparens : names.any isParen = false) :
    matchFrom (name ++ (" import ".toList ++ (opening paren ++ names))) =
      some ⟨name, paren, names⟩ := by
  induction name with
  | nil =>
      have hmatch : matchImport (" import ".toList ++ (opening paren ++ names)) =
          some (paren, names) := matchImport_eq_some.2 ⟨rfl, hne, hparens⟩
      have hcons : ∀ {t : Line}, matchImport t = some (paren, names) →
          matchFrom t = some ⟨[], paren, names⟩ := by
        intro t ht
        cases t with
        | nil => cases ht
        | cons c t =>
            unfold matchFrom
            rw [ht]
      exact hcons hmatch
  | cons c name ih =>
      obtain ⟨hspace, hnewline⟩ := hname
      rw [List.mem_cons, not_or] at hspace hnewline
      -- a match cannot begin inside the name
      have hnone : matchImport (c :: (name ++ (" import ".toList ++ (opening paren ++ names)))) =
          none := by
        rw [Option.eq_none_iff_forall_ne_some]
        rintro ⟨paren', names'⟩ hmatch
        obtain ⟨heq, -⟩ := matchImport_eq_some.1 hmatch
        exact hspace.1 (List.cons.inj heq).1.symm
      rw [List.cons_append, matchFrom, hnone]
      simp only [if_neg (Ne.symm hnewline.1), ih ⟨hspace.2, hnewline.2⟩, Option.map_some]

/-- Such a line is matched if the name has no spaces. -/
theorem matchRelativeImport_importLine (hname : ' ' ∉ name ∧ '\n' ∉ name) (hne : names ≠ [])
    (hparens : names.any isParen = false) :
    matchRelativeImport (importLine name paren names) = some ⟨name, paren, names⟩ := by
  unfold matchRelativeImport
  rw [importLine, List.isPrefixOf?_eq_some_iff_append_eq.2 rfl, Option.bind_some]
  exact matchFrom_append hname hne hparens

end Matches

end Portalocker.Combine
