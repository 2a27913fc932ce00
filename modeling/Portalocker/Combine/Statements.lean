import Portalocker.Combine.ReadFile
set_option autoImplicit false

/-!
# Modules as lists of statements

What `_read_file` takes a module for: lines of text, `TYPE_CHECKING` blocks and the forms of
relative imports the package uses.  `contents` is what inlining is about, the lines of
the module and the modules it imports; `perform_scan` says that the loop yields it.
-/

namespace Portalocker.Combine

open Expansion

/-! ## Statements -/

/-- A line with its newline. -/
def IsLine (line : Line) : Prop := ∃ text, line = text ++ ['\n'] ∧ '\n' ∉ text

/-- What is between two commas of `from . import a, b`. -/
structure Target where
  before : List Char
  name : Name
  after : List Char

def Target.text (target : Target) : List Char := target.before ++ (target.name ++ target.after)

/-- One name, with whitespace around it. -/
structure Target.Valid (target : Target) : Prop where
  before : IsBlank target.before
  name : IsName target.name
  after : IsBlank target.after

instance : DecidablePred Target.Valid := fun target =>
  decidable_of_iff (IsBlank target.before ∧ IsName target.name ∧ IsBlank target.after)
    ⟨fun ⟨hbefore, hname, hafter⟩ => ⟨hbefore, hname, hafter⟩,
      fun ⟨hbefore, hname, hafter⟩ => ⟨hbefore, hname, hafter⟩⟩

/-- The statements of a module. -/
inductive Statement
  /-- a line that is no relative import -/
  | text (line : Line)
  /-- `if TYPE_CHECKING:` and what is indented below it -/
  | typeChecking (header : Line) (body : List Line)
  /-- `from . import a, b` -/
  | importModules (indent : List Char) (targets : List Target)
  /-- `from .a import x, y` -/
  | importNames (indent : List Char) (module : Name) (names : Line)
  /-- `from .a import (`, lines of names and a line with only `)` -/
  | importBlock (indent : List Char) (module : Name) (opened : Line) (names : List Line)
      (before after : List Char)

namespace Statement

/-- The first line. -/
def opening : Statement → Line
  | .text line => line
  | .typeChecking header _ => header
  | .importModules indent targets =>
      indent ++ importLine [] false ([','].intercalate (targets.map Target.text))
  | .importNames indent module names => indent ++ importLine module false names
  | .importBlock indent module opened _ _ _ => indent ++ importLine module true opened

/-- The lines. -/
def lines (s : Statement) : List Line :=
  match s with
  | .typeChecking _ body => s.opening :: body
  | .importBlock _ _ _ names before after => s.opening :: (names ++ [before ++ ')' :: after])
  | _ => [s.opening]

/-- The line is part of the block that a `TYPE_CHECKING` header of this indentation opens. -/
def InBlock (indent : Nat) (line : Line) : Prop :=
  mentionsFuture line = true ∨ strip line = [] ∨ indent < (indentOf line).length

/-- The statement is what it is meant to be. -/
def Valid : Statement → Prop
  | .text line => mentionsFuture line = true ∨
      matchTypeChecking (lstrip line) = false ∧ matchRelativeImport (lstrip line) = none
  | .typeChecking header body => mentionsFuture header = false ∧
      matchTypeChecking (lstrip header) = true ∧
        ∀ line ∈ body, InBlock (indentOf header).length line
  | .importModules indent targets => IsBlank indent ∧ targets ≠ [] ∧ (∀ t ∈ targets, t.Valid) ∧
      mentionsFuture (opening (.importModules indent targets)) = false
  | .importNames indent module names => IsBlank indent ∧ IsName module ∧
      (names ≠ [] ∧ names.any isParen = false) ∧
        mentionsFuture (opening (.importNames indent module names)) = false
  | .importBlock indent module opened names before after => IsBlank indent ∧ IsName module ∧
      (opened ≠ [] ∧ opened.any isParen = false) ∧
        mentionsFuture (opening (.importBlock indent module opened names before after)) = false ∧
          (∀ line ∈ names, line.any isParen = false) ∧ IsBlank before ∧ IsBlank after

/-- A `TYPE_CHECKING` block goes as far as it can. -/
def EndsBefore (s : Statement) (rest : List Statement) : Prop :=
  match s with
  | .typeChecking header _ =>
      ∀ next ∈ rest.head?, ¬InBlock (indentOf header).length next.opening
  | _ => True

instance (indent : Nat) : DecidablePred (InBlock indent) := fun line =>
  inferInstanceAs (Decidable (mentionsFuture line = true ∨ strip line = [] ∨
    indent < (indentOf line).length))

instance : DecidablePred Valid
  | .text _ => inferInstanceAs (Decidable (_ ∨ _))
  | .typeChecking _ _ => inferInstanceAs (Decidable (_ ∧ _))
  | .importModules _ _ => inferInstanceAs (Decidable (_ ∧ _))
  | .importNames _ _ _ => inferInstanceAs (Decidable (_ ∧ _))
  | .importBlock _ _ _ _ _ _ => inferInstanceAs (Decidable (_ ∧ _))

instance : ∀ (s : Statement) (rest : List Statement), Decidable (s.EndsBefore rest)
  | .typeChecking header _, rest => inferInstanceAs
      (Decidable (∀ next ∈ rest.head?, ¬InBlock (indentOf header).length next.opening))
  | .text _, _ | .importModules _ _, _ | .importNames _ _ _, _ | .importBlock _ _ _ _ _ _, _ =>
      .isTrue trivial

/-- The modules it imports, outside `TYPE_CHECKING` blocks. -/
def imports : Statement → List Name
  | .importModules _ targets => targets.map Target.name
  | .importNames _ module _ => [module]
  | .importBlock _ module _ _ _ _ => [module]
  | _ => []

/-- The indentation of an import. -/
def indent : Statement → List Char
  | .importModules indent _ => indent
  | .importNames indent _ _ => indent
  | .importBlock indent _ _ _ _ _ => indent
  | _ => []

/-- Lines that are kept: those that do not mention `__future__`, cleaned. -/
def kept (names : List Name) (lines : List Line) : List Line :=
  (lines.filter fun line => !mentionsFuture line).map fun line => cleanLine line names

/-- The lines of its own, after imports of these names. -/
def own (names : List Name) : Statement → List Line
  | .text line => kept names [line]
  | .typeChecking header body => kept names (header :: body)
  | _ => []

/-- What it contributes. -/
def contents (names : List Name) (s : Statement) : List Yield :=
  (s.own names).map .own ++ s.imports.map (.inline s.indent)

/-- The names that have been imported after it. -/
def namesAfter (names : List Name) (s : Statement) : List Name :=
  s.imports.foldl (fun names name => names.insert name) names

end Statement

/-- The statements make up a module. -/
def WellFormed : List Statement → Prop
  | [] => True
  | s :: rest => (∀ line ∈ s.lines, IsLine line) ∧ s.Valid ∧ s.EndsBefore rest ∧ WellFormed rest

/-- The lines of a module of its own and the modules it imports, in their order. -/
def contents (names : List Name) : List Statement → List Yield
  | [] => []
  | s :: rest => s.contents names ++ contents (s.namesAfter names) rest

/-- The lines of a module of its own, in their order. -/
def ownLines (names : List Name) : List Statement → List Line
  | [] => []
  | s :: rest => s.own names ++ ownLines (s.namesAfter names) rest

/-! ## The characters of a line -/

section Characters

variable {s : Line} {c : Char}

theorem mem_of_isIn {pattern : List Char} (h : isIn pattern s = true) (hc : c ∈ pattern) :
    c ∈ s := by
  induction s with
  | nil =>
      rw [isIn, List.isEmpty_iff] at h
      exact absurd hc (h ▸ List.not_mem_nil)
  | cons d s ih =>
      rw [isIn, Bool.or_eq_true, List.isPrefixOf_iff_prefix] at h
      rcases h with h | h
      · exact h.subset hc
      · exact List.mem_cons_of_mem _ (ih h)

theorem IsBlank.not_mem (h : IsBlank s) (hc : isSpace c = false) : c ∉ s :=
  fun hmem => absurd (h c hmem) (by simp [hc])

theorem any_isParen_eq_false : s.any isParen = false ↔ '(' ∉ s ∧ ')' ∉ s := by
  constructor
  · intro h
    rw [List.any_eq_false] at h
    exact ⟨fun hmem => h _ hmem (by decide), fun hmem => h _ hmem (by decide)⟩
  · rintro ⟨hopen, hclose⟩
    rw [List.any_eq_false]
    intro d hd
    simp only [isParen, Bool.or_eq_true, decide_eq_true_eq, not_or]
    exact ⟨fun heq => hopen (heq ▸ hd), fun heq => hclose (heq ▸ hd)⟩

theorem IsLine.ne_nil (h : IsLine s) : s ≠ [] := by
  obtain ⟨text, rfl, -⟩ := h
  simp

theorem isLine_cons (hne : s ≠ []) : IsLine (c :: s) ↔ c ≠ '\n' ∧ IsLine s := by
  constructor
  · rintro ⟨text, heq, htext⟩
    cases text with
    | nil => exact absurd (List.cons.inj heq).2 hne
    | cons d text =>
        obtain ⟨rfl, rfl⟩ := List.cons.inj heq
        rw [List.mem_cons, not_or] at htext
        exact ⟨Ne.symm htext.1, text, rfl, htext.2⟩
  · rintro ⟨hc, text, rfl, htext⟩
    exact ⟨c :: text, rfl, by simp [Ne.symm hc, htext]⟩

instance : DecidablePred IsLine
  | [] => .isFalse fun h => h.ne_nil rfl
  | [c] => decidable_of_iff (c = '\n')
      ⟨fun h => ⟨[], by simp [h], List.not_mem_nil⟩, fun ⟨text, heq, _⟩ => by
        cases text <;> simp_all⟩
  | c :: d :: s =>
      have := instDecidablePredLineIsLine (d :: s)
      decidable_of_iff _ (isLine_cons (c := c) (List.cons_ne_nil d s)).symm

instance : DecidablePred WellFormed
  | [] => .isTrue trivial
  | s :: rest =>
      have := instDecidablePredListStatementWellFormed rest
      inferInstanceAs (Decidable ((∀ line ∈ s.lines, IsLine line) ∧ s.Valid ∧
        s.EndsBefore rest ∧ WellFormed rest))

/-- Taking qualifiers away leaves a line. -/
theorem dropQualifiers_isLine {names : List Name} {prevWord : Bool} {skip : Nat} (h : IsLine s)
    (hskip : skip < s.length) : IsLine (dropQualifiers names prevWord skip s) := by
  induction s generalizing prevWord skip with
  | nil => cases hskip
  | cons c s ih =>
      cases skip with
      | succ skip =>
          have hlt : skip < s.length := Nat.lt_of_succ_lt_succ hskip
          have hs : IsLine s := ((isLine_cons (List.ne_nil_of_length_pos (by omega))).1 h).2
          exact ih hs hlt
      | zero =>
          unfold dropQualifiers
          split
          · rename_i name hfind
            -- the match ends with a dot, so it ends before the newline
            have hprefix := List.find?_some hfind
            rw [Bool.and_eq_true, List.isPrefixOf_iff_prefix] at hprefix
            obtain ⟨⟨more, hmore⟩, -⟩ := hprefix
            have hne : more ≠ [] := by
              rintro rfl
              obtain ⟨text, heq, -⟩ := h
              rw [List.append_nil, heq] at hmore
              exact absurd (List.append_inj' hmore rfl).2 (by decide)
            have hlength := congrArg List.length hmore
            have hpos := List.length_pos_of_ne_nil hne
            simp only [List.length_append, List.length_cons, List.length_nil] at hlength
            have hs : s ≠ [] := List.ne_nil_of_length_pos (by omega)
            exact ih ((isLine_cons hs).1 h).2 (by omega)
          · cases s with
            | nil => exact h
            | cons d s =>
                obtain ⟨hc, hs⟩ := (isLine_cons (List.cons_ne_nil d s)).1 h
                have hrest : IsLine (dropQualifiers names (isWord c) 0 (d :: s)) :=
                  ih hs (Nat.succ_pos _)
                exact (isLine_cons hrest.ne_nil).2 ⟨hc, hrest⟩

/-- A cleaned line is a line, or nothing is left of it. -/
theorem cleanLine_isLine (names : List Name) (h : IsLine s) :
    cleanLine s names = [] ∨ IsLine (cleanLine s names) := by
  have huseless : ∀ {line : Line}, IsLine line →
      dropUselessAssignment line = [] ∨ IsLine (dropUselessAssignment line) := by
    intro line hline
    unfold dropUselessAssignment
    dsimp only
    split
    · exact .inl rfl
    · exact .inr hline
  apply huseless
  split
  · exact h
  · exact dropQualifiers_isLine h (List.length_pos_of_ne_nil h.ne_nil)

/-- A target has no characters but those of its name and whitespace. -/
theorem Target.Valid.not_mem {target : Target} (h : target.Valid) (hspace : isSpace c = false)
    (hword : isWord c = false) : c ∉ target.text := by
  rw [Target.text, List.mem_append, List.mem_append, not_or, not_or]
  exact ⟨h.before.not_mem hspace, h.name.not_mem hword, h.after.not_mem hspace⟩

end Characters

/-! ## What the loop makes of one line -/

section Lines

variable {st : Locals} {line : Line} {indent : List Char} {module : Name} {names : Line}
  {paren : Bool}

/-- The loop is outside parentheses, and the line is outside `TYPE_CHECKING` blocks. -/
def Locals.Outside (st : Locals) (line : Line) : Prop :=
  st.paren = false ∧ (st.inTypeChecking = true → ¬Statement.InBlock st.typeCheckingIndent line)

theorem step_future (h : mentionsFuture line = true) : step st line = ([], st) := if_pos h

theorem step_outside (hfuture : mentionsFuture line = false) (hout : st.Outside line) :
    step st line = stepOutside { st with inTypeChecking := false } line := by
  have hnot : ¬(st.inTypeChecking = true ∧
      (strip line = [] ∨ (indentOf line).length > st.typeCheckingIndent)) :=
    fun ⟨hin, h⟩ => hout.2 hin (.inr h)
  unfold step
  rw [if_neg (by simp [hfuture]), if_neg hnot]

/-- A line that is no import is kept. -/
theorem step_text (hfuture : mentionsFuture line = false) (hout : st.Outside line)
    (htype : matchTypeChecking (lstrip line) = false)
    (himport : matchRelativeImport (lstrip line) = none) :
    step st line = ([.own (cleanLine line st.names)], { st with inTypeChecking := false }) := by
  rw [step_outside hfuture hout]
  simp [stepOutside, Locals.matching, hout.1, htype, himport]

/-- So is the header of a `TYPE_CHECKING` block, -/
theorem step_header (hfuture : mentionsFuture line = false) (hout : st.Outside line)
    (htype : matchTypeChecking (lstrip line) = true) :
    step st line = ([.own (cleanLine line st.names)],
      { st with inTypeChecking := true, typeCheckingIndent := (indentOf line).length }) := by
  rw [step_outside hfuture hout]
  simp [stepOutside, hout.1, htype]

/-- and what is in the block. -/
theorem step_inBlock (hin : st.inTypeChecking = true)
    (hline : Statement.InBlock st.typeCheckingIndent line) :
    step st line = ((Statement.kept st.names [line]).map .own, st) := by
  cases hfuture : mentionsFuture line with
  | true => simp [step, Statement.kept, hfuture]
  | false =>
      have hblock : strip line = [] ∨ (indentOf line).length > st.typeCheckingIndent :=
        hline.resolve_left (by simp [hfuture])
      unfold step
      rw [if_neg (by simp [hfuture]), if_pos ⟨hin, hblock⟩]
      simp [Statement.kept, hfuture]

theorem importLine_head : ∀ c ∈ (importLine module paren names).head?, isSpace c = false := by
  intro c hc
  obtain rfl : 'f' = c := Option.some.inj hc
  decide

theorem matchTypeChecking_importLine : matchTypeChecking (importLine module paren names) = false :=
  rfl

/-- A match makes it read the modules. -/
theorem step_match {found : RelativeImport} (hfuture : mentionsFuture line = false)
    (hout : st.Outside line) (himport : matchRelativeImport (lstrip line) = some found) :
    step st line = (found.modules.map fun name => .inline (indentOf line) name,
      { st with
        inTypeChecking := false
        paren := found.paren
        from_ := found.from_
        names := found.modules.foldl (fun names name => names.insert name) st.names }) := by
  have htype : matchTypeChecking (lstrip line) = false := by
    rw [(matchRelativeImport_sound himport).1]
    exact matchTypeChecking_importLine
  rw [step_outside hfuture hout]
  simp [stepOutside, Locals.matching, hout.1, htype, himport]

/-- So does a relative import. -/
theorem step_import (hindent : IsBlank indent) (hmodule : ' ' ∉ module ∧ '\n' ∉ module)
    (hne : names ≠ []) (hparens : names.any isParen = false)
    (hfuture : mentionsFuture (indent ++ importLine module paren names) = false)
    (hout : st.Outside (indent ++ importLine module paren names)) :
    step st (indent ++ importLine module paren names) =
      ((RelativeImport.modules ⟨module, paren, names⟩).map fun name => .inline indent name,
        { st with
          inTypeChecking := false
          paren := paren
          from_ := module
          names := (RelativeImport.modules ⟨module, paren, names⟩).foldl
            (fun names name => names.insert name) st.names }) := by
  have himport : matchRelativeImport (lstrip (indent ++ importLine module paren names)) =
      some ⟨module, paren, names⟩ := by
    rw [lstrip_append hindent importLine_head]
    exact matchRelativeImport_importLine hmodule hne hparens
  have hstep := step_match hfuture hout himport
  rwa [indentOf_append hindent importLine_head] at hstep

/-- A line of names asks for modules once more. -/
theorem step_listed (hparen : st.paren = true) (htype : st.inTypeChecking = false)
    (hfuture : mentionsFuture line = false) (hne : line ≠ []) (hline : line.any isParen = false) :
    step st line =
      ((RelativeImport.modules ⟨st.from_, true, line⟩).map fun name => .inline (indentOf line) name,
        { st with
          names := (RelativeImport.modules ⟨st.from_, true, line⟩).foldl
            (fun names name => names.insert name) st.names }) := by
  have hclose : ')' ∉ line := (any_isParen_eq_false.1 hline).2
  have hsame : ({ st with inTypeChecking := false } : Locals) = st := by rw [← htype]
  have hmatch : st.matching line = some ⟨st.from_, true, line⟩ := by
    simp [Locals.matching, hparen, matchNames_eq_some.2 ⟨rfl, hne, hline⟩]
  unfold step
  rw [if_neg (by simp [hfuture]), if_neg (by simp [htype]), hsame, stepOutside]
  simp [hparen, hclose, hmatch]

/-- Behind `from .a import (` it is the module that has been read. -/
theorem step_names (hparen : st.paren = true) (htype : st.inTypeChecking = false)
    (hfrom : st.from_ ≠ []) (hnames : st.from_ ∈ st.names) (hne : line ≠ [])
    (hline : line.any isParen = false) :
    ∃ again : List Yield, step st line = (again, st) ∧
      ∀ y ∈ again, ∃ indent, y = .inline indent st.from_ := by
  cases hfuture : mentionsFuture line with
  | true => exact ⟨[], step_future hfuture, fun y hy => absurd hy List.not_mem_nil⟩
  | false =>
      have hmodules : RelativeImport.modules ⟨st.from_, true, line⟩ = [st.from_] := if_pos hfrom
      have hstep := step_listed hparen htype hfuture hne hline
      rw [hmodules, List.foldl_cons, List.foldl_nil, List.insert_of_mem hnames] at hstep
      exact ⟨_, hstep, fun y hy => ⟨_, List.mem_singleton.1 hy⟩⟩

/-- The closing parenthesis ends the import. -/
theorem step_closing (hparen : st.paren = true) (htype : st.inTypeChecking = false)
    (hfuture : mentionsFuture line = false) (hclose : ')' ∈ line) :
    step st line = ([], { st with paren := false }) := by
  unfold step stepOutside
  rw [if_neg (by simp [hfuture]), if_neg (by simp [htype])]
  simp [hparen, hclose, htype]

end Lines

/-! ## What the loop makes of a module -/

/-- A module that has been read is not read again. -/
def Again (read : Reader) : Prop :=
  ∀ name seen lines seen', read name seen = .ok (lines, seen') →
    read name seen' = .ok ([], seen')

/-- The same lines come out of it, whatever follows. -/
def SameOutput (read : Reader) (ys zs : List Yield) : Prop :=
  ∀ rest seen, perform read (ys ++ rest) seen = perform read (zs ++ rest) seen

/-- The local variables after a statement. -/
structure Statement.After (s : Statement) (st st' : Locals) : Prop where
  paren : st'.paren = false
  names : st'.names = s.namesAfter st.names
  inBlock : st'.inTypeChecking = true →
    ∃ header body, s = .typeChecking header body ∧
      st'.typeCheckingIndent = (indentOf header).length

section Scan

variable {read : Reader} {st : Locals} {s : Statement}

/-- More requests for a module that has just been read change nothing. -/
theorem perform_again (hagain : Again read) {again : List Yield} {name : Name}
    (h : ∀ y ∈ again, ∃ indent, y = .inline indent name) (indent : List Char) :
    SameOutput read (.inline indent name :: again) [.inline indent name] := by
  intro rest seen
  cases hread : read name seen with
  | error e => simp [perform, hread, bind, Except.bind]
  | ok found =>
      obtain ⟨lines, seen'⟩ := found
      have hrest : perform read (again ++ rest) seen' = perform read rest seen' := by
        clear indent
        induction again with
        | nil => rfl
        | cons y again ih =>
            obtain ⟨indent, rfl⟩ := h y List.mem_cons_self
            rw [List.cons_append, perform_inline_of_seen (hagain _ _ _ _ hread)]
            exact ih fun y hy => h y (List.mem_cons_of_mem _ hy)
      simp [perform, hread, hrest, bind, Except.bind]

theorem scan_names (st : Locals) {names : List Line} (hparen : st.paren = true)
    (htype : st.inTypeChecking = false) (hfrom : st.from_ ≠ []) (hnames : st.from_ ∈ st.names)
    (hlines : ∀ line ∈ names, line ≠ [] ∧ line.any isParen = false) :
    scanState st names = st ∧ ∀ y ∈ scan st names, ∃ indent, y = .inline indent st.from_ := by
  induction names with
  | nil => exact ⟨rfl, fun y hy => absurd hy List.not_mem_nil⟩
  | cons line names ih =>
      obtain ⟨hne, hline⟩ := hlines line List.mem_cons_self
      obtain ⟨again, hstep, hagain⟩ := step_names hparen htype hfrom hnames hne hline
      obtain ⟨hstate, hrest⟩ := ih fun line hmem => hlines line (List.mem_cons_of_mem _ hmem)
      constructor
      · rw [scanState, List.foldl_cons, hstep]
        exact hstate
      · intro y hy
        rw [scan, hstep, List.mem_append] at hy
        exact hy.elim (hagain y) (hrest y)

/-- The lines of an open block are kept. -/
theorem scan_inBlock (st : Locals) {body : List Line} (hin : st.inTypeChecking = true)
    (hbody : ∀ line ∈ body, Statement.InBlock st.typeCheckingIndent line) :
    scan st body = (Statement.kept st.names body).map .own ∧ scanState st body = st := by
  induction body with
  | nil => exact ⟨rfl, rfl⟩
  | cons line body ih =>
      have hstep := step_inBlock hin (hbody line List.mem_cons_self)
      obtain ⟨hscan, hstate⟩ := ih fun line hmem => hbody line (List.mem_cons_of_mem _ hmem)
      constructor
      · rw [scan, hstep, hscan, ← List.map_append, Statement.kept, Statement.kept,
          ← List.map_append, ← List.filter_append]
        rfl
      · rw [scanState, List.foldl_cons, hstep]
        exact hstate

theorem SameOutput.refl (ys : List Yield) : SameOutput read ys ys := fun _ _ => rfl

theorem perform_congr (zs : List Yield) {us vs : List Yield}
    (h : ∀ seen, perform read us seen = perform read vs seen) (seen : List Name) :
    perform read (zs ++ us) seen = perform read (zs ++ vs) seen := by
  induction zs generalizing seen with
  | nil => exact h seen
  | cons z zs ih => cases z <;> simp only [List.cons_append, perform, ih]

theorem scan_singleton (line : Line) : scan st [line] = (step st line).1 := List.append_nil _

theorem scan_text {line : Line} (hvalid : Statement.Valid (.text line))
    (hout : st.Outside line) :
    scan st [line] = Statement.contents st.names (.text line) ∧
      Statement.After (.text line) st (scanState st [line]) := by
  rw [scan_singleton, scanState, List.foldl_cons, List.foldl_nil]
  cases hfuture : mentionsFuture line with
  | true =>
      rw [step_future hfuture]
      exact ⟨by simp [Statement.contents, Statement.own, Statement.kept, Statement.imports, hfuture],
        { paren := hout.1, names := rfl, inBlock := fun hin => absurd (.inl hfuture) (hout.2 hin) }⟩
  | false =>
      obtain ⟨htype, himport⟩ := hvalid.resolve_left (by simp [hfuture])
      rw [step_text hfuture hout htype himport]
      exact ⟨by simp [Statement.contents, Statement.own, Statement.kept, Statement.imports, hfuture],
        { paren := hout.1, names := rfl, inBlock := fun hin => absurd hin (by simp) }⟩

theorem scan_typeChecking {header : Line} {body : List Line}
    (hvalid : Statement.Valid (.typeChecking header body)) (hout : st.Outside header) :
    scan st (header :: body) = Statement.contents st.names (.typeChecking header body) ∧
      Statement.After (.typeChecking header body) st (scanState st (header :: body)) := by
  obtain ⟨hfuture, htype, hbody⟩ := hvalid
  obtain ⟨hscan, hstate⟩ := scan_inBlock
    { st with inTypeChecking := true, typeCheckingIndent := (indentOf header).length } rfl hbody
  rw [scan, scanState, List.foldl_cons, step_header hfuture hout htype, hscan]
  constructor
  · simp [Statement.contents, Statement.own, Statement.kept, Statement.imports, hfuture]
  · unfold scanState at hstate
    rw [hstate]
    exact { paren := hout.1, names := rfl, inBlock := fun _ => ⟨header, body, rfl, rfl⟩ }

/-- The names between the commas are read back. -/
theorem splitOn_targets {targets : List Target} (hne : targets ≠ [])
    (hvalid : ∀ t ∈ targets, t.Valid) :
    (([','].intercalate (targets.map Target.text)).splitOn ',').map strip =
      targets.map Target.name := by
  rw [List.splitOn_intercalate, List.map_map, List.map_inj_left]
  · intro t ht
    exact strip_append (hvalid t ht).before (hvalid t ht).after (hvalid t ht).name
  · intro piece hpiece
    obtain ⟨t, ht, rfl⟩ := List.mem_map.1 hpiece
    exact (hvalid t ht).not_mem (by decide) (by decide)
  · simpa using hne

theorem scan_importModules {indent : List Char} {targets : List Target}
    (hvalid : Statement.Valid (.importModules indent targets))
    (hout : st.Outside (Statement.opening (.importModules indent targets))) :
    scan st [Statement.opening (.importModules indent targets)] =
        Statement.contents st.names (.importModules indent targets) ∧
      Statement.After (.importModules indent targets) st
        (scanState st [Statement.opening (.importModules indent targets)]) := by
  obtain ⟨hindent, hne, htargets, hfuture⟩ := hvalid
  have hpiece : ∀ {d : Char}, isSpace d = false → isWord d = false → d ≠ ',' →
      d ∉ [','].intercalate (targets.map Target.text) := by
    intro d hspace hword hcomma hmem
    rcases mem_intercalate hmem with heq | ⟨piece, hpiece, hd⟩
    · exact hcomma heq
    · obtain ⟨t, ht, rfl⟩ := List.mem_map.1 hpiece
      exact (htargets t ht).not_mem hspace hword hd
  have hparens := any_isParen_eq_false.2 ⟨hpiece (d := '(') (by decide) (by decide) (by decide),
    hpiece (d := ')') (by decide) (by decide) (by decide)⟩
  have hnames : [','].intercalate (targets.map Target.text) ≠ [] := by
    intro heq
    have hsplit := splitOn_targets hne htargets
    rw [heq] at hsplit
    obtain ⟨t, rest, rfl⟩ := List.exists_cons_of_ne_nil hne
    rw [List.map_cons] at hsplit
    exact (htargets t List.mem_cons_self).name.1 (List.cons.inj hsplit).1.symm
  have hmodules : RelativeImport.modules
      ⟨[], false, [','].intercalate (targets.map Target.text)⟩ = targets.map Target.name := by
    rw [RelativeImport.modules, if_neg (by simp), splitOn_targets hne htargets]
  have hstep := step_import hindent ⟨List.not_mem_nil, List.not_mem_nil⟩ hnames hparens hfuture hout
  rw [hmodules] at hstep
  rw [scan_singleton, scanState, List.foldl_cons, List.foldl_nil, Statement.opening, hstep]
  exact ⟨rfl, { paren := rfl, names := rfl, inBlock := fun hin => absurd hin (by simp) }⟩

theorem IsName.no_break {name : Name} (h : IsName name) : ' ' ∉ name ∧ '\n' ∉ name :=
  ⟨h.not_mem (by decide), h.not_mem (by decide)⟩

theorem scan_importNames {indent : List Char} {module : Name} {names : Line}
    (hvalid : Statement.Valid (.importNames indent module names))
    (hout : st.Outside (Statement.opening (.importNames indent module names))) :
    scan st [Statement.opening (.importNames indent module names)] =
        Statement.contents st.names (.importNames indent module names) ∧
      Statement.After (.importNames indent module names) st
        (scanState st [Statement.opening (.importNames indent module names)]) := by
  obtain ⟨hindent, hmodule, ⟨hne, hparens⟩, hfuture⟩ := hvalid
  have hmodules : RelativeImport.modules ⟨module, false, names⟩ = [module] := if_pos hmodule.1
  have hstep := step_import hindent hmodule.no_break hne hparens hfuture hout
  rw [hmodules] at hstep
  rw [scan_singleton, scanState, List.foldl_cons, List.foldl_nil, Statement.opening, hstep]
  exact ⟨rfl, { paren := rfl, names := rfl, inBlock := fun hin => absurd hin (by simp) }⟩

theorem scan_importBlock {indent : List Char} {module : Name} {opened : Line}
    {names : List Line} {before after : List Char} (hagain : Again read)
    (hlines : ∀ line ∈ names, IsLine line)
    (hvalid : Statement.Valid (.importBlock indent module opened names before after))
    (hout : st.Outside (Statement.opening (.importBlock indent module opened names before after))) :
    SameOutput read
        (scan st (Statement.lines (.importBlock indent module opened names before after)))
        (Statement.contents st.names (.importBlock indent module opened names before after)) ∧
      Statement.After (.importBlock indent module opened names before after) st
        (scanState st (Statement.lines (.importBlock indent module opened names before after))) := by
  obtain ⟨hindent, hmodule, ⟨hne, hparens⟩, hfuture, hnames, hbefore, hafter⟩ := hvalid
  have hmodules : RelativeImport.modules ⟨module, true, opened⟩ = [module] := if_pos hmodule.1
  have hstep := step_import hindent hmodule.no_break hne hparens hfuture hout
  rw [hmodules] at hstep
  obtain ⟨st', hopen, hparen, htype, hfrom, hst'⟩ : ∃ st' : Locals,
      step st (indent ++ importLine module true opened) = ([.inline indent module], st') ∧
        st'.paren = true ∧ st'.inTypeChecking = false ∧ st'.from_ = module ∧
          st'.names = st.names.insert module := ⟨_, hstep, rfl, rfl, rfl, rfl⟩
  -- the lines of names do not change the state, the last line closes the parenthesis
  have hnames' : ∀ line ∈ names, line ≠ [] ∧ line.any isParen = false :=
    fun line hline => ⟨(hlines line hline).ne_nil, hnames line hline⟩
  obtain ⟨hstate, hscan⟩ := scan_names st' hparen htype (hfrom ▸ hmodule.1)
    (hst' ▸ hfrom ▸ List.mem_insert_self) hnames'
  have hfuture' : mentionsFuture (before ++ ')' :: after) = false := by
    rw [Bool.eq_false_iff]
    intro hmentions
    have hmem : '_' ∈ before ++ ')' :: after := mem_of_isIn hmentions (by decide)
    rw [List.mem_append, List.mem_cons] at hmem
    rcases hmem with hmem | hmem | hmem
    · exact hbefore.not_mem (by decide) hmem
    · exact absurd hmem (by decide)
    · exact hafter.not_mem (by decide) hmem
  have hclose := step_closing hparen htype hfuture'
    (List.mem_append_right before List.mem_cons_self)
  constructor
  · have hyields := perform_again hagain (hfrom ▸ hscan) indent
    rw [Statement.lines, Statement.opening, scan, hopen, scan_append, hstate, scan_singleton, hclose,
      List.append_nil]
    exact hyields
  · unfold scanState at hstate
    rw [Statement.lines, Statement.opening, scanState, List.foldl_cons, hopen, List.foldl_append,
      hstate, List.foldl_cons, List.foldl_nil, hclose]
    exact { paren := rfl, names := hst', inBlock := fun hin => absurd hin (by simp [htype]) }

/-- What the loop makes of a statement. -/
theorem scan_statement (hagain : Again read) (hlines : ∀ line ∈ s.lines, IsLine line)
    (hvalid : s.Valid) (hout : st.Outside s.opening) :
    SameOutput read (scan st s.lines) (s.contents st.names) ∧
      s.After st (scanState st s.lines) := by
  have hsame : ∀ {ys zs : List Yield} {p : Prop}, ys = zs ∧ p → SameOutput read ys zs ∧ p :=
    fun ⟨heq, hp⟩ => ⟨heq ▸ .refl _, hp⟩
  cases s with
  | text line => exact hsame (scan_text hvalid hout)
  | typeChecking header body => exact hsame (scan_typeChecking hvalid hout)
  | importModules indent targets => exact hsame (scan_importModules hvalid hout)
  | importNames indent module names => exact hsame (scan_importNames hvalid hout)
  | importBlock indent module opened names before after =>
      exact scan_importBlock hagain
        (fun line hline => hlines line (List.mem_cons_of_mem _ (List.mem_append_left _ hline)))
        hvalid hout

/-- What the loop makes of a module. -/
theorem perform_scan (hagain : Again read) {statements : List Statement}
    (hwell : WellFormed statements)
    (hout : ∀ s ∈ statements.head?, st.Outside s.opening) (seen : List Name) :
    perform read (scan st (statements.flatMap Statement.lines)) seen =
      perform read (contents st.names statements) seen := by
  have hsame : SameOutput read (scan st (statements.flatMap Statement.lines))
      (contents st.names statements) := by
    clear seen
    induction statements generalizing st with
    | nil => exact .refl _
    | cons s rest ih =>
        obtain ⟨hlines, hvalid, hends, hrest⟩ := hwell
        obtain ⟨hscan, hafter⟩ := scan_statement hagain hlines hvalid (hout s rfl)
        have hnext : ∀ next ∈ rest.head?, (scanState st s.lines).Outside next.opening := by
          intro next hnext
          refine ⟨hafter.paren, fun hin => ?_⟩
          obtain ⟨header, body, rfl, hindent⟩ := hafter.inBlock hin
          exact hindent ▸ hends next hnext
        intro more seen
        rw [List.flatMap_cons, scan_append, contents, List.append_assoc, List.append_assoc, hscan,
          ← hafter.names]
        exact perform_congr _ (ih hrest hnext more) seen
  have hall := hsame [] seen
  rwa [List.append_nil, List.append_nil] at hall

end Scan

/-! ## The own lines -/

theorem ownItems_contents (names : List Name) (statements : List Statement) :
    ownItems (contents names statements) = ownLines names statements := by
  induction statements generalizing names with
  | nil => rfl
  | cons s rest ih =>
      have hs : ownItems (s.contents names) = s.own names := by
        simp [ownItems, Statement.contents, List.filterMap_map]
      rw [ownLines, ← ih, ← hs, contents, ownItems, List.filterMap_append]
      rfl

theorem ownLines_isLine {names : List Name} {statements : List Statement}
    (hwell : WellFormed statements) {line : Line} (hline : line ∈ ownLines names statements) :
    line = [] ∨ IsLine line := by
  have hkept : ∀ {names : List Name} {lines : List Line}, (∀ l ∈ lines, IsLine l) →
      ∀ {line : Line}, line ∈ Statement.kept names lines → line = [] ∨ IsLine line := by
    intro names lines hlines line hline
    obtain ⟨l, hl, rfl⟩ := List.mem_map.1 hline
    exact cleanLine_isLine names (hlines l (List.mem_of_mem_filter hl))
  induction statements generalizing names with
  | nil => cases hline
  | cons s rest ih =>
      obtain ⟨hlines, -, -, hrest⟩ := hwell
      rcases List.mem_append.1 hline with hline | hline
      · cases s with
        | text l => exact hkept hlines hline
        | typeChecking header body => exact hkept hlines hline
        | importModules indent targets => cases hline
        | importNames indent module names => cases hline
        | importBlock indent module opened names before after => cases hline
      · exact ih hrest hline

end Portalocker.Combine
