import Mathlib.Data.List.Induction
import Portalocker.Combine.Text
import Portalocker.Foundation.Expansion
set_option autoImplicit false

/-!
# `_read_file`

The loop of `_read_file` over the lines of one module, and the recursion over the modules
it inlines.  What one line makes the loop do depends on its local variables only (`step`):
it yields a line of its own, or asks for the lines of modules, which are read at once
(`perform`).
-/

namespace Portalocker.Combine

/-! ## One line -/

/-- The local variables of `_read_file`. -/
structure Locals where
  names : List Name := []
  paren : Bool := false
  from_ : Name := []
  inTypeChecking : Bool := false
  typeCheckingIndent : Nat := 0

/-- What the loop yields: a line of the module, or the lines of another one, indented. -/
abbrev Yield : Type := Expansion.Item Name (List Char) Line

/-- The modules a match makes the loop read: the one it names, or each of the names that
are imported. -/
def RelativeImport.modules (found : RelativeImport) : List Name :=
  if found.from_ ≠ [] then [found.from_] else (found.names.splitOn ',').map strip

/-- `match`: inside a parenthesis the line is a list of names, and `paren` and `from_` are
those of the line that has opened it. -/
def Locals.matching (st : Locals) (line : Line) : Option RelativeImport :=
  if st.paren then (matchNames line).map fun names => ⟨st.from_, true, names⟩
  else matchRelativeImport (lstrip line)

/-- The body of the loop, outside the blocks it emits verbatim. -/
def stepOutside (st : Locals) (line : Line) : List Yield × Locals :=
  let indent := indentOf line
  if st.paren = false ∧ matchTypeChecking (lstrip line) then
    ([.own (cleanLine line st.names)],
      { st with inTypeChecking := true, typeCheckingIndent := indent.length })
  else if st.paren ∧ ')' ∈ line then ([], { st with paren := false })
  else
    match st.matching line with
    | none => ([.own (cleanLine line st.names)], st)
    | some found =>
        (found.modules.map fun name => .inline indent name,
          { st with
            paren := found.paren
            from_ := found.from_
            names := found.modules.foldl (fun names name => names.insert name) st.names })

/-- The body of the loop. -/
def step (st : Locals) (line : Line) : List Yield × Locals :=
  if mentionsFuture line then ([], st)
  else if st.inTypeChecking ∧
      (strip line = [] ∨ (indentOf line).length > st.typeCheckingIndent) then
    ([.own (cleanLine line st.names)], st)
  else stepOutside { st with inTypeChecking := false } line

/-- What the loop yields for these lines. -/
def scan (st : Locals) : List Line → List Yield
  | [] => []
  | line :: lines => (step st line).1 ++ scan (step st line).2 lines

/-- The local variables after these lines. -/
def scanState (st : Locals) (lines : List Line) : Locals :=
  lines.foldl (fun st line => (step st line).2) st

theorem scan_append (st : Locals) (lines lines' : List Line) :
    scan st (lines ++ lines') = scan st lines ++ scan (scanState st lines) lines' := by
  induction lines generalizing st with
  | nil => rfl
  | cons line lines ih => simp [scan, scanState, ih]

/-! ## The recursion -/

/-- Why `_read_file` raises. -/
inductive ReadError
  | fileNotFound
  | unicodeDecode
  | recursion
  deriving DecidableEq, Repr

/-- What a call of `_read_file` does: the lines it yields, and `seen_files` afterwards. -/
abbrev Reader : Type := Name → List Name → Except ReadError (List Line × List Name)

/-- The files of the package: their lines, or why they cannot be read. -/
abbrev Files : Type := Name → Except ReadError (List Line)

/-- The loop yields these things, one after the other. -/
def perform (read : Reader) : List Yield → List Name → Except ReadError (List Line × List Name)
  | [], seen => .ok ([], seen)
  | .own line :: rest, seen => do
      let (lines, seen) ← perform read rest seen
      return (line :: lines, seen)
  | .inline indent name :: rest, seen => do
      let (inlined, seen) ← read name seen
      let (lines, seen) ← perform read rest seen
      return (reindent inlined indent ++ lines, seen)

/-- `_read_file`, when the interpreter allows `limit` calls inside each other. -/
def readFile (files : Files) : Nat → Reader
  | 0, _, _ => .error .recursion
  | limit + 1, path, seen =>
      if path ∈ seen then .ok ([], seen)
      else do
        let lines ← files path
        perform (readFile files limit) (scan {} lines) (seen ++ [path])

/-! ## What has been read -/

section Reading

variable {α β : Type} {read : Reader} {files : Files} {limit : Nat} {name : Name}
  {seen seen' : List Name} {lines : List Line}

theorem bind_eq_ok {x : Except ReadError α} {f : α → Except ReadError β} {b : β} :
    (x >>= f) = .ok b ↔ ∃ a, x = .ok a ∧ f a = .ok b := by
  cases x with
  | error e => exact ⟨nofun, nofun⟩
  | ok a => exact ⟨fun h => ⟨a, rfl, h⟩, fun ⟨_, ha, h⟩ => Except.ok.inj ha ▸ h⟩

theorem perform_inline_ok {indent : List Char} {rest : List Yield} :
    perform read (.inline indent name :: rest) seen = .ok (lines, seen') ↔
      ∃ inlined seen₁ more, read name seen = .ok (inlined, seen₁) ∧
        perform read rest seen₁ = .ok (more, seen') ∧ lines = reindent inlined indent ++ more := by
  simp only [perform, bind_eq_ok, Prod.exists]
  constructor
  · rintro ⟨inlined, seen₁, hread, more, seen₂, hrest, heq⟩
    obtain ⟨rfl, rfl⟩ := Prod.mk.inj (Except.ok.inj heq)
    exact ⟨inlined, seen₁, more, hread, hrest, rfl⟩
  · rintro ⟨inlined, seen₁, more, hread, hrest, rfl⟩
    exact ⟨inlined, seen₁, hread, more, seen', hrest, rfl⟩

theorem perform_own_ok {line : Line} {rest : List Yield} :
    perform read (.own line :: rest) seen = .ok (lines, seen') ↔
      ∃ more, perform read rest seen = .ok (more, seen') ∧ lines = line :: more := by
  simp only [perform, bind_eq_ok, Prod.exists]
  constructor
  · rintro ⟨more, seen₁, hrest, heq⟩
    obtain ⟨rfl, rfl⟩ := Prod.mk.inj (Except.ok.inj heq)
    exact ⟨more, hrest, rfl⟩
  · rintro ⟨more, hrest, rfl⟩
    exact ⟨more, seen', hrest, rfl⟩

@[simp] theorem reindent_nil (indent : List Char) : reindent [] indent = [] := by
  simp [reindent]

/-- Nothing comes of a module that is not read again. -/
theorem perform_inline_of_seen {indent : List Char} {rest : List Yield}
    (h : read name seen = .ok ([], seen)) :
    perform read (.inline indent name :: rest) seen = perform read rest seen := by
  cases hrest : perform read rest seen <;>
    simp [perform, h, hrest, bind, Except.bind, pure, Except.pure]

/-- Nothing is taken out of `seen_files`. -/
theorem perform_seen (hread : ∀ {name seen lines seen'}, read name seen = .ok (lines, seen') →
      seen ⊆ seen') {yields : List Yield}
    (h : perform read yields seen = .ok (lines, seen')) : seen ⊆ seen' := by
  induction yields generalizing seen lines with
  | nil =>
      obtain ⟨-, rfl⟩ := Prod.mk.inj (Except.ok.inj h)
      exact fun _ hm => hm
  | cons y yields ih =>
      cases y with
      | own line =>
          obtain ⟨more, hrest, -⟩ := perform_own_ok.1 h
          exact ih hrest
      | inline indent name =>
          obtain ⟨inlined, seen₁, more, hname, hrest, -⟩ := perform_inline_ok.1 h
          exact fun m hm => ih hrest (hread hname hm)

/-- A module that has been read is in `seen_files`. -/
theorem readFile_seen (h : readFile files limit name seen = .ok (lines, seen')) :
    seen ⊆ seen' ∧ name ∈ seen' := by
  induction limit generalizing name seen lines seen' with
  | zero => cases h
  | succ limit ih =>
      unfold readFile at h
      split at h
      · rename_i hmem
        obtain ⟨-, rfl⟩ := Prod.mk.inj (Except.ok.inj h)
        exact ⟨fun _ hm => hm, hmem⟩
      · obtain ⟨text, -, hperform⟩ := bind_eq_ok.1 h
        have hsub := perform_seen (fun hread => (ih hread).1) hperform
        exact ⟨fun m hm => hsub (List.mem_append_left _ hm),
          hsub (List.mem_append_right _ (List.mem_singleton_self _))⟩

/-- It is not read again. -/
theorem readFile_again (h : readFile files limit name seen = .ok (lines, seen')) :
    readFile files limit name seen' = .ok ([], seen') := by
  cases limit with
  | zero => cases h
  | succ limit => exact if_pos (readFile_seen h).2

end Reading

end Portalocker.Combine
