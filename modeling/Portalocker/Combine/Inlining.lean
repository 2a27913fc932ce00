import Portalocker.Combine.Statements
set_option autoImplicit false

/-!
# Every module is inlined once

The output of `_read_file` for a package is the expansion of the module it is called for:
the own lines of every module it leads to, at one place each, under the indentation of
what leads there first.
-/

namespace Portalocker.Combine

open Expansion

/-! ## Packages -/

/-- A finite package whose modules import modules of the package. -/
structure Package where
  names : List Name
  source : Name → List Statement
  wellFormed : ∀ name ∈ names, WellFormed (source name)
  closed : ∀ name ∈ names, ∀ s ∈ source name, ∀ m ∈ s.imports, m ∈ names

namespace Package

/-- The lines of a module. -/
def text (P : Package) (name : Name) : List Line := (P.source name).flatMap Statement.lines

/-- Its files. -/
def files (P : Package) : Files := fun name =>
  if name ∈ P.names then .ok (P.text name) else .error .fileNotFound

/-- What inlining is about in a module. -/
def contents (P : Package) (name : Name) : List Yield := Combine.contents [] (P.source name)

/-- One module imports another, outside `TYPE_CHECKING` blocks. -/
def Imports (P : Package) (name m : Name) : Prop := ∃ s ∈ P.source name, m ∈ s.imports

end Package

/-- A line of an inlined module. -/
abbrev InlinedLine : Type := Placed Name (List Char) Line

/-- A line under an indentation. -/
def place (indent : List Char) (line : Line) : Line :=
  if strip line = [] then line else indent ++ line

/-- The lines of an expansion as they stand in the output: those that are not blank under
all indentations on the way to their module. -/
def render (entries : List InlinedLine) : List Line :=
  entries.map fun entry => place entry.path.flatten entry.item

/-! ## Indentation -/

section Indentation

variable {i j : List Char} {line : Line}

theorem place_nil : place [] line = line := by
  unfold place
  split <;> rfl

theorem place_append : place (i ++ j) line = place i (place j line) := by
  by_cases hblank : strip line = []
  · simp [place, hblank]
  · have htext : strip (j ++ line) ≠ [] := by
      intro heq
      rw [strip_eq_nil_iff] at heq hblank
      exact hblank fun c hc => heq c (List.mem_append_right _ hc)
    simp [place, hblank, htext]

theorem reindent_eq (lines : List Line) (i : List Char) : reindent lines i = lines.map (place i) := by
  by_cases hnil : i = []
  · have hid : place [] = id := funext fun line => place_nil
    simp [reindent, hnil, hid]
  · rw [reindent, if_neg hnil]
    exact List.map_congr_left fun line _ => by
      by_cases hblank : strip line = [] <;> simp [place, hblank]

/-- An import puts all lines under its indentation. -/
theorem render_inlined (t : Tree Name (List Char) Line) (name : Name) (i : List Char) :
    reindent (render (t.placed name [])) i = render (t.placed name [i]) := by
  have hplaced := t.placed_append_path name [i] []
  rw [List.append_nil] at hplaced
  rw [hplaced, reindent_eq, render, render, List.map_map, List.map_map]
  exact List.map_congr_left fun entry _ => by
    simp [place_append]

end Indentation

/-! ## What is left to read -/

namespace Package

variable {P : Package} {name m : Name} {seen : List Name} {indent : List Char}

/-- How many modules have not been read. -/
def unread (P : Package) (seen : List Name) : Nat := (P.names.filter (· ∉ seen)).length

theorem unread_append (more : List Name) : P.unread (seen ++ more) ≤ P.unread seen := by
  apply List.Sublist.length_le
  apply List.monotone_filter_right
  intro n hn
  simp only [List.mem_append, not_or, decide_eq_true_eq] at hn ⊢
  exact hn.1

theorem unread_lt (hname : name ∈ P.names) (hnew : name ∉ seen) :
    P.unread (seen ++ [name]) < P.unread seen := by
  have hfilter : P.names.filter (· ∉ seen ++ [name]) =
      (P.names.filter (· ∉ seen)).filter (· ≠ name) := by
    rw [List.filter_filter]
    exact List.filter_congr fun n _ => by simp [and_comm]
  unfold unread
  rw [hfilter]
  apply List.length_filter_lt_length_iff_exists.2
  exact ⟨name, List.mem_filter.2 ⟨hname, by simpa using hnew⟩, by simp⟩

theorem unread_root (hname : name ∈ P.names) : P.unread [name] < P.names.length := by
  have hlt : P.unread ([] ++ [name]) < P.unread [] := unread_lt hname List.not_mem_nil
  simpa [unread] using hlt

/-! ## The output -/

theorem child_iff : Child P.contents name m ↔ P.Imports name m := by
  have hcontents : ∀ names statements, (∃ indent, .inline indent m ∈
      Combine.contents names statements) ↔ ∃ s ∈ statements, m ∈ s.imports := by
    intro names statements
    induction statements generalizing names with
    | nil => simp [Combine.contents]
    | cons s rest ih =>
        have hs : (∃ indent, .inline indent m ∈ s.contents names) ↔ m ∈ s.imports := by
          simp [Statement.contents]
        simp only [List.exists_mem_cons_iff, ← hs, ← ih (s.namesAfter names), ← exists_or]
        simp only [Combine.contents, List.mem_append]
  exact hcontents [] (P.source name)

theorem mem_names_of_contents (hname : name ∈ P.names) (indent : List Char) (m : Name)
    (hmem : .inline indent m ∈ P.contents name) : m ∈ P.names := by
  obtain ⟨s, hs, hm⟩ := child_iff.1 ⟨indent, hmem⟩
  exact P.closed name hname s hs m hm

/-- A module of the package leads to modules of the package only. -/
theorem mem_names_of_reaches (hname : name ∈ P.names)
    (h : Relation.ReflTransGen P.Imports name m) : m ∈ P.names := by
  induction h with
  | refl => exact hname
  | tail _ himport ih =>
      obtain ⟨s, hs, hm⟩ := himport
      exact P.closed _ ih s hs _ hm

/-- A module that has not been met is read. -/
theorem readFile_first (hname : name ∈ P.names) (hnew : name ∉ seen) (limit : Nat) :
    readFile P.files (limit + 1) name seen =
      perform (readFile P.files limit) (P.contents name) (seen ++ [name]) := by
  have hfile : P.files name = .ok (P.text name) := if_pos hname
  have hout : ∀ s ∈ (P.source name).head?, Locals.Outside {} s.opening :=
    fun s _ => ⟨rfl, fun hin => absurd hin (by simp)⟩
  rw [readFile, if_neg hnew, hfile]
  have hagain : Again (readFile P.files limit) := fun _ _ _ _ => readFile_again
  exact perform_scan hagain (P.wellFormed name hname) hout _

/-- What the loop yields for these items is their expansion. -/
theorem perform_follows (P : Package) (k : Nat) {items : List Yield}
    (hitems : ∀ indent m, .inline indent m ∈ items → m ∈ P.names)
    {seen : List Name} (hk : P.unread seen ≤ k) :
    ∃ t : Tree Name (List Char) Line, Follows P.contents seen items t ∧
      ∀ limit, k < limit → ∀ name,
        perform (readFile P.files limit) items seen =
          .ok (render (t.placed name []), seen ++ t.names) := by
  induction k using Nat.strong_induction_on generalizing items seen with
  | _ k ihk =>
    induction items generalizing seen with
    | nil =>
      refine ⟨.done, .done, fun limit _ name => ?_⟩
      simp [perform, render, Tree.placed, Tree.names]
    | cons item items ih =>
      have hrest : ∀ indent m, .inline indent m ∈ items → m ∈ P.names :=
        fun indent m hmem => hitems indent m (List.mem_cons_of_mem _ hmem)
      cases item with
      | own line =>
          obtain ⟨t, hfollows, hperform⟩ := ih hrest hk
          refine ⟨.own line t, .own hfollows, fun limit hlimit name => ?_⟩
          rw [perform_own_ok]
          refine ⟨_, hperform limit hlimit name, ?_⟩
          simp [Tree.placed, render, place_nil]
      | inline indent m =>
          have hm : m ∈ P.names := hitems indent m List.mem_cons_self
          by_cases hmet : m ∈ seen
          · obtain ⟨t, hfollows, hperform⟩ := ih hrest hk
            refine ⟨t, .again hmet hfollows, fun limit hlimit name => ?_⟩
            obtain ⟨limit, rfl⟩ := Nat.exists_eq_succ_of_ne_zero (Nat.ne_zero_of_lt hlimit)
            rw [perform_inline_of_seen (if_pos hmet)]
            exact hperform _ hlimit name
          · have hlt := unread_lt hm hmet
            have hunread : P.unread (seen ++ [m]) ≤ P.unread (seen ++ [m]) := Nat.le_refl _
            obtain ⟨body, hbody, hread⟩ := ihk _ (by omega) (mem_names_of_contents hm) hunread
            have hk' : P.unread (seen ++ m :: body.names) ≤ k :=
              Nat.le_trans (unread_append _) hk
            obtain ⟨rest, hfollows, hperform⟩ := ih hrest hk'
            refine ⟨.inlined indent m body rest, .first hmet hbody hfollows,
              fun limit hlimit name => ?_⟩
            have hbodyRead : readFile P.files limit m seen =
                .ok (render (body.placed m []), seen ++ [m] ++ body.names) := by
              obtain ⟨limit, rfl⟩ := Nat.exists_eq_succ_of_ne_zero (Nat.ne_zero_of_lt hlimit)
              rw [readFile_first hm hmet]
              exact hread limit (by omega) m
            rw [List.append_assoc, List.singleton_append] at hbodyRead
            rw [perform_inline_ok]
            refine ⟨_, _, render (rest.placed name []), hbodyRead, ?_, ?_⟩
            · simpa [Tree.names] using hperform limit hlimit name
            · rw [render_inlined, Tree.placed, render, List.map_append]
              rfl

/-- The tree is what `_read_file` makes of the package for this root. -/
structure Bundles (P : Package) (root : Name) (t : Tree Name (List Char) Line) : Prop where
  /-- each import is replaced by the module, where it is met first -/
  follows : Follows P.contents [root] (P.contents root) t
  /-- `_read_file` ends, with these lines -/
  output : ∀ limit, P.names.length < limit →
    readFile P.files limit root [] = .ok (render (t.placed root []), root :: t.names)
  /-- no module is inlined twice -/
  nodup : (root :: t.names).Nodup
  /-- the modules that imports lead to are inlined -/
  reaches : ∀ m, m ∈ root :: t.names ↔ Relation.ReflTransGen P.Imports root m
  /-- such a module has one segment of the output, that of its own expansion, and one path
  above it; its own lines are there, once and in their order -/
  segment : ∀ m, Relation.ReflTransGen P.Imports root m →
    ∃ (met : List Name) (body : Tree Name (List Char) Line) (pre post : List InlinedLine)
      (path : List (List Char)),
      (m = root ∧ path = [] ∨ t.Reaches m path) ∧
        Follows P.contents met (P.contents m) body ∧
          t.placed root [] = pre ++ (body.placed m path ++ post) ∧
            (∀ entry ∈ pre ++ post, entry.name ≠ m) ∧
              (body.placed m path).filter (·.name = m) =
                (ownLines [] (P.source m)).map fun line => ⟨m, path, line⟩
  /-- what stands in the output are lines, or nothing where an assignment was useless -/
  isLine : ∀ entry ∈ t.placed root [], entry.item = [] ∨ IsLine entry.item

/-- For every root of every package, `_read_file` ends, and the own lines of each module that
the root imports, directly or not, are in the output exactly once. -/
theorem inlines_every_module_once (P : Package) {root : Name} (hroot : root ∈ P.names) :
    ∃ t, P.Bundles root t := by
  obtain ⟨t, hfollows, hperform⟩ :=
    perform_follows P (P.unread [root]) (mem_names_of_contents hroot) (Nat.le_refl _)
  have hreaches : ∀ m, m ∈ root :: t.names ↔ Relation.ReflTransGen P.Imports root m := by
    have hchild : Child P.contents = P.Imports :=
      funext fun _ => funext fun _ => propext child_iff
    exact fun m => hchild ▸ hfollows.mem_iff
  have hown : ∀ m, ownItems (P.contents m) = ownLines [] (P.source m) :=
    fun m => ownItems_contents [] (P.source m)
  refine ⟨t, hfollows, fun limit hlimit => ?_, ?_, hreaches, fun m hm => ?_, fun entry hentry => ?_⟩
  · obtain ⟨limit, rfl⟩ := Nat.exists_eq_succ_of_ne_zero (Nat.ne_zero_of_lt hlimit)
    have hlt := unread_root hroot
    rw [readFile_first hroot List.not_mem_nil]
    exact hperform limit (by omega) root
  · exact List.nodup_cons.2
      ⟨fun hmem => hfollows.not_mem_before root hmem (List.mem_singleton_self _), hfollows.nodup⟩
  · rcases List.mem_cons.1 ((hreaches m).2 hm) with rfl | hm
    · refine ⟨[m], t, [], [], [], .inl ⟨rfl, rfl⟩, hfollows, by simp, by simp, ?_⟩
      rw [← hown m]
      exact hfollows.own_items (List.mem_singleton_self m)
    · obtain ⟨met, body, pre, post, path, hmet, hbody, hpath, hplaced, hother⟩ :=
        hfollows.segment [] (List.mem_singleton_self root) hm
      refine ⟨met, body, pre, post, path, .inr hpath, hbody, hplaced, hother, ?_⟩
      rw [← hown m]
      exact hbody.own_items hmet
  · have hline : ∃ n ∈ root :: t.names, .own entry.item ∈ P.contents n := by
      rcases hfollows.item_mem hentry with hmem | ⟨n, hn, hmem⟩
      · exact ⟨root, List.mem_cons_self, hmem⟩
      · exact ⟨n, List.mem_cons_of_mem _ hn, hmem⟩
    obtain ⟨n, hn, hmem⟩ := hline
    have hname := mem_names_of_reaches hroot ((hreaches n).1 hn)
    exact ownLines_isLine (P.wellFormed n hname) (hown n ▸ mem_ownItems.2 hmem)

end Package

/-- Two modules that import each other, one of them in a block, and one of them itself. -/
def mutualImports : Package where
  names := ["a".toList, "b".toList]
  source name :=
    if name = "a".toList then
      [.text "try:\n".toList,
        .importBlock "    ".toList "b".toList "\n".toList ["  x,\n".toList] [] "\n".toList,
        .text "y = b.x\n".toList]
    else
      [.importModules [] [⟨[], "a".toList, []⟩, ⟨" ".toList, "b".toList, "\n".toList⟩],
        .typeChecking "if TYPE_CHECKING:\n".toList ["    from .c import z\n".toList],
        .text "x = 1\n".toList]
  wellFormed := by decide +kernel
  closed := by decide +kernel

theorem inlines_every_module_once_mutual : ∃ t, mutualImports.Bundles "a".toList t :=
  mutualImports.inlines_every_module_once (by decide)

example : readFile mutualImports.files 3 "a".toList [] =
    .ok (["try:\n", "    if TYPE_CHECKING:\n", "        from .c import z\n", "    x = 1\n",
      "y = x\n"].map String.toList, ["a".toList, "b".toList]) := by rfl

end Portalocker.Combine
