import Mathlib.Logic.Relation
import Mathlib.Data.List.Nodup
set_option autoImplicit false

/-!
# Expanding every node once

A node has items of its own and refers to other nodes.  Its expansion puts the expansion
of another node in the place of the first reference to it that the traversal meets, and
nothing in the place of every later one.  `Follows` says that a tree is such an expansion;
in it every reachable node occurs exactly once, with its own items in their order.
-/

namespace Expansion

/-- An item of a node: its own, or another node in this place. -/
inductive Item (ν κ β : Type)
  | own (item : β)
  | inline (edge : κ) (name : ν)

/-- The expansion of a node, item by item. -/
inductive Tree (ν κ β : Type)
  | done
  | own (item : β) (rest : Tree ν κ β)
  | inlined (edge : κ) (name : ν) (body rest : Tree ν κ β)

variable {ν κ β : Type}

/-- The nodes that are inlined, in the order of the traversal. -/
def Tree.names : Tree ν κ β → List ν
  | .done => []
  | .own _ rest => rest.names
  | .inlined _ name body rest => name :: (body.names ++ rest.names)

/-- An item in its place: whose it is, and the references that lead there. -/
structure Placed (ν κ β : Type) where
  name : ν
  path : List κ
  item : β

/-- All items of the expansion of a node. -/
def Tree.placed (name : ν) (path : List κ) : Tree ν κ β → List (Placed ν κ β)
  | .done => []
  | .own item rest => ⟨name, path, item⟩ :: rest.placed name path
  | .inlined edge child body rest =>
      body.placed child (path ++ [edge]) ++ rest.placed name path

/-- The references that lead to a node of the tree. -/
inductive Tree.Reaches : Tree ν κ β → ν → List κ → Prop
  | own {item : β} {rest : Tree ν κ β} {name : ν} {path : List κ} (h : rest.Reaches name path) :
      Reaches (.own item rest) name path
  | here {edge : κ} {name : ν} {body rest : Tree ν κ β} :
      Reaches (.inlined edge name body rest) name [edge]
  | inside {edge : κ} {child name : ν} {body rest : Tree ν κ β} {path : List κ}
      (h : body.Reaches name path) : Reaches (.inlined edge child body rest) name (edge :: path)
  | after {edge : κ} {child name : ν} {body rest : Tree ν κ β} {path : List κ}
      (h : rest.Reaches name path) : Reaches (.inlined edge child body rest) name path

/-- The items of its own. -/
def ownItems (items : List (Item ν κ β)) : List β :=
  items.filterMap fun item => match item with
    | .own b => some b
    | .inline _ _ => none

/-- One node refers to another. -/
def Child (contents : ν → List (Item ν κ β)) (parent name : ν) : Prop :=
  ∃ edge, .inline edge name ∈ contents parent

/-- The tree expands these items when the nodes `before` have been met already. -/
inductive Follows (contents : ν → List (Item ν κ β)) :
    List ν → List (Item ν κ β) → Tree ν κ β → Prop
  | done {before : List ν} : Follows contents before [] .done
  | own {before : List ν} {items : List (Item ν κ β)} {item : β} {rest : Tree ν κ β}
      (h : Follows contents before items rest) :
      Follows contents before (.own item :: items) (.own item rest)
  | again {before : List ν} {items : List (Item ν κ β)} {edge : κ} {name : ν} {t : Tree ν κ β}
      (hmet : name ∈ before) (h : Follows contents before items t) :
      Follows contents before (.inline edge name :: items) t
  | first {before : List ν} {items : List (Item ν κ β)} {edge : κ} {name : ν}
      {body rest : Tree ν κ β} (hnew : name ∉ before)
      (hbody : Follows contents (before ++ [name]) (contents name) body)
      (hrest : Follows contents (before ++ name :: body.names) items rest) :
      Follows contents before (.inline edge name :: items) (.inlined edge name body rest)

section Follows

variable {contents : ν → List (Item ν κ β)} {before : List ν} {items : List (Item ν κ β)}
  {t : Tree ν κ β} {name m : ν} {path : List κ}

/-! ## Which nodes occur -/

/-- A node that has been met does not occur again. -/
theorem Follows.not_mem_before (h : Follows contents before items t) :
    ∀ m ∈ t.names, m ∉ before := by
  induction h with
  | done => exact fun m hm => nomatch hm
  | own _ ih => exact ih
  | again _ _ ih => exact ih
  | first hnew _ _ ihbody ihrest =>
      intro m hm
      rcases List.mem_cons.1 hm with rfl | hm
      · exact hnew
      rcases List.mem_append.1 hm with hm | hm
      · exact fun hmet => ihbody m hm (List.mem_append_left _ hmet)
      · exact fun hmet => ihrest m hm (List.mem_append_left _ hmet)

/-- No node occurs twice. -/
theorem Follows.nodup (h : Follows contents before items t) : t.names.Nodup := by
  induction h with
  | done => exact List.nodup_nil
  | own _ ih => exact ih
  | again _ _ ih => exact ih
  | first _ hbody hrest ihbody ihrest =>
      refine List.nodup_cons.2 ⟨fun hm => ?_, List.nodup_append.2 ⟨ihbody, ihrest, ?_⟩⟩
      · rcases List.mem_append.1 hm with hm | hm
        · exact hbody.not_mem_before _ hm (List.mem_append_right _ (List.mem_singleton_self _))
        · exact hrest.not_mem_before _ hm (List.mem_append_right _ List.mem_cons_self)
      · rintro m hm m' hm' rfl
        exact hrest.not_mem_before m hm'
          (List.mem_append_right _ (List.mem_cons_of_mem _ hm))

/-- What the items refer to has been met at the end. -/
theorem Follows.met (h : Follows contents before items t) {edge : κ}
    (hmem : .inline edge m ∈ items) : m ∈ before ++ t.names := by
  induction h with
  | done => cases hmem
  | own _ ih =>
      rcases List.mem_cons.1 hmem with heq | hmem
      · cases heq
      · exact ih hmem
  | again hmet _ ih =>
      rcases List.mem_cons.1 hmem with heq | hmem
      · cases heq
        exact List.mem_append_left _ hmet
      · exact ih hmem
  | first _ _ _ _ ihrest =>
      rcases List.mem_cons.1 hmem with heq | hmem
      · cases heq
        exact List.mem_append_right _ List.mem_cons_self
      · have hrest := ihrest hmem
        simp only [Tree.names, List.mem_append, List.mem_cons] at hrest ⊢
        tauto

/-- And so has what the nodes of the tree refer to. -/
theorem Follows.closed (h : Follows contents before items t) (hm : m ∈ t.names)
    (hchild : Child contents m name) : name ∈ before ++ t.names := by
  induction h with
  | done => cases hm
  | own _ ih => exact ih hm
  | again _ _ ih => exact ih hm
  | @first before _ _ child body rest _ hbody _ ihbody ihrest =>
      have hinside : name ∈ (before ++ [child]) ++ body.names →
          name ∈ before ++ (child :: (body.names ++ rest.names)) := by
        intro hmem
        simp only [List.mem_append, List.mem_cons, List.not_mem_nil, or_false] at hmem ⊢
        tauto
      rcases List.mem_cons.1 hm with rfl | hm
      · obtain ⟨edge, hmem⟩ := hchild
        exact hinside (hbody.met hmem)
      rcases List.mem_append.1 hm with hm | hm
      · exact hinside (ihbody hm)
      · have hrest := ihrest hm
        simp only [Tree.names, List.mem_append, List.mem_cons] at hrest ⊢
        tauto

/-- Only what can be reached occurs. -/
theorem Follows.reachable (h : Follows contents before items t) (hm : m ∈ t.names) :
    ∃ edge n, .inline edge n ∈ items ∧ Relation.ReflTransGen (Child contents) n m := by
  induction h with
  | done => cases hm
  | own _ ih =>
      obtain ⟨edge, n, hmem, hpath⟩ := ih hm
      exact ⟨edge, n, List.mem_cons_of_mem _ hmem, hpath⟩
  | again _ _ ih =>
      obtain ⟨edge, n, hmem, hpath⟩ := ih hm
      exact ⟨edge, n, List.mem_cons_of_mem _ hmem, hpath⟩
  | first _ _ _ ihbody ihrest =>
      rcases List.mem_cons.1 hm with rfl | hm
      · exact ⟨_, _, List.mem_cons_self, .refl⟩
      rcases List.mem_append.1 hm with hm | hm
      · obtain ⟨edge, n, hmem, hpath⟩ := ihbody hm
        exact ⟨_, _, List.mem_cons_self, .head ⟨edge, hmem⟩ hpath⟩
      · obtain ⟨edge, n, hmem, hpath⟩ := ihrest hm
        exact ⟨edge, n, List.mem_cons_of_mem _ hmem, hpath⟩

/-- The expansion of a node has what can be reached from it. -/
theorem Follows.mem_iff (h : Follows contents [name] (contents name) t) :
    m ∈ name :: t.names ↔ Relation.ReflTransGen (Child contents) name m := by
  constructor
  · intro hm
    rcases List.mem_cons.1 hm with rfl | hm
    · exact .refl
    · obtain ⟨edge, n, hmem, hpath⟩ := h.reachable hm
      exact .head ⟨edge, hmem⟩ hpath
  · intro hpath
    induction hpath with
    | refl => exact List.mem_cons_self
    | tail _ hchild ih =>
        rcases List.mem_cons.1 ih with rfl | hm
        · obtain ⟨edge, hmem⟩ := hchild
          exact h.met hmem
        · exact h.closed hm hchild

/-! ## Where their items stand -/

/-- A longer path puts every item deeper. -/
theorem Tree.placed_append_path (t : Tree ν κ β) (name : ν) (p q : List κ) :
    t.placed name (p ++ q) = (t.placed name q).map fun e => { e with path := p ++ e.path } := by
  induction t generalizing name q with
  | done => rfl
  | own item rest ih => simp [Tree.placed, ih]
  | inlined edge child body rest ihbody ihrest =>
      simp [Tree.placed, ihrest, ← ihbody, List.append_assoc]

theorem Tree.name_of_mem_placed {e : Placed ν κ β} (h : e ∈ t.placed name path) :
    e.name = name ∨ e.name ∈ t.names := by
  induction t generalizing name path with
  | done => cases h
  | own item rest ih =>
      rcases List.mem_cons.1 h with rfl | h
      · exact .inl rfl
      · exact ih h
  | inlined edge child body rest ihbody ihrest =>
      simp only [Tree.names, List.mem_cons, List.mem_append]
      rcases List.mem_append.1 h with h | h
      · have := ihbody h
        tauto
      · have := ihrest h
        tauto

theorem mem_ownItems {item : β} : item ∈ ownItems items ↔ .own item ∈ items := by
  rw [ownItems, List.mem_filterMap]
  constructor
  · rintro ⟨_ | _, hmem, heq⟩
    · exact Option.some.inj heq ▸ hmem
    · cases heq
  · exact fun hmem => ⟨.own item, hmem, rfl⟩

/-- An item that stands in the expansion is one of the items, or of a node that occurs. -/
theorem Follows.item_mem (h : Follows contents before items t) {e : Placed ν κ β}
    (he : e ∈ t.placed name path) :
    .own e.item ∈ items ∨ ∃ n ∈ t.names, .own e.item ∈ contents n := by
  induction h generalizing name path with
  | done => cases he
  | own _ ih =>
      rcases List.mem_cons.1 he with rfl | he
      · exact .inl List.mem_cons_self
      · exact (ih he).imp_left (List.mem_cons_of_mem _)
  | again _ _ ih => exact (ih he).imp_left (List.mem_cons_of_mem _)
  | first _ _ _ ihbody ihrest =>
      rcases List.mem_append.1 he with he | he
      · rcases ihbody he with hmem | ⟨n, hn, hmem⟩
        · exact .inr ⟨_, List.mem_cons_self, hmem⟩
        · exact .inr ⟨n, List.mem_cons_of_mem _ (List.mem_append_left _ hn), hmem⟩
      · rcases ihrest he with hmem | ⟨n, hn, hmem⟩
        · exact .inl (List.mem_cons_of_mem _ hmem)
        · exact .inr ⟨n, List.mem_cons_of_mem _ (List.mem_append_right _ hn), hmem⟩

/-- The items that are not inlined are those of the node, in their order. -/
theorem Follows.own_items [DecidableEq ν] (h : Follows contents before items t)
    (hname : name ∈ before) :
    (t.placed name path).filter (·.name = name) =
      (ownItems items).map fun item => ⟨name, path, item⟩ := by
  induction h with
  | done => rfl
  | own _ ih => simpa [Tree.placed, ownItems] using ih hname
  | again _ _ ih => simpa [ownItems] using ih hname
  | @first before _ edge child body _ hnew hbody hrest _ ihrest =>
      have hbody' : (body.placed child (path ++ [edge])).filter (·.name = name) = [] := by
        rw [List.filter_eq_nil_iff]
        intro e he heq
        rw [decide_eq_true_eq] at heq
        rcases Tree.name_of_mem_placed he with hchild | hmem
        · exact hnew (hchild ▸ heq ▸ hname)
        · exact hbody.not_mem_before _ hmem (List.mem_append_left _ (heq ▸ hname))
      rw [Tree.placed, List.filter_append, hbody', List.nil_append]
      simpa [ownItems] using ihrest (List.mem_append_left _ hname)

/-- The items of a node that occurs, with what is inlined between them, stand together: they
are the expansion of the node, and nothing of the node is anywhere else. -/
theorem Follows.segment (h : Follows contents before items t) (path : List κ)
    (hname : name ∈ before) (hm : m ∈ t.names) :
    ∃ (before' : List ν) (body : Tree ν κ β) (pre post : List (Placed ν κ β)) (p : List κ),
      m ∈ before' ∧ Follows contents before' (contents m) body ∧ t.Reaches m p ∧
        t.placed name path = pre ++ (body.placed m (path ++ p) ++ post) ∧
        ∀ e ∈ pre ++ post, e.name ≠ m := by
  -- what is placed next to an expansion is of other nodes, since it has been met before or after
  have apart : ∀ {s : Tree ν κ β} {n : ν} {q : List κ}, n ≠ m → m ∉ s.names →
      ∀ e ∈ s.placed n q, e.name ≠ m := by
    intro s n q hn hs e he
    rcases Tree.name_of_mem_placed he with heq | hmem
    · exact heq ▸ hn
    · exact fun heq => hs (heq ▸ hmem)
  induction h generalizing name path with
  | done => cases hm
  | @own before _ item rest hrest ih =>
      obtain ⟨before', body, pre, post, p, hbefore, hbody, hreach, hplaced, hne⟩ :=
        ih path hname hm
      have hnm : name ≠ m := fun heq => hrest.not_mem_before m hm (heq ▸ hname)
      refine ⟨before', body, ⟨name, path, item⟩ :: pre, post, p, hbefore, hbody, .own hreach, ?_, ?_⟩
      · rw [Tree.placed, hplaced, List.cons_append]
      · exact fun e he => (List.mem_cons.1 he).elim (fun heq => heq ▸ hnm) (hne e)
  | again _ _ ih => exact ih path hname hm
  | @first before _ edge child body rest hnew hbody hrest ihbody ihrest =>
      have hrest_not : m ∈ before ++ child :: body.names → m ∉ rest.names :=
        fun hmem hm => hrest.not_mem_before m hm hmem
      rcases List.mem_cons.1 hm with rfl | hm
      · have hnm : name ≠ m := fun heq => hnew (heq ▸ hname)
        refine ⟨before ++ [m], body, [], rest.placed name path, [edge],
          List.mem_append_right _ (List.mem_singleton_self _), hbody, .here, rfl, ?_⟩
        exact apart hnm (hrest_not (List.mem_append_right _ List.mem_cons_self))
      rcases List.mem_append.1 hm with hm | hm
      · have hnm : name ≠ m := fun heq =>
          hbody.not_mem_before m hm (List.mem_append_left _ (heq ▸ hname))
        obtain ⟨before', body', pre, post, p, hbefore, hbody', hreach, hplaced, hne⟩ :=
          ihbody (path ++ [edge]) (List.mem_append_right _ (List.mem_singleton_self _)) hm
        refine ⟨before', body', pre, post ++ rest.placed name path, edge :: p, hbefore, hbody',
          .inside hreach, ?_, ?_⟩
        · rw [Tree.placed, hplaced]
          simp only [List.append_assoc, List.singleton_append]
        · intro e he
          rw [← List.append_assoc, List.mem_append] at he
          rcases he with he | he
          · exact hne e he
          · exact apart hnm (hrest_not (List.mem_append_right _ (List.mem_cons_of_mem _ hm))) e he
      · have hnot := hrest.not_mem_before m hm
        simp only [List.mem_append, List.mem_cons, not_or] at hnot
        obtain ⟨before', body', pre, post, p, hbefore, hbody', hreach, hplaced, hne⟩ :=
          ihrest path (List.mem_append_left _ hname) hm
        refine ⟨before', body', body.placed child (path ++ [edge]) ++ pre, post, p, hbefore, hbody',
          .after hreach, ?_, ?_⟩
        · rw [Tree.placed, hplaced, List.append_assoc]
        · intro e he
          rw [List.append_assoc, List.mem_append] at he
          rcases he with he | he
          · exact apart (Ne.symm hnot.2.1) hnot.2.2 e he
          · exact hne e he

end Follows

end Expansion
