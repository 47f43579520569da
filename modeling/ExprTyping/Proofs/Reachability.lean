import ExprTyping.Graph.Traversal
import Mathlib.Data.List.Nodup
import Mathlib.Data.List.Perm.Subperm
import Mathlib.Logic.Relation

/-!
# Reachable nodes and well-formed expressions

The expression at a node consists of the nodes that its operands lead to.  It is
well formed when all of them are nodes of the graph and none is an operand of
itself, however indirectly.

A path that repeats no node is no longer than the graph, so an expression without
cycles is of bounded depth, and the absence of cycles can be decided.  On well-formed
expressions this gives an induction principle in which a fact about a node is shown
from the same fact about its operands.
-/

namespace ExprTyping
namespace Graph

/-- The second node is an immediate operand of the first. -/
def HasOperand (g : Graph) (parent child : NodeId) : Prop :=
  ∃ n, g.node parent = .ok n ∧ child ∈ g.operands n.shape

/-- The second node belongs to the expression at the first. -/
def Reaches (g : Graph) (root id : NodeId) : Prop :=
  Relation.ReflTransGen g.HasOperand root id

/-- No node of the expression at `root` is below itself. -/
def Acyclic (g : Graph) (root : NodeId) : Prop :=
  ∀ id, g.Reaches root id → ¬Relation.TransGen g.HasOperand id id

/-- The expression at `root` has only nodes of the graph and no cycle. -/
structure WellFormed (g : Graph) (root : NodeId) : Prop where
  inRange : ∀ id, g.Reaches root id → id.index < g.size
  acyclic : g.Acyclic root

theorem index_lt_of_node
    {g : Graph} {id : NodeId} {n : Node}
    (hn : g.node id = .ok n) :
    id.index < g.size := by
  obtain ⟨hlt, -⟩ := Array.getElem?_eq_some_iff.1 (node_eq_ok_iff.1 hn)
  exact hlt

theorem exists_node_of_index_lt
    {g : Graph} {id : NodeId} (h : id.index < g.size) :
    ∃ n, g.node id = .ok n :=
  ⟨g.nodes[id.index], node_eq_ok_iff.2 (Array.getElem?_eq_getElem h)⟩

theorem hasOperand_iff
    {g : Graph} {id child : NodeId} {n : Node}
    (hn : g.node id = .ok n) :
    g.HasOperand id child ↔ child ∈ g.operands n.shape := by
  constructor
  · rintro ⟨m, hm, hmem⟩
    rw [hn] at hm
    cases hm
    exact hmem
  · intro hmem
    exact ⟨n, hn, hmem⟩

theorem Reaches.refl (g : Graph) (id : NodeId) : g.Reaches id id :=
  Relation.ReflTransGen.refl

theorem Reaches.of_operand
    {g : Graph} {root child id : NodeId}
    (hchild : g.HasOperand root child) (h : g.Reaches child id) :
    g.Reaches root id :=
  Relation.ReflTransGen.head hchild h

/-- A node is reached at the root itself or through one of its operands. -/
theorem reaches_iff
    {g : Graph} {root id : NodeId} {n : Node}
    (hn : g.node root = .ok n) :
    g.Reaches root id ↔
      id = root ∨ ∃ child ∈ g.operands n.shape, g.Reaches child id := by
  constructor
  · intro h
    rcases Relation.ReflTransGen.cases_head h with rfl | ⟨child, hchild, hrest⟩
    · exact Or.inl rfl
    · exact Or.inr ⟨child, (hasOperand_iff hn).1 hchild, hrest⟩
  · rintro (rfl | ⟨child, hmem, hrest⟩)
    · exact Reaches.refl g id
    · exact Reaches.of_operand ((hasOperand_iff hn).2 hmem) hrest

theorem Acyclic.of_hasOperand
    {g : Graph} {root child : NodeId}
    (h : g.Acyclic root) (hchild : g.HasOperand root child) :
    g.Acyclic child :=
  fun id hid => h id (Reaches.of_operand hchild hid)

namespace WellFormed

theorem exists_node
    {g : Graph} {root : NodeId} (h : g.WellFormed root) :
    ∃ n, g.node root = .ok n :=
  exists_node_of_index_lt (h.inRange root (Reaches.refl g root))

theorem of_reaches
    {g : Graph} {root id : NodeId}
    (h : g.WellFormed root) (hid : g.Reaches root id) :
    g.WellFormed id where
  inRange below hbelow := h.inRange below (Relation.ReflTransGen.trans hid hbelow)
  acyclic below hbelow := h.acyclic below (Relation.ReflTransGen.trans hid hbelow)

theorem operand
    {g : Graph} {root child : NodeId} {n : Node}
    (h : g.WellFormed root) (hn : g.node root = .ok n)
    (hchild : child ∈ g.operands n.shape) :
    g.WellFormed child :=
  h.of_reaches (Relation.ReflTransGen.single ((hasOperand_iff hn).2 hchild))

/-- A node with well-formed operands is well formed: a cycle through it would pass
through one of them. -/
theorem of_operands
    {g : Graph} {root : NodeId} {n : Node} (hn : g.node root = .ok n)
    (h : ∀ child ∈ g.operands n.shape, g.WellFormed child) :
    g.WellFormed root where
  inRange id hid := by
    rcases (reaches_iff hn).1 hid with rfl | ⟨child, hchild, hbelow⟩
    · exact index_lt_of_node hn
    · exact (h child hchild).inRange id hbelow
  acyclic id hid hcycle := by
    rcases (reaches_iff hn).1 hid with rfl | ⟨child, hchild, hbelow⟩
    · obtain ⟨child, hchild, hback⟩ := Relation.TransGen.head'_iff.1 hcycle
      have hself := Relation.TransGen.tail' hback hchild
      exact (h child ((hasOperand_iff hn).1 hchild)).acyclic child (Reaches.refl g child) hself
    · exact (h child hchild).acyclic id hbelow hcycle

end WellFormed

/-! ## Bounded depth -/

/-- No path below a node has more than `depth` nodes. -/
def Within (g : Graph) : Nat → NodeId → Prop
  | 0, _ => False
  | depth + 1, id => ∀ child, g.HasOperand id child → g.Within depth child

/-- A list of distinct nodes of a graph is no longer than the graph. -/
theorem length_le_size
    {g : Graph} {path : List NodeId}
    (hnodup : path.Nodup) (hrange : ∀ id ∈ path, id.index < g.size) :
    path.length ≤ g.size := by
  have hinj : Function.Injective NodeId.index := by
    rintro ⟨a⟩ ⟨b⟩ hab
    exact congrArg NodeId.mk hab
  have hindices : (path.map NodeId.index).Nodup := hnodup.map hinj
  have hsub : path.map NodeId.index ⊆ List.range g.size := by
    intro i hi
    obtain ⟨id, hid, rfl⟩ := List.mem_map.1 hi
    exact List.mem_range.2 (hrange id hid)
  simpa using (List.subperm_of_subset hindices hsub).length_le

/-- The nodes above `id` are distinct in the absence of cycles, so there are at
most as many as the graph has. -/
theorem within_of_path
    {g : Graph} (depth : Nat) {id : NodeId} (path : List NodeId)
    (hacyclic : g.Acyclic id) (hnodup : path.Nodup)
    (habove : ∀ a ∈ path, Relation.TransGen g.HasOperand a id)
    (hlength : path.length + depth = g.size + 1) :
    g.Within depth id := by
  induction depth generalizing id path with
  | zero =>
      have hrange : ∀ a ∈ path, a.index < g.size := by
        intro a ha
        obtain ⟨b, ⟨n, hn, -⟩, -⟩ := Relation.TransGen.head'_iff.1 (habove a ha)
        exact index_lt_of_node hn
      have hle := length_le_size hnodup hrange
      omega
  | succ depth ih =>
      intro child hchild
      have hfresh : id ∉ path := fun hmem =>
        hacyclic id (Reaches.refl g id) (habove id hmem)
      apply ih (id :: path) (hacyclic.of_hasOperand hchild)
      · exact List.nodup_cons.2 ⟨hfresh, hnodup⟩
      · intro a ha
        rcases List.mem_cons.1 ha with rfl | hmem
        · exact Relation.TransGen.single hchild
        · exact (habove a hmem).tail hchild
      · simp only [List.length_cons]
        omega

/-- An expression without cycles is no deeper than its graph is large; its paths
may end one step outside the graph. -/
theorem Acyclic.within
    {g : Graph} {root : NodeId} (h : g.Acyclic root) :
    g.Within (g.size + 1) root :=
  within_of_path (g.size + 1) [] h List.nodup_nil (by simp) (by simp)

theorem Within.of_hasOperand
    {g : Graph} {depth : Nat} {id child : NodeId}
    (h : g.Within depth id) (hchild : g.HasOperand id child) :
    ∃ less, less + 1 = depth ∧ g.Within less child := by
  cases depth with
  | zero => exact h.elim
  | succ depth => exact ⟨depth, rfl, h child hchild⟩

theorem Within.of_reaches
    {g : Graph} {depth : Nat} {root id : NodeId}
    (h : g.Within depth root) (hid : g.Reaches root id) :
    ∃ left, g.Within left id := by
  induction hid with
  | refl => exact ⟨depth, h⟩
  | tail _ hchild ih =>
      obtain ⟨left, hleft⟩ := ih
      obtain ⟨less, -, hless⟩ := hleft.of_hasOperand hchild
      exact ⟨less, hless⟩

theorem Within.of_below
    {g : Graph} {depth : Nat} {root id : NodeId}
    (h : g.Within depth root) (hid : Relation.TransGen g.HasOperand root id) :
    ∃ less < depth, g.Within less id := by
  induction hid with
  | single hchild =>
      obtain ⟨less, rfl, hless⟩ := h.of_hasOperand hchild
      exact ⟨less, Nat.lt_succ_self less, hless⟩
  | tail _ hchild ih =>
      obtain ⟨less, hlt, hless⟩ := ih
      obtain ⟨lesser, rfl, hlesser⟩ := hless.of_hasOperand hchild
      exact ⟨lesser, Nat.lt_of_succ_lt hlt, hlesser⟩

/-- A node on a cycle would be of ever smaller depth. -/
theorem Within.not_below_self
    {g : Graph} {depth : Nat} {id : NodeId} (h : g.Within depth id) :
    ¬Relation.TransGen g.HasOperand id id := by
  intro hcycle
  induction depth using Nat.strongRecOn with
  | ind depth ih =>
      obtain ⟨less, hlt, hless⟩ := h.of_below hcycle
      exact ih less hlt hless

/-- An expression has no cycle exactly if its depth is bounded by the size of the
graph. -/
theorem acyclic_iff_within
    {g : Graph} {root : NodeId} :
    g.Acyclic root ↔ g.Within (g.size + 1) root := by
  constructor
  · exact Acyclic.within
  · intro h id hid
    obtain ⟨left, hleft⟩ := h.of_reaches hid
    exact hleft.not_below_self

theorem within_succ_iff
    {g : Graph} {depth : Nat} {id : NodeId} :
    g.Within (depth + 1) id ↔
      ∀ n ∈ g.nodes[id.index]?, ∀ child ∈ g.operands n.shape, g.Within depth child := by
  constructor
  · intro h n hn child hchild
    exact h child ⟨n, node_eq_ok_iff.2 hn, hchild⟩
  · rintro h child ⟨n, hn, hchild⟩
    exact h n (node_eq_ok_iff.1 hn) child hchild

instance decidableWithin (g : Graph) : (depth : Nat) → (id : NodeId) → Decidable (g.Within depth id)
  | 0, _ => .isFalse (fun h => h)
  | depth + 1, _ =>
    have := decidableWithin g depth
    decidable_of_iff _ within_succ_iff.symm

instance (g : Graph) (root : NodeId) : Decidable (g.Acyclic root) :=
  decidable_of_iff _ acyclic_iff_within.symm

/-- Induction over a well-formed expression from the operands to the root. -/
@[elab_as_elim]
theorem WellFormed.induction
    {g : Graph} {motive : NodeId → Prop} {root : NodeId}
    (h : g.WellFormed root)
    (node : ∀ id n, g.node id = .ok n → g.WellFormed id →
      (∀ child ∈ g.operands n.shape, motive child) → motive id) :
    motive root := by
  have hwithin := h.acyclic.within
  generalize g.size + 1 = depth at hwithin
  induction depth generalizing root with
  | zero => exact hwithin.elim
  | succ depth ih =>
      obtain ⟨n, hn⟩ := h.exists_node
      refine node root n hn h ?_
      intro child hchild
      exact ih (h.operand hn hchild) (hwithin child ((hasOperand_iff hn).2 hchild))

end Graph
end ExprTyping
