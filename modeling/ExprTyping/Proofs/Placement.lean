import ExprTyping.Proofs.Absorption
import ExprTyping.Proofs.Compositionality
import Mathlib.Data.List.Nodup
import Mathlib.Data.List.Pairwise

/-!
# At most one error at each node

An error stands at the node whose rule reports it or at an operand of that node.
In a tree, where every node is used once, two rules could therefore only meet at
a node that reports an error itself while its parent blames it.

They never do.  A parent blames only operands of known type, and an error
anywhere below a node leaves the node without a type, so below a blamed operand
there is no other error.
-/

namespace ExprTyping

/-! ## Trees -/

namespace Graph

/-- The preorder of a well-formed expression. -/
def nodesAt (g : Graph) (root : NodeId) : List NodeId :=
  g.valueAt (fun id _ below => id :: below.flatten) root

theorem WellFormed.preorder_eq_ok
    {g : Graph} {root : NodeId} (h : g.WellFormed root) :
    g.preorder root = .ok (g.nodesAt root) := by
  rw [preorder_eq_fold]
  exact h.fold_eq_ok _

theorem WellFormed.nodesAt_of_node
    {g : Graph} {id : NodeId} {n : Node}
    (h : g.WellFormed id) (hn : g.node id = .ok n) :
    g.nodesAt id = id :: (g.operands n.shape).flatMap g.nodesAt := by
  rw [nodesAt, h.valueAt_eq hn, List.flatMap_def]
  rfl

/-- The preorder lists exactly the nodes of the expression. -/
theorem WellFormed.mem_nodesAt_iff
    {g : Graph} {root : NodeId} (h : g.WellFormed root) (id : NodeId) :
    id ∈ g.nodesAt root ↔ g.Reaches root id := by
  refine h.induction ?_
  intro top n hn htop ih
  rw [htop.nodesAt_of_node hn, reaches_iff hn, List.mem_cons, List.mem_flatMap]
  constructor
  · rintro (hself | ⟨child, hchild, hmem⟩)
    · exact Or.inl hself
    · exact Or.inr ⟨child, hchild, (ih child hchild).1 hmem⟩
  · rintro (hself | ⟨child, hchild, hreach⟩)
    · exact Or.inl hself
    · exact Or.inr ⟨child, hchild, (ih child hchild).2 hreach⟩

theorem WellFormed.self_mem_nodesAt
    {g : Graph} {root : NodeId} (h : g.WellFormed root) :
    root ∈ g.nodesAt root :=
  (h.mem_nodesAt_iff root).2 (Reaches.refl g root)

/-- A well-formed expression whose preorder lists no node twice. -/
structure IsTree (g : Graph) (root : NodeId) : Prop where
  wellFormed : g.WellFormed root
  nodup : ∀ order, g.preorder root = .ok order → order.Nodup

theorem isTree_iff (g : Graph) (root : NodeId) :
    g.IsTree root ↔ g.WellFormed root ∧ (g.nodesAt root).Nodup := by
  constructor
  · intro h
    exact ⟨h.wellFormed, h.nodup _ h.wellFormed.preorder_eq_ok⟩
  · rintro ⟨hwf, hnodup⟩
    refine ⟨hwf, ?_⟩
    intro order horder
    rw [hwf.preorder_eq_ok] at horder
    rwa [← Except.ok.inj horder]

instance (g : Graph) (root : NodeId) : Decidable (g.IsTree root) :=
  decidable_of_iff _ (g.isTree_iff root).symm

/-- A node of a tree lies below one operand only. -/
theorem eq_of_mem_nodesAt
    {g : Graph} {ids : List NodeId} (h : (ids.flatMap g.nodesAt).Nodup)
    {a b id : NodeId} (ha : a ∈ ids) (hb : b ∈ ids)
    (hida : id ∈ g.nodesAt a) (hidb : id ∈ g.nodesAt b) :
    a = b := by
  by_contra hne
  obtain ⟨-, hpairwise⟩ := List.nodup_flatMap.1 h
  have hsymm : Std.Symm (Function.onFun List.Disjoint g.nodesAt) :=
    ⟨fun _ _ hdisjoint id hb ha => hdisjoint ha hb⟩
  exact hpairwise.forall ha hb hne hida hidb

end Graph

/-! ## Where errors stand -/

section Placement

variable {g : Graph} {scope : Scope} {id root : NodeId} {n : Node}

/-- A rule blames its own node or an operand of known type. -/
theorem eq_or_known_of_error?
    {e : TypeError} (he : (verdictAt g scope n).error? g id (g.operands n.shape) = some e) :
    e.node = id ∨ e.node ∈ g.operands n.shape ∧ typeAt g scope e.node ≠ .unknown := by
  obtain ⟨site, cause, hverdict, rfl⟩ := Verdict.error?_eq_some_iff.1 he
  cases site with
  | self => exact Or.inl rfl
  | operand position =>
      have hblames : (verdictAt g scope n).BlamesKnown _ := Head.judge_blamesKnown scope _ _
      rw [hverdict] at hblames
      obtain ⟨ty, hty, hknown⟩ := hblames
      rw [List.getElem?_map] at hty
      obtain ⟨child, hchild, rfl⟩ := Option.map_eq_some_iff.1 hty
      have hresolve : (Site.operand position).resolve id (g.operands n.shape) = child := by
        rw [Site.resolve, hchild]
        rfl
      rw [hresolve]
      exact Or.inr ⟨List.mem_of_getElem? hchild, hknown⟩

/-- Below a node of known type there is no error. -/
theorem errorsAt_eq_nil_of_known
    (h : g.WellFormed id) (hknown : typeAt g scope id ≠ .unknown) :
    errorsAt g scope id = [] := by
  by_contra herrors
  exact hknown (typeAt_eq_unknown_of_errors h herrors)

/-- Every error stands at a node of the expression. -/
theorem node_mem_nodesAt
    (h : g.WellFormed root) : ∀ e ∈ errorsAt g scope root, e.node ∈ g.nodesAt root := by
  refine h.induction ?_
  intro id n hn hid ih e he
  have hbelow : ∀ child ∈ g.operands n.shape, ∀ k ∈ g.nodesAt child, k ∈ g.nodesAt id := by
    intro child hchild k hk
    rw [hid.nodesAt_of_node hn]
    exact List.mem_cons_of_mem _ (List.mem_flatMap.2 ⟨child, hchild, hk⟩)
  rw [errorsAt_of_node hid hn, List.mem_append, List.mem_flatMap, Option.mem_toList] at he
  rcases he with ⟨child, hchild, hmem⟩ | hown
  · exact hbelow child hchild _ (ih child hchild e hmem)
  · rcases eq_or_known_of_error? hown with hself | ⟨hoperand, -⟩
    · rw [hself]
      exact hid.self_mem_nodesAt
    · exact hbelow e.node hoperand _ (hid.operand hn hoperand).self_mem_nodesAt

/-- The own error of a node stands at none of the nodes at which the errors below
it stand. -/
theorem node_ne_of_error?
    (h : g.WellFormed id) (hn : g.node id = .ok n) (hnodup : (g.nodesAt id).Nodup)
    {own below : TypeError} {child : NodeId}
    (hown : (verdictAt g scope n).error? g id (g.operands n.shape) = some own)
    (hchild : child ∈ g.operands n.shape) (hbelow : below ∈ errorsAt g scope child) :
    below.node ≠ own.node := by
  intro hsame
  rw [h.nodesAt_of_node hn, List.nodup_cons] at hnodup
  obtain ⟨hfresh, hoperands⟩ := hnodup
  have hmem := node_mem_nodesAt (h.operand hn hchild) below hbelow
  rw [hsame] at hmem
  rcases eq_or_known_of_error? hown with hself | ⟨hblamed, hknown⟩
  · apply hfresh
    rw [← hself]
    exact List.mem_flatMap.2 ⟨child, hchild, hmem⟩
  · have hblamedSelf := (h.operand hn hblamed).self_mem_nodesAt
    obtain rfl := Graph.eq_of_mem_nodesAt hoperands hchild hblamed hmem hblamedSelf
    rw [errorsAt_eq_nil_of_known (h.operand hn hblamed) hknown] at hbelow
    exact List.not_mem_nil hbelow

/-- The errors of a tree stand at distinct nodes. -/
theorem nodup_map_node_errorsAt
    (h : g.WellFormed root) :
    (g.nodesAt root).Nodup → ((errorsAt g scope root).map TypeError.node).Nodup := by
  refine h.induction ?_
  intro id n hn hid ih hnodup
  have hoperands : ((g.operands n.shape).flatMap g.nodesAt).Nodup := by
    rw [hid.nodesAt_of_node hn] at hnodup
    exact hnodup.of_cons
  obtain ⟨heach, hpairwise⟩ := List.nodup_flatMap.1 hoperands
  rw [errorsAt_of_node hid hn, List.map_append, List.nodup_append, List.map_flatMap]
  refine ⟨?_, ?_, ?_⟩
  · rw [List.nodup_flatMap]
    refine ⟨fun child hchild => ih child hchild (heach child hchild), ?_⟩
    refine hpairwise.imp_of_mem ?_
    intro a b ha hb hdisjoint k hka hkb
    obtain ⟨e, he, rfl⟩ := List.mem_map.1 hka
    obtain ⟨e', he', hsame⟩ := List.mem_map.1 hkb
    refine hdisjoint (node_mem_nodesAt (hid.operand hn ha) e he) ?_
    rw [← hsame]
    exact node_mem_nodesAt (hid.operand hn hb) e' he'
  · cases (verdictAt g scope n).error? g id (g.operands n.shape) <;> simp
  · intro a ha b hb
    obtain ⟨child, hchild, hmem⟩ := List.mem_flatMap.1 ha
    obtain ⟨below, hbelow, rfl⟩ := List.mem_map.1 hmem
    obtain ⟨own, hown, rfl⟩ := List.mem_map.1 hb
    exact node_ne_of_error? hid hn hnodup (Option.mem_toList.1 hown) hchild hbelow

end Placement

/-- A tree can be checked, no two of its errors stand at the same node, and all of
them stand at nodes of the tree. -/
theorem check_errors_at_distinct_nodes
    (g : Graph) (scope : Scope) (root : NodeId) (h : g.IsTree root) :
    ∃ result, check g scope root = .ok result ∧
      (result.errors.map TypeError.node).Nodup ∧
      ∀ e ∈ result.errors, g.Reaches root e.node := by
  obtain ⟨hwf, hnodup⟩ := (g.isTree_iff root).1 h
  refine ⟨_, check_eq_ok hwf, nodup_map_node_errorsAt hwf hnodup, ?_⟩
  intro e he
  exact (hwf.mem_nodesAt_iff e.node).1 (node_mem_nodesAt hwf e he)

/-- The size of a number plus an element of a list at a truth value. -/
def sizePlusElement : Graph where
  nodes :=
    #[⟨.binary .add ⟨1⟩ ⟨3⟩, Span.zero⟩, ⟨.size ⟨2⟩, Span.zero⟩, ⟨.int 5, Span.zero⟩,
      ⟨.index ⟨4⟩ ⟨5⟩, Span.zero⟩, ⟨.ident ⟨1⟩, Span.zero⟩, ⟨.bool true, Span.zero⟩]
  args := #[]

theorem sizePlusElement_errors_distinct :
    sizePlusElement.IsTree ⟨0⟩ ∧
      ∃ result, check sizePlusElement listScope ⟨0⟩ = .ok result ∧
        result.errors.map TypeError.node = [⟨2⟩, ⟨5⟩] ∧
        (result.errors.map TypeError.node).Nodup ∧
        ∀ e ∈ result.errors, sizePlusElement.Reaches ⟨0⟩ e.node := by
  obtain ⟨result, hcheck, hnodup, hreach⟩ :=
    check_errors_at_distinct_nodes sizePlusElement listScope ⟨0⟩ (by decide)
  have hnodes : (check sizePlusElement listScope ⟨0⟩).map
      (fun result => result.errors.map TypeError.node) = .ok [⟨2⟩, ⟨5⟩] := by
    decide +kernel
  rw [hcheck] at hnodes
  exact ⟨by decide, result, hcheck, Except.ok.inj hnodes, hnodup, hreach⟩

end ExprTyping
