import ExprTyping.Proofs.Placement
import Mathlib.Data.List.Forall2

/-!
# The walk of a check

`Graph.Walk` describes the traversal of an expression without a bound on its
depth: a node comes first, and the walks of its operands follow in the order of
the source text, which is written out for every kind of node.  A number without a
node ends its path.

A check enters the nodes of a well-formed expression in the order of this walk,
which is the order of the traversal `Graph.preorder` as well.  What it leaves in
the type table is coherent with the checks of the single nodes: see
`check_types_nodes_of_walk`.
-/

namespace ExprTyping

theorem forall₂_iff_eq_map
    {α β : Type} {R : α → β → Prop} {f : α → β} {as : List α} {bs : List β}
    (h : ∀ a ∈ as, ∀ b, R a b ↔ b = f a) :
    List.Forall₂ R as bs ↔ bs = as.map f := by
  induction as generalizing bs with
  | nil => simp
  | cons a as ih =>
      have hfirst := h a (by simp)
      have hrest : ∀ b ∈ as, ∀ c, R b c ↔ c = f b := fun b hb => h b (by simp [hb])
      constructor
      · rintro (_ | ⟨hab, habs⟩)
        rw [(hfirst _).1 hab, (ih hrest).1 habs, List.map_cons]
      · rintro rfl
        exact .cons ((hfirst _).2 rfl) ((ih hrest).2 rfl)

namespace Graph

/-- The walk from a node lists the nodes that are met, each before those below it. -/
inductive Walk (g : Graph) : NodeId → List NodeId → Prop where
  | missing {id : NodeId} (hid : g.size ≤ id.index) : Walk g id [id]
  | int {id : NodeId} {value : Int} {span : Span}
      (hnode : g.node id = .ok ⟨.int value, span⟩) : Walk g id [id]
  | bool {id : NodeId} {value : Bool} {span : Span}
      (hnode : g.node id = .ok ⟨.bool value, span⟩) : Walk g id [id]
  | ident {id : NodeId} {name : Name} {span : Span}
      (hnode : g.node id = .ok ⟨.ident name, span⟩) : Walk g id [id]
  | binary {id left right : NodeId} {op : BinOp} {span : Span} {first second : List NodeId}
      (hnode : g.node id = .ok ⟨.binary op left right, span⟩)
      (hleft : Walk g left first) (hright : Walk g right second) :
      Walk g id (id :: (first ++ second))
  | unary {id operand : NodeId} {op : UnOp} {span : Span} {below : List NodeId}
      (hnode : g.node id = .ok ⟨.unary op operand, span⟩)
      (hoperand : Walk g operand below) : Walk g id (id :: below)
  | call {id callee : NodeId} {args : ArgRange} {span : Span}
      {first : List NodeId} {rest : List (List NodeId)}
      (hnode : g.node id = .ok ⟨.call callee args, span⟩)
      (hcallee : Walk g callee first)
      (hlength : (g.argList args).length = rest.length)
      (hargs : ∀ pair ∈ (g.argList args).zip rest, Walk g pair.1 pair.2) :
      Walk g id (id :: (first ++ rest.flatten))
  | index {id list position : NodeId} {span : Span} {first second : List NodeId}
      (hnode : g.node id = .ok ⟨.index list position, span⟩)
      (hlist : Walk g list first) (hposition : Walk g position second) :
      Walk g id (id :: (first ++ second))
  | field {id owner : NodeId} {member : Name} {span : Span} {below : List NodeId}
      (hnode : g.node id = .ok ⟨.field owner member, span⟩)
      (howner : Walk g owner below) : Walk g id (id :: below)
  | size {id list : NodeId} {span : Span} {below : List NodeId}
      (hnode : g.node id = .ok ⟨.size list, span⟩)
      (hlist : Walk g list below) : Walk g id (id :: below)
  | append {id list element : NodeId} {span : Span} {first second : List NodeId}
      (hnode : g.node id = .ok ⟨.append list element, span⟩)
      (hlist : Walk g list first) (helement : Walk g element second) :
      Walk g id (id :: (first ++ second))
  | paren {id inner : NodeId} {span : Span} {below : List NodeId}
      (hnode : g.node id = .ok ⟨.paren inner, span⟩)
      (hinner : Walk g inner below) : Walk g id (id :: below)

namespace Walk

variable {g : Graph} {id root : NodeId} {n : Node} {order : List NodeId}

/-- The walks from the operands of a node make up the walk from the node. -/
theorem of_operands
    {orders : List (List NodeId)} (hn : g.node id = .ok n)
    (h : List.Forall₂ g.Walk (g.operands n.shape) orders) :
    g.Walk id (id :: orders.flatten) := by
  obtain ⟨shape, span⟩ := n
  cases shape with
  | int value =>
      cases h
      exact .int hn
  | bool value =>
      cases h
      exact .bool hn
  | ident name =>
      cases h
      exact .ident hn
  | binary op left right =>
      obtain _ | ⟨hleft, _ | ⟨hright, _ | _⟩⟩ := h
      simpa using Walk.binary hn hleft hright
  | unary op operand =>
      obtain _ | ⟨hoperand, _ | _⟩ := h
      simpa using Walk.unary hn hoperand
  | call callee args =>
      obtain _ | ⟨hcallee, hargs⟩ := h
      obtain ⟨hlength, hzip⟩ := List.forall₂_iff_zip.1 hargs
      exact .call hn hcallee hlength fun pair hpair => hzip hpair
  | index list position =>
      obtain _ | ⟨hlist, _ | ⟨hposition, _ | _⟩⟩ := h
      simpa using Walk.index hn hlist hposition
  | field owner member =>
      obtain _ | ⟨howner, _ | _⟩ := h
      simpa using Walk.field hn howner
  | size list =>
      obtain _ | ⟨hlist, _ | _⟩ := h
      simpa using Walk.size hn hlist
  | append list element =>
      obtain _ | ⟨hlist, _ | ⟨helement, _ | _⟩⟩ := h
      simpa using Walk.append hn hlist helement
  | paren inner =>
      obtain _ | ⟨hinner, _ | _⟩ := h
      simpa using Walk.paren hn hinner

/-- A walk ends where a node is missing, and otherwise it goes on with the walks from
the operands. -/
theorem missing_or_operands (h : g.Walk id order) :
    (g.size ≤ id.index ∧ order = [id]) ∨
      ∃ n orders, g.node id = .ok n ∧
        List.Forall₂ g.Walk (g.operands n.shape) orders ∧ order = id :: orders.flatten := by
  cases h with
  | missing hid => exact Or.inl ⟨hid, rfl⟩
  | int hnode => exact Or.inr ⟨_, [], hnode, .nil, rfl⟩
  | bool hnode => exact Or.inr ⟨_, [], hnode, .nil, rfl⟩
  | ident hnode => exact Or.inr ⟨_, [], hnode, .nil, rfl⟩
  | binary hnode hleft hright =>
      exact Or.inr ⟨_, _, hnode, .cons hleft (.cons hright .nil), by simp⟩
  | unary hnode hoperand => exact Or.inr ⟨_, _, hnode, .cons hoperand .nil, by simp⟩
  | call hnode hcallee hlength hargs =>
      have hrest := List.forall₂_iff_zip.2 ⟨hlength, fun hpair => hargs _ hpair⟩
      exact Or.inr ⟨_, _, hnode, .cons hcallee hrest, rfl⟩
  | index hnode hlist hposition =>
      exact Or.inr ⟨_, _, hnode, .cons hlist (.cons hposition .nil), by simp⟩
  | field hnode howner => exact Or.inr ⟨_, _, hnode, .cons howner .nil, by simp⟩
  | size hnode hlist => exact Or.inr ⟨_, _, hnode, .cons hlist .nil, by simp⟩
  | append hnode hlist helement =>
      exact Or.inr ⟨_, _, hnode, .cons hlist (.cons helement .nil), by simp⟩
  | paren hnode hinner => exact Or.inr ⟨_, _, hnode, .cons hinner .nil, by simp⟩

theorem iff_of_node (hn : g.node id = .ok n) :
    g.Walk id order ↔
      ∃ orders, List.Forall₂ g.Walk (g.operands n.shape) orders ∧ order = id :: orders.flatten := by
  constructor
  · intro h
    rcases h.missing_or_operands with ⟨hid, -⟩ | ⟨m, orders, hm, hwalks, horder⟩
    · have hlt := index_lt_of_node hn
      omega
    · obtain rfl := Except.ok.inj (hm.symm.trans hn)
      exact ⟨orders, hwalks, horder⟩
  · rintro ⟨orders, hwalks, rfl⟩
    exact of_operands hn hwalks

theorem iff_of_missing (hid : g.size ≤ id.index) : g.Walk id order ↔ order = [id] := by
  constructor
  · intro h
    rcases h.missing_or_operands with ⟨-, horder⟩ | ⟨m, -, hm, -, -⟩
    · exact horder
    · have hlt := index_lt_of_node hm
      omega
  · rintro rfl
    exact .missing hid

end Walk

/-- The walk through a well-formed expression is its preorder. -/
theorem WellFormed.walk
    {g : Graph} {root : NodeId} (h : g.WellFormed root) :
    g.Walk root (g.nodesAt root) := by
  refine h.induction ?_
  intro id n hn hid ih
  rw [hid.nodesAt_of_node hn, List.flatMap_def]
  apply Walk.of_operands hn
  exact List.forall₂_map_right_iff.2 (List.forall₂_same.2 ih)

end Graph

/-! ## The order of visits -/

/-- The node whose visit an entry of the log announces. -/
def LogEntry.visited? : LogEntry → Option NodeId
  | .inferring id => some id
  | _ => none

theorem Verdict.filterMap_visited?_entry?
    (g : Graph) (id : NodeId) (operands : List NodeId) (verdict : Verdict) :
    (verdict.entry? g id operands).toList.filterMap LogEntry.visited? = [] := by
  cases verdict <;> rfl

section Visits

variable {g : Graph} {scope : Scope} {root : NodeId}

/-- The visits are logged in preorder. -/
theorem filterMap_visited?_log (h : g.WellFormed root) :
    (visitAt g scope root).log.filterMap LogEntry.visited? = g.nodesAt root := by
  refine h.induction ?_
  intro id n hn hid ih
  rw [visitAt_of_node hid hn, hid.nodesAt_of_node hn]
  have hself : LogEntry.visited? (.inferring id) = some id := rfl
  rw [List.filterMap_cons_some hself, List.filterMap_append, Verdict.filterMap_visited?_entry?,
    List.append_nil, List.filterMap_flatMap, List.flatMap_def, List.map_congr_left ih,
    List.flatMap_def]

end Visits

/-- The type table of a check holds exactly the nodes of the expression, each with
the type that a check of its own gives it, and the nodes are visited in preorder.

A well-formed expression can be checked.  A node has an entry in the type table if
and only if it belongs to the expression, so a number beyond the graph has none, and
the entry is the type of the expression at that node.  The log announces the visits
in the order in which the traversal meets the nodes, each as often as it is used. -/
theorem check_types_nodes_of_walk
    (g : Graph) (scope : Scope) (root : NodeId) (h : g.WellFormed root) :
    ∃ result log order,
      checkLogged g scope root = .ok (result, log) ∧
      check g scope root = .ok result ∧
      (∀ id, (result.typeOf id).isSome = true ↔ g.Reaches root id) ∧
      (∀ id, g.Reaches root id →
        ∃ below, check g scope id = .ok below ∧ result.typeOf id = some below.ty) ∧
      (∀ id, ¬g.Reaches root id ∨ g.size ≤ id.index → result.typeOf id = none) ∧
      g.preorder root = .ok order ∧
      g.Walk root order ∧
      log.filterMap LogEntry.visited? = order := by
  have htable : ∀ id ty, (checkedAt g scope root).typeOf id = some ty ↔ _ :=
    typeOf_checkedAt_iff h
  have hsome : ∀ id, ((checkedAt g scope root).typeOf id).isSome = true ↔ g.Reaches root id := by
    intro id
    rw [Option.isSome_iff_exists]
    constructor
    · rintro ⟨ty, hty⟩
      exact ((htable id ty).1 hty).1
    · intro hreach
      exact ⟨_, (htable id _).2 ⟨hreach, rfl⟩⟩
  refine ⟨_, _, g.nodesAt root, checkLogged_eq_ok h, check_eq_ok h, hsome, ?_, ?_,
    h.preorder_eq_ok, h.walk, ?_⟩
  · intro id hreach
    exact ⟨_, check_eq_ok (h.of_reaches hreach), (htable id _).2 ⟨hreach, rfl⟩⟩
  · intro id hout
    have hnot : ¬g.Reaches root id := by
      rcases hout with hnot | hsize
      · exact hnot
      · exact fun hreach => absurd (h.inRange id hreach) (Nat.not_lt.2 hsize)
    rw [← Option.not_isSome_iff_eq_none, hsome]
    exact hnot
  · rw [List.filterMap_cons_none rfl, List.filterMap_append, filterMap_visited?_log h,
      List.filterMap_cons_none rfl, List.filterMap_nil, List.append_nil]

/-- A call whose first and last argument are one node, which comes after the call.
Node `2` belongs to no expression but its own. -/
def repeatedArgument : Graph where
  nodes :=
    #[⟨.ident ⟨1⟩, Span.zero⟩, ⟨.int 5, Span.zero⟩, ⟨.bool true, Span.zero⟩,
      ⟨.call ⟨0⟩ ⟨0, 3⟩, Span.zero⟩, ⟨.paren ⟨1⟩, Span.zero⟩]
  args := #[⟨4⟩, ⟨1⟩, ⟨4⟩]

theorem repeatedArgument_visited_in_order :
    repeatedArgument.WellFormed ⟨3⟩ ∧
      ∃ result log, checkLogged repeatedArgument Scope.empty ⟨3⟩ = .ok (result, log) ∧
        log.filterMap LogEntry.visited? = [⟨3⟩, ⟨0⟩, ⟨4⟩, ⟨1⟩, ⟨1⟩, ⟨4⟩, ⟨1⟩] ∧
        repeatedArgument.Walk ⟨3⟩ [⟨3⟩, ⟨0⟩, ⟨4⟩, ⟨1⟩, ⟨1⟩, ⟨4⟩, ⟨1⟩] ∧
        (∃ below, check repeatedArgument Scope.empty ⟨4⟩ = .ok below ∧
          result.typeOf ⟨4⟩ = some below.ty) ∧
        result.typeOf ⟨2⟩ = none ∧ result.typeOf ⟨5⟩ = none := by
  have hwf : repeatedArgument.WellFormed ⟨3⟩ := by decide
  obtain ⟨result, log, order, hlogged, -, -, hcoherent, hnone, horder, hwalk, hlog⟩ :=
    check_types_nodes_of_walk repeatedArgument Scope.empty ⟨3⟩ hwf
  have heval : repeatedArgument.preorder ⟨3⟩ =
      .ok [⟨3⟩, ⟨0⟩, ⟨4⟩, ⟨1⟩, ⟨1⟩, ⟨4⟩, ⟨1⟩] := by
    decide +kernel
  obtain rfl := Except.ok.inj (horder.symm.trans heval)
  have hreaches : ∀ id : NodeId, repeatedArgument.Reaches ⟨3⟩ id ↔ id ∈ _ :=
    fun id => (hwf.mem_nodesAt_iff id).symm
  have hnodes := Except.ok.inj (hwf.preorder_eq_ok.symm.trans heval)
  rw [hnodes] at hreaches
  refine ⟨hwf, result, log, hlogged, hlog, hwalk, ?_, ?_, ?_⟩
  · exact hcoherent ⟨4⟩ ((hreaches ⟨4⟩).2 (by decide))
  · apply hnone ⟨2⟩
    left
    rw [hreaches]
    decide
  · exact hnone ⟨5⟩ (Or.inr (by decide))

end ExprTyping
