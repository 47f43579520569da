import ExprTyping.Proofs.Compositionality

/-!
# Parentheses are transparent

Parentheses have the type of what they enclose and report nothing.  So an expression
can be stripped of all of them: every operand, and the root, is replaced by the node at
the end of its chain of parentheses.  The stripped expression has the same type and the
same errors in the same order.  Only the place of an error can change, since a rule
may blame an operand in parentheses; the error then moves to the enclosed node.

The stripped expression lives in the same graph with redirected operands, so nodes keep
their numbers and the two results can be compared node by node.
-/

namespace ExprTyping

/-! ## Redirecting operands -/

/-- The shape with every operand replaced.  The arguments of a call are replaced in the
argument table. -/
def Shape.redirect (f : NodeId → NodeId) : Shape → Shape
  | .int value => .int value
  | .bool value => .bool value
  | .ident name => .ident name
  | .binary op left right => .binary op (f left) (f right)
  | .unary op operand => .unary op (f operand)
  | .call callee args => .call (f callee) args
  | .index list position => .index (f list) (f position)
  | .field owner member => .field (f owner) member
  | .size list => .size (f list)
  | .append list element => .append (f list) (f element)
  | .paren inner => .paren (f inner)

theorem Shape.head_redirect (f : NodeId → NodeId) (shape : Shape) :
    (shape.redirect f).head = shape.head := by
  cases shape <;> rfl

/-- Whether the shape is a pair of parentheses. -/
def Shape.isParen : Shape → Bool
  | .paren _ => true
  | _ => false

theorem Shape.isParen_redirect (f : NodeId → NodeId) (shape : Shape) :
    (shape.redirect f).isParen = shape.isParen := by
  cases shape <;> rfl

namespace Graph

/-- The graph with every operand of every node replaced, arguments of calls included. -/
def redirect (f : NodeId → NodeId) (g : Graph) : Graph where
  nodes := g.nodes.map fun n => { n with shape := n.shape.redirect f }
  args := g.args.map f

variable {f : NodeId → NodeId} {g : Graph}

theorem node_redirect {id : NodeId} {n : Node} (hn : g.node id = .ok n) :
    (g.redirect f).node id = .ok { n with shape := n.shape.redirect f } := by
  rw [node_eq_ok_iff] at hn ⊢
  simp [redirect, hn]

theorem spanOf_redirect (id : NodeId) : (g.redirect f).spanOf id = g.spanOf id := by
  simp only [spanOf, redirect, Array.getElem?_map, Option.map_map]
  rfl

theorem operands_redirect (shape : Shape) :
    (g.redirect f).operands (shape.redirect f) = (g.operands shape).map f := by
  cases shape with
  | call callee args => simp [Shape.redirect, operands, argList, redirect]
  | _ => rfl

/-! ## The end of a chain of parentheses -/

/-- A chain of parentheses that begins at the first node ends at the second, which is
not a pair of parentheses. -/
inductive Unwraps (g : Graph) : NodeId → NodeId → Prop where
  | bare {id : NodeId} {n : Node}
      (hnode : g.node id = .ok n) (hshape : n.shape.isParen = false) : Unwraps g id id
  | paren {id inner core : NodeId} {span : Span}
      (hnode : g.node id = .ok ⟨.paren inner, span⟩) (hinner : Unwraps g inner core) :
      Unwraps g id core

/-- The end of a chain of at most `depth` parentheses. -/
def coreWithin (g : Graph) : Nat → NodeId → NodeId
  | 0, id => id
  | depth + 1, id =>
    match g.node id with
    | .ok ⟨.paren inner, _⟩ => g.coreWithin depth inner
    | _ => id

/-- The node at the end of a chain of parentheses. -/
def core (g : Graph) (id : NodeId) : NodeId :=
  g.coreWithin (g.size + 1) id

variable {id inner root : NodeId} {n : Node} {span : Span}

theorem coreWithin_of_paren (hn : g.node id = .ok ⟨.paren inner, span⟩) (depth : Nat) :
    g.coreWithin (depth + 1) id = g.coreWithin depth inner := by
  rw [coreWithin, hn]

theorem coreWithin_of_not_paren
    (hn : g.node id = .ok n) (hshape : n.shape.isParen = false) (depth : Nat) :
    g.coreWithin depth id = id := by
  cases depth with
  | zero => rfl
  | succ depth =>
      obtain ⟨shape, span⟩ := n
      rw [coreWithin, hn]
      cases shape with
      | paren inner => cases hshape
      | _ => rfl

/-- Where a chain ends, a larger bound makes no difference. -/
theorem Unwraps.coreWithin_eq
    {core : NodeId} (h : g.Unwraps id core) :
    ∀ {depth : Nat}, g.Within depth id → g.coreWithin depth id = core := by
  induction h with
  | bare hnode hshape => exact fun _ => coreWithin_of_not_paren hnode hshape _
  | @paren id inner core span hnode _ ih =>
      intro depth hwithin
      have hedge : g.HasOperand id inner := (hasOperand_iff hnode).2 (by simp [operands])
      obtain ⟨less, rfl, hless⟩ := hwithin.of_hasOperand hedge
      rw [coreWithin_of_paren hnode, ih hless]

theorem WellFormed.exists_unwraps (h : g.WellFormed root) : ∃ core, g.Unwraps root core := by
  refine h.induction ?_
  intro id n hn _ ih
  obtain ⟨shape, span⟩ := n
  cases shape with
  | paren inner =>
      obtain ⟨core, hcore⟩ := ih inner (by simp [operands])
      exact ⟨core, .paren hn hcore⟩
  | _ => exact ⟨id, .bare hn rfl⟩

/-- In a well-formed expression the core of a node is the end of its chain. -/
theorem WellFormed.unwraps_iff (h : g.WellFormed root) (core : NodeId) :
    g.Unwraps root core ↔ core = g.core root := by
  have hwithin := h.acyclic.within
  constructor
  · intro hcore
    exact (hcore.coreWithin_eq hwithin).symm
  · rintro rfl
    obtain ⟨core, hcore⟩ := h.exists_unwraps
    rwa [Graph.core, hcore.coreWithin_eq hwithin]

theorem core_of_paren (h : g.WellFormed id) (hn : g.node id = .ok ⟨.paren inner, span⟩) :
    g.core id = g.core inner := by
  have hinner := (h.operand hn (List.mem_singleton_self inner)).unwraps_iff
  exact ((h.unwraps_iff _).1 (.paren hn ((hinner _).2 rfl))).symm

theorem core_of_not_paren (hn : g.node id = .ok n) (hshape : n.shape.isParen = false) :
    g.core id = id :=
  coreWithin_of_not_paren hn hshape _

/-- Induction over a well-formed expression in which parentheses are passed through. -/
@[elab_as_elim]
theorem WellFormed.core_induction
    {motive : NodeId → Prop} (h : g.WellFormed root)
    (paren : ∀ id inner span, g.node id = .ok ⟨.paren inner, span⟩ → g.WellFormed id →
      motive inner → motive id)
    (bare : ∀ id n, g.node id = .ok n → g.WellFormed id → n.shape.isParen = false →
      g.core id = id → (∀ child ∈ g.operands n.shape, motive child) → motive id) :
    motive root := by
  refine h.induction ?_
  intro id n hn hid ih
  by_cases hshape : n.shape.isParen = false
  · exact bare id n hn hid hshape (core_of_not_paren hn hshape) ih
  · obtain ⟨shape, span⟩ := n
    cases shape with
    | paren inner => exact paren id inner span hn hid (ih inner (List.mem_singleton_self inner))
    | _ => exact absurd rfl hshape

/-- The graph in which every operand is replaced by the end of its chain of parentheses. -/
def stripped (g : Graph) : Graph :=
  g.redirect g.core

theorem node_stripped (hn : g.node id = .ok n) :
    g.stripped.node id = .ok { n with shape := n.shape.redirect g.core } :=
  node_redirect hn

theorem operands_stripped (shape : Shape) :
    g.stripped.operands (shape.redirect g.core) = (g.operands shape).map g.core :=
  operands_redirect shape

theorem WellFormed.stripped (h : g.WellFormed root) : g.stripped.WellFormed (g.core root) := by
  refine h.core_induction ?_ ?_
  · intro id inner span hn hid ih
    rwa [core_of_paren hid hn]
  · intro id n hn _ _ hcore ih
    rw [hcore]
    apply WellFormed.of_operands (node_stripped hn)
    rw [operands_stripped]
    exact List.forall_mem_map.2 ih

/-- No parentheses are left in a stripped expression. -/
theorem WellFormed.stripped_isParen
    (h : g.WellFormed root) :
    ∀ id n, g.stripped.Reaches (g.core root) id → g.stripped.node id = .ok n →
      n.shape.isParen = false := by
  refine h.core_induction ?_ ?_
  · intro id inner span hn hid ih
    rwa [core_of_paren hid hn]
  · intro id n hn _ hshape hcore ih below m hreach hm
    rw [hcore, reaches_iff (node_stripped hn), operands_stripped] at hreach
    rcases hreach with rfl | ⟨child, hchild, hbelow⟩
    · obtain rfl := Except.ok.inj ((node_stripped hn).symm.trans hm)
      rw [Shape.isParen_redirect, hshape]
    · obtain ⟨child, hmem, rfl⟩ := List.mem_map.1 hchild
      exact ih child hmem below m hbelow hm

end Graph

/-! ## Checking without parentheses -/

/-- The error at the end of the chain of parentheses at which it stands. -/
def Graph.resolve (g : Graph) (e : TypeError) : TypeError where
  node := g.core e.node
  span := g.spanOf (g.core e.node)
  cause := e.cause

theorem Site.resolve_map
    {f : NodeId → NodeId} {id : NodeId} (hid : f id = id) (operands : List NodeId) (site : Site) :
    site.resolve id (operands.map f) = f (site.resolve id operands) := by
  cases site with
  | self => exact hid.symm
  | operand position =>
      rw [Site.resolve, Site.resolve, List.getElem?_map]
      cases operands[position]? with
      | none => exact hid.symm
      | some child => rfl

section Check

variable {g : Graph} {id inner root : NodeId} {n : Node} {span : Span}

theorem Verdict.error?_stripped (hcore : g.core id = id) (operands : List NodeId)
    (verdict : Verdict) :
    verdict.error? g.stripped id (operands.map g.core) =
      (verdict.error? g id operands).map g.resolve := by
  cases verdict with
  | failed site cause =>
      simp only [Verdict.error?, Site.resolve_map hcore, Graph.stripped, Graph.spanOf_redirect,
        Option.map_some, Graph.resolve]
  | _ => rfl

/-- Parentheses have the type of what they enclose. -/
theorem typeAt_of_paren
    (scope : Scope) (h : g.WellFormed id) (hn : g.node id = .ok ⟨.paren inner, span⟩) :
    typeAt g scope id = typeAt g scope inner :=
  typeAt_of_node h hn

/-- Parentheses report nothing. -/
theorem errorsAt_of_paren
    (scope : Scope) (h : g.WellFormed id) (hn : g.node id = .ok ⟨.paren inner, span⟩) :
    errorsAt g scope id = errorsAt g scope inner := by
  rw [errorsAt_of_node h hn]
  change [inner].flatMap (errorsAt g scope) ++ [] = _
  rw [List.append_nil, List.flatMap_singleton]

/-- The rule of a node sees the same types in the stripped graph. -/
theorem verdictAt_stripped
    {scope : Scope}
    (h : ∀ child ∈ g.operands n.shape,
      typeAt g.stripped scope (g.core child) = typeAt g scope child) :
    verdictAt g.stripped scope { n with shape := n.shape.redirect g.core } =
      verdictAt g scope n := by
  rw [verdictAt, verdictAt, Graph.operands_stripped, Shape.head_redirect, List.map_map]
  congr 1
  exact List.map_congr_left h

/-- The type of a node is that of its core in the stripped graph. -/
theorem typeAt_stripped (scope : Scope) (h : g.WellFormed root) :
    typeAt g.stripped scope (g.core root) = typeAt g scope root := by
  refine h.core_induction ?_ ?_
  · intro id inner span hn hid ih
    rw [Graph.core_of_paren hid hn, ih, typeAt_of_paren scope hid hn]
  · intro id n hn hid _ hcore ih
    have hstripped : g.stripped.WellFormed id := hcore ▸ hid.stripped
    rw [hcore, typeAt_of_node hstripped (Graph.node_stripped hn), typeAt_of_node hid hn,
      verdictAt_stripped ih]

/-- The errors of a node are those of its core in the stripped graph, up to the chains
of parentheses at which they stand. -/
theorem errorsAt_stripped (scope : Scope) (h : g.WellFormed root) :
    errorsAt g.stripped scope (g.core root) = (errorsAt g scope root).map g.resolve := by
  refine h.core_induction ?_ ?_
  · intro id inner span hn hid ih
    rw [Graph.core_of_paren hid hn, ih, errorsAt_of_paren scope hid hn]
  · intro id n hn hid _ hcore ih
    have hstripped : g.stripped.WellFormed id := hcore ▸ hid.stripped
    have hverdict := verdictAt_stripped fun child hchild =>
      typeAt_stripped scope (hid.operand hn hchild)
    have hbelow : ((g.operands n.shape).map g.core).flatMap (errorsAt g.stripped scope) =
        ((g.operands n.shape).flatMap (errorsAt g scope)).map g.resolve := by
      rw [List.flatMap_map, List.map_flatMap, List.flatMap_def, List.flatMap_def,
        List.map_congr_left ih]
    rw [hcore, errorsAt_of_node hstripped (Graph.node_stripped hn), errorsAt_of_node hid hn,
      hverdict, Graph.operands_stripped, hbelow, Verdict.error?_stripped hcore, Option.toList_map,
      List.map_append]

/-! ## Parentheses around the root -/

theorem core_at_root (scope : Scope) (h : g.WellFormed root) :
    g.WellFormed (g.core root) ∧ typeAt g scope (g.core root) = typeAt g scope root ∧
      errorsAt g scope (g.core root) = errorsAt g scope root := by
  refine h.core_induction ?_ ?_
  · intro id inner span hn hid ih
    rwa [Graph.core_of_paren hid hn, typeAt_of_paren scope hid hn, errorsAt_of_paren scope hid hn]
  · intro id n hn hid _ hcore _
    rw [hcore]
    exact ⟨hid, rfl, rfl⟩

/-- New parentheses around a node have its type and its errors. -/
theorem check_add_paren (scope : Scope) (h : g.WellFormed root) (span : Span) :
    ∃ wrapped, check (g.add ⟨.paren root, span⟩).2 scope (g.add ⟨.paren root, span⟩).1 =
        .ok wrapped ∧
      wrapped.ty = typeAt g scope root ∧ wrapped.errors = errorsAt g scope root := by
  have hnew := g.node_add_self ⟨.paren root, span⟩
  have hsub := g.containedIn_add ⟨.paren root, span⟩
  have hwf : (g.add ⟨.paren root, span⟩).2.WellFormed (g.add ⟨.paren root, span⟩).1 := by
    apply Graph.WellFormed.of_operands hnew
    exact List.forall_mem_singleton.2 (hsub.wellFormed h)
  obtain ⟨hty, herrors⟩ := hsub.typeAt_errorsAt_eq scope h
  refine ⟨_, check_eq_ok hwf, ?_, ?_⟩
  · exact (typeAt_of_paren scope hwf hnew).trans hty
  · exact (errorsAt_of_paren scope hwf hnew).trans herrors

end Check

/-- Parentheses are transparent wherever they stand.

Every node of a well-formed expression has a core, the only end of its chain of
parentheses.  The expression that is stripped of all parentheses, at the root, at
operands and at arguments, has the same type and the same errors in the same order, each
at the core of the node at which it stood.  Parentheses around the root alone, those
that are there and one that is added, change neither the node nor the span of any
error. -/
theorem check_without_parentheses
    (g : Graph) (scope : Scope) (root : NodeId) (h : g.WellFormed root) :
    (∀ id, g.Reaches root id → ∀ core, g.Unwraps id core ↔ core = g.core id) ∧
      (∀ id n, g.stripped.Reaches (g.core root) id → g.stripped.node id = .ok n →
        n.shape.isParen = false) ∧
      ∃ result bare, check g scope root = .ok result ∧
        check g.stripped scope (g.core root) = .ok bare ∧
        bare.ty = result.ty ∧
        bare.errors = result.errors.map g.resolve ∧
        (∃ inner, check g scope (g.core root) = .ok inner ∧
          inner.ty = result.ty ∧ inner.errors = result.errors) ∧
        ∀ span, ∃ wrapped,
          check (g.add ⟨.paren root, span⟩).2 scope (g.add ⟨.paren root, span⟩).1 = .ok wrapped ∧
          wrapped.ty = result.ty ∧ wrapped.errors = result.errors := by
  obtain ⟨hcore, hty, herrors⟩ := core_at_root scope h
  refine ⟨fun id hid => (h.of_reaches hid).unwraps_iff, h.stripped_isParen, ?_⟩
  exact ⟨_, _, check_eq_ok h, check_eq_ok h.stripped, typeAt_stripped scope h,
    errorsAt_stripped scope h, ⟨_, check_eq_ok hcore, hty, herrors⟩, check_add_paren scope h⟩

/-- A call of `((5))`, which is no function, with the arguments `size(((5)))` and `(5)`,
all in parentheses.  The parentheses are shared. -/
def wrappedCall : Graph where
  nodes :=
    #[⟨.int 5, ⟨2, 3⟩⟩, ⟨.paren ⟨0⟩, ⟨1, 4⟩⟩, ⟨.paren ⟨1⟩, ⟨0, 5⟩⟩, ⟨.size ⟨2⟩, ⟨6, 15⟩⟩,
      ⟨.call ⟨2⟩ ⟨0, 2⟩, ⟨0, 20⟩⟩, ⟨.paren ⟨4⟩, ⟨0, 22⟩⟩]
  args := #[⟨3⟩, ⟨1⟩]

theorem wrappedCall_errors_move_inwards :
    wrappedCall.WellFormed ⟨5⟩ ∧ wrappedCall.Unwraps ⟨2⟩ ⟨0⟩ ∧ wrappedCall.core ⟨5⟩ = ⟨4⟩ ∧
      ∃ result bare, check wrappedCall Scope.empty ⟨5⟩ = .ok result ∧
        check wrappedCall.stripped Scope.empty ⟨4⟩ = .ok bare ∧
        result.errors =
          [⟨⟨2⟩, ⟨0, 5⟩, .sizeOfNonList⟩, ⟨⟨2⟩, ⟨0, 5⟩, .callOfNonFunction⟩] ∧
        bare.errors =
          [⟨⟨0⟩, ⟨2, 3⟩, .sizeOfNonList⟩, ⟨⟨0⟩, ⟨2, 3⟩, .callOfNonFunction⟩] ∧
        bare.ty = result.ty ∧
        ∃ inner, check wrappedCall Scope.empty ⟨4⟩ = .ok inner ∧
          inner.ty = result.ty ∧ inner.errors = result.errors := by
  have hwf : wrappedCall.WellFormed ⟨5⟩ := by decide
  have hcore : wrappedCall.core ⟨5⟩ = ⟨4⟩ := by decide +kernel
  obtain ⟨hunwraps, -, result, bare, hresult, hbare, hty, herrors, hinner, -⟩ :=
    check_without_parentheses wrappedCall Scope.empty ⟨5⟩ hwf
  rw [hcore] at hbare hinner
  have heval : (check wrappedCall Scope.empty ⟨5⟩).map Checked.errors =
      .ok [⟨⟨2⟩, ⟨0, 5⟩, .sizeOfNonList⟩, ⟨⟨2⟩, ⟨0, 5⟩, .callOfNonFunction⟩] := by
    decide +kernel
  rw [hresult] at heval
  have hfound := Except.ok.inj heval
  have hreach : wrappedCall.Reaches ⟨5⟩ ⟨2⟩ := by
    have hcall : wrappedCall.HasOperand ⟨5⟩ ⟨4⟩ := ⟨_, rfl, by decide⟩
    have hcallee : wrappedCall.HasOperand ⟨4⟩ ⟨2⟩ := ⟨_, rfl, by decide⟩
    exact .tail (.single hcall) hcallee
  refine ⟨hwf, (hunwraps ⟨2⟩ hreach ⟨0⟩).2 (by decide +kernel), hcore, result, bare, hresult, hbare,
    hfound, ?_, hty, hinner⟩
  rw [herrors, hfound]
  decide +kernel

end ExprTyping
