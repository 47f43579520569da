import ExprTyping.Proofs.Compositionality

/-!
# Checking the unfolded tree

A graph is a compact form of a tree.  Unfolding the graph from a node puts a copy
of every operand in the place of its number, so that sharing and the order of the
numbers are no longer visible.

`Tree.check` is a checker for such trees.  It recurses on the tree and has no
state: no table of types, no numbers of nodes and no list of errors to append to.
Checking a graph finds what this checker finds for the unfolded tree.
-/

namespace ExprTyping

/-- An expression as a tree, with the source text of each part. -/
inductive Tree where
  | int (value : Int) (span : Span)
  | bool (value : Bool) (span : Span)
  | ident (name : Name) (span : Span)
  | binary (op : BinOp) (left right : Tree) (span : Span)
  | unary (op : UnOp) (operand : Tree) (span : Span)
  | call (callee : Tree) (args : List Tree) (span : Span)
  | index (list position : Tree) (span : Span)
  | field (owner : Tree) (member : Name) (span : Span)
  | size (list : Tree) (span : Span)
  | append (list element : Tree) (span : Span)
  | paren (inner : Tree) (span : Span)
deriving Repr, Inhabited

/-! ## The checker for trees -/

/-- What is found out about a tree: its type, and its errors with their spans. -/
structure Finding where
  span : Span
  ty : Ty
  errors : List (Cause × Span)
deriving DecidableEq, Repr

/-- The span of a site, given the spans of a tree and of its operands. -/
def Site.spanIn (span : Span) (operands : List Span) : Site → Span
  | .self => span
  | .operand position => operands[position]?.getD span

/-- The error that a verdict reports, given the spans of a tree and of its operands. -/
def Verdict.located? (span : Span) (operands : List Span) : Verdict → Option (Cause × Span)
  | .failed site cause => some (cause, site.spanIn span operands)
  | _ => none

/-- The finding for a tree after those for its operands. -/
def Finding.settle (span : Span) (operands : List Finding) (verdict : Verdict) : Finding where
  span := span
  ty := verdict.ty
  errors := operands.flatMap Finding.errors ++
    (verdict.located? span (operands.map Finding.span)).toList

namespace Tree

mutual

/-- Checks a tree. -/
def check (scope : Scope) : Tree → Finding
  | .int _ span => .settle span [] (.typed .int)
  | .bool _ span => .settle span [] (.typed .bool)
  | .ident name span => .settle span [] (Rule.ident scope name)
  | .binary op left right span =>
    let l := check scope left
    let r := check scope right
    .settle span [l, r] (Rule.binary op l.ty r.ty)
  | .unary op operand span =>
    let o := check scope operand
    .settle span [o] (Rule.unary op o.ty)
  | .call callee args span =>
    let f := check scope callee
    let found := checkAll scope args
    .settle span (f :: found) (Rule.call f.ty (found.map Finding.ty))
  | .index list position span =>
    let l := check scope list
    let p := check scope position
    .settle span [l, p] (Rule.index l.ty p.ty)
  | .field owner member span =>
    let o := check scope owner
    .settle span [o] (Rule.field scope member o.ty)
  | .size list span =>
    let l := check scope list
    .settle span [l] (Rule.size l.ty)
  | .append list element span =>
    let l := check scope list
    let e := check scope element
    .settle span [l, e] (Rule.append l.ty e.ty)
  | .paren inner span =>
    let i := check scope inner
    .settle span [i] (.typed i.ty)

/-- Checks a list of trees from left to right. -/
def checkAll (scope : Scope) : List Tree → List Finding
  | [] => []
  | t :: ts => check scope t :: checkAll scope ts

end

theorem checkAll_eq_map (scope : Scope) (ts : List Tree) :
    checkAll scope ts = ts.map (check scope) := by
  induction ts with
  | nil => rfl
  | cons t ts ih => rw [checkAll, ih, List.map_cons]

end Tree

/-! ## Unfolding -/

/-- The tree of a shape with the given trees in the place of its operands.  There
is none for a wrong number of operands. -/
def Shape.plug? (span : Span) : Shape → List Tree → Option Tree
  | .int value, [] => some (.int value span)
  | .bool value, [] => some (.bool value span)
  | .ident name, [] => some (.ident name span)
  | .binary op _ _, [left, right] => some (.binary op left right span)
  | .unary op _, [operand] => some (.unary op operand span)
  | .call _ _, callee :: args => some (.call callee args span)
  | .index _ _, [list, position] => some (.index list position span)
  | .field _ member, [owner] => some (.field owner member span)
  | .size _, [list] => some (.size list span)
  | .append _ _, [list, element] => some (.append list element span)
  | .paren _, [inner] => some (.paren inner span)
  | _, _ => none

/-- Checking a tree applies the rule of its shape to the findings for its operands. -/
theorem Shape.check_of_plug?
    {shape : Shape} {span : Span} {below : List Tree} {t : Tree}
    (h : shape.plug? span below = some t) (scope : Scope) :
    t.check scope = .settle span (below.map (Tree.check scope))
      (shape.head.judge scope (below.map fun t => (t.check scope).ty)) := by
  revert h
  fun_cases Shape.plug? span shape below with
  | case6 _ _ callee args =>
      intro h
      obtain rfl := Option.some.inj h
      rw [Tree.check, Tree.checkAll_eq_map, List.map_cons, List.map_cons, List.map_map]
      rfl
  | case12 =>
      intro h
      cases h
  | _ =>
      intro h
      obtain rfl := Option.some.inj h
      rfl

namespace Graph

/-- A node unfolds to a tree if the tree is its shape with the trees that its
operands unfold to. -/
inductive Unfolds (g : Graph) : NodeId → Tree → Prop where
  | node {id : NodeId} {n : Node} {treeOf : NodeId → Tree} {t : Tree}
      (hnode : g.node id = .ok n)
      (hoperands : ∀ child ∈ g.operands n.shape, Unfolds g child (treeOf child))
      (htree : n.shape.plug? n.span ((g.operands n.shape).map treeOf) = some t) :
      Unfolds g id t

/-- The tree that a node unfolds to. -/
def treeAt (g : Graph) (id : NodeId) : Tree :=
  g.valueAt (fun _ n below => (n.shape.plug? n.span below).getD default) id

theorem exists_plug?_operands
    (g : Graph) (shape : Shape) (span : Span) (treeOf : NodeId → Tree) :
    ∃ t, shape.plug? span ((g.operands shape).map treeOf) = some t := by
  cases shape <;> exact ⟨_, rfl⟩

/-- A well-formed expression can be unfolded. -/
theorem WellFormed.unfolds
    {g : Graph} {root : NodeId} (h : g.WellFormed root) :
    g.Unfolds root (g.treeAt root) := by
  refine h.induction ?_
  intro id n hn hid ih
  obtain ⟨t, ht⟩ := g.exists_plug?_operands n.shape n.span g.treeAt
  have htree : g.treeAt id = t := by
    rw [treeAt, hid.valueAt_eq hn]
    exact congrArg (Option.getD · default) ht
  rw [htree]
  exact .node hn ih ht

namespace Unfolds

variable {g : Graph} {root id child : NodeId} {t t' : Tree}

/-- A node unfolds to one tree only. -/
theorem unique (h : g.Unfolds id t) : ∀ {t'}, g.Unfolds id t' → t = t' := by
  induction h with
  | @node id n treeOf t hnode _ htree ih =>
      intro t' h'
      cases h' with
      | @node _ n' treeOf' _ hnode' hoperands' htree' =>
          obtain rfl := Except.ok.inj (hnode.symm.trans hnode')
          have hsame : (g.operands n.shape).map treeOf = (g.operands n.shape).map treeOf' := by
            apply List.map_congr_left
            intro child hchild
            exact ih child hchild (hoperands' child hchild)
          rw [hsame, htree'] at htree
          exact (Option.some.inj htree).symm

theorem of_hasOperand (h : g.Unfolds id t) (hchild : g.HasOperand id child) :
    ∃ t', g.Unfolds child t' := by
  cases h with
  | node hnode hoperands _ =>
      exact ⟨_, hoperands child ((hasOperand_iff hnode).1 hchild)⟩

theorem of_reaches (h : g.Unfolds root t) (hid : g.Reaches root id) :
    ∃ t', g.Unfolds id t' := by
  induction hid with
  | refl => exact ⟨t, h⟩
  | tail _ hchild ih =>
      obtain ⟨t', ht'⟩ := ih
      exact ht'.of_hasOperand hchild

/-- A node with a tree is not below itself, since trees are finite. -/
theorem not_below_self (h : g.Unfolds id t) : ¬Relation.TransGen g.HasOperand id id := by
  induction h with
  | @node id n treeOf t hnode _ _ ih =>
      intro hcycle
      -- The cycle passes through an operand, which is then below itself as well.
      obtain ⟨child, hchild, hback⟩ := Relation.TransGen.head'_iff.1 hcycle
      apply ih child ((hasOperand_iff hnode).1 hchild)
      exact Relation.TransGen.tail' hback hchild

/-- What can be unfolded is well formed. -/
theorem wellFormed (h : g.Unfolds root t) : g.WellFormed root where
  inRange id hid := by
    obtain ⟨t', ht'⟩ := h.of_reaches hid
    cases ht' with
    | node hnode _ _ => exact index_lt_of_node hnode
  acyclic id hid := by
    obtain ⟨t', ht'⟩ := h.of_reaches hid
    exact ht'.not_below_self

end Unfolds
end Graph

/-! ## Graph and tree agree -/

/-- What a check finds out about a node, as a finding. -/
def findingAt (g : Graph) (scope : Scope) (id : NodeId) : Finding where
  span := g.spanOf id
  ty := typeAt g scope id
  errors := (errorsAt g scope id).map fun e => (e.cause, e.span)

theorem Site.spanOf_resolve (g : Graph) (id : NodeId) (operands : List NodeId) (site : Site) :
    g.spanOf (site.resolve id operands) = site.spanIn (g.spanOf id) (operands.map g.spanOf) := by
  cases site with
  | self => rfl
  | operand position =>
      rw [Site.resolve, Site.spanIn, List.getElem?_map]
      cases operands[position]? with
      | none => rfl
      | some child => rfl

/-- The error of a node, without the number of the node it stands at. -/
theorem Verdict.map_error?
    (g : Graph) (id : NodeId) (operands : List NodeId) (verdict : Verdict) :
    (verdict.error? g id operands).toList.map (fun e => (e.cause, e.span)) =
      (verdict.located? (g.spanOf id) (operands.map g.spanOf)).toList := by
  cases verdict with
  | failed site cause =>
      simp [Verdict.error?, Verdict.located?, Site.spanOf_resolve]
  | _ => rfl

/-- The finding for a node is settled from those for its operands. -/
theorem findingAt_of_node
    {g : Graph} (scope : Scope) {id : NodeId} {n : Node}
    (h : g.WellFormed id) (hn : g.node id = .ok n) :
    findingAt g scope id = .settle n.span ((g.operands n.shape).map (findingAt g scope))
      (verdictAt g scope n) := by
  have hspans : ((g.operands n.shape).map (findingAt g scope)).map Finding.span =
      (g.operands n.shape).map g.spanOf := List.map_map
  have herrors : ((g.operands n.shape).map (findingAt g scope)).flatMap Finding.errors =
      ((g.operands n.shape).flatMap (errorsAt g scope)).map fun e => (e.cause, e.span) := by
    rw [List.flatMap_map, List.map_flatMap]
    rfl
  rw [findingAt, Finding.settle, typeAt_of_node h hn, errorsAt_of_node h hn, List.map_append,
    Verdict.map_error?, Graph.spanOf_of_node hn, hspans, herrors]

/-- Checking the unfolded tree finds what is found at the node. -/
theorem Graph.Unfolds.check_eq
    {g : Graph} (scope : Scope) {id : NodeId} {t : Tree} (h : g.Unfolds id t) :
    t.check scope = findingAt g scope id := by
  induction h with
  | @node id n treeOf t hnode hoperands htree ih =>
      have hwf : g.WellFormed id := (Unfolds.node hnode hoperands htree).wellFormed
      have hbelow : ((g.operands n.shape).map treeOf).map (Tree.check scope) =
          (g.operands n.shape).map (findingAt g scope) := by
        rw [List.map_map]
        exact List.map_congr_left ih
      have htypes : ((g.operands n.shape).map treeOf).map (fun t => (t.check scope).ty) =
          (g.operands n.shape).map (typeAt g scope) := by
        rw [List.map_map]
        exact List.map_congr_left fun child hchild => congrArg Finding.ty (ih child hchild)
      rw [Shape.check_of_plug? htree, hbelow, htypes, findingAt_of_node scope hwf hnode]
      rfl

/-- The check of a graph refines the check of the unfolded tree.

A well-formed expression unfolds to exactly one tree.  The check of every node, in
any graph, that unfolds to this tree succeeds and gives the type of the tree and
the errors of the tree with the same causes, at the same spans and in the same
order.  So neither the numbers of the nodes nor their sharing matter. -/
theorem check_refines_tree
    (g : Graph) (scope : Scope) (root : NodeId) (h : g.WellFormed root) :
    ∃ t result,
      (∀ t', g.Unfolds root t' ↔ t' = t) ∧
      check g scope root = .ok result ∧
      result.ty = (t.check scope).ty ∧
      result.errors.map (fun e => (e.cause, e.span)) = (t.check scope).errors ∧
      ∀ g' root', g'.Unfolds root' t →
        ∃ result', check g' scope root' = .ok result' ∧ result'.ty = result.ty ∧
          result'.errors.map (fun e => (e.cause, e.span)) =
            result.errors.map (fun e => (e.cause, e.span)) := by
  have hunfolds := h.unfolds
  have hfound := hunfolds.check_eq scope
  refine ⟨g.treeAt root, checkedAt g scope root, ?_, check_eq_ok h, ?_, ?_, ?_⟩
  · intro t'
    constructor
    · exact fun h' => h'.unique hunfolds
    · rintro rfl
      exact hunfolds
  · rw [hfound]
    rfl
  · rw [hfound]
    rfl
  · intro g' root' h'
    have hsame : findingAt g' scope root' = findingAt g scope root := by
      rw [← h'.check_eq scope, hfound]
    exact ⟨checkedAt g' scope root', check_eq_ok h'.wellFormed,
      congrArg Finding.ty hsame, congrArg Finding.errors hsame⟩

/-- The sum of an undeclared variable with itself. -/
def doubledVariable : Tree :=
  .binary .add (.ident ⟨7⟩ ⟨0, 1⟩) (.ident ⟨7⟩ ⟨0, 1⟩) ⟨0, 5⟩

/-- The sum with one node for the variable, which comes after the sum. -/
def sharedSum : Graph where
  nodes := #[⟨.binary .add ⟨1⟩ ⟨1⟩, ⟨0, 5⟩⟩, ⟨.ident ⟨7⟩, ⟨0, 1⟩⟩]
  args := #[]

/-- The sum with two nodes for the variable, which come before the sum. -/
def spreadSum : Graph where
  nodes := #[⟨.ident ⟨7⟩, ⟨0, 1⟩⟩, ⟨.ident ⟨7⟩, ⟨0, 1⟩⟩, ⟨.binary .add ⟨0⟩ ⟨1⟩, ⟨0, 5⟩⟩]
  args := #[]

theorem sharedSum_found_alike :
    sharedSum.WellFormed ⟨0⟩ ∧ sharedSum.Unfolds ⟨0⟩ doubledVariable ∧
      spreadSum.Unfolds ⟨2⟩ doubledVariable ∧
      ∃ result result', check sharedSum Scope.empty ⟨0⟩ = .ok result ∧
        check spreadSum Scope.empty ⟨2⟩ = .ok result' ∧
        result.errors.map TypeError.node = [⟨1⟩, ⟨1⟩] ∧
        result'.errors.map TypeError.node = [⟨0⟩, ⟨1⟩] ∧
        result'.ty = result.ty ∧
        result'.errors.map (fun e => (e.cause, e.span)) =
          result.errors.map (fun e => (e.cause, e.span)) := by
  have hwf : sharedSum.WellFormed ⟨0⟩ := by decide
  have hwf' : spreadSum.WellFormed ⟨2⟩ := by decide
  have hshared : sharedSum.Unfolds ⟨0⟩ doubledVariable := hwf.unfolds
  have hspread : spreadSum.Unfolds ⟨2⟩ doubledVariable := hwf'.unfolds
  obtain ⟨t, result, hunique, hresult, -, -, hsame⟩ :=
    check_refines_tree sharedSum Scope.empty ⟨0⟩ hwf
  obtain rfl := (hunique doubledVariable).1 hshared
  obtain ⟨result', hresult', hty, herrors⟩ := hsame spreadSum ⟨2⟩ hspread
  have hnodes : (check sharedSum Scope.empty ⟨0⟩).map
      (fun result => result.errors.map TypeError.node) = .ok [⟨1⟩, ⟨1⟩] := by
    decide +kernel
  have hnodes' : (check spreadSum Scope.empty ⟨2⟩).map
      (fun result => result.errors.map TypeError.node) = .ok [⟨0⟩, ⟨1⟩] := by
    decide +kernel
  rw [hresult] at hnodes
  rw [hresult'] at hnodes'
  exact ⟨hwf, hshared, hspread, result, result', hresult, hresult', Except.ok.inj hnodes,
    Except.ok.inj hnodes', hty, herrors⟩

end ExprTyping
