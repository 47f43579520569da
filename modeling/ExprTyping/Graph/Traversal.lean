import ExprTyping.Graph

/-!
# Preorder of an expression graph

A visitor of a node is led to one child after the other.  The preorder below a
node lists the node and then, child by child, the preorder below each of them.
A shared node is listed once for every path to it.

The children are the operands that the rules look at, in the same order; this is
`children_eq_operands`.

`preorderWithin` follows this description down to a given depth.  `preorder`
computes the same list with an explicit list of pending nodes, so that its use
of the stack does not grow with the depth of the graph.  The main statement is
`preorder_eq_preorderWithin`.
-/

namespace ExprTyping
namespace Graph

/-- Leads a visitor to the children of a node.  The visitor has a state, which
is handed on from child to child. -/
def visitChildren {σ : Type} (g : Graph) (visit : σ → NodeId → σ) (state : σ) : Shape → σ
  | .int _ | .bool _ | .ident _ => state
  | .binary _ left right => visit (visit state left) right
  | .unary _ operand => visit state operand
  | .call callee args => (g.argList args).foldl visit (visit state callee)
  | .index list position => visit (visit state list) position
  | .field owner _ => visit state owner
  | .size list => visit state list
  | .append list element => visit (visit state list) element
  | .paren inner => visit state inner

/-- The children in the order in which they are visited. -/
def children (g : Graph) (shape : Shape) : List NodeId :=
  (g.visitChildren Array.push #[] shape).toList

theorem visitChildren_eq_foldl {σ : Type} (g : Graph) (visit : σ → NodeId → σ) (state : σ)
    (shape : Shape) :
    g.visitChildren visit state shape = (g.operands shape).foldl visit state := by
  cases shape <;> rfl

/-- A visitor is led to the operands of a node, in the order of the operands. -/
theorem children_eq_operands (g : Graph) (shape : Shape) :
    g.children shape = g.operands shape := by
  rw [children, visitChildren_eq_foldl, List.foldl_push_eq_append]
  simp

/-- A bound for the number of operands of one node. -/
def breadth (g : Graph) : Nat :=
  g.args.size + 2

/-- A bound for the number of steps spent below a node at a given depth. -/
def effort (g : Graph) : Nat → Nat
  | 0 => 1
  | depth + 1 => 2 + g.breadth * g.effort depth

theorem length_operands_le (g : Graph) (shape : Shape) :
    (g.operands shape).length ≤ g.breadth := by
  cases shape with
  | call callee args =>
    have hsize : (g.argList args).length ≤ g.args.size := by
      simp only [argList, Array.length_toList, Array.size_extract]
      omega
    simp only [operands, breadth, List.length_cons]
    omega
  | _ => simp [operands, breadth]

/-- The work for the operands of a node is less than the work for the node. -/
theorem operands_effort_lt (g : Graph) (shape : Shape) (depth : Nat) :
    (g.operands shape).length * g.effort depth + 1 < g.effort (depth + 1) := by
  have hlen := Nat.mul_le_mul_right (g.effort depth) (length_operands_le g shape)
  simp only [effort]
  omega

/-- A bound for the number of steps spent on pending nodes. -/
def pendingEffort (g : Graph) : List (Nat × NodeId) → Nat
  | [] => 0
  | (depth, _) :: pending => g.effort depth + g.pendingEffort pending

theorem pendingEffort_map_append (g : Graph) (depth : Nat) (ids : List NodeId)
    (pending : List (Nat × NodeId)) :
    g.pendingEffort (ids.map (depth, ·) ++ pending) =
      ids.length * g.effort depth + g.pendingEffort pending := by
  induction ids with
  | nil => simp
  | cons id ids ih =>
    simp only [List.map_cons, List.cons_append, pendingEffort, List.length_cons, ih]
    rw [Nat.succ_mul]
    omega

/-- Replacing a node by its operands leaves less to do. -/
theorem pendingEffort_operands_lt (g : Graph) (shape : Shape) (depth : Nat) (id : NodeId)
    (pending : List (Nat × NodeId)) :
    g.pendingEffort ((g.operands shape).map (depth, ·) ++ pending) <
      g.pendingEffort ((depth + 1, id) :: pending) := by
  have hlt := operands_effort_lt g shape depth
  rw [pendingEffort_map_append, pendingEffort]
  omega

/-- The preorder below a node, provided that no path below it has more than
`depth` nodes. -/
def preorderWithin (g : Graph) : Nat → NodeId → Except Fault (List NodeId)
  | 0, _ => .error .cyclic
  | depth + 1, id => do
    let node ← g.node id
    let below ← (g.children node.shape).mapM (g.preorderWithin depth)
    return id :: below.flatten

/-- Appends the preorder below every pending node, each with the depth that is
left for it. -/
def preorderLoop (g : Graph) :
    List (Nat × NodeId) → Array NodeId → Except Fault (Array NodeId)
  | [], visited => .ok visited
  | (0, _) :: _, _ => .error .cyclic
  | (depth + 1, id) :: pending, visited =>
    match g.node id with
    | .error fault => .error fault
    | .ok node =>
      g.preorderLoop ((g.children node.shape).map (depth, ·) ++ pending) (visited.push id)
termination_by pending _ => g.pendingEffort pending
decreasing_by
  rw [children_eq_operands]
  exact pendingEffort_operands_lt g node.shape depth id pending

/-- The preorder below a node.  A path cannot have more nodes than the graph
without repeating one, and it may end one step outside the graph. -/
def preorder (g : Graph) (root : NodeId) : Except Fault (List NodeId) := do
  let visited ← g.preorderLoop [(g.size + 1, root)] #[]
  return visited.toList

theorem preorderLoop_append (g : Graph) (depth : Nat)
    (hdepth : ∀ (id : NodeId) (pending : List (Nat × NodeId)) (visited : Array NodeId),
      g.preorderLoop ((depth, id) :: pending) visited =
        g.preorderWithin depth id >>= fun below =>
          g.preorderLoop pending (visited ++ below.toArray))
    (ids : List NodeId) (pending : List (Nat × NodeId)) (visited : Array NodeId) :
    g.preorderLoop (ids.map (depth, ·) ++ pending) visited =
      ids.mapM (g.preorderWithin depth) >>= fun below =>
        g.preorderLoop pending (visited ++ below.flatten.toArray) := by
  induction ids generalizing visited with
  | nil => simp
  | cons id ids ih =>
    simp only [List.map_cons, List.cons_append, List.mapM_cons, hdepth, ih, bind_assoc,
      pure_bind]
    congr 1
    funext below
    congr 1
    funext rest
    simp

theorem preorderLoop_cons (g : Graph) (depth : Nat) (id : NodeId)
    (pending : List (Nat × NodeId)) (visited : Array NodeId) :
    g.preorderLoop ((depth, id) :: pending) visited =
      g.preorderWithin depth id >>= fun below =>
        g.preorderLoop pending (visited ++ below.toArray) := by
  induction depth generalizing id pending visited with
  | zero =>
    rw [preorderLoop]
    rfl
  | succ depth ih =>
    rw [preorderLoop, preorderWithin]
    cases hnode : g.node id with
    | error fault => rfl
    | ok node =>
      change g.preorderLoop _ _ = ((g.children node.shape).mapM _ >>= _) >>= _
      rw [preorderLoop_append g depth ih, bind_assoc]
      congr 1
      funext below
      change _ = g.preorderLoop pending _
      congr 1
      rw [Array.push_eq_append, Array.append_assoc]
      simp

theorem preorder_eq_preorderWithin (g : Graph) (root : NodeId) :
    g.preorder root = g.preorderWithin (g.size + 1) root := by
  unfold preorder
  rw [preorderLoop_cons]
  cases g.preorderWithin (g.size + 1) root with
  | error fault => rfl
  | ok below =>
    change (g.preorderLoop [] _ >>= fun visited => pure visited.toList) = _
    rw [preorderLoop]
    change Except.ok _ = _
    simp

end Graph
end ExprTyping
