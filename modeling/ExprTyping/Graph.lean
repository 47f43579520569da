import ExprTyping.Operator
import ExprTyping.Name
import ExprTyping.Span

/-!
# Expression graphs

Expressions are the nodes of a graph and refer to their operands by number.
Operands may come before or after the nodes that use them and may be shared, so
a graph stands for any number of expression trees.  The arguments of all calls
lie in one table, and each call holds the range that is its own.

A graph only grows: `add` and `addArgs` leave every earlier node and range as
they were.

The numbers of nodes and of argument entries have no bound here.  With numbers of
thirty-two bits, `add` and `addArgs` would have to fail at `2 ^ 32` nodes or
entries; below that size there is no difference.
-/

namespace ExprTyping

/-- The number of a node in its graph. -/
structure NodeId where
  index : Nat
deriving DecidableEq, Repr, Inhabited, Hashable

/-- The dump of a node number, such as `e3`. -/
def NodeId.dump (id : NodeId) : String :=
  s!"e{id.index}"

/-- A run of consecutive entries in the argument table of a graph. -/
structure ArgRange where
  start : Nat
  stop : Nat
deriving DecidableEq, Repr

namespace ArgRange

/-- The range without entries. -/
def empty : ArgRange := ⟨0, 0⟩

def dump (range : ArgRange) : String :=
  "ExprRange \x7b start: " ++ toString range.start ++ ", end: " ++
    toString range.stop ++ " \x7d"

end ArgRange

/-- What a node is and which nodes it is applied to. -/
inductive Shape where
  | int (value : Int)
  | bool (value : Bool)
  | ident (name : Name)
  | binary (op : BinOp) (left right : NodeId)
  | unary (op : UnOp) (operand : NodeId)
  | call (callee : NodeId) (args : ArgRange)
  | index (list position : NodeId)
  | field (owner : NodeId) (member : Name)
  | size (list : NodeId)
  | append (list element : NodeId)
  | paren (inner : NodeId)
deriving DecidableEq, Repr

/-- The dump of a shape names its constructor and all of its parts. -/
def Shape.dump : Shape → String
  | .int value => s!"Int({value})"
  | .bool value => s!"Bool({value})"
  | .ident name => s!"Ident({name.dump})"
  | .binary op left right =>
    s!"Binary \x7b op: {op.dump}, left: {left.dump}, right: {right.dump} \x7d"
  | .unary op operand => s!"Unary \x7b op: {op.dump}, operand: {operand.dump} \x7d"
  | .call callee args => s!"Call \x7b callee: {callee.dump}, args: {args.dump} \x7d"
  | .index list position =>
    s!"Index \x7b instance: {list.dump}, index: {position.dump} \x7d"
  | .field owner member =>
    s!"Field \x7b instance: {owner.dump}, member: {member.dump} \x7d"
  | .size list => s!"ListSize \x7b list: {list.dump} \x7d"
  | .append list element =>
    s!"ListAppend \x7b list: {list.dump}, element: {element.dump} \x7d"
  | .paren inner => s!"Paren({inner.dump})"

/-- A node of an expression graph with the source text it comes from. -/
structure Node where
  shape : Shape
  span : Span
deriving DecidableEq, Repr

/-- The dump of a node is that of its shape followed by its span. -/
def Node.dump (node : Node) : String :=
  s!"{node.shape.dump} @ {node.span.render}"

/-- Why a graph could not be followed. -/
inductive Fault where
  /-- A node number at or beyond the number of nodes. -/
  | outOfRange (size index : Nat)
  /-- A path longer than the graph has nodes, which must repeat one. -/
  | cyclic
deriving DecidableEq, Repr

/-- The text shown for a fault. -/
def Fault.message : Fault → String
  | .outOfRange size index =>
    s!"index out of bounds: the len is {size} but the index is {index}"
  | .cyclic => "expression contains itself"

/-- Expression nodes and the argument lists of their calls. -/
structure Graph where
  nodes : Array Node
  args : Array NodeId
deriving DecidableEq, Repr

namespace Graph

/-- The graph without nodes. -/
def empty : Graph := ⟨#[], #[]⟩

/-- The number of nodes. -/
def size (g : Graph) : Nat :=
  g.nodes.size

/-- Appends a node and returns its number.  There is always room for it. -/
def add (g : Graph) (node : Node) : NodeId × Graph :=
  (⟨g.nodes.size⟩, { g with nodes := g.nodes.push node })

/-- Appends an argument list and returns its range.  There is always room for it. -/
def addArgs (g : Graph) (ids : List NodeId) : ArgRange × Graph :=
  let args := g.args ++ ids.toArray
  (⟨g.args.size, args.size⟩, { g with args })

/-- The node with the given number. -/
def node (g : Graph) (id : NodeId) : Except Fault Node :=
  match g.nodes[id.index]? with
  | some node => .ok node
  | none => .error (.outOfRange g.size id.index)

/-- The span of a node; a number without a node has the zero span. -/
def spanOf (g : Graph) (id : NodeId) : Span :=
  (g.nodes[id.index]?.map Node.span).getD Span.zero

/-- The entries of a range of the argument table. -/
def argList (g : Graph) (range : ArgRange) : List NodeId :=
  (g.args.extract range.start range.stop).toList

/-- The nodes that a shape is applied to, in the order of the source text. -/
def operands (g : Graph) : Shape → List NodeId
  | .int _ | .bool _ | .ident _ => []
  | .binary _ left right => [left, right]
  | .unary _ operand => [operand]
  | .call callee args => callee :: g.argList args
  | .index list position => [list, position]
  | .field owner _ => [owner]
  | .size list => [list]
  | .append list element => [list, element]
  | .paren inner => [inner]

theorem node_eq_ok_iff {g : Graph} {id : NodeId} {n : Node} :
    g.node id = .ok n ↔ g.nodes[id.index]? = some n := by
  unfold node
  cases g.nodes[id.index]? <;> simp

theorem node_eq_error_iff {g : Graph} {id : NodeId} {fault : Fault} :
    g.node id = .error fault ↔
      g.size ≤ id.index ∧ fault = .outOfRange g.size id.index := by
  unfold node size
  cases h : g.nodes[id.index]? with
  | none =>
    have := Array.getElem?_eq_none_iff.1 h
    simp [this, eq_comm]
  | some n =>
    obtain ⟨hlt, _⟩ := Array.getElem?_eq_some_iff.1 h
    simp
    omega

theorem spanOf_of_node {g : Graph} {id : NodeId} {n : Node}
    (h : g.node id = .ok n) :
    g.spanOf id = n.span := by
  simp [spanOf, node_eq_ok_iff.1 h]

@[simp]
theorem size_add (g : Graph) (n : Node) : (g.add n).2.size = g.size + 1 := by
  simp [add, size]

/-- A new node is found under the number it was given. -/
theorem node_add_self (g : Graph) (n : Node) :
    (g.add n).2.node (g.add n).1 = .ok n := by
  simp [add, node]

/-- A new node leaves the earlier ones in place. -/
theorem node_add_of_lt {g : Graph} {n : Node} {id : NodeId}
    (h : id.index < g.size) :
    (g.add n).2.node id = g.node id := by
  unfold size at h
  simp [add, node, Array.getElem?_push_lt h, h]

/-- A new argument list is found in the range it was given. -/
theorem argList_addArgs_self (g : Graph) (ids : List NodeId) :
    (g.addArgs ids).2.argList (g.addArgs ids).1 = ids := by
  simp [addArgs, argList]

end Graph
end ExprTyping
