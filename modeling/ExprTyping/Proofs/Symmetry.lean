import ExprTyping.Proofs.Compositionality

/-!
# Exchanged operands

A binary operator does not tell its left operand from its right one.  The rule asks only
whether either operand or both of them are of some kind, and it reports errors at the
operator itself, never at one of the two sides.

So the operands of any binary nodes of a graph may be exchanged: every node keeps its type,
and every error keeps its node, span and cause.  What changes is the order of the errors,
since the two sides are checked in the order in which they stand.
-/

namespace ExprTyping

/-! ## The rule for two operands -/

namespace Rule

/-- The verdict on operands of one kind, on which the operator has the given type, if any. -/
def decided (op : BinOp) : Option Ty → Verdict
  | some ty => .typed ty
  | none => .failed .self (.unsupportedOperand op.name)

/-- The rule in order of precedence.  An integer on either side selects the table for
integers, then a truth value on either side the one for truth values.  Only then are
functions, structs and lists considered. -/
def binaryByPrecedence (op : BinOp) (left right : Ty) : Verdict :=
  let either (kind : Ty → Bool) := kind left || kind right
  let both (kind : Ty → Bool) := kind left && kind right
  let mismatched := if either Ty.isUnknown then .suppressed else decided op none
  if either Ty.isInt then
    if both Ty.isInt then decided op op.onInts else mismatched
  else if either Ty.isBool then
    if both Ty.isBool then decided op op.onBools else mismatched
  else if both Ty.isFunc || both Ty.isStruct then
    decided op op.onValues
  else if both Ty.isList then
    decided op op.onLists
  else
    mismatched

theorem binary_eq_binaryByPrecedence (op : BinOp) (left right : Ty) :
    binary op left right = binaryByPrecedence op left right := by
  cases left <;> cases right <;> rfl

/-- All questions in the rule are about either or both operands. -/
theorem binary_comm (op : BinOp) (left right : Ty) :
    binary op left right = binary op right left := by
  rw [binary_eq_binaryByPrecedence, binary_eq_binaryByPrecedence]
  simp only [binaryByPrecedence, Bool.or_comm, Bool.and_comm]

/-- An error of the rule stands at the operator. -/
theorem error?_binary (op : BinOp) (left right : Ty) (g : Graph) (id : NodeId)
    (operands others : List NodeId) :
    (binary op left right).error? g id operands = (binary op left right).error? g id others := by
  unfold binary
  split
  · rfl
  · cases op.result? left right <;> rfl

end Rule

/-! ## Exchanging operands -/

/-- The shape with exchanged operands, if it is that of a binary operator. -/
def Shape.exchange : Shape → Shape
  | .binary op left right => .binary op right left
  | shape => shape

/-- The node with exchanged operands, if it is selected and a binary operator. -/
def Node.exchange (selected : Bool) (n : Node) : Node :=
  if selected then { n with shape := n.shape.exchange } else n

/-- The graph in which the selected binary operators have exchanged operands. -/
def Graph.exchange (selected : NodeId → Bool) (g : Graph) : Graph where
  nodes := g.nodes.mapIdx fun index n => n.exchange (selected ⟨index⟩)
  args := g.args

namespace Node

/-- A node is left as it is, or it is a binary operator and its operands change places. -/
theorem exchange_cases (selected : Bool) (n : Node) :
    n.exchange selected = n ∨
      ∃ op left right, n.shape = .binary op left right ∧
        n.exchange selected = ⟨.binary op right left, n.span⟩ := by
  obtain ⟨shape, span⟩ := n
  cases selected with
  | false => exact Or.inl rfl
  | true =>
      cases shape with
      | binary op left right => exact Or.inr ⟨op, left, right, rfl, rfl⟩
      | _ => exact Or.inl rfl

theorem span_exchange (selected : Bool) (n : Node) : (n.exchange selected).span = n.span := by
  rcases n.exchange_cases selected with hsame | ⟨op, left, right, -, hexchanged⟩
  · rw [hsame]
  · rw [hexchanged]

end Node

namespace Graph

variable {g : Graph} {selected : NodeId → Bool} {id root : NodeId} {n : Node}

theorem node_exchange (hn : g.node id = .ok n) :
    (g.exchange selected).node id = .ok (n.exchange (selected id)) := by
  rw [node_eq_ok_iff] at hn ⊢
  simp [exchange, hn]

theorem spanOf_exchange (id : NodeId) : (g.exchange selected).spanOf id = g.spanOf id := by
  simp only [spanOf, exchange, Array.getElem?_mapIdx, Option.map_map]
  congr 2
  funext n
  exact n.span_exchange _

theorem operands_exchange (selected : NodeId → Bool) (shape : Shape) :
    (g.exchange selected).operands shape = g.operands shape := by
  cases shape <;> rfl

theorem operands_exchange_perm (selected : NodeId → Bool) (b : Bool) (n : Node) :
    ((g.exchange selected).operands (n.exchange b).shape).Perm (g.operands n.shape) := by
  rw [operands_exchange]
  rcases n.exchange_cases b with hsame | ⟨op, left, right, hshape, hexchanged⟩
  · rw [hsame]
  · rw [hexchanged, hshape]
    exact List.Perm.swap left right []

theorem WellFormed.exchange (h : g.WellFormed root) (selected : NodeId → Bool) :
    (g.exchange selected).WellFormed root := by
  refine h.induction ?_
  intro id n hn _ ih
  apply WellFormed.of_operands (node_exchange hn)
  intro child hchild
  exact ih child ((operands_exchange_perm selected _ n).mem_iff.1 hchild)

/-- An exchange of operands does not change what belongs to an expression. -/
theorem WellFormed.reaches_exchange_iff (h : g.WellFormed root) (selected : NodeId → Bool) :
    ∀ id, (g.exchange selected).Reaches root id ↔ g.Reaches root id := by
  refine h.induction ?_
  intro parent n hn _ ih id
  rw [reaches_iff hn, reaches_iff (node_exchange hn)]
  have hperm := g.operands_exchange_perm selected (selected parent) n
  constructor
  · rintro (hself | ⟨child, hchild, hbelow⟩)
    · exact Or.inl hself
    · have hmem := hperm.mem_iff.1 hchild
      exact Or.inr ⟨child, hmem, (ih child hmem id).1 hbelow⟩
  · rintro (hself | ⟨child, hchild, hbelow⟩)
    · exact Or.inl hself
    · exact Or.inr ⟨child, hperm.mem_iff.2 hchild, (ih child hchild id).2 hbelow⟩

end Graph

/-! ## Checking with exchanged operands -/

section Check

variable {g : Graph} {scope : Scope} {selected : NodeId → Bool} {id root : NodeId} {n : Node}

theorem verdictAt_of_binary
    {op : BinOp} {left right : NodeId} (hshape : n.shape = .binary op left right) :
    verdictAt g scope n = Rule.binary op (typeAt g scope left) (typeAt g scope right) := by
  rw [verdictAt, hshape]
  rfl

/-- The rule of a node gives the same verdict after the exchange. -/
theorem verdictAt_exchange
    (htypes : ∀ child ∈ g.operands n.shape,
      typeAt (g.exchange selected) scope child = typeAt g scope child) (b : Bool) :
    verdictAt (g.exchange selected) scope (n.exchange b) = verdictAt g scope n := by
  rcases n.exchange_cases b with hsame | ⟨op, left, right, hshape, hexchanged⟩
  · rw [hsame, verdictAt, verdictAt, Graph.operands_exchange, List.map_congr_left htypes]
  · have hleft := htypes left (by simp [hshape, Graph.operands])
    have hright := htypes right (by simp [hshape, Graph.operands])
    have hswapped : (n.exchange b).shape = .binary op right left := by rw [hexchanged]
    rw [verdictAt_of_binary hswapped, verdictAt_of_binary hshape, hleft, hright, Rule.binary_comm]

/-- The rule of a node reports the same error after the exchange. -/
theorem error?_verdictAt_exchange (b : Bool) :
    (verdictAt g scope n).error? (g.exchange selected) id
        ((g.exchange selected).operands (n.exchange b).shape) =
      (verdictAt g scope n).error? g id (g.operands n.shape) := by
  rw [Graph.operands_exchange, Verdict.error?_congr _ (Graph.spanOf_exchange id)
    fun child _ => Graph.spanOf_exchange child]
  rcases n.exchange_cases b with hsame | ⟨op, left, right, hshape, -⟩
  · rw [hsame]
  · rw [verdictAt_of_binary hshape]
    exact Rule.error?_binary _ _ _ _ _ _ _

/-- Every node keeps its type. -/
theorem typeAt_exchange (h : g.WellFormed root) :
    typeAt (g.exchange selected) scope root = typeAt g scope root := by
  refine h.induction ?_
  intro id n hn hid ih
  rw [typeAt_of_node (hid.exchange selected) (Graph.node_exchange hn), typeAt_of_node hid hn,
    verdictAt_exchange ih]

/-- Every node keeps its errors, though not their order. -/
theorem errorsAt_exchange_perm (h : g.WellFormed root) :
    (errorsAt (g.exchange selected) scope root).Perm (errorsAt g scope root) := by
  refine h.induction ?_
  intro id n hn hid ih
  have hverdict : verdictAt (g.exchange selected) scope (n.exchange (selected id)) =
      verdictAt g scope n :=
    verdictAt_exchange (fun child hchild => typeAt_exchange (hid.operand hn hchild)) _
  have hbelow : (((g.exchange selected).operands (n.exchange (selected id)).shape).flatMap
      (errorsAt (g.exchange selected) scope)).Perm
        ((g.operands n.shape).flatMap (errorsAt g scope)) :=
    ((Graph.operands_exchange_perm selected _ n).flatMap_right _).trans
      (List.Perm.flatMap_left _ ih)
  rw [errorsAt_of_node (hid.exchange selected) (Graph.node_exchange hn), errorsAt_of_node hid hn,
    hverdict, error?_verdictAt_exchange]
  exact hbelow.append_right _

/-- The type table has the same entries. -/
theorem typeOf_checkedAt_exchange (h : g.WellFormed root) (id : NodeId) :
    (checkedAt (g.exchange selected) scope root).typeOf id =
      (checkedAt g scope root).typeOf id := by
  ext ty
  rw [typeOf_checkedAt_iff (h.exchange selected), typeOf_checkedAt_iff h,
    h.reaches_exchange_iff selected]
  refine and_congr_right fun hreach => ?_
  rw [typeAt_exchange (h.of_reaches hreach)]

end Check

/-- Binary operators are symmetric wherever they stand.

In a well-formed expression the operands of any set of binary nodes may be exchanged,
whatever their operators.  The expression can still be checked, its type and the type of
every node are the same, and so are the errors up to their order, each with its node, span
and cause. -/
theorem check_exchanged_operands
    (g : Graph) (scope : Scope) (root : NodeId) (h : g.WellFormed root)
    (selected : NodeId → Bool) :
    ∃ result exchanged, check g scope root = .ok result ∧
      check (g.exchange selected) scope root = .ok exchanged ∧
      exchanged.ty = result.ty ∧
      (∀ id, exchanged.typeOf id = result.typeOf id) ∧
      exchanged.errors.Perm result.errors :=
  ⟨_, _, check_eq_ok h, check_eq_ok (h.exchange selected), typeAt_exchange h,
    typeOf_checkedAt_exchange h, errorsAt_exchange_perm h⟩

/-- The assignment `x - not 5 = 5 / true + x`, in which `x` is not declared.  Both sides share
the nodes for `x` and `5`. -/
def brokenAssignment : Graph where
  nodes :=
    #[⟨.ident ⟨7⟩, ⟨0, 1⟩⟩, ⟨.int 5, ⟨8, 9⟩⟩, ⟨.unary .not ⟨1⟩, ⟨4, 9⟩⟩,
      ⟨.binary .sub ⟨0⟩ ⟨2⟩, ⟨0, 9⟩⟩, ⟨.bool true, ⟨16, 20⟩⟩, ⟨.binary .div ⟨1⟩ ⟨4⟩, ⟨12, 20⟩⟩,
      ⟨.binary .add ⟨5⟩ ⟨0⟩, ⟨12, 24⟩⟩, ⟨.binary .assign ⟨3⟩ ⟨6⟩, ⟨0, 24⟩⟩]
  args := #[]

/-- All binary operators but the sum have exchanged operands. -/
theorem brokenAssignment_exchanged :
    brokenAssignment.WellFormed ⟨7⟩ ∧
      ∃ result exchanged, check brokenAssignment Scope.empty ⟨7⟩ = .ok result ∧
        check (brokenAssignment.exchange (· ≠ ⟨6⟩)) Scope.empty ⟨7⟩ = .ok exchanged ∧
        result.errors.map TypeError.node = [⟨0⟩, ⟨2⟩, ⟨5⟩, ⟨0⟩] ∧
        exchanged.errors.map TypeError.node = [⟨5⟩, ⟨0⟩, ⟨2⟩, ⟨0⟩] ∧
        exchanged.errors.Perm result.errors := by
  have hwf : brokenAssignment.WellFormed ⟨7⟩ := by decide
  obtain ⟨result, exchanged, hcheck, hexchanged, -, -, hperm⟩ :=
    check_exchanged_operands brokenAssignment Scope.empty ⟨7⟩ hwf (· ≠ ⟨6⟩)
  have herrors : (check brokenAssignment Scope.empty ⟨7⟩).map
      (fun result => result.errors.map TypeError.node) = .ok [⟨0⟩, ⟨2⟩, ⟨5⟩, ⟨0⟩] := by
    decide +kernel
  have hothers : (check (brokenAssignment.exchange (· ≠ ⟨6⟩)) Scope.empty ⟨7⟩).map
      (fun result => result.errors.map TypeError.node) = .ok [⟨5⟩, ⟨0⟩, ⟨2⟩, ⟨0⟩] := by
    decide +kernel
  rw [hcheck] at herrors
  rw [hexchanged] at hothers
  exact ⟨hwf, result, exchanged, hcheck, hexchanged, Except.ok.inj herrors,
    Except.ok.inj hothers, hperm⟩

end ExprTyping
