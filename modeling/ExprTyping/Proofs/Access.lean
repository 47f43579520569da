import ExprTyping.Proofs.Walk

/-!
# Access to the graph

A check reads three things from a graph: nodes, argument lists, and the spans of
the nodes at which errors stand.  Only the first of these can go wrong.  In a graph
that was built step by step every range of arguments lies in the argument table,
and an error stands at a node that has been visited.  So a check that looks at every
access (`checkByAccess`) fails exactly as `check` does.

Whether a check fails, and how, is decided by the walk through the expression: the
first number without a node is the index of the fault, whatever the scope.
-/

namespace ExprTyping

/-! ## Graphs built step by step -/

namespace Graph

/-- A graph made by adding nodes and argument lists one after the other, with the
ranges that its calls may hold: the empty one and those given out for the lists. -/
inductive Built : Graph → List ArgRange → Prop where
  | empty : Built Graph.empty [ArgRange.empty]
  | add {g : Graph} {ranges : List ArgRange} (hg : Built g ranges) (n : Node)
      (hargs : ∀ callee args, n.shape = .call callee args → args ∈ ranges) :
      Built (g.add n).2 ranges
  | addArgs {g : Graph} {ranges : List ArgRange} (hg : Built g ranges) (ids : List NodeId) :
      Built (g.addArgs ids).2 ((g.addArgs ids).1 :: ranges)

/-- A range lies in the argument table. -/
def InTable (g : Graph) (range : ArgRange) : Prop :=
  range.start ≤ range.stop ∧ range.stop ≤ g.args.size

instance (g : Graph) (range : ArgRange) : Decidable (g.InTable range) :=
  inferInstanceAs (Decidable (_ ∧ _))

theorem InTable.addArgs
    {g : Graph} {range : ArgRange} {ids : List NodeId} (h : g.InTable range) :
    (g.addArgs ids).2.InTable range := by
  obtain ⟨hle, hsize⟩ := h
  refine ⟨hle, ?_⟩
  simp only [Graph.addArgs, Array.size_append]
  omega

theorem inTable_addArgs_self (g : Graph) (ids : List NodeId) :
    (g.addArgs ids).2.InTable (g.addArgs ids).1 := by
  simp [Graph.addArgs, InTable]

/-- All ranges that calls may hold lie in the table. -/
theorem Built.inTable
    {g : Graph} {ranges : List ArgRange} (h : g.Built ranges) :
    ∀ range ∈ ranges, g.InTable range := by
  induction h with
  | empty => decide
  | add _ _ _ ih => exact ih
  | addArgs _ ids ih =>
      intro range hmem
      rcases List.mem_cons.1 hmem with rfl | hold
      · exact inTable_addArgs_self _ _
      · exact (ih range hold).addArgs

theorem Built.args_mem
    {g : Graph} {ranges : List ArgRange} (h : g.Built ranges)
    {id callee : NodeId} {args : ArgRange} {span : Span}
    (hnode : g.node id = .ok ⟨.call callee args, span⟩) :
    args ∈ ranges := by
  induction h with
  | empty => simp [Graph.node, Graph.empty] at hnode
  | @add g ranges _ n hargs ih =>
      by_cases hold : id.index < g.size
      · rw [node_add_of_lt hold] at hnode
        exact ih hnode
      · have hnew : (g.add n).1 = id := by
          have hlt := index_lt_of_node hnode
          rw [size_add] at hlt
          have hindex : g.size = id.index := by omega
          exact congrArg NodeId.mk hindex
        rw [← hnew, node_add_self] at hnode
        exact hargs callee args (congrArg Node.shape (Except.ok.inj hnode))
  | addArgs _ _ ih => exact List.mem_cons_of_mem _ (ih hnode)

end Graph

/-! ## The walk decides the outcome -/

namespace Graph

variable {g : Graph} {α β : Type}

/-- The first number of a walk that has no node. -/
def firstMissing? (g : Graph) (order : List NodeId) : Option NodeId :=
  order.find? fun id => g.size ≤ id.index

/-- A computation along a walk fails at the first number without a node, and succeeds
if there is none. -/
def Decides (g : Graph) (order : List NodeId) (outcome : Except Fault α) : Prop :=
  match g.firstMissing? order with
  | some k => outcome = .error (.outOfRange g.size k.index)
  | none => ∃ a, outcome = .ok a

theorem firstMissing?_eq_none_iff {order : List NodeId} :
    g.firstMissing? order = none ↔ ∀ id ∈ order, id.index < g.size := by
  simp [firstMissing?]

namespace Decides

variable {first second order : List NodeId} {outcome : Except Fault α}

theorem ok_nil (a : α) : g.Decides [] (.ok a : Except Fault α) :=
  ⟨a, rfl⟩

theorem map (h : g.Decides order outcome) (f : α → β) : g.Decides order (outcome.map f) := by
  unfold Decides at h ⊢
  cases hfirst : g.firstMissing? order with
  | none =>
      rw [hfirst] at h
      obtain ⟨a, rfl⟩ := h
      exact ⟨f a, rfl⟩
  | some k =>
      rw [hfirst] at h
      rw [h]
      rfl

/-- Computations one after the other follow the walks one after the other. -/
theorem bind
    {next : α → Except Fault β} (h : g.Decides first outcome)
    (hnext : ∀ a, outcome = .ok a → g.Decides second (next a)) :
    g.Decides (first ++ second) (outcome >>= next) := by
  have happend : g.firstMissing? (first ++ second) =
      (g.firstMissing? first).or (g.firstMissing? second) := List.find?_append
  unfold Decides at h
  cases hfirst : g.firstMissing? first with
  | none =>
      rw [hfirst] at h
      obtain ⟨a, rfl⟩ := h
      have hrest := hnext a rfl
      unfold Decides at hrest ⊢
      rw [happend, hfirst, Option.none_or]
      exact hrest
  | some k =>
      rw [hfirst] at h
      unfold Decides
      rw [happend, hfirst, Option.some_or, h]
      rfl

theorem mapM
    {f : NodeId → Except Fault α} {walk : NodeId → List NodeId} {ids : List NodeId}
    (h : ∀ id ∈ ids, g.Decides (walk id) (f id)) :
    g.Decides (ids.flatMap walk) (ids.mapM f) := by
  induction ids with
  | nil => exact ok_nil []
  | cons id ids ih =>
      rw [List.flatMap_cons, List.mapM_cons]
      apply bind (h id (by simp))
      intro a _
      have hrest := ih fun later hlater => h later (by simp [hlater])
      have hconsed := hrest.bind fun as _ => ok_nil (a :: as)
      rw [List.append_nil] at hconsed
      exact hconsed

theorem error_iff (h : g.Decides order outcome) (fault : Fault) :
    outcome = .error fault ↔
      ∃ k, g.firstMissing? order = some k ∧ fault = .outOfRange g.size k.index := by
  unfold Decides at h
  cases hfirst : g.firstMissing? order with
  | none =>
      rw [hfirst] at h
      obtain ⟨a, rfl⟩ := h
      simp
  | some k =>
      rw [hfirst] at h
      simp [h, eq_comm]

theorem ok_iff (h : g.Decides order outcome) :
    (∃ a, outcome = .ok a) ↔ ∀ id ∈ order, id.index < g.size := by
  rw [← firstMissing?_eq_none_iff]
  unfold Decides at h
  cases hfirst : g.firstMissing? order with
  | none =>
      rw [hfirst] at h
      simpa using h
  | some k =>
      rw [hfirst] at h
      simp [h]

end Decides

/-- The walk from a node, provided that no path below it has more than `depth`
nodes. -/
def walkWithin (g : Graph) : Nat → NodeId → List NodeId
  | 0, _ => []
  | depth + 1, id =>
    match g.node id with
    | .ok n => id :: (g.operands n.shape).flatMap (g.walkWithin depth)
    | .error _ => [id]

theorem walkWithin_of_node
    {depth : Nat} {id : NodeId} {n : Node} (hn : g.node id = .ok n) :
    g.walkWithin (depth + 1) id = id :: (g.operands n.shape).flatMap (g.walkWithin depth) := by
  rw [walkWithin, hn]

theorem walkWithin_of_error
    {depth : Nat} {id : NodeId} {fault : Fault} (hn : g.node id = .error fault) :
    g.walkWithin (depth + 1) id = [id] := by
  rw [walkWithin, hn]

/-- There is exactly one walk from a node of bounded depth. -/
theorem Within.walk_iff
    {depth : Nat} {id : NodeId} (h : g.Within depth id) (order : List NodeId) :
    g.Walk id order ↔ order = g.walkWithin depth id := by
  induction depth generalizing id order with
  | zero => exact h.elim
  | succ depth ih =>
      cases hn : g.node id with
      | error fault =>
          obtain ⟨hid, -⟩ := node_eq_error_iff.1 hn
          rw [Walk.iff_of_missing hid, walkWithin_of_error hn]
      | ok n =>
          have hbelow : ∀ child ∈ g.operands n.shape, ∀ order,
              g.Walk child order ↔ order = g.walkWithin depth child := by
            intro child hchild
            exact ih (h child ((hasOperand_iff hn).2 hchild))
          rw [Walk.iff_of_node hn, walkWithin_of_node hn, List.flatMap_def]
          simp only [forall₂_iff_eq_map hbelow, exists_eq_left]

/-- A fold fails exactly where the walk leaves the graph. -/
theorem decides_foldWithin
    {f : NodeId → Node → List β → β} {depth : Nat} {id : NodeId} (h : g.Within depth id) :
    g.Decides (g.walkWithin depth id) (g.foldWithin f depth id) := by
  induction depth generalizing id with
  | zero => exact h.elim
  | succ depth ih =>
      cases hn : g.node id with
      | error fault =>
          obtain ⟨hid, rfl⟩ := node_eq_error_iff.1 hn
          rw [walkWithin_of_error hn, foldWithin_of_error hn]
          simp [Decides, firstMissing?, hid]
      | ok n =>
          have hbelow : ∀ child ∈ g.operands n.shape,
              g.Decides (g.walkWithin depth child) (g.foldWithin f depth child) := by
            intro child hchild
            exact ih (h child ((hasOperand_iff hn).2 hchild))
          have hself : g.firstMissing? (id :: (g.operands n.shape).flatMap (g.walkWithin depth)) =
              g.firstMissing? ((g.operands n.shape).flatMap (g.walkWithin depth)) := by
            have hlt := index_lt_of_node hn
            simp [firstMissing?, hlt]
          rw [walkWithin_of_node hn, foldWithin_of_node hn, Decides, hself]
          exact (Decides.mapM hbelow).map (f id n)

end Graph

theorem decides_check
    {g : Graph} {scope : Scope} {root : NodeId} (h : g.Acyclic root) :
    g.Decides (g.walkWithin (g.size + 1) root) (check g scope root) := by
  rw [check_eq_inferWithin, Checker.inferWithin_run]
  exact ((Graph.decides_foldWithin h.within).map _).map _

/-! ## Checking access by access -/

namespace Graph

/-- The entries of a range, which has to lie in the argument table. -/
def argList? (g : Graph) (range : ArgRange) : Option (List NodeId) :=
  if g.InTable range then some (g.argList range) else none

/-- The span of a node, which has to exist. -/
def span? (g : Graph) (id : NodeId) : Option Span :=
  g.nodes[id.index]?.map Node.span

theorem span?_of_node
    {g : Graph} {id : NodeId} {n : Node} (hn : g.node id = .ok n) :
    g.span? id = some (g.spanOf id) := by
  rw [span?, node_eq_ok_iff.1 hn, spanOf_of_node hn]
  rfl

end Graph

/-- The error that a verdict on the node `id` reports, with a span that has to be
read from the graph. -/
def Verdict.report? (g : Graph) (id : NodeId) (operands : List NodeId) :
    Verdict → Option (Option TypeError)
  | .failed site cause => do
    let node := site.resolve id operands
    let span ← g.span? node
    return some { node, span, cause }
  | _ => some none

/-- Reporting an error at a node or at one of its operands never fails. -/
theorem Verdict.report?_eq_some
    {g : Graph} {id : NodeId} {operands : List NodeId}
    (hid : ∃ n, g.node id = .ok n) (hoperands : ∀ child ∈ operands, ∃ n, g.node child = .ok n)
    (verdict : Verdict) :
    verdict.report? g id operands = some (verdict.error? g id operands) := by
  cases verdict with
  | failed site cause =>
      have hsite : ∃ n, g.node (site.resolve id operands) = .ok n := by
        rcases site.resolve_eq_or_mem id operands with hself | hmem
        · rw [hself]
          exact hid
        · exact hoperands _ hmem
      obtain ⟨n, hn⟩ := hsite
      rw [Verdict.report?, Graph.span?_of_node hn]
      rfl
  | _ => rfl

namespace Checker

/-- Inference in which accesses other than those to nodes may fail as well: then
there is no outcome at all. -/
abbrev Accessing (α : Type) : Type :=
  StateT Checker (ExceptT Fault Option) α

/-- The types of the operands of a shape.  The arguments of a call are read after
the visit of its callee. -/
def visitOperands (g : Graph) (visit : NodeId → Accessing Ty) : Shape → Accessing (List Ty)
  | .call callee args => do
    let ty ← visit callee
    let ids ← g.argList? args
    let types ← ids.mapM visit
    return ty :: types
  | shape => (g.operands shape).mapM visit

/-- Infers the type of a node like `inferWithin`, access by access. -/
def inferByAccess (g : Graph) (scope : Scope) : Nat → NodeId → Accessing Ty
  | 0, _ => throw .cyclic
  | depth + 1, id => do
    let node ← g.node id
    modify (·.enter id)
    let types ← visitOperands g (inferByAccess g scope depth) node.shape
    let verdict := node.shape.head.judge scope types
    -- The span of an error is read before anything is recorded.
    let _ ← verdict.report? g id (g.operands node.shape)
    modify (·.settle g id (g.operands node.shape) verdict)
    return verdict.ty

/-- From this checker on, no access of the first computation fails except to nodes,
and it does what the second one does. -/
def AgreesAt {α : Type} (checker : Checker) (x : Accessing α) (y : Inference α) : Prop :=
  (x.run checker).run = some (y.run checker)

namespace AgreesAt

variable {α β : Type} {checker : Checker} {x : Accessing α} {y : Inference α}

theorem bind
    {f : α → Accessing β} {f' : α → Inference β} (h : AgreesAt checker x y)
    (hnext : ∀ a after, y.run checker = .ok (a, after) → AgreesAt after (f a) (f' a)) :
    AgreesAt checker (x >>= f) (y >>= f') := by
  rw [AgreesAt, StateT.run_bind, StateT.run_bind, ExceptT.run_bind, h]
  cases hy : y.run checker with
  | error fault => rfl
  | ok found => exact hnext found.1 found.2 hy

theorem mapM
    {f : NodeId → Accessing α} {f' : NodeId → Inference α}
    (h : ∀ id checker, AgreesAt checker (f id) (f' id)) (ids : List NodeId) (checker : Checker) :
    AgreesAt checker (ids.mapM f) (ids.mapM f') := by
  induction ids generalizing checker with
  | nil => rfl
  | cons id ids ih =>
      rw [List.mapM_cons, List.mapM_cons]
      refine (h id checker).bind ?_
      intro a after _
      refine (ih after).bind ?_
      intro as last _
      rfl

end AgreesAt

/-- Where all ranges lie in the table, the operands are visited as listed. -/
theorem visitOperands_eq_mapM
    {g : Graph} {shape : Shape} (visit : NodeId → Accessing Ty)
    (hargs : ∀ callee args, shape = .call callee args → g.InTable args) :
    visitOperands g visit shape = (g.operands shape).mapM visit := by
  cases shape with
  | call callee args =>
      rw [visitOperands, Graph.operands, Graph.argList?, if_pos (hargs callee args rfl),
        List.mapM_cons]
      rfl
  | _ => rfl

/-- A node that has been visited exists. -/
theorem exists_node_of_mapM_run
    {g : Graph} {scope : Scope} {depth : Nat} {ids : List NodeId} {before after : Checker}
    {types : List Ty}
    (h : (ids.mapM (inferWithin g scope depth)).run before = .ok (types, after)) :
    ∀ id ∈ ids, ∃ n, g.node id = .ok n := by
  intro id hid
  rw [mapM_inferWithin_run (inferWithin_run g scope depth)] at h
  cases hfold : ids.mapM (g.foldWithin (Visit.combine g scope) depth) with
  | error fault => simp [hfold, Except.map] at h
  | ok visits =>
      obtain ⟨visit, hvisit⟩ := exists_ok_of_mapM hfold hid
      exact Graph.exists_node_of_foldWithin_ok hvisit

/-- In a graph whose ranges lie in the table, only accesses to nodes can fail. -/
theorem agreesAt_inferByAccess
    {g : Graph} (scope : Scope)
    (hargs : ∀ id callee args span, g.node id = .ok ⟨.call callee args, span⟩ → g.InTable args)
    (depth : Nat) (id : NodeId) (checker : Checker) :
    AgreesAt checker (inferByAccess g scope depth id) (inferWithin g scope depth id) := by
  induction depth generalizing id checker with
  | zero => rfl
  | succ depth ih =>
      cases hn : g.node id with
      | error fault =>
          rw [inferByAccess, inferWithin, hn]
          rfl
      | ok n =>
          have hvisits : AgreesAt (checker.enter id)
              (visitOperands g (inferByAccess g scope depth) n.shape)
              ((g.operands n.shape).mapM (inferWithin g scope depth)) := by
            rw [visitOperands_eq_mapM]
            · exact AgreesAt.mapM ih _ _
            · intro callee args hshape
              apply hargs id callee args n.span
              rw [hn, ← hshape]
          rw [inferByAccess, inferWithin, hn]
          refine AgreesAt.bind rfl ?_
          rintro _ _ ⟨⟩
          refine AgreesAt.bind rfl ?_
          rintro _ _ ⟨⟩
          refine hvisits.bind ?_
          intro types after hrun
          have hreport := Verdict.report?_eq_some ⟨n, hn⟩ (exists_node_of_mapM_run hrun)
          dsimp only
          rw [hreport]
          rfl

end Checker

/-- Checks the expression at a node, access by access. -/
def checkByAccess (g : Graph) (scope : Scope) (root : NodeId) : Option (Except Fault Checked) :=
  ((Checker.inferByAccess g scope (g.size + 1) root).run
    ((Checker.start g).record (.checking root))).run.map
      fun outcome => outcome.map fun (ty, checker) => checker.finish ty

theorem checkByAccess_eq_some
    {g : Graph} {ranges : List ArgRange} (h : g.Built ranges) (scope : Scope) (root : NodeId) :
    checkByAccess g scope root = some (check g scope root) := by
  have hargs : ∀ id callee args span,
      g.node id = .ok ⟨.call callee args, span⟩ → g.InTable args := by
    intro id callee args span hnode
    exact h.inTable args (h.args_mem hnode)
  rw [checkByAccess, check_eq_inferWithin, Checker.agreesAt_inferByAccess scope hargs]
  rfl

/-- A missing node is the only way in which a check can fail, and the first one of
the walk decides how.

Take a graph that was built step by step and an expression in it without cycles,
whose operands may lie outside the graph.  There is one walk through the expression.
The check fails if and only if the walk meets a number without a node, and the fault
names the first such number and the size of the graph; otherwise there is a result.
Looking at every access to the graph, those for the spans of errors included, changes
nothing. -/
theorem check_eq_error_iff_missing
    (g : Graph) (ranges : List ArgRange) (scope : Scope) (root : NodeId)
    (hbuilt : g.Built ranges) (hacyclic : g.Acyclic root) :
    ∃ order, (∀ other, g.Walk root other ↔ other = order) ∧
      (∀ fault, check g scope root = .error fault ↔
        ∃ k, order.find? (fun id => g.size ≤ id.index) = some k ∧
          fault = .outOfRange g.size k.index) ∧
      ((∃ result, check g scope root = .ok result) ↔ ∀ id ∈ order, id.index < g.size) ∧
      checkByAccess g scope root = some (check g scope root) := by
  have hdecides : g.Decides _ (check g scope root) := decides_check hacyclic
  exact ⟨g.walkWithin (g.size + 1) root, hacyclic.within.walk_iff, hdecides.error_iff,
    hdecides.ok_iff, checkByAccess_eq_some hbuilt scope root⟩

/-- A call of an undeclared function.  The first argument is an error, and the other
two lie outside the graph. -/
def strayArguments : Graph where
  nodes :=
    #[⟨.ident ⟨7⟩, ⟨0, 1⟩⟩, ⟨.bool true, ⟨3, 7⟩⟩, ⟨.unary .minus ⟨1⟩, ⟨2, 7⟩⟩,
      ⟨.call ⟨0⟩ ⟨0, 3⟩, ⟨0, 13⟩⟩]
  args := #[⟨2⟩, ⟨9⟩, ⟨4⟩]

theorem strayArguments_built : strayArguments.Built [⟨0, 3⟩, ArgRange.empty] :=
  Graph.Built.empty
    |>.add ⟨.ident ⟨7⟩, ⟨0, 1⟩⟩ nofun
    |>.add ⟨.bool true, ⟨3, 7⟩⟩ nofun
    |>.add ⟨.unary .minus ⟨1⟩, ⟨2, 7⟩⟩ nofun
    |>.addArgs [⟨2⟩, ⟨9⟩, ⟨4⟩]
    |>.add ⟨.call ⟨0⟩ ⟨0, 3⟩, ⟨0, 13⟩⟩ (by rintro _ _ ⟨⟩; decide)

theorem strayArguments_fails_at_first :
    strayArguments.Built [⟨0, 3⟩, ArgRange.empty] ∧ strayArguments.Acyclic ⟨3⟩ ∧
      strayArguments.Walk ⟨3⟩ [⟨3⟩, ⟨0⟩, ⟨2⟩, ⟨1⟩, ⟨9⟩, ⟨4⟩] ∧
      check strayArguments Scope.empty ⟨3⟩ = .error (.outOfRange 4 9) ∧
      checkByAccess strayArguments Scope.empty ⟨3⟩ = some (.error (.outOfRange 4 9)) := by
  have hacyclic : strayArguments.Acyclic ⟨3⟩ := by decide
  have hwalk : strayArguments.Walk ⟨3⟩ [⟨3⟩, ⟨0⟩, ⟨2⟩, ⟨1⟩, ⟨9⟩, ⟨4⟩] :=
    (hacyclic.within.walk_iff _).2 (by decide)
  obtain ⟨order, hunique, herror, -, haccess⟩ :=
    check_eq_error_iff_missing strayArguments _ Scope.empty ⟨3⟩ strayArguments_built hacyclic
  obtain rfl := (hunique _).1 hwalk
  have hcheck : check strayArguments Scope.empty ⟨3⟩ = .error (.outOfRange 4 9) :=
    (herror _).2 ⟨⟨9⟩, by decide, rfl⟩
  rw [hcheck] at haccess
  exact ⟨strayArguments_built, hacyclic, hwalk, hcheck, haccess⟩

end ExprTyping
