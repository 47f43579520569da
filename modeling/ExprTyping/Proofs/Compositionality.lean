import ExprTyping.Proofs.Rule
import ExprTyping.Proofs.Visit

/-!
# Composition of results

The errors of an expression are those of its operands, from left to right,
followed by at most one error that the root reports itself.  This own error and
the type of the root depend on nothing but the head of the root, the types of its
operands and what the scope answers.
-/

namespace ExprTyping

/-! ## The own error of a node -/

theorem Site.resolve_eq_or_mem (id : NodeId) (operands : List NodeId) (site : Site) :
    site.resolve id operands = id ∨ site.resolve id operands ∈ operands := by
  cases site with
  | self => exact Or.inl rfl
  | operand position =>
      rw [Site.resolve]
      cases hget : operands[position]? with
      | none => exact Or.inl rfl
      | some child => exact Or.inr (List.mem_of_getElem? hget)

namespace Verdict

/-- The cause of the error that a verdict reports. -/
def cause? : Verdict → Option Cause
  | .failed _ cause => some cause
  | _ => none

theorem map_cause_error? (g : Graph) (id : NodeId) (operands : List NodeId) (verdict : Verdict) :
    (verdict.error? g id operands).map TypeError.cause = verdict.cause? := by
  cases verdict <;> rfl

theorem error?_eq_some_iff
    {g : Graph} {id : NodeId} {operands : List NodeId} {verdict : Verdict} {e : TypeError} :
    verdict.error? g id operands = some e ↔
      ∃ site cause, verdict = .failed site cause ∧
        e = ⟨site.resolve id operands, g.spanOf (site.resolve id operands), cause⟩ := by
  cases verdict with
  | failed site cause => simp [error?, eq_comm]
  | _ => simp [error?]

/-- The error of a verdict is the same in graphs with the same spans. -/
theorem error?_congr
    {g g' : Graph} {id : NodeId} {operands : List NodeId} (verdict : Verdict)
    (hself : g'.spanOf id = g.spanOf id)
    (hoperands : ∀ child ∈ operands, g'.spanOf child = g.spanOf child) :
    verdict.error? g' id operands = verdict.error? g id operands := by
  cases verdict with
  | failed site cause =>
      have hspan : g'.spanOf (site.resolve id operands) = g.spanOf (site.resolve id operands) := by
        rcases Site.resolve_eq_or_mem id operands site with hsite | hsite
        · rw [hsite, hself]
        · exact hoperands _ hsite
      rw [error?, error?, hspan]
  | _ => rfl

end Verdict

/-! ## Graphs that share an expression -/

/-- The second graph has the nodes of the first one, with the same operands. -/
def Graph.ContainedIn (g g' : Graph) : Prop :=
  ∀ id n, g.node id = .ok n → g'.node id = .ok n ∧ g'.operands n.shape = g.operands n.shape

section Contained

variable {g g' : Graph} {root : NodeId}

theorem Graph.containedIn_add (g : Graph) (n : Node) : g.ContainedIn (g.add n).2 := by
  intro id m hm
  rw [node_add_of_lt (index_lt_of_node hm)]
  exact ⟨hm, by cases m.shape <;> rfl⟩

theorem Graph.ContainedIn.wellFormed (hsub : g.ContainedIn g') (h : g.WellFormed root) :
    g'.WellFormed root := by
  refine h.induction ?_
  intro id n hn _ ih
  obtain ⟨hnode, hoperands⟩ := hsub id n hn
  apply WellFormed.of_operands hnode
  rwa [hoperands]

theorem Graph.ContainedIn.spanOf_eq (hsub : g.ContainedIn g') (h : g.WellFormed root) :
    g'.spanOf root = g.spanOf root := by
  obtain ⟨n, hn⟩ := h.exists_node
  rw [spanOf_of_node hn, spanOf_of_node (hsub root n hn).1]

/-- An expression has the same types and errors in every graph that contains it. -/
theorem Graph.ContainedIn.typeAt_errorsAt_eq
    (hsub : g.ContainedIn g') (scope : Scope) (h : g.WellFormed root) :
    typeAt g' scope root = typeAt g scope root ∧ errorsAt g' scope root = errorsAt g scope root := by
  refine h.induction ?_
  intro id n hn hid ih
  obtain ⟨hnode, hoperands⟩ := hsub id n hn
  have htypes : (g.operands n.shape).map (typeAt g' scope) =
      (g.operands n.shape).map (typeAt g scope) :=
    List.map_congr_left fun child hchild => (ih child hchild).1
  have herrors : (g.operands n.shape).map (errorsAt g' scope) =
      (g.operands n.shape).map (errorsAt g scope) :=
    List.map_congr_left fun child hchild => (ih child hchild).2
  have hverdict : verdictAt g' scope n = verdictAt g scope n := by
    rw [verdictAt, hoperands, htypes]
    rfl
  have hown := (verdictAt g scope n).error?_congr (hsub.spanOf_eq hid)
    fun child hchild => hsub.spanOf_eq (hid.operand hn hchild)
  have hwf := hsub.wellFormed hid
  constructor
  · rw [typeAt_of_node hwf hnode, typeAt_of_node hid hn, hverdict]
  · rw [errorsAt_of_node hwf hnode, errorsAt_of_node hid hn, hverdict, hoperands, hown,
      List.flatMap_def, herrors, List.flatMap_def]

end Contained

/-! ## Results of a node and its operands -/

/-- The checks of a node and of its operands succeed, and the errors at the node
are those at its operands followed by its own. -/
structure Composed (g : Graph) (scope : Scope) (id : NodeId) (n : Node)
    (operands : List Checked) (own : Option TypeError) (result : Checked) : Prop where
  node : g.node id = .ok n
  operands_checked : (g.operands n.shape).mapM (check g scope) = .ok operands
  checked : check g scope id = .ok result
  errors : result.errors = operands.flatMap Checked.errors ++ own.toList

/-- A check succeeds on well-formed expressions only. -/
theorem wellFormed_of_check_ok
    {g : Graph} {scope : Scope} {root : NodeId} {result : Checked}
    (h : check g scope root = .ok result) :
    g.WellFormed root := by
  rw [check_eq_inferWithin, Checker.inferWithin_run] at h
  cases hfold : g.foldWithin (Visit.combine g scope) (g.size + 1) root with
  | error fault => simp [hfold, Except.map] at h
  | ok visit => exact Graph.wellFormed_of_fold_ok hfold

theorem mapM_check_operands
    {g : Graph} {scope : Scope} {id : NodeId} {n : Node}
    (h : g.WellFormed id) (hn : g.node id = .ok n) :
    (g.operands n.shape).mapM (check g scope) =
      .ok ((g.operands n.shape).map (checkedAt g scope)) :=
  mapM_eq_ok_map fun _ hchild => check_eq_ok (h.operand hn hchild)

/-- The error that a node reports itself. -/
def ownError? (g : Graph) (scope : Scope) (id : NodeId) : Option TypeError :=
  match g.node id with
  | .ok n => (verdictAt g scope n).error? g id (g.operands n.shape)
  | .error _ => none

theorem ownError?_of_node
    {g : Graph} {scope : Scope} {id : NodeId} {n : Node} (hn : g.node id = .ok n) :
    ownError? g scope id = (verdictAt g scope n).error? g id (g.operands n.shape) := by
  rw [ownError?, hn]

theorem composed_checkedAt
    {g : Graph} (scope : Scope) {id : NodeId} {n : Node}
    (h : g.WellFormed id) (hn : g.node id = .ok n) :
    Composed g scope id n ((g.operands n.shape).map (checkedAt g scope))
      (ownError? g scope id) (checkedAt g scope id) where
  node := hn
  operands_checked := mapM_check_operands h hn
  checked := check_eq_ok h
  errors := by
    rw [List.flatMap_map, ownError?_of_node hn]
    exact errorsAt_of_node h hn

namespace Composed

variable {g : Graph} {scope : Scope} {id : NodeId} {n : Node}
  {operands : List Checked} {own : Option TypeError} {result : Checked}

/-- Everything about a node is determined by its verdict. -/
theorem eq_verdict (h : Composed g scope id n operands own result) :
    result.ty = (n.shape.head.judge scope (operands.map Checked.ty)).ty ∧
      own = (n.shape.head.judge scope (operands.map Checked.ty)).error? g id
        (g.operands n.shape) := by
  have hwf := wellFormed_of_check_ok h.checked
  have hoperands : operands = (g.operands n.shape).map (checkedAt g scope) := by
    have heq := h.operands_checked
    rw [mapM_check_operands hwf h.node] at heq
    exact (Except.ok.inj heq).symm
  have hresult : result = checkedAt g scope id := by
    have heq := h.checked
    rw [check_eq_ok hwf] at heq
    exact (Except.ok.inj heq).symm
  have hverdict : n.shape.head.judge scope (operands.map Checked.ty) = verdictAt g scope n := by
    rw [hoperands, List.map_map]
    rfl
  have hown : own = ownError? g scope id := by
    have herrors := (composed_checkedAt scope hwf h.node).errors
    rw [← hresult, h.errors, ← hoperands, List.append_cancel_left_eq] at herrors
    have hhead := congrArg List.head? herrors
    rwa [Option.head?_toList, Option.head?_toList] at hhead
  rw [hverdict, ← ownError?_of_node h.node]
  refine ⟨?_, hown⟩
  rw [hresult]
  exact typeAt_of_node hwf h.node

/-- The own error of a node leaves it without a type and stands at the node or at
one of its operands. -/
theorem own_error (h : Composed g scope id n operands own result)
    {e : TypeError} (he : e ∈ own) :
    result.ty = .unknown ∧ (e.node = id ∨ e.node ∈ g.operands n.shape) ∧
      e.span = g.spanOf e.node := by
  obtain ⟨hty, hown⟩ := h.eq_verdict
  rw [hown, Option.mem_def, Verdict.error?_eq_some_iff] at he
  obtain ⟨site, cause, hverdict, rfl⟩ := he
  rw [hty, hverdict]
  exact ⟨rfl, Site.resolve_eq_or_mem id _ site, rfl⟩

/-- Nodes of one head with operands of the same types have the same type, and
own errors of the same cause, in all graphs and in all scopes that answer alike. -/
theorem ty_and_cause_eq
    {g' : Graph} {scope' : Scope} {id' : NodeId} {n' : Node}
    {operands' : List Checked} {own' : Option TypeError} {result' : Checked}
    (h : Composed g scope id n operands own result)
    (h' : Composed g' scope' id' n' operands' own' result')
    (hhead : n'.shape.head = n.shape.head)
    (htypes : operands'.map Checked.ty = operands.map Checked.ty)
    (hlookups : scope'.SameLookups scope) :
    result'.ty = result.ty ∧ own'.map TypeError.cause = own.map TypeError.cause := by
  obtain ⟨hty, hown⟩ := h.eq_verdict
  obtain ⟨hty', hown'⟩ := h'.eq_verdict
  have hverdict : n'.shape.head.judge scope' (operands'.map Checked.ty) =
      n.shape.head.judge scope (operands.map Checked.ty) := by
    rw [hhead, htypes, Head.judge_congr hlookups]
  constructor
  · rw [hty, hty', hverdict]
  · rw [hown, hown', hverdict, Verdict.map_cause_error?, Verdict.map_cause_error?]

end Composed

/-- All errors of an expression are own errors of its nodes, in postorder. -/
theorem errorsAt_eq_filterMap_postorder
    {g : Graph} (scope : Scope) {root : NodeId} (h : g.WellFormed root) :
    ∃ order, g.postorder root = .ok order ∧
      errorsAt g scope root = order.filterMap (ownError? g scope) := by
  refine ⟨_, h.fold_eq_ok _, ?_⟩
  refine h.induction ?_
  intro id n hn hid ih
  have hself : [id].filterMap (ownError? g scope) = (ownError? g scope id).toList := by
    cases hown : ownError? g scope id <;> simp [hown]
  rw [errorsAt_of_node hid hn, hid.valueAt_eq hn, List.filterMap_append, hself,
    ownError?_of_node hn, List.filterMap_flatten, List.map_map, List.flatMap_def,
    List.map_congr_left ih]
  rfl

/-- The result of a check is composed of the results at the operands of the root.

The operands come first and from left to right, as often as they are used.  At
most one error of the root follows them; it leaves the root without a type and
stands at the root or at an operand.  Its cause and the type of the root are
determined by the head of the root, the types of its operands and the lookups of
the scope, and what a checker knew before adds nothing and takes nothing away.
Down to the leaves, the errors are the own errors of the nodes in postorder. -/
theorem check_compositional
    (g : Graph) (scope : Scope) (id : NodeId) (h : g.WellFormed id) :
    ∃ n operands own result,
      Composed g scope id n operands own result ∧
      (∀ e ∈ own, result.ty = .unknown ∧
        (e.node = id ∨ e.node ∈ g.operands n.shape) ∧ e.span = g.spanOf e.node) ∧
      (∀ g' scope' id' n' operands' own' result',
        Composed g' scope' id' n' operands' own' result' →
        n'.shape.head = n.shape.head →
        operands'.map Checked.ty = operands.map Checked.ty →
        scope'.SameLookups scope →
        result'.ty = result.ty ∧
          own'.map TypeError.cause = own.map TypeError.cause) ∧
      (∀ before, ∃ after, Checker.infer g scope id before = .ok (result.ty, after) ∧
        after.errors.toList = before.errors.toList ++ result.errors) ∧
      ∃ ownAt order, g.postorder id = .ok order ∧
        result.errors = order.filterMap ownAt ∧
        ∀ k, g.Reaches id k →
          ∃ m below found, Composed g scope k m below (ownAt k) found := by
  obtain ⟨n, hn⟩ := h.exists_node
  have hcomposed := composed_checkedAt scope h hn
  refine ⟨n, _, _, _, hcomposed, fun e he => hcomposed.own_error he, ?_, ?_, ?_⟩
  · intro g' scope' id' n' operands' own' result' h' hhead htypes hlookups
    exact hcomposed.ty_and_cause_eq h' hhead htypes hlookups
  · intro before
    refine ⟨_, infer_eq_ok h before, ?_⟩
    simp [Checker.extend, checkedAt, errorsAt]
  · obtain ⟨order, horder, herrors⟩ := errorsAt_eq_filterMap_postorder scope h
    refine ⟨ownError? g scope, order, horder, herrors, ?_⟩
    intro k hk
    obtain ⟨m, hm⟩ := (h.of_reaches hk).exists_node
    exact ⟨m, _, _, composed_checkedAt scope (h.of_reaches hk) hm⟩

/-- A call of a number with one undeclared variable as both of its arguments. -/
def callOfNumber : Graph where
  nodes := #[⟨.ident ⟨7⟩, ⟨2, 3⟩⟩, ⟨.int 5, ⟨0, 1⟩⟩, ⟨.call ⟨1⟩ ⟨0, 2⟩, ⟨0, 6⟩⟩]
  args := #[⟨0⟩, ⟨0⟩]

theorem callOfNumber_compositional :
    callOfNumber.WellFormed ⟨2⟩ ∧
      ∃ n operands own result,
        Composed callOfNumber Scope.empty ⟨2⟩ n operands own result ∧
        result.errors.map TypeError.node = [⟨0⟩, ⟨0⟩, ⟨1⟩] ∧
        ∀ e ∈ own, result.ty = .unknown ∧
          (e.node = ⟨2⟩ ∨ e.node ∈ callOfNumber.operands n.shape) ∧
          e.span = callOfNumber.spanOf e.node := by
  refine ⟨by decide, ?_⟩
  obtain ⟨n, operands, own, result, h, hown, -⟩ :=
    check_compositional callOfNumber Scope.empty ⟨2⟩ (by decide)
  refine ⟨n, operands, own, result, h, ?_, hown⟩
  have herrors : (check callOfNumber Scope.empty ⟨2⟩).map
      (fun result => result.errors.map TypeError.node) = .ok [⟨0⟩, ⟨0⟩, ⟨1⟩] := by
    decide +kernel
  rw [h.checked] at herrors
  exact Except.ok.inj herrors

end ExprTyping
