import ExprTyping.Checker
import ExprTyping.Proofs.Reachability

/-!
# Termination of inference

Inference calls itself for every operand of a node.  `Checker.Infers` describes these
calls without any bound on their depth and records how deep they were nested.  It is
inductive, so inference that runs into a cycle has no outcome.

On an expression without cycles inference comes to an end.  The calls that are nested
in each other are those for the nodes of a path, so there are at most one more than
the graph has nodes, and `inferWithin` finds out the same for every bound that is
large enough.  A smaller bound is always noticed.
-/

namespace ExprTyping
namespace Checker

/-- Inference for the nodes of a list, from left to right and without a bound on its
depth.  The number is the depth to which visits were nested, and the first fault ends
all of them. -/
inductive Infers (g : Graph) (scope : Scope) :
    List NodeId → Checker → Nat → Except Fault (List Ty × Checker) → Prop where
  | nil {checker : Checker} : Infers g scope [] checker 0 (.ok ([], checker))
  | missing {id : NodeId} {ids : List NodeId} {checker : Checker} {fault : Fault}
      (hnode : g.node id = .error fault) :
      Infers g scope (id :: ids) checker 1 (.error fault)
  | stop {id : NodeId} {ids : List NodeId} {n : Node} {checker : Checker} {depth : Nat}
      {fault : Fault}
      (hnode : g.node id = .ok n)
      (hbelow : Infers g scope (g.operands n.shape) (checker.enter id) depth (.error fault)) :
      Infers g scope (id :: ids) checker (depth + 1) (.error fault)
  | settle {id : NodeId} {ids : List NodeId} {n : Node} {checker between : Checker}
      {depth later : Nat} {types : List Ty} {verdict : Verdict}
      {outcome : Except Fault (List Ty × Checker)}
      (hnode : g.node id = .ok n)
      (hbelow : Infers g scope (g.operands n.shape) (checker.enter id) depth
        (.ok (types, between)))
      (hverdict : n.shape.head.judge scope types = verdict)
      (hrest : Infers g scope ids (between.settle g id (g.operands n.shape) verdict) later
        outcome) :
      Infers g scope (id :: ids) checker (max (depth + 1) later)
        (outcome.map fun (rest, after) => (verdict.ty :: rest, after))

section Bounded

variable {g : Graph} {scope : Scope} {id : NodeId} {n : Node} {ids : List NodeId}
  {checker : Checker} {depth : Nat}

theorem inferWithin_run_of_error
    {fault : Fault} (hn : g.node id = .error fault) (fuel : Nat) :
    (inferWithin g scope (fuel + 1) id).run checker = .error fault := by
  rw [inferWithin, hn]
  rfl

/-- A visit with a bound visits the operands with the next smaller bound. -/
theorem inferWithin_run_of_node (hn : g.node id = .ok n) (fuel : Nat) :
    (inferWithin g scope (fuel + 1) id).run checker =
      (((g.operands n.shape).mapM (inferWithin g scope fuel)).run (checker.enter id)).map
        fun (types, between) =>
          ((n.shape.head.judge scope types).ty,
            between.settle g id (g.operands n.shape) (n.shape.head.judge scope types)) := by
  rw [inferWithin, hn]
  change (((g.operands n.shape).mapM (inferWithin g scope fuel)).run (checker.enter id)
    >>= _) = _
  cases ((g.operands n.shape).mapM (inferWithin g scope fuel)).run (checker.enter id) with
  | error fault => rfl
  | ok found => rfl

theorem mapM_cons_run (f : NodeId → Inference Ty) :
    ((id :: ids).mapM f).run checker =
      (f id).run checker >>= fun (ty, between) =>
        ((ids.mapM f).run between).map fun (rest, after) => (ty :: rest, after) := by
  rw [List.mapM_cons, StateT.run_bind]
  rfl

/-- A bound below the depth of the visits is noticed, and any other one does not
matter. -/
theorem Infers.mapM_inferWithin_run
    {outcome : Except Fault (List Ty × Checker)}
    (h : Infers g scope ids checker depth outcome) (fuel : Nat) :
    (ids.mapM (inferWithin g scope fuel)).run checker =
      if fuel < depth then .error .cyclic else outcome := by
  induction h generalizing fuel with
  | nil => rfl
  | missing hnode =>
      rw [mapM_cons_run]
      cases fuel with
      | zero => rfl
      | succ fuel =>
          rw [inferWithin_run_of_error hnode, if_neg (by omega)]
          rfl
  | @stop id ids n checker depth fault hnode _ ih =>
      rw [mapM_cons_run]
      cases fuel with
      | zero => rfl
      | succ fuel =>
          rw [inferWithin_run_of_node hnode, ih fuel]
          by_cases hlt : fuel < depth
          · rw [if_pos hlt, if_pos (by omega)]
            rfl
          · rw [if_neg hlt, if_neg (by omega)]
            rfl
  | @settle id ids n checker between depth later types verdict outcome hnode _ hverdict _ ih
      ihrest =>
      rw [mapM_cons_run]
      cases fuel with
      | zero =>
          rw [if_pos (by omega)]
          rfl
      | succ fuel =>
          rw [inferWithin_run_of_node hnode, ih fuel]
          by_cases hlt : fuel < depth
          · rw [if_pos hlt, if_pos (by omega)]
            rfl
          · rw [if_neg hlt]
            change (((ids.mapM (inferWithin g scope (fuel + 1))).run
              (between.settle g id (g.operands n.shape) (n.shape.head.judge scope types))).map _) = _
            rw [hverdict, ihrest (fuel + 1)]
            by_cases hlater : fuel + 1 < later
            · rw [if_pos hlater, if_pos (by omega)]
              rfl
            · rw [if_neg hlater, if_neg (by omega)]

end Bounded

/-! ## Inference comes to an end -/

section Termination

variable {g : Graph} {scope : Scope} {ids : List NodeId} {checker : Checker} {depth : Nat}

/-- Where all paths are bounded, inference has an outcome. -/
theorem exists_infers
    (hwithin : ∀ id ∈ ids, g.Within depth id) (checker : Checker) :
    ∃ nested ≤ depth, ∃ outcome, Infers g scope ids checker nested outcome := by
  -- The outer induction is on the depth, the inner one goes along the list.
  induction depth generalizing ids checker with
  | zero =>
      cases ids with
      | nil => exact ⟨0, Nat.le_refl 0, _, .nil⟩
      | cons id ids => exact (hwithin id (by simp)).elim
  | succ depth ihdepth =>
      induction ids generalizing checker with
      | nil => exact ⟨0, Nat.zero_le _, _, .nil⟩
      | cons id ids ih =>
          cases hn : g.node id with
          | error fault => exact ⟨1, by omega, _, .missing hn⟩
          | ok n =>
              have hoperands : ∀ child ∈ g.operands n.shape, g.Within depth child := by
                intro child hchild
                exact hwithin id (by simp) child ((Graph.hasOperand_iff hn).2 hchild)
              obtain ⟨nested, hnested, outcome, hbelow⟩ := ihdepth hoperands (checker.enter id)
              cases outcome with
              | error fault => exact ⟨nested + 1, by omega, _, .stop hn hbelow⟩
              | ok found =>
                  obtain ⟨types, between⟩ := found
                  obtain ⟨later, hlater, outcome, hrest⟩ :=
                    ih (fun id hid => hwithin id (by simp [hid]))
                      (between.settle g id (g.operands n.shape) (n.shape.head.judge scope types))
                  exact ⟨max (nested + 1) later, by omega, _, .settle hn hbelow rfl hrest⟩

/-- An outcome of inference is never that a bound was too small. -/
theorem Infers.ne_cyclic
    {outcome : Except Fault (List Ty × Checker)}
    (h : Infers g scope ids checker depth outcome) :
    outcome ≠ .error .cyclic := by
  induction h with
  | nil => exact nofun
  | missing hnode =>
      obtain ⟨-, rfl⟩ := Graph.node_eq_error_iff.1 hnode
      exact nofun
  | stop _ _ ih => simpa using ih
  | @settle _ _ _ _ _ _ _ _ _ outcome _ _ _ _ _ ih =>
      cases outcome with
      | error fault => exact ih
      | ok rest => exact nofun

/-- Inference has one outcome only, and its visits are nested to one depth only. -/
theorem Infers.unique
    {depth' : Nat} {outcome outcome' : Except Fault (List Ty × Checker)}
    (h : Infers g scope ids checker depth outcome)
    (h' : Infers g scope ids checker depth' outcome') :
    depth' = depth ∧ outcome' = outcome := by
  have hsame : ∀ fuel, (if fuel < depth' then .error .cyclic else outcome') =
      if fuel < depth then .error .cyclic else outcome := fun fuel =>
    (h'.mapM_inferWithin_run fuel).symm.trans (h.mapM_inferWithin_run fuel)
  have hdepth : depth' = depth := by
    rcases Nat.lt_trichotomy depth' depth with hlt | heq | hlt
    · have hcyclic := hsame depth'
      rw [if_neg (Nat.lt_irrefl _), if_pos hlt] at hcyclic
      exact absurd hcyclic h'.ne_cyclic
    · exact heq
    · have hcyclic := hsame depth
      rw [if_neg (Nat.lt_irrefl _), if_pos hlt] at hcyclic
      exact absurd hcyclic.symm h.ne_cyclic
  have houtcome := hsame depth
  rw [hdepth, if_neg (Nat.lt_irrefl _), if_neg (Nat.lt_irrefl _)] at houtcome
  exact ⟨hdepth, houtcome⟩

end Termination

/-! ## Inference for one node -/

/-- The outcome for one node as the outcome for a list of nodes. -/
def single (outcome : Except Fault (Ty × Checker)) : Except Fault (List Ty × Checker) :=
  outcome.map fun (ty, after) => ([ty], after)

theorem single_injective : Function.Injective single := by
  intro a b h
  cases a <;> cases b <;> simp_all [single, Except.map, Prod.ext_iff]

theorem mapM_singleton_run (f : NodeId → Inference Ty) (id : NodeId) (checker : Checker) :
    ([id].mapM f).run checker = single ((f id).run checker) := by
  rw [mapM_cons_run]
  cases (f id).run checker with
  | error fault => rfl
  | ok found => rfl

/-- Inference for one node, without a bound on its depth. -/
def InfersNode (g : Graph) (scope : Scope) (id : NodeId) (checker : Checker) (depth : Nat)
    (outcome : Except Fault (Ty × Checker)) : Prop :=
  Infers g scope [id] checker depth (single outcome)

variable {g : Graph} {scope : Scope} {root : NodeId} {checker : Checker}

theorem InfersNode.inferWithin_run
    {depth : Nat} {outcome : Except Fault (Ty × Checker)}
    (h : InfersNode g scope root checker depth outcome) (fuel : Nat) :
    (inferWithin g scope fuel root).run checker =
      if fuel < depth then .error .cyclic else outcome := by
  apply single_injective
  rw [← mapM_singleton_run, h.mapM_inferWithin_run fuel, apply_ite single]
  rfl

theorem exists_infersNode (h : g.Acyclic root) (scope : Scope) (checker : Checker) :
    ∃ depth ≤ g.size + 1, ∃ outcome, InfersNode g scope root checker depth outcome := by
  have hwithin : ∀ id ∈ [root], g.Within (g.size + 1) id := by
    intro id hid
    rw [List.mem_singleton.1 hid]
    exact h.within
  obtain ⟨depth, hle, outcome, hinfers⟩ := exists_infers hwithin checker
  refine ⟨depth, hle, (inferWithin g scope depth root).run checker, ?_⟩
  rw [InfersNode, ← mapM_singleton_run, hinfers.mapM_inferWithin_run depth,
    if_neg (Nat.lt_irrefl depth)]
  exact hinfers

end Checker

/-- Inference terminates on every expression without cycles, whose operands may come
in any order, be shared or lie outside the graph.

It has exactly one outcome, and its visits are nested to exactly one depth, which is
at most one more than the number of nodes.  With that depth or any larger bound
`inferWithin` has the same outcome, and so has `infer`; only a smaller bound runs out. -/
theorem infer_terminates
    (g : Graph) (scope : Scope) (root : NodeId) (checker : Checker) (h : g.Acyclic root) :
    ∃ depth outcome, depth ≤ g.size + 1 ∧
      (∀ nested found, Checker.InfersNode g scope root checker nested found ↔
        nested = depth ∧ found = outcome) ∧
      (∀ fuel, fuel < depth →
        (Checker.inferWithin g scope fuel root).run checker = .error .cyclic) ∧
      (∀ fuel, depth ≤ fuel →
        (Checker.inferWithin g scope fuel root).run checker = outcome) ∧
      outcome ≠ .error .cyclic ∧
      Checker.infer g scope root checker = outcome := by
  obtain ⟨depth, hle, outcome, hinfers⟩ := Checker.exists_infersNode h scope checker
  have hrun := hinfers.inferWithin_run
  have henough : ∀ fuel, depth ≤ fuel →
      (Checker.inferWithin g scope fuel root).run checker = outcome := by
    intro fuel hfuel
    rw [hrun fuel, if_neg (Nat.not_lt.2 hfuel)]
  refine ⟨depth, outcome, hle, ?_, ?_, henough, ?_, ?_⟩
  · intro nested found
    constructor
    · intro hfound
      obtain ⟨hdepth, houtcome⟩ := Checker.Infers.unique hinfers hfound
      exact ⟨hdepth, Checker.single_injective houtcome⟩
    · rintro ⟨rfl, rfl⟩
      exact hinfers
  · intro fuel hfuel
    rw [hrun fuel, if_pos hfuel]
  · intro hcyclic
    apply Checker.Infers.ne_cyclic hinfers
    rw [hcyclic]
    rfl
  · rw [Checker.infer_eq_inferWithin]
    exact henough _ hle

/-- A sum of one node with itself, which lies after the sum and whose own operand lies
outside the graph. -/
def straySum : Graph where
  nodes :=
    #[⟨.paren ⟨1⟩, Span.zero⟩, ⟨.binary .add ⟨2⟩ ⟨2⟩, Span.zero⟩, ⟨.paren ⟨3⟩, Span.zero⟩]
  args := #[]

theorem straySum_needs_full_depth :
    straySum.Acyclic ⟨0⟩ ∧
      ∃ outcome, Checker.InfersNode straySum Scope.empty ⟨0⟩ (.start straySum) 4 outcome ∧
        outcome = .error (.outOfRange 3 3) ∧
        (Checker.inferWithin straySum Scope.empty 3 ⟨0⟩).run (.start straySum) =
          .error .cyclic ∧
        ∀ fuel, 4 ≤ fuel →
          (Checker.inferWithin straySum Scope.empty fuel ⟨0⟩).run (.start straySum) = outcome := by
  have hacyclic : straySum.Acyclic ⟨0⟩ := by decide
  obtain ⟨depth, outcome, hle, hunique, -, henough, hne, -⟩ :=
    infer_terminates straySum Scope.empty ⟨0⟩ (.start straySum) hacyclic
  have hshort : (Checker.inferWithin straySum Scope.empty 3 ⟨0⟩).run (.start straySum) =
      .error .cyclic := by
    decide +kernel
  have hfull : (Checker.inferWithin straySum Scope.empty 4 ⟨0⟩).run (.start straySum) =
      .error (.outOfRange 3 3) := by
    decide +kernel
  have hdepth : depth = 4 := by
    by_contra hother
    have hlt : depth ≤ 3 := by
      change depth ≤ 4 at hle
      omega
    exact hne ((henough 3 hlt).symm.trans hshort)
  subst hdepth
  exact ⟨hacyclic, outcome, (hunique 4 outcome).2 ⟨rfl, rfl⟩,
    (henough 4 (Nat.le_refl 4)).symm.trans hfull, hshort, henough⟩

end ExprTyping
