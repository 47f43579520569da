import ExprTyping.Graph.Traversal
import ExprTyping.Log

/-!
# Checking expressions

A checker infers the type of a node after those of its operands, which it visits
from left to right.  It records a type for every node it visits, the errors in
the order in which they are found, and a log.  A node that is shared is visited
once for every use.

`inferWithin` follows this description down to a given depth.  `infer` computes
the same with an explicit list of pending tasks and a stack of operand types, so
that the depth of an expression does not matter.  The main statement is
`infer_eq_inferWithin`.
-/

namespace ExprTyping

namespace Verdict

/-- The error that a verdict on the node `id` reports. -/
def error? (g : Graph) (id : NodeId) (operands : List NodeId) : Verdict → Option TypeError
  | .failed site cause =>
    let node := site.resolve id operands
    some { node, span := g.spanOf node, cause }
  | _ => none

/-- The entry that a verdict on the node `id` adds to the log. -/
def entry? (g : Graph) (id : NodeId) (operands : List NodeId) (verdict : Verdict) :
    Option LogEntry :=
  match verdict with
  | .typed _ => none
  | .failed _ _ => (verdict.error? g id operands).map .typeError
  | .suppressed => some (.suppressed id)
  | .silent silence => some (.silent id silence)
  | .undeclared struct => some (.undeclared struct)

end Verdict

/-- What has been found out about the expressions of a graph. -/
structure Checker where
  /-- The type of every node, once it has been visited. -/
  types : Array (Option Ty)
  errors : Array TypeError
  log : Array LogEntry
deriving DecidableEq, Repr

/-- Inference changes what is known and may meet a fault of the graph. -/
abbrev Inference (α : Type) : Type :=
  StateT Checker (Except Fault) α

/-- A pending step of a check. -/
inductive Task where
  /-- Visit a node, with the depth that is left for it. -/
  | visit (depth : Nat) (id : NodeId)
  /-- Judge a node whose operand types are on the stack. -/
  | settle (id : NodeId) (shape : Shape)

namespace Task

/-- A bound for the number of steps that a task takes. -/
def effort (g : Graph) : Task → Nat
  | .visit depth _ => g.effort depth
  | .settle _ _ => 1

/-- A bound for the number of steps that pending tasks take. -/
def totalEffort (g : Graph) : List Task → Nat
  | [] => 0
  | task :: pending => task.effort g + totalEffort g pending

theorem totalEffort_visits (g : Graph) (depth : Nat) (ids : List NodeId)
    (pending : List Task) :
    totalEffort g (ids.map (.visit depth ·) ++ pending) =
      ids.length * g.effort depth + totalEffort g pending := by
  induction ids with
  | nil => simp
  | cons id ids ih =>
    simp only [List.map_cons, List.cons_append, totalEffort, List.length_cons, ih]
    rw [Nat.succ_mul]
    simp only [effort]
    omega

/-- Settling a node leaves less to do. -/
theorem totalEffort_settle_lt (g : Graph) (id : NodeId) (shape : Shape)
    (pending : List Task) :
    totalEffort g pending < totalEffort g (.settle id shape :: pending) := by
  simp [totalEffort, effort]

/-- Visiting the operands of a node and settling it takes less than its visit. -/
theorem totalEffort_operands_lt (g : Graph) (shape : Shape) (depth : Nat) (id : NodeId)
    (pending : List Task) :
    totalEffort g ((g.operands shape).map (.visit depth ·) ++ .settle id shape :: pending) <
      totalEffort g (.visit (depth + 1) id :: pending) := by
  have hlt := g.operands_effort_lt shape depth
  rw [totalEffort_visits, totalEffort, totalEffort]
  simp only [effort]
  omega

end Task

namespace Checker

/-- Nothing is known about the nodes of a graph. -/
def start (g : Graph) : Checker where
  types := Array.replicate g.size none
  errors := #[]
  log := #[]

/-- Adds an entry to the log. -/
def record (checker : Checker) (entry : LogEntry) : Checker :=
  { checker with log := checker.log.push entry }

/-- Notes that a node is being visited. -/
def enter (checker : Checker) (id : NodeId) : Checker :=
  checker.record (.inferring id)

/-- Takes in the verdict on a node. -/
def settle (checker : Checker) (g : Graph) (id : NodeId) (operands : List NodeId)
    (verdict : Verdict) : Checker where
  types := checker.types.setIfInBounds id.index (some verdict.ty)
  errors := checker.errors ++ (verdict.error? g id operands).toArray
  log := checker.log ++ (verdict.entry? g id operands).toArray

/-- Infers the type of a node and of all nodes below it, provided that no path
below it has more than `depth` nodes. -/
def inferWithin (g : Graph) (scope : Scope) : Nat → NodeId → Inference Ty
  | 0, _ => throw .cyclic
  | depth + 1, id => do
    let node ← g.node id
    modify (·.enter id)
    let operands := g.operands node.shape
    let types ← operands.mapM (inferWithin g scope depth)
    let verdict := node.shape.head.judge scope types
    modify (·.settle g id operands verdict)
    return verdict.ty

/-- Carries out the pending tasks.  The stack holds the types of the nodes that
have been settled and not yet used, the latest first. -/
def run (g : Graph) (scope : Scope) :
    List Task → Checker → List Ty → Except Fault (Checker × List Ty)
  | [], checker, stack => .ok (checker, stack)
  | .settle id shape :: pending, checker, stack =>
    let operands := g.operands shape
    let types := (stack.take operands.length).reverse
    let verdict := shape.head.judge scope types
    run g scope pending (checker.settle g id operands verdict)
      (verdict.ty :: stack.drop operands.length)
  | .visit 0 _ :: _, _, _ => .error .cyclic
  | .visit (depth + 1) id :: pending, checker, stack =>
    match g.node id with
    | .error fault => .error fault
    | .ok node =>
      run g scope
        ((g.operands node.shape).map (.visit depth ·) ++ .settle id node.shape :: pending)
        (checker.enter id) stack
termination_by pending _ _ => Task.totalEffort g pending
decreasing_by
  · exact Task.totalEffort_settle_lt g id shape pending
  · exact Task.totalEffort_operands_lt g node.shape depth id pending

/-- Infers the type of a node and of all nodes below it. -/
def infer (g : Graph) (scope : Scope) (id : NodeId) (checker : Checker) :
    Except Fault (Ty × Checker) := do
  let (checker, stack) ← run g scope [.visit (g.size + 1) id] checker []
  return (stack.headD .unknown, checker)

end Checker

/-- The result of checking an expression. -/
structure Checked where
  /-- The type of the expression. -/
  ty : Ty
  /-- The type of every node of the graph that belongs to the expression. -/
  types : Array (Option Ty)
  /-- The errors in the order in which they were found. -/
  errors : List TypeError
deriving DecidableEq, Repr

namespace Checked

/-- The type of a node, if it belongs to the expression. -/
def typeOf (result : Checked) (id : NodeId) : Option Ty :=
  result.types[id.index]?.join

def hasErrors (result : Checked) : Bool :=
  !result.errors.isEmpty

end Checked

/-- The result for an expression of the given type. -/
def Checker.finish (checker : Checker) (ty : Ty) : Checked where
  ty := ty
  types := checker.types
  errors := checker.errors.toList

/-- Checks the expression at a node, and returns the log beside the result. -/
def checkLogged (g : Graph) (scope : Scope) (root : NodeId) :
    Except Fault (Checked × List LogEntry) := do
  let (ty, checker) ← Checker.infer g scope root ((Checker.start g).record (.checking root))
  let checker := checker.record (.checked checker.errors.size ty)
  return (checker.finish ty, checker.log.toList)

/-- Checks the expression at a node. -/
def check (g : Graph) (scope : Scope) (root : NodeId) : Except Fault Checked := do
  let (result, _) ← checkLogged g scope root
  return result

namespace Checker

theorem run_append (g : Graph) (scope : Scope) (depth : Nat)
    (hdepth : ∀ (id : NodeId) (pending : List Task) (checker : Checker) (stack : List Ty),
      run g scope (.visit depth id :: pending) checker stack =
        (inferWithin g scope depth id).run checker >>= fun (ty, checker) =>
          run g scope pending checker (ty :: stack))
    (ids : List NodeId) (pending : List Task) (checker : Checker) (stack : List Ty) :
    run g scope (ids.map (.visit depth ·) ++ pending) checker stack =
      (ids.mapM (inferWithin g scope depth)).run checker >>= fun (types, checker) =>
        run g scope pending checker (types.reverse ++ stack) := by
  induction ids generalizing checker stack with
  | nil => simp
  | cons id ids ih =>
    simp only [List.map_cons, List.cons_append, List.mapM_cons, hdepth, ih, StateT.run_bind,
      StateT.run_pure, bind_assoc, pure_bind]
    congr 1
    funext first
    congr 1
    funext rest
    simp

theorem length_mapM {α β : Type} {f : α → Inference β} {as : List α} {bs : List β}
    {before after : Checker}
    (h : (as.mapM f).run before = .ok (bs, after)) :
    bs.length = as.length := by
  induction as generalizing bs before after with
  | nil =>
    simp only [List.mapM_nil, StateT.run_pure] at h
    cases h
    rfl
  | cons a as ih =>
    simp only [List.mapM_cons, StateT.run_bind, StateT.run_pure] at h
    cases ha : (f a).run before with
    | error e => simp [ha, bind, Except.bind] at h
    | ok first =>
      cases has : (as.mapM f).run first.2 with
      | error e => simp [ha, has, bind, Except.bind] at h
      | ok rest =>
        obtain ⟨tail, last⟩ := rest
        simp only [ha, has, bind, Except.bind, pure, Except.pure, Except.ok.injEq,
          Prod.mk.injEq] at h
        rw [← h.1, List.length_cons, List.length_cons, ih has]

theorem run_cons_visit (g : Graph) (scope : Scope) (depth : Nat) (id : NodeId)
    (pending : List Task) (checker : Checker) (stack : List Ty) :
    run g scope (.visit depth id :: pending) checker stack =
      (inferWithin g scope depth id).run checker >>= fun (ty, checker) =>
        run g scope pending checker (ty :: stack) := by
  induction depth generalizing id pending checker stack with
  | zero =>
    rw [run]
    rfl
  | succ depth ih =>
    rw [run, inferWithin]
    cases hnode : g.node id with
    | error fault => rfl
    | ok node =>
      simp only [run_append g scope depth ih]
      change _ = ((((g.operands node.shape).mapM (inferWithin g scope depth)).run
        (checker.enter id)) >>= _) >>= _
      rw [bind_assoc]
      cases hops : ((g.operands node.shape).mapM (inferWithin g scope depth)).run
          (checker.enter id) with
      | error fault => rfl
      | ok found =>
        obtain ⟨types, after⟩ := found
        have hlen := length_mapM hops
        change run g scope (.settle id node.shape :: pending) after _ =
          run g scope pending _ _
        rw [run, ← hlen]
        simp

theorem infer_eq_inferWithin (g : Graph) (scope : Scope) (id : NodeId) (checker : Checker) :
    infer g scope id checker = (inferWithin g scope (g.size + 1) id).run checker := by
  unfold infer
  rw [run_cons_visit]
  cases (inferWithin g scope (g.size + 1) id).run checker with
  | error fault => rfl
  | ok found =>
    obtain ⟨ty, after⟩ := found
    change (run g scope [] after [ty] >>= _) = _
    rw [run]
    rfl

end Checker

/-- The result of a check follows the description of inference. -/
theorem check_eq_inferWithin (g : Graph) (scope : Scope) (root : NodeId) :
    check g scope root =
      ((Checker.inferWithin g scope (g.size + 1) root).run
        ((Checker.start g).record (.checking root))).map
          fun (ty, checker) => checker.finish ty := by
  unfold check checkLogged
  rw [Checker.infer_eq_inferWithin]
  cases (Checker.inferWithin g scope (g.size + 1) root).run
      ((Checker.start g).record (.checking root)) with
  | error fault => rfl
  | ok found => rfl

end ExprTyping
