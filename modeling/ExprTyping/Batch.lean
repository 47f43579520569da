import ExprTyping.Checker
import ExprTyping.Diagnostic.Queue

/-!
# Batches

A batch is a list of independent expressions that are checked against one scope.
The main statement is `checkAll_eq_mapM`: every expression gets the result of
checking it alone.
-/

namespace ExprTyping

/-- An expression: a node and the graph it belongs to. -/
structure Expression where
  graph : Graph
  root : NodeId
deriving DecidableEq, Repr

/-- How a batch is checked. -/
structure BatchConfig where
  diagnostics : QueueConfig
  /-- Whether expressions may be checked at the same time.  They share nothing
  but the scope, so results and their order are the same either way. -/
  parallel : Bool
  /-- The number of bytes suggested for the stack of a worker. -/
  stackSize : Nat
deriving DecidableEq, Repr

namespace BatchConfig

def standard : BatchConfig := ⟨QueueConfig.standard, true, 32 * 1024 * 1024⟩

def sequential : BatchConfig := ⟨QueueConfig.unlimited, false, 32 * 1024 * 1024⟩

end BatchConfig

/-- Checks expressions in order, and returns the log beside the results. -/
def checkAllLogged (scope : Scope) (expressions : List Expression) :
    Except Fault (List Checked × List LogEntry) := do
  let results ← expressions.mapM fun e => checkLogged e.graph scope e.root
  return (results.map Prod.fst,
    .checkingUnits expressions.length :: results.flatMap Prod.snd)

/-- Checks expressions in order. -/
def checkAll (scope : Scope) (expressions : List Expression) :
    Except Fault (List Checked) := do
  let (results, _) ← checkAllLogged scope expressions
  return results

theorem mapM_check_eq (scope : Scope) (expressions : List Expression) :
    expressions.mapM (fun e => check e.graph scope e.root) =
      (expressions.mapM fun e => checkLogged e.graph scope e.root).map
        (List.map Prod.fst) := by
  induction expressions with
  | nil => rfl
  | cons e es ih =>
    rw [List.mapM_cons, List.mapM_cons, ih]
    unfold check
    cases checkLogged e.graph scope e.root with
    | error fault => rfl
    | ok first =>
      cases es.mapM fun e => checkLogged e.graph scope e.root with
      | error fault => rfl
      | ok rest => rfl

/-- Every expression of a batch gets the result of checking it alone. -/
theorem checkAll_eq_mapM (scope : Scope) (expressions : List Expression) :
    checkAll scope expressions =
      expressions.mapM fun e => check e.graph scope e.root := by
  rw [mapM_check_eq]
  unfold checkAll checkAllLogged
  cases expressions.mapM fun e => checkLogged e.graph scope e.root with
  | error fault => rfl
  | ok results => rfl

end ExprTyping
