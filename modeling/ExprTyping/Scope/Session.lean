import ExprTyping.Scope

/-!
# Sessions of scopes

A session is a growing list of scopes that begins with one empty scope.  Every
action names the scope it is meant for; taking a child appends a new scope, and
a declaration changes the scope it is made in.
-/

namespace ExprTyping
namespace Scope

/-- What can be done to a scope of a session. -/
inductive Action where
  | declare (declaration : Declaration)
  | child
deriving DecidableEq, Repr

/-- The scopes made so far, the oldest first. -/
structure Session where
  scopes : Array Scope
deriving DecidableEq, Repr

namespace Session

/-- One scope without declarations. -/
def start : Session := ⟨#[Scope.empty]⟩

/-- The number of the newest scope. -/
def newest (session : Session) : Nat :=
  session.scopes.size - 1

/-- The scope with the given number; an unknown number has the empty scope. -/
def scope (session : Session) (target : Nat) : Scope :=
  session.scopes[target]?.getD Scope.empty

/-- Acting changes a session, which stays changed when the action fails. -/
abbrev Acting : Type → Type :=
  ExceptT ScopeError (StateM Session)

/-- Acts on one scope.  The scope is kept as the action leaves it, be the action
refused or not. -/
def act (target : Nat) : Action → Acting Unit
  | .child => modify fun session => ⟨session.scopes.push (session.scope target).child⟩
  | .declare declaration => fun session =>
    let (outcome, changed) := (session.scope target).declare declaration
    (outcome, ⟨session.scopes.setIfInBounds target changed⟩)

end Session
end Scope
end ExprTyping
