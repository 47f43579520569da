/-!
# Operators

The binary and unary operators.  Every operator has a stable lower-case name,
used in messages, and a symbol, used in source text.
-/

namespace ExprTyping

/-- A binary operator. -/
inductive BinOp where
  | add | sub | mul | div
  | eq | gt | lt
  | and | or
  | assign
deriving DecidableEq, Repr

namespace BinOp

/-- All binary operators, arithmetic first and assignment last. -/
def all : List BinOp :=
  [.add, .sub, .mul, .div, .eq, .gt, .lt, .and, .or, .assign]

/-- The name under which messages mention the operator. -/
def name : BinOp → String
  | .add => "add"
  | .sub => "sub"
  | .mul => "mult"
  | .div => "div"
  | .eq => "eq"
  | .gt => "gt"
  | .lt => "lt"
  | .and => "and"
  | .or => "or"
  | .assign => "assign"

/-- The operator as it is written in source text. -/
def symbol : BinOp → String
  | .add => "+"
  | .sub => "-"
  | .mul => "*"
  | .div => "/"
  | .eq => "=="
  | .gt => ">"
  | .lt => "<"
  | .and => "&"
  | .or => "|"
  | .assign => "="

/-- The operator as dumps of nodes show it. -/
def dump : BinOp → String
  | .add => "Add"
  | .sub => "Sub"
  | .mul => "Mul"
  | .div => "Div"
  | .eq => "Eq"
  | .gt => "Gt"
  | .lt => "Lt"
  | .and => "And"
  | .or => "Or"
  | .assign => "Assign"

def isArithmetic : BinOp → Bool
  | .add | .sub | .mul | .div => true
  | _ => false

def isLogical : BinOp → Bool
  | .and | .or => true
  | _ => false

/-- The operator with the given name. -/
def ofName? (s : String) : Option BinOp :=
  all.find? (·.name = s)

theorem ofName?_name (op : BinOp) : ofName? op.name = some op := by
  cases op <;> decide +kernel

theorem name_injective {a b : BinOp} (h : a.name = b.name) : a = b := by
  have ha := ofName?_name a
  rw [h, ofName?_name b] at ha
  exact (Option.some.inj ha).symm

end BinOp

/-- A unary operator. -/
inductive UnOp where
  | minus
  | not
deriving DecidableEq, Repr

namespace UnOp

def all : List UnOp := [.minus, .not]

/-- The name under which messages mention the operator. -/
def name : UnOp → String
  | .minus => "minus"
  | .not => "not"

/-- The operator as it is written in source text. -/
def symbol : UnOp → String
  | .minus => "-"
  | .not => "~"

/-- The operator as dumps of nodes show it. -/
def dump : UnOp → String
  | .minus => "Minus"
  | .not => "Not"

/-- The operator with the given name. -/
def ofName? (s : String) : Option UnOp :=
  all.find? (·.name = s)

theorem ofName?_name (op : UnOp) : ofName? op.name = some op := by
  cases op <;> decide +kernel

theorem name_injective {a b : UnOp} (h : a.name = b.name) : a = b := by
  have ha := ofName?_name a
  rw [h, ofName?_name b] at ha
  exact (Option.some.inj ha).symm

end UnOp
end ExprTyping
