import ExprTyping.Scope
import ExprTyping.TypeError

/-!
# Typing rules

The rule for a node looks at three things: the head of the node, which is its
shape without operands and literal values; the types of its operands; and the
scope.  It gives a verdict, from which the type of the node, the error it
reports itself and the entry it logs itself are read off.

An operand of unknown type never causes an error.  A rule reports only what the
operands of known type already show to be wrong.
-/

namespace ExprTyping

/-- A shape without its operands and literal values. -/
inductive Head where
  | int
  | bool
  | ident (name : Name)
  | binary (op : BinOp)
  | unary (op : UnOp)
  | call
  | index
  | field (member : Name)
  | size
  | append
  | paren
deriving DecidableEq, Repr

/-- The head of a shape. -/
def Shape.head : Shape → Head
  | .int _ => .int
  | .bool _ => .bool
  | .ident name => .ident name
  | .binary op _ _ => .binary op
  | .unary op _ => .unary op
  | .call _ _ => .call
  | .index _ _ => .index
  | .field _ member => .field member
  | .size _ => .size
  | .append _ _ => .append
  | .paren _ => .paren

/-- Where an error is attached: to the node whose rule reports it, or to one of
its operands. -/
inductive Site where
  | self
  | operand (position : Nat)
deriving DecidableEq, Repr

/-- The node at a site of the node `id` with the given operands. -/
def Site.resolve (id : NodeId) (operands : List NodeId) : Site → NodeId
  | .self => id
  | .operand position => operands[position]?.getD id

/-- Why a node has no type although nothing is reported for it. -/
inductive Silence where
  | unaryOperand
  | indexOperands
deriving DecidableEq, Repr

/-- The reason given in the log. -/
def Silence.reason : Silence → String
  | .unaryOperand => "unary operand is not `int` or `bool`"
  | .indexOperands => "neither instance nor index is usable"

/-- What the rule for a node decides. -/
inductive Verdict where
  | typed (ty : Ty)
  /-- The node has no type, and the error says why. -/
  | failed (site : Site) (cause : Cause)
  /-- The node has no type because an operand has none. -/
  | suppressed
  /-- The node has no type, and no error describes the case. -/
  | silent (silence : Silence)
  /-- The node has no type because the struct it looks into is not declared. -/
  | undeclared (struct : Name)
deriving DecidableEq, Repr

/-- The type that a verdict gives to its node. -/
def Verdict.ty : Verdict → Ty
  | .typed ty => ty
  | _ => .unknown

namespace BinOp

/-- The type of the operator on two integers. -/
def onInts : BinOp → Option Ty
  | .add | .sub | .mul | .div => some .int
  | .eq | .gt | .lt => some .bool
  | .assign => some .void
  | .and | .or => none

/-- The type of the operator on two truth values. -/
def onBools : BinOp → Option Ty
  | .and | .or | .eq => some .bool
  | .assign => some .void
  | .add | .sub | .mul | .div | .gt | .lt => none

/-- The type of the operator on two structs or on two functions. -/
def onValues : BinOp → Option Ty
  | .eq => some .bool
  | .assign => some .void
  | _ => none

/-- The type of the operator on two lists, which cannot be compared. -/
def onLists : BinOp → Option Ty
  | .assign => some .void
  | _ => none

/-- The type of the operator on operands of known types. -/
def result? (op : BinOp) : Ty → Ty → Option Ty
  | .int, .int => op.onInts
  | .bool, .bool => op.onBools
  | .struct _, .struct _ => op.onValues
  | .func _ _, .func _ _ => op.onValues
  | .list _, .list _ => op.onLists
  | _, _ => none

end BinOp

namespace Rule

/-- An identifier has the type of its declaration. -/
def ident (scope : Scope) (name : Name) : Verdict :=
  match scope.var? name with
  | some ty => .typed ty
  | none => .failed .self (.unknownIdentifier name)

/-- Both operands must be of one kind on which the operator is defined. -/
def binary (op : BinOp) (left right : Ty) : Verdict :=
  if left.isUnknown || right.isUnknown then
    .suppressed
  else
    match op.result? left right with
    | some ty => .typed ty
    | none => .failed .self (.unsupportedOperand op.name)

/-- Integers are negated by `minus` and truth values by `not`.  Only the mix-up
of these two is reported. -/
def unary (op : UnOp) : Ty → Verdict
  | .unknown => .suppressed
  | .int =>
    match op with
    | .minus => .typed .int
    | .not => .failed .self (.unsupportedOperand op.name)
  | .bool =>
    match op with
    | .minus => .failed .self (.unsupportedOperand op.name)
    | .not => .typed .bool
  | _ => .silent .unaryOperand

/-- Whether an argument of the second type can stand for a parameter of the
first. -/
def accepts (param arg : Ty) : Bool :=
  arg.isUnknown || arg = param

/-- Whether a list of arguments can stand for a list of parameters. -/
def acceptsAll : List Ty → List Ty → Bool
  | [], [] => true
  | param :: params, arg :: args => accepts param arg && acceptsAll params args
  | _, _ => false

/-- There have to be as many arguments as parameters.  Each argument is compared with its
parameter, as far as both lists go. -/
theorem acceptsAll_eq_all_zip (params args : List Ty) :
    acceptsAll params args =
      (params.length == args.length &&
        (params.zip args).all fun pair => accepts pair.1 pair.2) := by
  induction params generalizing args with
  | nil => cases args <;> rfl
  | cons param params ih =>
    cases args with
    | nil => rfl
    | cons arg args =>
      simp [acceptsAll, ih, Bool.and_left_comm]

/-- The arguments must be those that the function asks for. -/
def call (callee : Ty) (args : List Ty) : Verdict :=
  match callee with
  | .func params result =>
    if acceptsAll params args then
      if args.any Ty.isUnknown then .suppressed else .typed result
    else
      .failed .self (.argumentMismatch params args)
  | .unknown => .suppressed
  | _ => .failed (.operand 0) .callOfNonFunction

/-- A list is indexed by an integer. -/
def index : Ty → Ty → Verdict
  | .list element, .int => .typed element
  | .list _, .unknown => .suppressed
  | .list _, _ => .failed (.operand 1) .indexNotInt
  | .unknown, _ => .suppressed
  | _, .int => .failed .self .indexOfNonList
  | _, .unknown => .suppressed
  | _, _ => .silent .indexOperands

/-- A member is looked up in the declaration of its struct. -/
def field (scope : Scope) (member : Name) : Ty → Verdict
  | .struct name =>
    match scope.struct? name with
    | none => .undeclared name
    | some decl =>
      match decl.field? member with
      | some ty => .typed ty
      | none => .failed .self (.unknownMember name member)
  | .unknown => .suppressed
  | _ => .failed .self .memberOfNonStruct

/-- Only lists have a size. -/
def size : Ty → Verdict
  | .list _ => .typed .int
  | .unknown => .suppressed
  | _ => .failed (.operand 0) .sizeOfNonList

/-- An element must be of the kind of the elements of the list. -/
def append (list element : Ty) : Verdict :=
  match list with
  | .list inner =>
    if element.joins inner then .typed .void
    else if inner.isUnknown || element.isUnknown then .suppressed
    else .failed (.operand 1) .elementMismatch
  | .unknown => .suppressed
  | _ => .failed (.operand 0) .appendToNonList

end Rule

/-- The verdict on a node with the given head and operand types.  Heads come
with as many operands as their shapes have; any other number is suppressed. -/
def Head.judge (scope : Scope) : Head → List Ty → Verdict
  | .int, [] => .typed .int
  | .bool, [] => .typed .bool
  | .ident name, [] => Rule.ident scope name
  | .binary op, [left, right] => Rule.binary op left right
  | .unary op, [operand] => Rule.unary op operand
  | .call, callee :: args => Rule.call callee args
  | .index, [list, position] => Rule.index list position
  | .field member, [owner] => Rule.field scope member owner
  | .size, [list] => Rule.size list
  | .append, [list, element] => Rule.append list element
  | .paren, [inner] => .typed inner
  | _, _ => .suppressed

end ExprTyping
