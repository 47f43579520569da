import ExprTyping.Graph
import ExprTyping.Ty.Render

/-!
# Type errors

A type error is a cause attached to a node and the span of that node.  Every
cause has a stable code; one further code belongs to the notice that errors
were left out.
-/

namespace ExprTyping

/-- The stable code of a diagnostic. -/
inductive Code where
  | unsupportedOperand
  | indexNotInt
  | indexOfNonList
  | memberOfNonStruct
  | unknownMember
  | appendToNonList
  | elementMismatch
  | unknownIdentifier
  | callOfNonFunction
  | argumentMismatch
  | sizeOfNonList
  /-- Errors were left out because there were too many. -/
  | limitNotice
deriving DecidableEq, Repr

namespace Code

def all : List Code :=
  [.unsupportedOperand, .indexNotInt, .indexOfNonList, .memberOfNonStruct,
    .unknownMember, .appendToNonList, .elementMismatch, .unknownIdentifier,
    .callOfNonFunction, .argumentMismatch, .sizeOfNonList, .limitNotice]

/-- The printed code. -/
def text : Code → String
  | .unsupportedOperand => "E2001"
  | .indexNotInt => "E2002"
  | .indexOfNonList => "E2003"
  | .memberOfNonStruct => "E2004"
  | .unknownMember => "E2005"
  | .appendToNonList => "E2006"
  | .elementMismatch => "E2007"
  | .unknownIdentifier => "E2008"
  | .callOfNonFunction => "E2009"
  | .argumentMismatch => "E2010"
  | .sizeOfNonList => "E2011"
  | .limitNotice => "E9001"

/-- Whether the code stands for an error in an expression. -/
def isTypeError : Code → Bool
  | .limitNotice => false
  | _ => true

/-- The code that is printed as the given text. -/
def ofText? (s : String) : Option Code :=
  all.find? (·.text = s)

theorem ofText?_text (code : Code) : ofText? code.text = some code := by
  cases code <;> decide +kernel

end Code

/-- What is wrong with an expression. -/
inductive Cause where
  /-- The operator with this name is not defined on its operands. -/
  | unsupportedOperand (operator : String)
  | indexNotInt
  | indexOfNonList
  | memberOfNonStruct
  | unknownMember (struct member : Name)
  | appendToNonList
  | elementMismatch
  | unknownIdentifier (name : Name)
  | callOfNonFunction
  | argumentMismatch (expected found : List Ty)
  | sizeOfNonList
deriving DecidableEq, Repr

namespace Cause

def code : Cause → Code
  | .unsupportedOperand _ => .unsupportedOperand
  | .indexNotInt => .indexNotInt
  | .indexOfNonList => .indexOfNonList
  | .memberOfNonStruct => .memberOfNonStruct
  | .unknownMember _ _ => .unknownMember
  | .appendToNonList => .appendToNonList
  | .elementMismatch => .elementMismatch
  | .unknownIdentifier _ => .unknownIdentifier
  | .callOfNonFunction => .callOfNonFunction
  | .argumentMismatch _ _ => .argumentMismatch
  | .sizeOfNonList => .sizeOfNonList

/-- The cause as the log shows it.  Names of operators need no escapes. -/
def dump : Cause → String
  | .unsupportedOperand operator =>
    "UnsupportedOperandType \x7b operator: \"" ++ operator ++ "\" \x7d"
  | .indexNotInt => "ListIndexNotInt"
  | .indexOfNonList => "AccessByIndexOnNonList"
  | .memberOfNonStruct => "AccessOnNonStruct"
  | .unknownMember struct member =>
    "StructMemberNotFound \x7b struct_name: " ++ struct.dump ++ ", member: " ++
      member.dump ++ " \x7d"
  | .appendToNonList => "AppendToNonList"
  | .elementMismatch => "NewElementTypeNotMatchListType"
  | .unknownIdentifier name => "UnknownIdentifier \x7b name: " ++ name.dump ++ " \x7d"
  | .callOfNonFunction => "CallOnNonFunction"
  | .argumentMismatch expected found =>
    "ArgumentsMismatch \x7b expected: [" ++ Ty.dumpAll expected ++ "], found: [" ++
      Ty.dumpAll found ++ "] \x7d"
  | .sizeOfNonList => "SizeOfNonList"

end Cause

/-- A cause, the node it is attached to and the span of that node. -/
structure TypeError where
  node : NodeId
  span : Span
  cause : Cause
deriving DecidableEq, Repr

def TypeError.code (error : TypeError) : Code :=
  error.cause.code

end ExprTyping
