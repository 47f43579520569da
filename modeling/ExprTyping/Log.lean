import ExprTyping.Rule

/-!
# Log of a check

A check logs what it does as a list of entries.  Spans mark the begin of an
activity and events what happened in it.  An entry is data; its label and fields
are derived from it.
-/

namespace ExprTyping

/-- How detailed an entry is. -/
inductive LogLevel where
  | debug
  | trace
deriving DecidableEq, Repr

/-- Whether an entry marks the begin of an activity or something that happened. -/
inductive LogKind where
  | span
  | event
deriving DecidableEq, Repr

/-- The value of a field of an entry. -/
inductive LogValue where
  | text (s : String)
  | number (n : Nat)
deriving DecidableEq, Repr

/-- One entry of the log. -/
inductive LogEntry where
  | checkingUnits (count : Nat)
  | checking (root : NodeId)
  | inferring (id : NodeId)
  | typeError (error : TypeError)
  | suppressed (id : NodeId)
  | silent (id : NodeId) (silence : Silence)
  | undeclared (struct : Name)
  | checked (errors : Nat) (ty : Ty)
  | notKept (code : Code) (span : Span)
deriving DecidableEq, Repr

namespace LogEntry

/-- Only the visits of single nodes are left to the finer level. -/
def level : LogEntry → LogLevel
  | .inferring _ => .trace
  | _ => .debug

def kind : LogEntry → LogKind
  | .checkingUnits _ | .checking _ | .inferring _ => .span
  | _ => .event

/-- The name of an activity, or the message of an event. -/
def label : LogEntry → String
  | .checkingUnits _ => "check_units"
  | .checking _ => "check_expr"
  | .inferring _ => "infer_expr"
  | .typeError _ => "type error"
  | .suppressed _ => "suppressed follow-on error"
  | .silent _ _ => "no type and no error"
  | .undeclared _ => "struct declaration not found"
  | .checked _ _ => "checked expression"
  | .notKept _ _ => "diagnostic not kept"

def fields : LogEntry → List (String × LogValue)
  | .checkingUnits count => [("units", .number count)]
  | .checking root => [("root", .text root.dump)]
  | .inferring id => [("expr_id", .text id.dump)]
  | .typeError error =>
    [("expr_id", .text error.node.dump), ("span", .text error.span.render),
      ("kind", .text error.cause.dump)]
  | .suppressed id => [("expr_id", .text id.dump)]
  | .silent id silence => [("expr_id", .text id.dump), ("reason", .text silence.reason)]
  | .undeclared struct => [("struct_name", .text struct.dump)]
  | .checked errors ty => [("errors", .number errors), ("ty", .text ty.dump)]
  | .notKept code span => [("code", .text code.text), ("span", .text span.render)]

/-- Whether an entry is shown when entries of the given level are asked for. -/
def shownAt (entry : LogEntry) : LogLevel → Bool
  | .trace => true
  | .debug => entry.level = .debug

end LogEntry
end ExprTyping
