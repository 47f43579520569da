import ExprTyping.TypeError

/-!
# Diagnostics

A diagnostic is an error ready to be shown: a code, a message, the span it
points at, a label for that span and further notes.
-/

namespace ExprTyping

/-- An error as it is shown. -/
structure Diagnostic where
  code : Code
  span : Span
  message : String
  /-- Shown under the source text that the span covers; may be empty. -/
  label : String := ""
  notes : List String := []
deriving DecidableEq, Repr

namespace Diagnostic

/-- The diagnostic on one line, with its notes after semicolons. -/
def render (d : Diagnostic) : String :=
  d.notes.foldl (fun line note => line ++ "; " ++ note)
    s!"[{d.code.text}] {d.span.render}: {d.message}"

/-- What the word for one thing is followed by when there are `count` of them. -/
def pluralEnding (count : Nat) : String :=
  if count = 1 then "" else "s"

/-- Whether two diagnostics report the same at the same place.  Labels and notes
only elaborate the message. -/
def sameReport (a b : Diagnostic) : Bool :=
  a.code = b.code && a.span = b.span && a.message = b.message

theorem sameReport_iff {a b : Diagnostic} :
    a.sameReport b = true ↔
      a.code = b.code ∧ a.span = b.span ∧ a.message = b.message := by
  simp [sameReport, and_assoc]

end Diagnostic

namespace Cause

/-- The message for a cause, with the given text for every name. -/
def message (text : Name → String) : Cause → String
  | .unsupportedOperand operator => s!"unsupported operand type for `{operator}`"
  | .indexNotInt => "list index must be of type `int`"
  | .indexOfNonList => "index access on a non-list value"
  | .memberOfNonStruct => "member access on a non-struct value"
  | .unknownMember struct member =>
    s!"struct `{text struct}` has no member `{text member}`"
  | .appendToNonList => "cannot append to a non-list value"
  | .elementMismatch => "new element type does not match list type"
  | .unknownIdentifier name => s!"unknown identifier `{text name}`"
  | .callOfNonFunction => "call on a value that is not a function pointer"
  | .argumentMismatch _ _ => "arguments do not match function definition"
  | .sizeOfNonList => "size of a non-list value"

/-- The label under the source text. -/
def label (text : Name → String) : Cause → String
  | .unsupportedOperand _ => "invalid operand types"
  | .indexNotInt => "index is not an `int`"
  | .indexOfNonList => "not a list"
  | .memberOfNonStruct => "not a struct"
  | .unknownMember _ member => s!"unknown member `{text member}`"
  | .appendToNonList => "first argument is not a list"
  | .elementMismatch => "mismatched element"
  | .unknownIdentifier _ => "not found in this scope"
  | .callOfNonFunction => "not callable"
  | .argumentMismatch _ _ => "in this call"
  | .sizeOfNonList => "not a list"

/-- Only a mismatch of arguments has notes, which list both sides of it. -/
def notes (text : Name → String) : Cause → List String
  | .argumentMismatch expected found =>
    [s!"expected: ({Ty.renderAll text expected})", s!"found: ({Ty.renderAll text found})"]
  | _ => []

end Cause

/-- The diagnostic for a type error, with the given text for every name. -/
def TypeError.diagnostic (text : Name → String) (error : TypeError) : Diagnostic where
  code := error.code
  span := error.span
  message := error.cause.message text
  label := error.cause.label text
  notes := error.cause.notes text

end ExprTyping
