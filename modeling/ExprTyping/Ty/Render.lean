import ExprTyping.Ty

/-!
# Written forms of types

`render` is the form for readers: struct names appear by their text, and a
function type without parameters shows `void` in their place.  `dump` is the
form for the log: struct names appear by number and every constructor is
spelled out.
-/

namespace ExprTyping
namespace Ty

mutual

/-- The type as a reader sees it, with the given text for every name. -/
def render (text : Name → String) : Ty → String
  | .int => "int"
  | .bool => "bool"
  | .void => "void"
  | .list element => "list(" ++ element.render text ++ ")"
  | .struct name => "struct " ++ text name
  | .func [] result => "fptr<void -> " ++ result.render text ++ ">"
  | .func (p :: ps) result =>
    "fptr<" ++ renderAll text (p :: ps) ++ " -> " ++ result.render text ++ ">"
  | .unknown => "<no type>"

/-- Types separated by commas. -/
def renderAll (text : Name → String) : List Ty → String
  | [] => ""
  | [t] => t.render text
  | t :: u :: ts => t.render text ++ ", " ++ renderAll text (u :: ts)

end

mutual

/-- The type as the log shows it. -/
def dump : Ty → String
  | .int => "Int"
  | .bool => "Bool"
  | .void => "Void"
  | .list element => "List(" ++ element.dump ++ ")"
  | .struct name => "Struct(" ++ name.dump ++ ")"
  | .func params result =>
    "Fptr \x7b ret: " ++ result.dump ++ ", args: [" ++ dumpAll params ++ "] \x7d"
  | .unknown => "NoType"

/-- Dumps separated by commas. -/
def dumpAll : List Ty → String
  | [] => ""
  | [t] => t.dump
  | t :: u :: ts => t.dump ++ ", " ++ dumpAll (u :: ts)

end

end Ty
end ExprTyping
