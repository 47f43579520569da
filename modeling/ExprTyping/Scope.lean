import ExprTyping.Ty

/-!
# Scopes

A scope answers two questions: what a struct declares, and which type a name
has.  It is a chain of frames with the innermost in front.  A struct may be
declared once along the whole chain; a variable once in each frame, where it
hides the ones further out.

A child scope keeps the chain it was made from.  Declaring something in the
parent afterwards is not seen by the child.

Declaring changes a scope in place, and a refusal does not take back what has
been changed before it.  That a refused declaration changes nothing is therefore
a statement about the declarations, `declare_error_eq`.
-/

namespace ExprTyping

/-- Why a declaration was refused. -/
inductive ScopeError where
  | structDeclared (name : Name)
  | fieldRepeated (struct field : Name)
  | varDeclared (name : Name)
deriving DecidableEq, Repr

/-- The text shown for a refused declaration. -/
def ScopeError.message : ScopeError → String
  | .structDeclared name => s!"struct {name.dump} is already declared"
  | .fieldRepeated struct field =>
    s!"struct {struct.dump} declares field {field.dump} twice"
  | .varDeclared name => s!"{name.dump} is already declared in this scope"

/-- A struct with its fields in the order of declaration. -/
structure StructDecl where
  name : Name
  fields : List (Name × Ty)
deriving DecidableEq, Repr

namespace StructDecl

/-- The first name that is in `seen` or stands earlier in the list. -/
def firstRepeat? (seen : List Name) : List Name → Option Name
  | [] => none
  | name :: names =>
    if name ∈ seen then some name else firstRepeat? (name :: seen) names

/-- The struct with the given fields, whose names have to be distinct. -/
def ofFields (name : Name) (fields : List (Name × Ty)) :
    Except ScopeError StructDecl :=
  match firstRepeat? [] (fields.map Prod.fst) with
  | some field => .error (.fieldRepeated name field)
  | none => .ok { name, fields }

/-- The declared type of a member. -/
def field? (decl : StructDecl) (member : Name) : Option Ty :=
  (decl.fields.find? (·.1 = member)).map Prod.snd

end StructDecl

/-- The declarations of one level of nesting, the latest first. -/
structure Frame where
  structs : List StructDecl
  vars : List (Name × Ty)
deriving DecidableEq, Repr

namespace Frame

/-- The frame without declarations. -/
def empty : Frame := ⟨[], []⟩

def struct? (frame : Frame) (name : Name) : Option StructDecl :=
  frame.structs.find? (·.name = name)

def var? (frame : Frame) (name : Name) : Option Ty :=
  (frame.vars.find? (·.1 = name)).map Prod.snd

end Frame

/-- A chain of frames; declarations go to the innermost one. -/
structure Scope where
  frame : Frame
  outer : List Frame
deriving DecidableEq, Repr

/-- Declaring changes a scope, which stays changed when the declaration fails. -/
abbrev Declaring : Type → Type :=
  ExceptT ScopeError (StateM Scope)

/-- Something that can be declared in a scope. -/
inductive Declaration where
  | struct (name : Name) (fields : List (Name × Ty))
  | var (name : Name) (ty : Ty)
  | func (name : Name) (params : List Ty) (result : Ty)
deriving DecidableEq, Repr

namespace Scope

/-- The scope of one frame without declarations. -/
def empty : Scope := ⟨Frame.empty, []⟩

/-- All frames, the innermost first. -/
def frames (scope : Scope) : List Frame :=
  scope.frame :: scope.outer

/-- The declaration of a struct, wherever along the chain it stands. -/
def struct? (scope : Scope) (name : Name) : Option StructDecl :=
  scope.frames.findSome? (·.struct? name)

/-- The type of a variable or function, in the innermost frame that has it. -/
def var? (scope : Scope) (name : Name) : Option Ty :=
  scope.frames.findSome? (·.var? name)

/-- A scope with a new innermost frame. -/
def child (scope : Scope) : Scope :=
  ⟨Frame.empty, scope.frames⟩

/-- Declares a struct unless the chain already has one of that name. -/
def declareStruct (decl : StructDecl) : Declaring Unit := do
  let scope ← get
  if (scope.struct? decl.name).isSome then
    throw (.structDeclared decl.name)
  else
    set { scope with
      frame := { scope.frame with structs := decl :: scope.frame.structs } }

/-- Declares a variable unless the innermost frame already has it. -/
def declareVar (name : Name) (ty : Ty) : Declaring Unit := do
  let scope ← get
  if (scope.frame.var? name).isSome then
    throw (.varDeclared name)
  else
    set { scope with
      frame := { scope.frame with vars := (name, ty) :: scope.frame.vars } }

/-- Makes a declaration.  A function is a variable of function type. -/
def declare : Declaration → Declaring Unit
  | .struct name fields =>
    match StructDecl.ofFields name fields with
    | .ok decl => declareStruct decl
    | .error e => throw e
  | .var name ty => declareVar name ty
  | .func name params result => declareVar name (.func params result)

@[simp]
theorem struct?_child (scope : Scope) (name : Name) :
    scope.child.struct? name = scope.struct? name := by
  simp [child, struct?, frames, Frame.empty, Frame.struct?, List.findSome?_cons]

@[simp]
theorem var?_child (scope : Scope) (name : Name) :
    scope.child.var? name = scope.var? name := by
  simp [child, var?, frames, Frame.empty, Frame.var?, List.findSome?_cons]

/-- The outcome of a declaration and the scope that it leaves behind. -/
@[simp]
theorem outcome_eq_iff {x y : Except ScopeError Unit} {a b : Scope} :
    @Eq (Id (Except ScopeError Unit × Scope)) (x, a) (y, b) ↔ x = y ∧ a = b :=
  Iff.of_eq (Prod.mk.injEq x a y b)

theorem declareStruct_eq_ite (scope : Scope) (decl : StructDecl) :
    scope.declareStruct decl =
      if (scope.struct? decl.name).isSome then
        (.error (.structDeclared decl.name), scope)
      else
        (.ok (), { scope with
          frame := { scope.frame with structs := decl :: scope.frame.structs } }) := by
  change (if (scope.struct? decl.name).isSome = true then _ else _ : Declaring Unit) scope = _
  split
  · rfl
  · rfl

theorem declareVar_eq_ite (scope : Scope) (name : Name) (ty : Ty) :
    scope.declareVar name ty =
      if (scope.frame.var? name).isSome then
        (.error (.varDeclared name), scope)
      else
        (.ok (), { scope with
          frame := { scope.frame with vars := (name, ty) :: scope.frame.vars } }) := by
  change (if (scope.frame.var? name).isSome = true then _ else _ : Declaring Unit) scope = _
  split
  · rfl
  · rfl

/-- A struct is refused exactly when the chain has one of its name. -/
theorem declareStruct_eq_error_iff {scope changed : Scope} {decl : StructDecl} {e : ScopeError} :
    scope.declareStruct decl = (.error e, changed) ↔
      (scope.struct? decl.name).isSome ∧ e = .structDeclared decl.name ∧ changed = scope := by
  rw [declareStruct_eq_ite]
  by_cases h : (scope.struct? decl.name).isSome
  · simp [h, eq_comm]
  · simp [h]

/-- A declared struct goes to the innermost frame, and its name was free before. -/
theorem declareStruct_eq_ok_iff {scope changed : Scope} {decl : StructDecl} :
    scope.declareStruct decl = (.ok (), changed) ↔
      scope.struct? decl.name = none ∧
        changed = { scope with
          frame := { scope.frame with structs := decl :: scope.frame.structs } } := by
  rw [declareStruct_eq_ite]
  cases h : scope.struct? decl.name with
  | none => simp [eq_comm]
  | some old => simp

/-- A variable is refused exactly when the innermost frame has it. -/
theorem declareVar_eq_error_iff {scope changed : Scope} {name : Name} {ty : Ty}
    {e : ScopeError} :
    scope.declareVar name ty = (.error e, changed) ↔
      (scope.frame.var? name).isSome ∧ e = .varDeclared name ∧ changed = scope := by
  rw [declareVar_eq_ite]
  by_cases h : (scope.frame.var? name).isSome
  · simp [h, eq_comm]
  · simp [h]

/-- A declared variable goes to the innermost frame, and its name was free there. -/
theorem declareVar_eq_ok_iff {scope changed : Scope} {name : Name} {ty : Ty} :
    scope.declareVar name ty = (.ok (), changed) ↔
      scope.frame.var? name = none ∧
        changed = { scope with
          frame := { scope.frame with vars := (name, ty) :: scope.frame.vars } } := by
  rw [declareVar_eq_ite]
  cases h : scope.frame.var? name with
  | none => simp [eq_comm]
  | some old => simp

theorem declare_struct_of_ok {name : Name} {fields : List (Name × Ty)} {decl : StructDecl}
    (h : StructDecl.ofFields name fields = .ok decl) :
    declare (.struct name fields) = declareStruct decl := by
  rw [declare, h]

theorem declare_struct_of_error {name : Name} {fields : List (Name × Ty)} {e : ScopeError}
    (h : StructDecl.ofFields name fields = .error e) (scope : Scope) :
    scope.declare (.struct name fields) = (.error e, scope) := by
  rw [declare, h]
  rfl

/-- A refused declaration changes nothing. -/
theorem declare_error_eq {scope changed : Scope} {declaration : Declaration} {e : ScopeError}
    (h : scope.declare declaration = (.error e, changed)) : changed = scope := by
  cases declaration with
  | struct name fields =>
    cases hform : StructDecl.ofFields name fields with
    | error reason =>
      rw [declare_struct_of_error hform] at h
      exact (congrArg Prod.snd h).symm
    | ok decl =>
      rw [declare_struct_of_ok hform] at h
      exact (declareStruct_eq_error_iff.1 h).2.2
  | var name ty => exact (declareVar_eq_error_iff.1 h).2.2
  | func name params result => exact (declareVar_eq_error_iff.1 h).2.2

/-- A declared variable is found in its scope, and no other lookup changes. -/
theorem var?_declareVar {scope changed : Scope} {name : Name} {ty : Ty}
    (h : scope.declareVar name ty = (.ok (), changed)) (other : Name) :
    changed.var? other = if name = other then some ty else scope.var? other := by
  obtain ⟨-, rfl⟩ := declareVar_eq_ok_iff.1 h
  by_cases hname : name = other
  · simp [var?, frames, Frame.var?, hname]
  · simp [var?, frames, List.findSome?_cons, Frame.var?, hname]

/-- A declared struct is found in its scope, and no other lookup changes. -/
theorem struct?_declareStruct {scope changed : Scope} {decl : StructDecl}
    (h : scope.declareStruct decl = (.ok (), changed)) (other : Name) :
    changed.struct? other = if decl.name = other then some decl else scope.struct? other := by
  obtain ⟨-, rfl⟩ := declareStruct_eq_ok_iff.1 h
  by_cases hname : decl.name = other
  · simp [struct?, frames, Frame.struct?, hname]
  · simp [struct?, frames, List.findSome?_cons, Frame.struct?, hname]

theorem var?_declareStruct {scope changed : Scope} {decl : StructDecl}
    (h : scope.declareStruct decl = (.ok (), changed)) (name : Name) :
    changed.var? name = scope.var? name := by
  obtain ⟨-, rfl⟩ := declareStruct_eq_ok_iff.1 h
  rfl

theorem struct?_declareVar {scope changed : Scope} {name : Name} {ty : Ty}
    (h : scope.declareVar name ty = (.ok (), changed)) (struct : Name) :
    changed.struct? struct = scope.struct? struct := by
  obtain ⟨-, rfl⟩ := declareVar_eq_ok_iff.1 h
  rfl

end Scope
end ExprTyping
