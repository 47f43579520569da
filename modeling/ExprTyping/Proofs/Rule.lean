import ExprTyping.Rule

/-!
# Facts about single rules

The types of the binary operators as tables, and what the rules have in common:
they see no more of a scope than its lookups, an operand of unknown type leaves
the node without a type in every position of every head, and no error is attached
to such an operand.
-/

namespace ExprTyping

/-! ## Tables of the binary operators -/

namespace BinOp

theorem onInts_eq_some_iff {op : BinOp} {ty : Ty} :
    op.onInts = some ty ↔
      (op ∈ [BinOp.add, .sub, .mul, .div] ∧ ty = .int) ∨
      (op ∈ [BinOp.eq, .gt, .lt] ∧ ty = .bool) ∨ (op = .assign ∧ ty = .void) := by
  cases op <;> simp [onInts, eq_comm]

theorem onBools_eq_some_iff {op : BinOp} {ty : Ty} :
    op.onBools = some ty ↔
      (op ∈ [BinOp.and, .or, .eq] ∧ ty = .bool) ∨ (op = .assign ∧ ty = .void) := by
  cases op <;> simp [onBools, eq_comm]

theorem onValues_eq_some_iff {op : BinOp} {ty : Ty} :
    op.onValues = some ty ↔ (op = .eq ∧ ty = .bool) ∨ (op = .assign ∧ ty = .void) := by
  cases op <;> simp [onValues, eq_comm]

theorem onLists_eq_some_iff {op : BinOp} {ty : Ty} :
    op.onLists = some ty ↔ op = .assign ∧ ty = .void := by
  cases op <;> simp [onLists, eq_comm]

end BinOp

namespace Ty

theorem eq_unknown_or_of_mem {a b : Ty} (h : Ty.unknown ∈ [a, b]) :
    a = .unknown ∨ b = .unknown := by
  simpa [eq_comm] using h

theorem not_isUnknown_or {a b : Ty} (ha : a ≠ .unknown) (hb : b ≠ .unknown) :
    ¬(a.isUnknown || b.isUnknown) = true := by
  simp [ha, hb]

end Ty

/-! ## Dependence on the scope -/

/-- Two scopes answer every lookup alike. -/
structure Scope.SameLookups (a b : Scope) : Prop where
  var? : ∀ name, a.var? name = b.var? name
  struct? : ∀ name, a.struct? name = b.struct? name

namespace Rule

theorem ident_congr
    {a b : Scope} (h : a.SameLookups b) (name : Name) :
    ident a name = ident b name := by
  rw [ident, ident, h.var?]

theorem field_congr
    {a b : Scope} (h : a.SameLookups b) (member : Name) (owner : Ty) :
    field a member owner = field b member owner := by
  cases owner with
  | struct name => rw [field, field, h.struct?]
  | _ => rfl

theorem field_of_undeclared
    {scope : Scope} {name : Name} (member : Name) (hstruct : scope.struct? name = none) :
    field scope member (.struct name) = .undeclared name := by
  simp [field, hstruct]

theorem field_of_declared
    {scope : Scope} {name : Name} {decl : StructDecl} (member : Name)
    (hstruct : scope.struct? name = some decl) :
    field scope member (.struct name) =
      match decl.field? member with
      | some ty => .typed ty
      | none => .failed .self (.unknownMember name member) := by
  cases hfield : decl.field? member with
  | none => simp [field, hstruct, hfield]
  | some ty => simp [field, hstruct, hfield]

/-! ## Operands of unknown type -/

theorem binary_of_unknown
    {op : BinOp} {left right : Ty} (h : Ty.unknown ∈ [left, right]) :
    binary op left right = .suppressed := by
  rcases Ty.eq_unknown_or_of_mem h with rfl | rfl
  · rfl
  · simp [binary]

theorem call_of_unknown
    {callee : Ty} {args : List Ty} (h : Ty.unknown ∈ callee :: args) :
    (call callee args).ty = .unknown := by
  cases callee with
  | func params result =>
      have hany : args.any Ty.isUnknown = true := by
        simpa using h
      by_cases haccepts : acceptsAll params args = true
      · simp [call, haccepts, hany, Verdict.ty]
      · simp [call, haccepts, Verdict.ty]
  | _ => rfl

theorem index_of_unknown
    {list position : Ty} (h : Ty.unknown ∈ [list, position]) :
    index list position = .suppressed := by
  rcases Ty.eq_unknown_or_of_mem h with rfl | rfl
  · rfl
  · cases list <;> rfl

theorem append_of_unknown
    {list element : Ty} (h : Ty.unknown ∈ [list, element]) :
    (append list element).ty = .unknown := by
  rcases Ty.eq_unknown_or_of_mem h with rfl | rfl
  · rfl
  · cases list with
    | list inner => simp [append, Ty.joins, Ty.isUnknown, Verdict.ty]
    | _ => rfl

end Rule

namespace Head

/-- Only the rules for identifiers and members look into the scope. -/
theorem judge_eq_of_rules
    {a b : Scope} (hident : ∀ name, Rule.ident a name = Rule.ident b name)
    (hfield : ∀ member owner, Rule.field a member owner = Rule.field b member owner)
    (head : Head) (types : List Ty) :
    head.judge a types = head.judge b types := by
  unfold judge
  simp only [hident, hfield]

/-- A rule sees no more of a scope than its lookups. -/
theorem judge_congr
    {a b : Scope} (h : a.SameLookups b) (head : Head) (types : List Ty) :
    head.judge a types = head.judge b types :=
  judge_eq_of_rules (Rule.ident_congr h) (Rule.field_congr h) head types

/-- An operand of unknown type leaves every node without a type. -/
theorem judge_ty_of_unknown_mem
    (scope : Scope) {head : Head} {types : List Ty} (h : Ty.unknown ∈ types) :
    (head.judge scope types).ty = .unknown := by
  fun_cases judge scope head types with
  | case1 => exact absurd h List.not_mem_nil
  | case2 => exact absurd h List.not_mem_nil
  | case3 => exact absurd h List.not_mem_nil
  | case4 op left right => exact congrArg Verdict.ty (Rule.binary_of_unknown h)
  | case5 op operand =>
      rw [← List.mem_singleton.1 h]
      rfl
  | case6 callee args => exact Rule.call_of_unknown h
  | case7 list position => exact congrArg Verdict.ty (Rule.index_of_unknown h)
  | case8 member owner =>
      rw [← List.mem_singleton.1 h]
      rfl
  | case9 list =>
      rw [← List.mem_singleton.1 h]
      rfl
  | case10 list element => exact Rule.append_of_unknown h
  | case11 inner =>
      rw [← List.mem_singleton.1 h]
      rfl
  | case12 => rfl

end Head

/-! ## Where errors stand -/

/-- An error that the verdict attaches to an operand stands at one of known type. -/
def Verdict.BlamesKnown (types : List Ty) : Verdict → Prop
  | .failed (.operand position) _ => ∃ ty, types[position]? = some ty ∧ ty ≠ .unknown
  | _ => True

namespace Rule

theorem ident_blamesKnown (scope : Scope) (name : Name) :
    (ident scope name).BlamesKnown [] := by
  unfold ident
  cases scope.var? name <;> trivial

theorem binary_blamesKnown (op : BinOp) (left right : Ty) :
    (binary op left right).BlamesKnown [left, right] := by
  unfold binary
  split
  · trivial
  · cases op.result? left right <;> trivial

theorem unary_blamesKnown (op : UnOp) (operand : Ty) :
    (unary op operand).BlamesKnown [operand] := by
  cases operand <;> cases op <;> trivial

theorem call_blamesKnown (callee : Ty) (args : List Ty) :
    (call callee args).BlamesKnown (callee :: args) := by
  cases callee with
  | func params result =>
      rw [call]
      split
      · split <;> trivial
      · trivial
  | unknown => trivial
  | _ => exact ⟨_, rfl, Ty.noConfusion⟩

theorem index_blamesKnown (list position : Ty) :
    (index list position).BlamesKnown [list, position] := by
  cases list with
  | list element =>
      cases position with
      | int => trivial
      | unknown => trivial
      | _ => exact ⟨_, rfl, Ty.noConfusion⟩
  | _ => cases position <;> trivial

theorem field_blamesKnown (scope : Scope) (member : Name) (owner : Ty) :
    (field scope member owner).BlamesKnown [owner] := by
  cases owner with
  | struct name =>
      cases hstruct : scope.struct? name with
      | none =>
          rw [field_of_undeclared member hstruct]
          trivial
      | some decl =>
          rw [field_of_declared member hstruct]
          cases decl.field? member <;> trivial
  | _ => trivial

theorem size_blamesKnown (list : Ty) : (size list).BlamesKnown [list] := by
  cases list with
  | list element => trivial
  | unknown => trivial
  | _ => exact ⟨_, rfl, Ty.noConfusion⟩

theorem append_blamesKnown (list element : Ty) :
    (append list element).BlamesKnown [list, element] := by
  cases list with
  | list inner =>
      by_cases hknown : element = .unknown
      · simp [append, hknown, Ty.joins, Ty.isUnknown, Verdict.BlamesKnown]
      · rw [append]
        split
        · trivial
        · split
          · trivial
          · exact ⟨element, rfl, hknown⟩
  | unknown => trivial
  | _ => exact ⟨_, rfl, Ty.noConfusion⟩

end Rule

theorem Head.judge_blamesKnown (scope : Scope) (head : Head) (types : List Ty) :
    (head.judge scope types).BlamesKnown types := by
  fun_cases judge scope head types with
  | case3 name => exact Rule.ident_blamesKnown scope name
  | case4 op left right => exact Rule.binary_blamesKnown op left right
  | case5 op operand => exact Rule.unary_blamesKnown op operand
  | case6 callee args => exact Rule.call_blamesKnown callee args
  | case7 list position => exact Rule.index_blamesKnown list position
  | case8 member owner => exact Rule.field_blamesKnown scope member owner
  | case9 list => exact Rule.size_blamesKnown list
  | case10 list element => exact Rule.append_blamesKnown list element
  | _ => trivial

end ExprTyping
