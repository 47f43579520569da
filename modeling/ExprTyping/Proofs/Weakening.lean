import ExprTyping.Proofs.Placement
import ExprTyping.Scope.Session

/-!
# More declarations do not break a typed expression

An expression with a known type has used successful lookups only: the variables it
mentions, and the structs whose members it selects.  A scope that gives the same
answers to these lookups therefore gives the same result of a check, down to the last
entry of the type table.

Scopes that come about by declarations are of this kind.  A struct cannot be declared
again anywhere along the chain, so its answer never changes; a variable can be hidden
only by a declaration of its own name, and in the outermost frame not even by that.
-/

namespace ExprTyping

/-! ## Scopes after a sequence of actions -/

/-- The variable that a declaration declares.  A function is one, a struct is not. -/
def Declaration.var? : Declaration → Option Name
  | .struct _ _ => none
  | .var name _ => some name
  | .func name _ _ => some name

namespace Scope

/-- The scope after an action, be it refused or not. -/
def act (scope : Scope) : Action → Scope
  | .child => scope.child
  | .declare declaration => (scope.declare declaration).2

/-- The scope after a sequence of actions. -/
def after (scope : Scope) (actions : List Action) : Scope :=
  actions.foldl act scope

/-- The variable that an action adds to a scope, unless it is refused. -/
def newVar? (scope : Scope) : Action → Option Name
  | .child => none
  | .declare declaration =>
    match (scope.declare declaration).1 with
    | .ok _ => declaration.var?
    | .error _ => none

/-- The variables that a sequence of actions adds to a scope. -/
def newVars (scope : Scope) : List Action → List Name
  | [] => []
  | action :: actions => (scope.newVar? action).toList ++ (scope.act action).newVars actions

/-- An accepted declaration adds one struct or one variable to the innermost frame. -/
theorem declare_eq_ok_cases
    {scope changed : Scope} {declaration : Declaration}
    (h : scope.declare declaration = (.ok (), changed)) :
    (declaration.var? = none ∧ ∃ decl, scope.declareStruct decl = (.ok (), changed)) ∨
      ∃ name ty, declaration.var? = some name ∧ scope.declareVar name ty = (.ok (), changed) := by
  cases declaration with
  | struct name fields =>
      rcases hform : StructDecl.ofFields name fields with e | decl
      · rw [declare_struct_of_error hform] at h
        simp at h
      · rw [declare_struct_of_ok hform] at h
        exact Or.inl ⟨rfl, decl, h⟩
  | var name ty => exact Or.inr ⟨name, ty, rfl, h⟩
  | func name params result => exact Or.inr ⟨name, _, rfl, h⟩

/-- A declaration is refused and changes nothing, or it adds a struct or a variable whose name
was free. -/
theorem act_declare_cases (scope : Scope) (declaration : Declaration) :
    (scope.newVar? (.declare declaration) = none ∧ scope.act (.declare declaration) = scope) ∨
    (scope.newVar? (.declare declaration) = none ∧
      ∃ decl, scope.declareStruct decl = (.ok (), scope.act (.declare declaration))) ∨
    ∃ name ty, scope.newVar? (.declare declaration) = some name ∧
      scope.declareVar name ty = (.ok (), scope.act (.declare declaration)) := by
  rw [act, newVar?]
  rcases hdeclare : scope.declare declaration with ⟨e | _, changed⟩
  · exact Or.inl ⟨rfl, declare_error_eq hdeclare⟩
  · rcases declare_eq_ok_cases hdeclare with ⟨hvar, hnew⟩ | ⟨name, ty, hvar, hnew⟩
    · exact Or.inr (Or.inl ⟨hvar, hnew⟩)
    · exact Or.inr (Or.inr ⟨name, ty, hvar, hnew⟩)

/-- A declared struct keeps its declaration. -/
theorem struct?_act
    {scope : Scope} {name : Name} {decl : StructDecl}
    (h : scope.struct? name = some decl) (action : Action) :
    (scope.act action).struct? name = some decl := by
  rcases action with declaration | _
  · rcases scope.act_declare_cases declaration with
      ⟨-, hsame⟩ | ⟨-, new, hnew⟩ | ⟨var, ty, -, hnew⟩
    · rw [hsame, h]
    · have hne : new.name ≠ name := by
        rintro rfl
        obtain ⟨hfree, -⟩ := declareStruct_eq_ok_iff.1 hnew
        rw [h] at hfree
        cases hfree
      rw [struct?_declareStruct hnew, if_neg hne, h]
    · rw [struct?_declareVar hnew, h]
  · rwa [act, struct?_child]

/-- A variable is looked up as before, unless the action has added it. -/
theorem var?_act
    {scope : Scope} {name : Name} {action : Action} (hnew : scope.newVar? action ≠ some name) :
    (scope.act action).var? name = scope.var? name := by
  rcases action with declaration | _
  · rcases scope.act_declare_cases declaration with
      ⟨-, hsame⟩ | ⟨-, decl, hdecl⟩ | ⟨var, ty, hvar, hdecl⟩
    · rw [hsame]
    · exact var?_declareStruct hdecl name
    · have hne : var ≠ name := by
        rintro rfl
        exact hnew hvar
      rw [var?_declareVar hdecl, if_neg hne]
  · rw [act, var?_child]

theorem struct?_after
    {scope : Scope} {name : Name} {decl : StructDecl}
    (h : scope.struct? name = some decl) (actions : List Action) :
    (scope.after actions).struct? name = some decl := by
  induction actions generalizing scope with
  | nil => exact h
  | cons action actions ih => exact ih (struct?_act h action)

theorem var?_after
    {scope : Scope} {name : Name} {actions : List Action} (hnew : name ∉ scope.newVars actions) :
    (scope.after actions).var? name = scope.var? name := by
  induction actions generalizing scope with
  | nil => rfl
  | cons action actions ih =>
      rw [newVars, List.mem_append, Option.mem_toList, not_or] at hnew
      obtain ⟨hfirst, hrest⟩ := hnew
      calc
        ((scope.act action).after actions).var? name = (scope.act action).var? name := ih hrest
        _ = scope.var? name := var?_act hfirst

/-! ### Declarations in the outermost scope -/

theorem outer_act_declare (scope : Scope) (declaration : Declaration) :
    (scope.act (.declare declaration)).outer = scope.outer := by
  rcases scope.act_declare_cases declaration with
    ⟨-, hsame⟩ | ⟨-, decl, hdecl⟩ | ⟨name, ty, -, hdecl⟩
  · rw [hsame]
  · rw [(declareStruct_eq_ok_iff.1 hdecl).2]
  · rw [(declareVar_eq_ok_iff.1 hdecl).2]

/-- A frame does not let one of its variables be declared again. -/
theorem newVar?_declare_ne
    {scope : Scope} {name : Name} {ty : Ty} (h : scope.frame.var? name = some ty)
    (declaration : Declaration) :
    scope.newVar? (.declare declaration) ≠ some name := by
  rcases scope.act_declare_cases declaration with
    ⟨hvar, -⟩ | ⟨hvar, -⟩ | ⟨var, ty, hvar, hdecl⟩
  · rw [hvar]
    exact nofun
  · rw [hvar]
    exact nofun
  · rw [hvar]
    rintro ⟨⟩
    obtain ⟨hfree, -⟩ := declareVar_eq_ok_iff.1 hdecl
    rw [h] at hfree
    cases hfree

theorem var?_eq_frame_var? {scope : Scope} (houter : scope.outer = []) (name : Name) :
    scope.var? name = scope.frame.var? name := by
  simp [var?, frames, houter]

/-- In an outermost scope no declaration changes what a variable means. -/
theorem var?_after_declare
    {scope : Scope} {name : Name} {ty : Ty} (houter : scope.outer = [])
    (h : scope.var? name = some ty) (declarations : List Declaration) :
    (scope.after (declarations.map .declare)).var? name = some ty := by
  induction declarations generalizing scope with
  | nil => exact h
  | cons declaration declarations ih =>
      have hframe : scope.frame.var? name = some ty := by
        rw [← var?_eq_frame_var? houter, h]
      apply ih
      · rw [outer_act_declare, houter]
      · rw [var?_act (newVar?_declare_ne hframe declaration), h]

end Scope

/-! ## Expressions in a wider scope -/

/-- An identifier of the expression at `root` has this name. -/
def Graph.Mentions (g : Graph) (root : NodeId) (name : Name) : Prop :=
  ∃ id span, g.Reaches root id ∧ g.node id = .ok ⟨.ident name, span⟩

theorem Graph.Mentions.of_operand
    {g : Graph} {root child : NodeId} {name : Name}
    (h : g.Mentions child name) (hchild : g.HasOperand root child) :
    g.Mentions root name := by
  obtain ⟨id, span, hreach, hnode⟩ := h
  exact ⟨id, span, Graph.Reaches.of_operand hchild hreach, hnode⟩

theorem Graph.WellFormed.mentions_iff
    {g : Graph} {root : NodeId} (h : g.WellFormed root) (name : Name) :
    g.Mentions root name ↔
      ∃ id ∈ g.nodesAt root, g.nodes[id.index]?.map Node.shape = some (.ident name) := by
  constructor
  · rintro ⟨id, span, hreach, hnode⟩
    refine ⟨id, (h.mem_nodesAt_iff id).2 hreach, ?_⟩
    rw [Graph.node_eq_ok_iff.1 hnode]
    rfl
  · rintro ⟨id, hmem, hshape⟩
    obtain ⟨n, hn, hident⟩ := Option.map_eq_some_iff.1 hshape
    refine ⟨id, n.span, (h.mem_nodesAt_iff id).1 hmem, Graph.node_eq_ok_iff.2 ?_⟩
    rw [hn, ← hident]

/-- The second scope answers all lookups of structs as the first one, and so those of
the variables for which it matters. -/
structure Scope.WidenedBy (scope wider : Scope) (matters : Name → Prop) : Prop where
  var? : ∀ name ty, matters name → scope.var? name = some ty → wider.var? name = some ty
  struct? : ∀ name decl, scope.struct? name = some decl → wider.struct? name = some decl

namespace Rule

theorem ident_of_known
    {scope wider : Scope} {name : Name}
    (hvar : ∀ ty, scope.var? name = some ty → wider.var? name = some ty)
    (hknown : (ident scope name).ty ≠ .unknown) :
    ident wider name = ident scope name := by
  unfold ident at hknown ⊢
  cases hfound : scope.var? name with
  | none =>
      rw [hfound] at hknown
      exact absurd rfl hknown
  | some ty => rw [hvar ty hfound]

theorem field_of_known
    {scope wider : Scope} {member : Name} {owner : Ty}
    (hstruct : ∀ name decl, scope.struct? name = some decl → wider.struct? name = some decl)
    (hknown : (field scope member owner).ty ≠ .unknown) :
    field wider member owner = field scope member owner := by
  cases owner with
  | struct name =>
      cases hfound : scope.struct? name with
      | none =>
          rw [field_of_undeclared member hfound] at hknown
          exact absurd rfl hknown
      | some decl =>
          rw [field_of_declared member hfound, field_of_declared member (hstruct name decl hfound)]
  | _ => rfl

end Rule

/-- A verdict that gives a known type rests on successful lookups only. -/
theorem Head.judge_of_known
    {scope wider : Scope} {head : Head} {types : List Ty}
    (hwider : scope.WidenedBy wider fun name => head = .ident name)
    (hknown : (head.judge scope types).ty ≠ .unknown) :
    head.judge wider types = head.judge scope types := by
  revert hknown
  fun_cases Head.judge scope head types with
  | case3 name => exact Rule.ident_of_known fun ty => hwider.var? name ty rfl
  | case8 member owner => exact Rule.field_of_known hwider.struct?
  | case12 => exact fun h => absurd rfl h
  | _ => exact fun _ => rfl

section Weakening

variable {g : Graph} {scope wider : Scope} {id root : NodeId} {n : Node}

theorem verdictAt_of_known
    (hn : g.node id = .ok n) (hwider : scope.WidenedBy wider (g.Mentions id))
    (htypes : ∀ child ∈ g.operands n.shape, typeAt g wider child = typeAt g scope child)
    (hknown : (verdictAt g scope n).ty ≠ .unknown) :
    verdictAt g wider n = verdictAt g scope n := by
  rw [verdictAt, List.map_congr_left htypes]
  refine Head.judge_of_known ⟨?_, hwider.struct?⟩ hknown
  intro name ty hhead
  apply hwider.var? name ty
  obtain ⟨shape, span⟩ := n
  cases shape with
  | ident name' =>
      cases hhead
      exact ⟨id, span, Graph.Reaches.refl g id, hn⟩
  | _ => cases hhead

/-- The visit of an expression with a known type finds out the same in a wider scope. -/
theorem visitAt_of_known (h : g.WellFormed root) :
    scope.WidenedBy wider (g.Mentions root) → typeAt g scope root ≠ .unknown →
      visitAt g wider root = visitAt g scope root := by
  refine h.induction ?_
  intro id n hn hid ih hwider hknown
  have hbelow : ∀ child ∈ g.operands n.shape, visitAt g wider child = visitAt g scope child := by
    intro child hchild
    have hedge := (Graph.hasOperand_iff hn).2 hchild
    apply ih child hchild
    · refine ⟨?_, hwider.struct?⟩
      intro name ty hmentions
      exact hwider.var? name ty (hmentions.of_operand hedge)
    · intro hunknown
      exact hknown (typeAt_eq_unknown_of_operand hid hedge hunknown)
  have htypes : ∀ child ∈ g.operands n.shape, typeAt g wider child = typeAt g scope child :=
    fun child hchild => congrArg Visit.ty (hbelow child hchild)
  have herrors : ∀ child ∈ g.operands n.shape, errorsAt g wider child = errorsAt g scope child :=
    fun child hchild => congrArg Visit.errors (hbelow child hchild)
  have hsettled : ∀ child ∈ g.operands n.shape,
      (visitAt g wider child).settled = (visitAt g scope child).settled :=
    fun child hchild => congrArg Visit.settled (hbelow child hchild)
  have hlog : ∀ child ∈ g.operands n.shape,
      (visitAt g wider child).log = (visitAt g scope child).log :=
    fun child hchild => congrArg Visit.log (hbelow child hchild)
  rw [typeAt_of_node hid hn] at hknown
  rw [visitAt_of_node hid hn, visitAt_of_node hid hn, verdictAt_of_known hn hwider htypes hknown]
  simp only [List.flatMap_def, List.map_congr_left herrors, List.map_congr_left hsettled,
    List.map_congr_left hlog]

theorem checkedAt_of_known
    (h : g.WellFormed root) (hwider : scope.WidenedBy wider (g.Mentions root))
    (hknown : typeAt g scope root ≠ .unknown) :
    checkedAt g wider root = checkedAt g scope root := by
  have hvisit := visitAt_of_known h hwider hknown
  rw [checkedAt, checkedAt, typeAt, typeAt, errorsAt, errorsAt, hvisit]

end Weakening

/-- Weakening: an expression with a known type keeps its result in every wider scope.

A well-formed expression can be checked.  If its type is known, there are no errors,
and the check gives the identical result in every scope that finds the structs of this
one and the variables that the expression mentions.  Such a scope comes about by any
declarations, refused ones among them, and by any nesting, as long as no variable that
is added is mentioned in the expression; and from an outermost scope by any
declarations in it at all. -/
theorem check_weakening
    (g : Graph) (scope : Scope) (root : NodeId) (h : g.WellFormed root) :
    ∃ result, check g scope root = .ok result ∧
      (result.ty ≠ .unknown →
        result.errors = [] ∧
        (∀ wider, scope.WidenedBy wider (g.Mentions root) →
          check g wider root = .ok result) ∧
        (∀ actions, (∀ name ∈ scope.newVars actions, ¬g.Mentions root name) →
          check g (scope.after actions) root = .ok result) ∧
        (scope.outer = [] → ∀ declarations : List Declaration,
          check g (scope.after (declarations.map .declare)) root = .ok result)) := by
  refine ⟨_, check_eq_ok h, ?_⟩
  intro hknown
  have hwiden : ∀ wider, scope.WidenedBy wider (g.Mentions root) →
      check g wider root = .ok (checkedAt g scope root) := by
    intro wider hwider
    rw [check_eq_ok h, checkedAt_of_known h hwider hknown]
  refine ⟨errorsAt_eq_nil_of_known h hknown, hwiden, ?_, ?_⟩
  · intro actions hnew
    apply hwiden
    refine ⟨?_, fun name decl hstruct => Scope.struct?_after hstruct actions⟩
    intro name ty hmentions hvar
    rw [Scope.var?_after fun hmem => hnew name hmem hmentions, hvar]
  · intro houter declarations
    apply hwiden
    refine ⟨?_, fun name decl hstruct => Scope.struct?_after hstruct _⟩
    intro name ty _ hvar
    exact Scope.var?_after_declare houter hvar declarations

/-- A struct `1` with the member `2`, a variable `3` of it and a function `4`. -/
def memberScope : Scope where
  frame :=
    { structs := [⟨⟨1⟩, [(⟨2⟩, .int)]⟩]
      vars := [(⟨4⟩, .func [.int] .bool), (⟨3⟩, .struct ⟨1⟩)] }
  outer := []

/-- The function `4` applied to the member `2` of the variable `3`. -/
def callOnMember : Graph where
  nodes :=
    #[⟨.call ⟨1⟩ ⟨0, 1⟩, Span.zero⟩, ⟨.ident ⟨4⟩, Span.zero⟩, ⟨.field ⟨3⟩ ⟨2⟩, Span.zero⟩,
      ⟨.ident ⟨3⟩, Span.zero⟩]
  args := #[⟨2⟩]

/-- Two nested scopes that both declare the variable `9` and, in vain, the struct `1`. -/
def nesting : List Scope.Action :=
  [.child, .declare (.struct ⟨1⟩ []), .declare (.var ⟨9⟩ .bool), .child,
    .declare (.func ⟨9⟩ [] .void), .declare (.struct ⟨1⟩ [(⟨2⟩, .bool)])]

/-- The variable `3` declared again, in vain, and a new function. -/
def redeclarations : List Declaration :=
  [.var ⟨3⟩ .int, .func ⟨5⟩ [.bool] .int]

theorem callOnMember_unchanged :
    callOnMember.WellFormed ⟨0⟩ ∧ memberScope.newVars nesting = [⟨9⟩, ⟨9⟩] ∧
      ∃ result, check callOnMember memberScope ⟨0⟩ = .ok result ∧
        result.ty = .bool ∧ result.errors = [] ∧
        check callOnMember (memberScope.after nesting) ⟨0⟩ = .ok result ∧
        check callOnMember (memberScope.after (redeclarations.map .declare)) ⟨0⟩ = .ok result := by
  have hwf : callOnMember.WellFormed ⟨0⟩ := by decide
  have hvars : memberScope.newVars nesting = [⟨9⟩, ⟨9⟩] := by decide
  have hnew : ∀ name ∈ memberScope.newVars nesting, ¬callOnMember.Mentions ⟨0⟩ name := by
    intro name hname
    rw [hvars] at hname
    obtain rfl : name = ⟨9⟩ := by simpa using hname
    rw [hwf.mentions_iff]
    decide +kernel
  obtain ⟨result, hcheck, hweaken⟩ := check_weakening callOnMember memberScope ⟨0⟩ hwf
  have hty : (check callOnMember memberScope ⟨0⟩).map Checked.ty = .ok .bool := by
    decide +kernel
  rw [hcheck] at hty
  have hbool : result.ty = .bool := Except.ok.inj hty
  obtain ⟨herrors, -, hactions, hdeclarations⟩ := hweaken (by rw [hbool]; exact nofun)
  exact ⟨hwf, hvars, result, hcheck, hbool, herrors, hactions nesting hnew,
    hdeclarations rfl redeclarations⟩

end ExprTyping
