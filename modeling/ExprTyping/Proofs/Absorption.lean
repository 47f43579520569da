import ExprTyping.Proofs.Rule
import ExprTyping.Proofs.Visit

/-!
# The unknown type is absorbing

A node of unknown type leaves all nodes above it without a type, and so does an
error.  Nothing that is wrong with a part of an expression is lost on the way to
its root.

Conversely, in a scope whose declarations have no unknown parts, an expression of
unknown type contains an error or one of the three cases for which there is no
error.
-/

namespace ExprTyping

/-! ## Types without unknown parts -/

/-- No part of the type is unknown. -/
inductive Ty.Known : Ty → Prop where
  | int : Known .int
  | bool : Known .bool
  | void : Known .void
  | list {element : Ty} (helement : Known element) : Known (.list element)
  | struct {name : Name} : Known (.struct name)
  | func {params : List Ty} {result : Ty}
      (hparams : ∀ param ∈ params, Known param) (hresult : Known result) :
      Known (.func params result)

/-- No lookup in the scope gives a type with an unknown part. -/
structure Scope.Known (scope : Scope) : Prop where
  var? : ∀ name ty, scope.var? name = some ty → ty.Known
  field? : ∀ name decl member ty,
    scope.struct? name = some decl → decl.field? member = some ty → ty.Known

theorem Ty.Known.ne_unknown {ty : Ty} (h : ty.Known) : ty ≠ .unknown := by
  rintro rfl
  cases h

/-- The verdict does not rest on something unknown. -/
def Verdict.Definite : Verdict → Prop
  | .typed ty => ty.Known
  | .suppressed => False
  | _ => True

namespace Rule

variable {scope : Scope}

theorem ident_definite (hscope : scope.Known) (name : Name) :
    (ident scope name).Definite := by
  unfold ident
  cases hvar : scope.var? name with
  | none => trivial
  | some ty => exact hscope.var? name ty hvar

theorem result?_known
    {op : BinOp} {left right ty : Ty} (h : op.result? left right = some ty) :
    ty.Known := by
  unfold BinOp.result? at h
  split at h
  · rcases BinOp.onInts_eq_some_iff.1 h with ⟨-, rfl⟩ | ⟨-, rfl⟩ | ⟨-, rfl⟩
    · exact .int
    · exact .bool
    · exact .void
  · rcases BinOp.onBools_eq_some_iff.1 h with ⟨-, rfl⟩ | ⟨-, rfl⟩
    · exact .bool
    · exact .void
  · rcases BinOp.onValues_eq_some_iff.1 h with ⟨-, rfl⟩ | ⟨-, rfl⟩
    · exact .bool
    · exact .void
  · rcases BinOp.onValues_eq_some_iff.1 h with ⟨-, rfl⟩ | ⟨-, rfl⟩
    · exact .bool
    · exact .void
  · obtain ⟨-, rfl⟩ := BinOp.onLists_eq_some_iff.1 h
    exact .void
  · cases h

theorem binary_definite
    (op : BinOp) {left right : Ty} (hleft : left.Known) (hright : right.Known) :
    (binary op left right).Definite := by
  rw [binary, if_neg (Ty.not_isUnknown_or hleft.ne_unknown hright.ne_unknown)]
  cases hresult : op.result? left right with
  | none => trivial
  | some ty => exact result?_known hresult

theorem unary_definite (op : UnOp) {operand : Ty} (h : operand.Known) :
    (unary op operand).Definite := by
  cases h with
  | int =>
      cases op with
      | minus => exact .int
      | not => trivial
  | bool =>
      cases op with
      | minus => trivial
      | not => exact .bool
  | _ => trivial

theorem call_definite
    {callee : Ty} {args : List Ty} (hcallee : callee.Known)
    (hargs : ∀ arg ∈ args, arg.Known) :
    (call callee args).Definite := by
  cases hcallee with
  | @func params result _ hresult =>
      have hany : ¬args.any Ty.isUnknown = true := by
        simpa using fun hmem => (hargs _ hmem).ne_unknown rfl
      rw [call, if_neg hany]
      split
      · exact hresult
      · trivial
  | _ => trivial

theorem index_definite
    {list position : Ty} (hlist : list.Known) (hposition : position.Known) :
    (index list position).Definite := by
  cases hlist with
  | list helement =>
      cases hposition with
      | int => exact helement
      | _ => trivial
  | _ => cases hposition <;> trivial

theorem field_definite
    (hscope : scope.Known) (member : Name) {owner : Ty} (howner : owner.Known) :
    (field scope member owner).Definite := by
  cases howner with
  | @struct name =>
      cases hstruct : scope.struct? name with
      | none =>
          rw [field_of_undeclared member hstruct]
          trivial
      | some decl =>
          rw [field_of_declared member hstruct]
          cases hfield : decl.field? member with
          | none => trivial
          | some ty => exact hscope.field? name decl member ty hstruct hfield
  | _ => trivial

theorem size_definite {list : Ty} (hlist : list.Known) : (size list).Definite := by
  cases hlist with
  | list _ => exact .int
  | _ => trivial

theorem append_definite
    {list element : Ty} (hlist : list.Known) (helement : element.Known) :
    (append list element).Definite := by
  cases hlist with
  | @list inner hinner =>
      rw [append, if_neg (Ty.not_isUnknown_or hinner.ne_unknown helement.ne_unknown)]
      split
      · exact .void
      · trivial
  | _ => trivial

end Rule

section Inference

variable {g : Graph} {scope : Scope} {id root : NodeId} {n : Node}

/-- Operands of known types let every rule decide. -/
theorem verdictAt_definite
    (hscope : scope.Known)
    (hknown : ∀ child ∈ g.operands n.shape, (typeAt g scope child).Known) :
    (verdictAt g scope n).Definite := by
  obtain ⟨shape, span⟩ := n
  cases shape with
  | int value => exact .int
  | bool value => exact .bool
  | ident name => exact Rule.ident_definite hscope name
  | binary op left right =>
      have hleft := hknown left (by simp [Graph.operands])
      have hright := hknown right (by simp [Graph.operands])
      exact Rule.binary_definite op hleft hright
  | unary op operand =>
      exact Rule.unary_definite op (hknown operand (by simp [Graph.operands]))
  | call callee args =>
      have hcallee := hknown callee (by simp [Graph.operands])
      apply Rule.call_definite hcallee
      intro ty hty
      obtain ⟨arg, harg, rfl⟩ := List.mem_map.1 hty
      exact hknown arg (by simp [Graph.operands, harg])
  | index list position =>
      have hlist := hknown list (by simp [Graph.operands])
      have hposition := hknown position (by simp [Graph.operands])
      exact Rule.index_definite hlist hposition
  | field owner member =>
      exact Rule.field_definite hscope member (hknown owner (by simp [Graph.operands]))
  | size list => exact Rule.size_definite (hknown list (by simp [Graph.operands]))
  | append list element =>
      have hlist := hknown list (by simp [Graph.operands])
      have helement := hknown element (by simp [Graph.operands])
      exact Rule.append_definite hlist helement
  | paren inner => exact hknown inner (by simp [Graph.operands])

/-! ## From a node to the root -/

theorem typeAt_eq_unknown_of_operand
    (h : g.WellFormed id) {child : NodeId} (hchild : g.HasOperand id child)
    (hunknown : typeAt g scope child = .unknown) :
    typeAt g scope id = .unknown := by
  obtain ⟨n, hn, hmem⟩ := hchild
  rw [typeAt_of_node h hn]
  exact Head.judge_ty_of_unknown_mem scope (List.mem_map.2 ⟨child, hmem, hunknown⟩)

theorem typeAt_eq_unknown_of_reaches
    (h : g.WellFormed root) (hreach : g.Reaches root id)
    (hunknown : typeAt g scope id = .unknown) :
    typeAt g scope root = .unknown := by
  induction hreach using Relation.ReflTransGen.head_induction_on with
  | refl => exact hunknown
  | head hchild hrest ih =>
      have hbelow := ih (h.of_reaches (Relation.ReflTransGen.single hchild))
      exact typeAt_eq_unknown_of_operand h hchild hbelow

/-- An error anywhere in an expression leaves it without a type. -/
theorem typeAt_eq_unknown_of_errors (h : g.WellFormed root) :
    errorsAt g scope root ≠ [] → typeAt g scope root = .unknown := by
  refine h.induction ?_
  intro id n hn hid ih herrors
  rw [errorsAt_of_node hid hn] at herrors
  by_cases hbelow : (g.operands n.shape).flatMap (errorsAt g scope) = []
  · have hown : (verdictAt g scope n).error? g id (g.operands n.shape) ≠ none := by
      simpa [hbelow] using herrors
    rw [typeAt_of_node hid hn]
    cases hverdict : verdictAt g scope n with
    | failed site cause => rfl
    | _ => exact absurd (by rw [hverdict]; rfl) hown
  · obtain ⟨child, hchild, hne⟩ : ∃ child ∈ g.operands n.shape, errorsAt g scope child ≠ [] := by
      simpa [List.flatMap_eq_nil_iff] using hbelow
    exact typeAt_eq_unknown_of_operand hid ((Graph.hasOperand_iff hn).2 hchild)
      (ih child hchild hne)

/-- Where no declaration has unknown parts, neither has any inferred type, unless
it is unknown itself. -/
theorem typeAt_eq_unknown_or_known (h : g.WellFormed root) (hscope : scope.Known) :
    typeAt g scope root = .unknown ∨ (typeAt g scope root).Known := by
  refine h.induction ?_
  intro id n hn hid ih
  by_cases hunknown : ∃ child ∈ g.operands n.shape, typeAt g scope child = .unknown
  · obtain ⟨child, hchild, hty⟩ := hunknown
    exact Or.inl (typeAt_eq_unknown_of_operand hid ((Graph.hasOperand_iff hn).2 hchild) hty)
  · have hdefinite : (verdictAt g scope n).Definite := by
      apply verdictAt_definite hscope
      intro child hchild
      exact (ih child hchild).resolve_left fun hty => hunknown ⟨child, hchild, hty⟩
    rw [typeAt_of_node hid hn]
    cases hverdict : verdictAt g scope n with
    | typed ty =>
        rw [hverdict] at hdefinite
        exact Or.inr hdefinite
    | _ => exact Or.inl rfl

/-- Where all operands have a type, a rule decides without suppressing anything. -/
theorem verdictAt_definite_of_ne_unknown
    (h : g.WellFormed id) (hn : g.node id = .ok n) (hscope : scope.Known)
    (hoperands : ∀ child ∈ g.operands n.shape, typeAt g scope child ≠ .unknown) :
    (verdictAt g scope n).Definite := by
  apply verdictAt_definite hscope
  intro child hchild
  exact (typeAt_eq_unknown_or_known (h.operand hn hchild) hscope).resolve_left
    (hoperands child hchild)

end Inference

/-! ## Nodes without a type and without an error -/

/-- A node has no type although its operands have, and no error describes it: a
unary operator on neither a number nor a truth value, an index of a non-list by a
non-number, or a member of a struct that is not declared. -/
inductive SilentCause (g : Graph) (scope : Scope) (types : NodeId → Option Ty)
    (id : NodeId) : Prop where
  | unary {op : UnOp} {operand : NodeId} {span : Span} {ty : Ty}
      (hnode : g.node id = .ok ⟨.unary op operand, span⟩)
      (hoperand : types operand = some ty)
      (hty : ty ≠ .int ∧ ty ≠ .bool ∧ ty ≠ .unknown)
  | index {list position : NodeId} {span : Span} {listTy positionTy : Ty}
      (hnode : g.node id = .ok ⟨.index list position, span⟩)
      (hlist : types list = some listTy) (hposition : types position = some positionTy)
      (hlistTy : (∀ element, listTy ≠ .list element) ∧ listTy ≠ .unknown)
      (hpositionTy : positionTy ≠ .int ∧ positionTy ≠ .unknown)
  | field {owner : NodeId} {member : Name} {span : Span} {name : Name}
      (hnode : g.node id = .ok ⟨.field owner member, span⟩)
      (howner : types owner = some (.struct name)) (hstruct : scope.struct? name = none)

/-- The verdict leaves the node without a type for a reason of its own that is no
error. -/
def Verdict.isSilent : Verdict → Bool
  | .silent _ | .undeclared _ => true
  | _ => false

namespace Rule

theorem ident_isSilent (scope : Scope) (name : Name) : (ident scope name).isSilent = false := by
  unfold ident
  cases scope.var? name <;> rfl

theorem binary_isSilent (op : BinOp) (left right : Ty) :
    (binary op left right).isSilent = false := by
  unfold binary
  split
  · rfl
  · cases op.result? left right <;> rfl

theorem call_isSilent (callee : Ty) (args : List Ty) : (call callee args).isSilent = false := by
  cases callee with
  | func params result =>
      rw [call]
      split
      · split <;> rfl
      · rfl
  | _ => rfl

theorem size_isSilent (list : Ty) : (size list).isSilent = false := by
  cases list <;> rfl

theorem append_isSilent (list element : Ty) : (append list element).isSilent = false := by
  cases list with
  | list inner =>
      rw [append]
      split
      · rfl
      · split <;> rfl
  | _ => rfl

theorem unary_isSilent_iff {op : UnOp} {operand : Ty} :
    (unary op operand).isSilent = true ↔
      operand ≠ .int ∧ operand ≠ .bool ∧ operand ≠ .unknown := by
  cases operand <;> cases op <;> simp [unary, Verdict.isSilent]

theorem index_isSilent_iff {list position : Ty} :
    (index list position).isSilent = true ↔
      ((∀ element, list ≠ .list element) ∧ list ≠ .unknown) ∧
        position ≠ .int ∧ position ≠ .unknown := by
  cases list <;> cases position <;> simp [index, Verdict.isSilent]

theorem field_isSilent_iff {scope : Scope} {member : Name} {owner : Ty} :
    (field scope member owner).isSilent = true ↔
      ∃ name, owner = .struct name ∧ scope.struct? name = none := by
  cases owner with
  | struct name =>
      cases hstruct : scope.struct? name with
      | none => simp [field_of_undeclared member hstruct, Verdict.isSilent, hstruct]
      | some decl =>
          rw [field_of_declared member hstruct]
          cases decl.field? member <;> simp [Verdict.isSilent, hstruct]
  | _ => simp [field, Verdict.isSilent]

end Rule

/-- The silent causes are the silent verdicts. -/
theorem silentCause_iff
    {g : Graph} {scope : Scope} {types : NodeId → Option Ty} {id : NodeId} {n : Node}
    (hn : g.node id = .ok n)
    (htypes : ∀ child ∈ g.operands n.shape, types child = some (typeAt g scope child)) :
    SilentCause g scope types id ↔ (verdictAt g scope n).isSilent = true := by
  constructor
  · intro hcause
    cases hcause with
    | @unary op operand span ty hnode hoperand hty =>
        obtain rfl := Except.ok.inj (hn.symm.trans hnode)
        rw [htypes operand (by simp [Graph.operands])] at hoperand
        obtain rfl := Option.some.inj hoperand
        exact Rule.unary_isSilent_iff.2 hty
    | @index list position span listTy positionTy hnode hlist hposition hlistTy hpositionTy =>
        obtain rfl := Except.ok.inj (hn.symm.trans hnode)
        rw [htypes list (by simp [Graph.operands])] at hlist
        rw [htypes position (by simp [Graph.operands])] at hposition
        obtain rfl := Option.some.inj hlist
        obtain rfl := Option.some.inj hposition
        exact Rule.index_isSilent_iff.2 ⟨hlistTy, hpositionTy⟩
    | @field owner member span name hnode howner hstruct =>
        obtain rfl := Except.ok.inj (hn.symm.trans hnode)
        rw [htypes owner (by simp [Graph.operands])] at howner
        exact Rule.field_isSilent_iff.2 ⟨name, Option.some.inj howner, hstruct⟩
  · intro hsilent
    obtain ⟨shape, span⟩ := n
    cases shape with
    | int value => cases hsilent
    | bool value => cases hsilent
    | ident name =>
        exact Bool.noConfusion (hsilent.symm.trans (Rule.ident_isSilent scope name))
    | binary op left right =>
        exact Bool.noConfusion (hsilent.symm.trans (Rule.binary_isSilent op _ _))
    | unary op operand =>
        have hoperand := htypes operand (by simp [Graph.operands])
        exact .unary hn hoperand (Rule.unary_isSilent_iff.1 hsilent)
    | call callee args =>
        exact Bool.noConfusion (hsilent.symm.trans (Rule.call_isSilent _ _))
    | index list position =>
        have hlist := htypes list (by simp [Graph.operands])
        have hposition := htypes position (by simp [Graph.operands])
        obtain ⟨hlistTy, hpositionTy⟩ := Rule.index_isSilent_iff.1 hsilent
        exact .index hn hlist hposition hlistTy hpositionTy
    | field owner member =>
        have howner := htypes owner (by simp [Graph.operands])
        obtain ⟨name, hty, hstruct⟩ := Rule.field_isSilent_iff.1 hsilent
        rw [hty] at howner
        exact .field hn howner hstruct
    | size list => exact Bool.noConfusion (hsilent.symm.trans (Rule.size_isSilent _))
    | append list element =>
        exact Bool.noConfusion (hsilent.symm.trans (Rule.append_isSilent _ _))
    | paren inner => cases hsilent

/-! ## Accounting for every unknown type -/

section Accounting

variable {g : Graph} {scope : Scope} {id root : NodeId} {n : Node}

theorem typeOf_checkedAt_operand
    (scope : Scope) (h : g.WellFormed root) (hreach : g.Reaches root id) (hn : g.node id = .ok n) :
    ∀ child ∈ g.operands n.shape,
      (checkedAt g scope root).typeOf child = some (typeAt g scope child) := by
  intro child hchild
  have hbelow : g.Reaches root child :=
    Relation.ReflTransGen.tail hreach ((Graph.hasOperand_iff hn).2 hchild)
  exact (typeOf_checkedAt_iff h child _).2 ⟨hbelow, rfl⟩

theorem typeAt_eq_unknown_of_silentCause
    (h : g.WellFormed root) (hreach : g.Reaches root id)
    (hcause : SilentCause g scope (checkedAt g scope root).typeOf id) :
    typeAt g scope id = .unknown := by
  obtain ⟨n, hn⟩ := (h.of_reaches hreach).exists_node
  have hsilent := (silentCause_iff hn (typeOf_checkedAt_operand scope h hreach hn)).1 hcause
  rw [typeAt_of_node (h.of_reaches hreach) hn]
  cases hverdict : verdictAt g scope n with
  | typed ty =>
      rw [hverdict] at hsilent
      cases hsilent
  | _ => rfl

/-- A node of unknown type leads down to an error or to a silent cause. -/
theorem errors_or_silentCause_of_unknown
    (h : g.WellFormed root) (hscope : scope.Known) (hid : g.WellFormed id) :
    g.Reaches root id → typeAt g scope id = .unknown →
      errorsAt g scope id ≠ [] ∨
        ∃ below, g.Reaches id below ∧
          SilentCause g scope (checkedAt g scope root).typeOf below := by
  refine hid.induction ?_
  intro id n hn hid ih hreach hunknown
  by_cases hoperand : ∃ child ∈ g.operands n.shape, typeAt g scope child = .unknown
  · obtain ⟨child, hchild, hty⟩ := hoperand
    have hedge := (Graph.hasOperand_iff hn).2 hchild
    rcases ih child hchild (Relation.ReflTransGen.tail hreach hedge) hty with
      herrors | ⟨below, hbelow, hcause⟩
    · left
      rw [errorsAt_of_node hid hn]
      intro hnil
      have hnone := (List.append_eq_nil_iff.1 hnil).1
      exact herrors (List.flatMap_eq_nil_iff.1 hnone child hchild)
    · exact Or.inr ⟨below, Graph.Reaches.of_operand hedge hbelow, hcause⟩
  · have hdefinite := verdictAt_definite_of_ne_unknown hid hn hscope
      fun child hchild hty => hoperand ⟨child, hchild, hty⟩
    have hsilent := silentCause_iff hn (typeOf_checkedAt_operand scope h hreach hn)
    rw [typeAt_of_node hid hn] at hunknown
    cases hverdict : verdictAt g scope n with
    | typed ty =>
        rw [hverdict] at hdefinite hunknown
        exact absurd hunknown hdefinite.ne_unknown
    | failed site cause =>
        left
        rw [errorsAt_of_node hid hn, hverdict]
        simp [Verdict.error?]
    | suppressed =>
        rw [hverdict] at hdefinite
        exact hdefinite.elim
    | silent silence =>
        exact Or.inr ⟨id, Graph.Reaches.refl g id, hsilent.2 (by rw [hverdict]; rfl)⟩
    | undeclared name =>
        exact Or.inr ⟨id, Graph.Reaches.refl g id, hsilent.2 (by rw [hverdict]; rfl)⟩

end Accounting

/-- Nothing is silently accepted, and silence is accounted for.

A well-formed expression can be checked.  It has no type if one of its nodes has
none or an error was found; and if no declaration of the scope has unknown parts,
it has no type exactly if an error was found or one of its nodes is a silent
cause. -/
theorem check_ty_eq_unknown_iff
    (g : Graph) (scope : Scope) (root : NodeId) (h : g.WellFormed root) :
    ∃ result, check g scope root = .ok result ∧
      ((∃ id, g.Reaches root id ∧ result.typeOf id = some .unknown) ∨ result.errors ≠ [] →
        result.ty = .unknown) ∧
      (scope.Known →
        (result.ty = .unknown ↔
          result.errors ≠ [] ∨
            ∃ id, g.Reaches root id ∧ SilentCause g scope result.typeOf id)) := by
  refine ⟨_, check_eq_ok h, ?_, ?_⟩
  · rintro (⟨id, hreach, htype⟩ | herrors)
    · exact typeAt_eq_unknown_of_reaches h hreach ((typeOf_checkedAt_iff h id _).1 htype).2
    · exact typeAt_eq_unknown_of_errors h herrors
  · intro hscope
    constructor
    · intro hunknown
      exact errors_or_silentCause_of_unknown h hscope h (Graph.Reaches.refl g root) hunknown
    · rintro (herrors | ⟨id, hreach, hcause⟩)
      · exact typeAt_eq_unknown_of_errors h herrors
      · exact typeAt_eq_unknown_of_reaches h hreach
          (typeAt_eq_unknown_of_silentCause h hreach hcause)

/-- A variable `1` that is a list of integers. -/
def listScope : Scope where
  frame := { structs := [], vars := [(⟨1⟩, .list .int)] }
  outer := []

theorem listScope_known : listScope.Known where
  var? name ty hvar := by
    by_cases hname : (⟨1⟩ : Name) = name
    · have hty : Ty.list .int = ty := by
        simpa [listScope, Scope.var?, Scope.frames, Frame.var?, hname] using hvar
      rw [← hty]
      exact .list .int
    · simp [listScope, Scope.var?, Scope.frames, Frame.var?, hname] at hvar
  field? name decl member ty hstruct := by
    simp [listScope, Scope.struct?, Scope.frames, Frame.struct?] at hstruct

/-- The negation of a list, in parentheses. -/
def negatedList : Graph where
  nodes := #[⟨.ident ⟨1⟩, Span.zero⟩, ⟨.unary .minus ⟨0⟩, Span.zero⟩, ⟨.paren ⟨1⟩, Span.zero⟩]
  args := #[]

theorem negatedList_silent :
    negatedList.WellFormed ⟨2⟩ ∧ listScope.Known ∧
      ∃ result, check negatedList listScope ⟨2⟩ = .ok result ∧
        result.ty = .unknown ∧ result.errors = [] ∧
        ∃ id, negatedList.Reaches ⟨2⟩ id ∧
          SilentCause negatedList listScope result.typeOf id := by
  obtain ⟨result, hcheck, -, hiff⟩ :=
    check_ty_eq_unknown_iff negatedList listScope ⟨2⟩ (by decide)
  have heval : (check negatedList listScope ⟨2⟩).map (fun result => (result.ty, result.errors)) =
      .ok (.unknown, []) := by
    decide +kernel
  rw [hcheck] at heval
  obtain ⟨hty, herrors⟩ := Prod.ext_iff.1 (Except.ok.inj heval)
  have hcause := ((hiff listScope_known).1 hty).resolve_left (not_not.2 herrors)
  exact ⟨by decide, listScope_known, result, hcheck, hty, herrors, hcause⟩

end ExprTyping
