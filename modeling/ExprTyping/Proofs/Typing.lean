import ExprTyping.Proofs.Rule
import ExprTyping.Proofs.Visit

/-!
# The type system

A declarative account of which expressions have a type.  `TypingRule` lists the
cases in which a node has a type, given the types of its operands; `HasType`
applies the rules throughout an expression.  Neither mentions the unknown type
except to exclude it, and neither says what happens in any other case.

Inference is sound and complete for this type system: the type that it gives to a
well-formed expression is the one that can be derived, and it is unknown exactly
if none can.
-/

namespace ExprTyping

/-- The type of a node with the given head and operand types. -/
inductive TypingRule (scope : Scope) : Head → List Ty → Ty → Prop where
  | int : TypingRule scope .int [] .int
  | bool : TypingRule scope .bool [] .bool
  | ident {name : Name} {ty : Ty}
      (hvar : scope.var? name = some ty) (hknown : ty ≠ .unknown) :
      TypingRule scope (.ident name) [] ty
  | paren {ty : Ty} : TypingRule scope .paren [ty] ty
  | arithmetic {op : BinOp} (hop : op ∈ [BinOp.add, .sub, .mul, .div]) :
      TypingRule scope (.binary op) [.int, .int] .int
  | comparison {op : BinOp} (hop : op ∈ [BinOp.eq, .gt, .lt]) :
      TypingRule scope (.binary op) [.int, .int] .bool
  | assignInts : TypingRule scope (.binary .assign) [.int, .int] .void
  | logical {op : BinOp} (hop : op ∈ [BinOp.and, .or, .eq]) :
      TypingRule scope (.binary op) [.bool, .bool] .bool
  | assignBools : TypingRule scope (.binary .assign) [.bool, .bool] .void
  | eqFuncs {params params' : List Ty} {result result' : Ty} :
      TypingRule scope (.binary .eq) [.func params result, .func params' result'] .bool
  | assignFuncs {params params' : List Ty} {result result' : Ty} :
      TypingRule scope (.binary .assign) [.func params result, .func params' result'] .void
  | eqStructs {name name' : Name} :
      TypingRule scope (.binary .eq) [.struct name, .struct name'] .bool
  | assignStructs {name name' : Name} :
      TypingRule scope (.binary .assign) [.struct name, .struct name'] .void
  | assignLists {element element' : Ty} :
      TypingRule scope (.binary .assign) [.list element, .list element'] .void
  | not : TypingRule scope (.unary .not) [.bool] .bool
  | minus : TypingRule scope (.unary .minus) [.int] .int
  | index {element : Ty} (hknown : element ≠ .unknown) :
      TypingRule scope .index [.list element, .int] element
  | field {name member : Name} {decl : StructDecl} {ty : Ty}
      (hstruct : scope.struct? name = some decl) (hfield : decl.field? member = some ty)
      (hknown : ty ≠ .unknown) :
      TypingRule scope (.field member) [.struct name] ty
  | size {element : Ty} : TypingRule scope .size [.list element] .int
  | appendInt : TypingRule scope .append [.list .int, .int] .void
  | appendBool : TypingRule scope .append [.list .bool, .bool] .void
  | appendStruct {name name' : Name} :
      TypingRule scope .append [.list (.struct name), .struct name'] .void
  | appendList {element element' : Ty} :
      TypingRule scope .append [.list (.list element), .list element'] .void
  | call {params : List Ty} {result : Ty} (hknown : result ≠ .unknown) :
      TypingRule scope .call (.func params result :: params) result

/-- A node has the type that a rule gives it for the types of its operands. -/
inductive HasType (g : Graph) (scope : Scope) : NodeId → Ty → Prop where
  | node {id : NodeId} {n : Node} {types : List Ty} {ty : Ty}
      (hnode : g.node id = .ok n)
      (hlength : (g.operands n.shape).length = types.length)
      (hoperands : ∀ pair ∈ (g.operands n.shape).zip types, HasType g scope pair.1 pair.2)
      (hrule : TypingRule scope n.shape.head types ty) :
      HasType g scope id ty

/-! ## The types given by the rules can be derived -/

namespace TypingRule

variable {scope : Scope}

theorem of_result?
    {op : BinOp} {left right ty : Ty} (h : op.result? left right = some ty) :
    TypingRule scope (.binary op) [left, right] ty := by
  unfold BinOp.result? at h
  split at h
  · rcases BinOp.onInts_eq_some_iff.1 h with ⟨hop, rfl⟩ | ⟨hop, rfl⟩ | ⟨rfl, rfl⟩
    · exact .arithmetic hop
    · exact .comparison hop
    · exact .assignInts
  · rcases BinOp.onBools_eq_some_iff.1 h with ⟨hop, rfl⟩ | ⟨rfl, rfl⟩
    · exact .logical hop
    · exact .assignBools
  · rcases BinOp.onValues_eq_some_iff.1 h with ⟨rfl, rfl⟩ | ⟨rfl, rfl⟩
    · exact .eqStructs
    · exact .assignStructs
  · rcases BinOp.onValues_eq_some_iff.1 h with ⟨rfl, rfl⟩ | ⟨rfl, rfl⟩
    · exact .eqFuncs
    · exact .assignFuncs
  · obtain ⟨rfl, rfl⟩ := BinOp.onLists_eq_some_iff.1 h
    exact .assignLists
  · cases h

theorem of_ident {name : Name} (h : (Rule.ident scope name).ty ≠ .unknown) :
    TypingRule scope (.ident name) [] (Rule.ident scope name).ty := by
  unfold Rule.ident at h ⊢
  cases hvar : scope.var? name with
  | none => simp [hvar, Verdict.ty] at h
  | some ty =>
      rw [hvar] at h
      exact .ident hvar h

theorem of_binary
    {op : BinOp} {left right : Ty} (h : (Rule.binary op left right).ty ≠ .unknown) :
    TypingRule scope (.binary op) [left, right] (Rule.binary op left right).ty := by
  by_cases hunknown : (left.isUnknown || right.isUnknown) = true
  · rw [Rule.binary, if_pos hunknown] at h
    exact absurd rfl h
  · rw [Rule.binary, if_neg hunknown] at h ⊢
    cases hresult : op.result? left right with
    | none => simp [hresult, Verdict.ty] at h
    | some ty => exact of_result? hresult

theorem of_unary {op : UnOp} {operand : Ty} (h : (Rule.unary op operand).ty ≠ .unknown) :
    TypingRule scope (.unary op) [operand] (Rule.unary op operand).ty := by
  cases operand with
  | int =>
      cases op with
      | minus => exact .minus
      | not => exact absurd rfl h
  | bool =>
      cases op with
      | minus => exact absurd rfl h
      | not => exact .not
  | _ => exact absurd rfl h

theorem eq_of_acceptsAll
    {params args : List Ty} (haccepts : Rule.acceptsAll params args = true)
    (hknown : Ty.unknown ∉ args) :
    args = params := by
  fun_induction Rule.acceptsAll params args with
  | case1 => rfl
  | case2 param params arg args ih =>
      obtain ⟨hfirst, hrest⟩ := Bool.and_eq_true_iff.1 haccepts
      obtain ⟨hne, hothers⟩ := not_or.1 (mt List.mem_cons.2 hknown)
      have harg : arg = param := by
        simpa [Rule.accepts, Ne.symm hne] using hfirst
      rw [harg, ih hrest hothers]
  | case3 => cases haccepts

theorem acceptsAll_self (params : List Ty) : Rule.acceptsAll params params = true := by
  induction params with
  | nil => rfl
  | cons param params ih => simp [Rule.acceptsAll, Rule.accepts, ih]

theorem call_ty_of_known
    {params : List Ty} {result : Ty} (hknown : Ty.unknown ∉ params) :
    (Rule.call (.func params result) params).ty = result := by
  have hany : ¬params.any Ty.isUnknown = true := by
    simpa using hknown
  rw [Rule.call, if_pos (acceptsAll_self params), if_neg hany]
  rfl

theorem of_call {callee : Ty} {args : List Ty} (h : (Rule.call callee args).ty ≠ .unknown) :
    TypingRule scope .call (callee :: args) (Rule.call callee args).ty := by
  cases callee with
  | func params result =>
      have hknown : Ty.unknown ∉ args := fun hmem =>
        h (Rule.call_of_unknown (List.mem_cons_of_mem _ hmem))
      by_cases haccepts : Rule.acceptsAll params args = true
      · obtain rfl := eq_of_acceptsAll haccepts hknown
        rw [call_ty_of_known hknown] at h ⊢
        exact .call h
      · rw [Rule.call, if_neg haccepts] at h
        exact absurd rfl h
  | _ => exact absurd rfl h

theorem of_index {list position : Ty} (h : (Rule.index list position).ty ≠ .unknown) :
    TypingRule scope .index [list, position] (Rule.index list position).ty := by
  cases list with
  | list element =>
      cases position with
      | int => exact .index h
      | _ => exact absurd rfl h
  | unknown => exact absurd rfl h
  | _ => cases position <;> exact absurd rfl h

theorem of_field {member : Name} {owner : Ty} (h : (Rule.field scope member owner).ty ≠ .unknown) :
    TypingRule scope (.field member) [owner] (Rule.field scope member owner).ty := by
  cases owner with
  | struct name =>
      cases hstruct : scope.struct? name with
      | none =>
          rw [Rule.field_of_undeclared member hstruct] at h
          exact absurd rfl h
      | some decl =>
          rw [Rule.field_of_declared member hstruct] at h ⊢
          cases hfield : decl.field? member with
          | none =>
              rw [hfield] at h
              exact absurd rfl h
          | some ty =>
              rw [hfield] at h
              exact .field hstruct hfield h
  | _ => exact absurd rfl h

theorem of_size {list : Ty} (h : (Rule.size list).ty ≠ .unknown) :
    TypingRule scope .size [list] (Rule.size list).ty := by
  cases list with
  | list element => exact .size
  | _ => exact absurd rfl h

theorem of_joins {inner element : Ty} (h : element.joins inner = true) :
    TypingRule scope .append [.list inner, element] .void := by
  unfold Ty.joins at h
  split at h
  · exact .appendInt
  · exact .appendBool
  · exact .appendStruct
  · exact .appendList
  · cases h

theorem of_append {list element : Ty} (h : (Rule.append list element).ty ≠ .unknown) :
    TypingRule scope .append [list, element] (Rule.append list element).ty := by
  cases list with
  | list inner =>
      by_cases hjoins : element.joins inner = true
      · rw [Rule.append, if_pos hjoins]
        exact of_joins hjoins
      · rw [Rule.append, if_neg hjoins] at h
        split at h
        · exact absurd rfl h
        · exact absurd rfl h
  | _ => exact absurd rfl h

/-- Every type that a verdict gives is one of the type system. -/
theorem of_judge
    {head : Head} {types : List Ty} (h : (head.judge scope types).ty ≠ .unknown) :
    TypingRule scope head types (head.judge scope types).ty := by
  revert h
  fun_cases Head.judge scope head types with
  | case1 => exact fun _ => .int
  | case2 => exact fun _ => .bool
  | case3 name => exact of_ident
  | case4 op left right => exact of_binary
  | case5 op operand => exact of_unary
  | case6 callee args => exact of_call
  | case7 list position => exact of_index
  | case8 member owner => exact of_field
  | case9 list => exact of_size
  | case10 list element => exact of_append
  | case11 inner => exact fun _ => .paren
  | case12 => exact fun h => absurd rfl h

/-! ## The types that can be derived are given by the rules -/

theorem binary_ty_of_result?
    {op : BinOp} {left right ty : Ty} (hknown : Ty.unknown ∉ [left, right])
    (h : op.result? left right = some ty) :
    (Rule.binary op left right).ty = ty := by
  have hleft : left ≠ .unknown := fun heq => hknown (by simp [heq])
  have hright : right ≠ .unknown := fun heq => hknown (by simp [heq])
  rw [Rule.binary, if_neg (Ty.not_isUnknown_or hleft hright), h]
  rfl

/-- The verdict on a node gives it the type of the type system. -/
theorem judge_ty_eq
    {head : Head} {types : List Ty} {ty : Ty}
    (hrule : TypingRule scope head types ty) (hknown : Ty.unknown ∉ types) :
    (head.judge scope types).ty = ty := by
  cases hrule with
  | int => rfl
  | bool => rfl
  | ident hvar _ => simp [Head.judge, Rule.ident, hvar, Verdict.ty]
  | paren => rfl
  | arithmetic hop =>
      exact binary_ty_of_result? hknown (BinOp.onInts_eq_some_iff.2 (.inl ⟨hop, rfl⟩))
  | comparison hop =>
      exact binary_ty_of_result? hknown (BinOp.onInts_eq_some_iff.2 (.inr (.inl ⟨hop, rfl⟩)))
  | logical hop =>
      exact binary_ty_of_result? hknown (BinOp.onBools_eq_some_iff.2 (.inl ⟨hop, rfl⟩))
  | field hstruct hfield _ => simp [Head.judge, Rule.field, hstruct, hfield, Verdict.ty]
  | call _ => exact call_ty_of_known (mt (List.mem_cons_of_mem _) hknown)
  | _ => rfl

theorem ne_unknown
    {head : Head} {types : List Ty} {ty : Ty}
    (hrule : TypingRule scope head types ty) (hknown : Ty.unknown ∉ types) :
    ty ≠ .unknown := by
  cases hrule with
  | ident _ hty => exact hty
  | paren => exact fun hty => hknown (by simp [hty])
  | index hty => exact hty
  | field _ _ hty => exact hty
  | call hty => exact hty
  | _ => exact Ty.noConfusion

end TypingRule

/-! ## Soundness and completeness -/

namespace HasType

variable {g : Graph} {scope : Scope} {id root : NodeId} {ty : Ty}

theorem unknown_notMem_of_zip
    {ids : List NodeId} {types : List Ty} (hlength : ids.length = types.length)
    (h : ∀ pair ∈ ids.zip types, pair.2 ≠ .unknown) :
    Ty.unknown ∉ types := by
  intro hmem
  rw [← List.map_snd_zip (Nat.le_of_eq hlength.symm)] at hmem
  obtain ⟨pair, hpair, hsnd⟩ := List.mem_map.1 hmem
  exact h pair hpair hsnd

/-- No expression has the unknown type. -/
theorem ne_unknown (h : HasType g scope id ty) : ty ≠ .unknown := by
  induction h with
  | node _ hlength _ hrule ih => exact hrule.ne_unknown (unknown_notMem_of_zip hlength ih)

/-- A type that can be derived is inferred. -/
theorem typeAt_eq (h : HasType g scope id ty) (hwf : g.WellFormed id) :
    typeAt g scope id = ty := by
  induction h with
  | @node id n types ty hnode hlength hoperands hrule ih =>
      have htypes : (g.operands n.shape).map (typeAt g scope) = types := by
        calc
          (g.operands n.shape).map (typeAt g scope) =
              ((g.operands n.shape).zip types).map (typeAt g scope ∘ Prod.fst) := by
            rw [← List.map_map, List.map_fst_zip (Nat.le_of_eq hlength)]
          _ = ((g.operands n.shape).zip types).map Prod.snd := by
            apply List.map_congr_left
            intro pair hpair
            exact ih pair hpair (hwf.operand hnode (List.of_mem_zip hpair).1)
          _ = types := List.map_snd_zip (Nat.le_of_eq hlength.symm)
      have hknown : Ty.unknown ∉ types :=
        unknown_notMem_of_zip hlength fun pair hpair => (hoperands pair hpair).ne_unknown
      rw [typeAt_of_node hwf hnode, verdictAt, htypes]
      exact hrule.judge_ty_eq hknown

/-- A type that is inferred can be derived. -/
theorem of_typeAt (hwf : g.WellFormed root) :
    typeAt g scope root ≠ .unknown → HasType g scope root (typeAt g scope root) := by
  refine hwf.induction ?_
  intro id n hn hid ih hknown
  rw [typeAt_of_node hid hn] at hknown ⊢
  refine .node hn (List.length_map _).symm ?_ (.of_judge hknown)
  intro pair hpair
  have hzip : (g.operands n.shape).zip ((g.operands n.shape).map (typeAt g scope)) =
      (g.operands n.shape).map fun child => (child, typeAt g scope child) := by
    simpa using List.zip_map' (f := fun child => child) (g := typeAt g scope)
      (l := g.operands n.shape)
  rw [hzip] at hpair
  obtain ⟨child, hchild, rfl⟩ := List.mem_map.1 hpair
  apply ih child hchild
  intro hunknown
  exact hknown (Head.judge_ty_of_unknown_mem scope (List.mem_map.2 ⟨child, hchild, hunknown⟩))

end HasType

/-- Inference is sound and complete: a well-formed expression can be checked, and
a known type is the type of the result exactly if it can be derived. -/
theorem check_ty_eq_iff_hasType
    (g : Graph) (scope : Scope) (root : NodeId) (h : g.WellFormed root) :
    ∃ result, check g scope root = .ok result ∧
      ∀ ty, ty ≠ .unknown → (result.ty = ty ↔ HasType g scope root ty) := by
  refine ⟨_, check_eq_ok h, ?_⟩
  intro ty hknown
  constructor
  · rintro rfl
    exact HasType.of_typeAt h hknown
  · intro hty
    exact hty.typeAt_eq h

/-- A list `1` of integers, and a variable `2` of a struct `3` with a member `4`. -/
def pointScope : Scope where
  frame :=
    { structs := [⟨⟨3⟩, [(⟨4⟩, .int)]⟩]
      vars := [(⟨1⟩, .list .int), (⟨2⟩, .struct ⟨3⟩)] }
  outer := []

/-- The member plus the size of the list, appended to the list; then negated. -/
def appendSum : Graph where
  nodes :=
    #[⟨.ident ⟨1⟩, Span.zero⟩, ⟨.ident ⟨2⟩, Span.zero⟩, ⟨.field ⟨1⟩ ⟨4⟩, Span.zero⟩,
      ⟨.size ⟨0⟩, Span.zero⟩, ⟨.binary .add ⟨2⟩ ⟨3⟩, Span.zero⟩, ⟨.append ⟨0⟩ ⟨4⟩, Span.zero⟩,
      ⟨.unary .minus ⟨5⟩, Span.zero⟩]
  args := #[]

theorem appendSum_hasType :
    appendSum.WellFormed ⟨5⟩ ∧ HasType appendSum pointScope ⟨5⟩ .void ∧
      appendSum.WellFormed ⟨6⟩ ∧ ∀ ty, ¬HasType appendSum pointScope ⟨6⟩ ty := by
  obtain ⟨sum, hsum, hvoid⟩ :=
    check_ty_eq_iff_hasType appendSum pointScope ⟨5⟩ (by decide)
  obtain ⟨negated, hnegated, hnone⟩ :=
    check_ty_eq_iff_hasType appendSum pointScope ⟨6⟩ (by decide)
  have hsumTy : (check appendSum pointScope ⟨5⟩).map Checked.ty = .ok .void := by
    decide +kernel
  have hnegatedTy : (check appendSum pointScope ⟨6⟩).map Checked.ty = .ok .unknown := by
    decide +kernel
  rw [hsum] at hsumTy
  rw [hnegated] at hnegatedTy
  refine ⟨by decide, (hvoid .void (by decide)).1 (Except.ok.inj hsumTy), by decide, ?_⟩
  intro ty hty
  have hknown := hty.ne_unknown
  exact hknown (((hnone ty hknown).2 hty).symm.trans (Except.ok.inj hnegatedTy))

end ExprTyping
