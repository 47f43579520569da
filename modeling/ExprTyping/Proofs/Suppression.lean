import ExprTyping.Proofs.Compositionality
import Mathlib.Data.List.Forall2

/-!
# Errors do not rest on unknown types

Suppose that a node reports an error of its own and that the operands of unknown
type are replaced by operands of any types.  Then the error stays: it has the
same code and stands at the same position.  What the operands of known type show
to be wrong is enough for every error that is reported.
-/

namespace ExprTyping

/-- The second type is the first one unless the first is unknown. -/
def Ty.RefinedBy (ty finer : Ty) : Prop :=
  ty ≠ .unknown → finer = ty

/-- Known operand types leave no room for a refinement. -/
theorem eq_of_refinedBy
    {types finer : List Ty} (h : List.Forall₂ Ty.RefinedBy types finer)
    (hknown : Ty.unknown ∉ types) :
    finer = types := by
  induction h with
  | nil => rfl
  | @cons ty fine types finer hfirst _ ih =>
      obtain ⟨hne, hothers⟩ := not_or.1 (mt List.mem_cons.2 hknown)
      rw [hfirst (Ne.symm hne), ih hothers]

namespace Rule

/-- Arguments that are accepted are still accepted when some become unknown. -/
theorem acceptsAll_of_refinedBy
    {params types finer : List Ty} (h : List.Forall₂ Ty.RefinedBy types finer)
    (haccepts : acceptsAll params finer = true) :
    acceptsAll params types = true := by
  induction h generalizing params with
  | nil => exact haccepts
  | @cons ty fine types finer hfirst _ ih =>
      cases params with
      | nil => cases haccepts
      | cons param params =>
          obtain ⟨hfine, hrest⟩ := Bool.and_eq_true_iff.1 haccepts
          have hty : accepts param ty = true := by
            by_cases hunknown : ty = .unknown
            · simp [accepts, hunknown]
            · rwa [hfirst hunknown] at hfine
          exact Bool.and_eq_true_iff.2 ⟨hty, ih hrest⟩

theorem call_failed_of_refinedBy
    {callee finerCallee : Ty} {args finer : List Ty} {site : Site} {cause : Cause}
    (hcallee : callee.RefinedBy finerCallee) (hargs : List.Forall₂ Ty.RefinedBy args finer)
    (hfailed : call callee args = .failed site cause) :
    ∃ cause', call finerCallee finer = .failed site cause' ∧ cause'.code = cause.code := by
  have hsame : callee ≠ .unknown → finerCallee = callee := hcallee
  cases callee with
  | func params result =>
      rw [hsame Ty.noConfusion]
      by_cases haccepts : acceptsAll params args = true
      · rw [call, if_pos haccepts] at hfailed
        split at hfailed
        · cases hfailed
        · cases hfailed
      · rw [call, if_neg haccepts] at hfailed
        cases hfailed
        rw [call, if_neg (mt (acceptsAll_of_refinedBy hargs) haccepts)]
        exact ⟨_, rfl, rfl⟩
  | unknown => cases hfailed
  | _ =>
      rw [hsame Ty.noConfusion]
      exact ⟨cause, hfailed, rfl⟩

theorem append_failed_of_refinedBy
    {list finerList element finer : Ty} {site : Site} {cause : Cause}
    (hlist : list.RefinedBy finerList) (helement : element.RefinedBy finer)
    (hfailed : append list element = .failed site cause) :
    append finerList finer = .failed site cause := by
  have hsame : list ≠ .unknown → finerList = list := hlist
  cases list with
  | list inner =>
      have hknown : element ≠ .unknown := by
        rintro rfl
        simp [append, Ty.joins, Ty.isUnknown] at hfailed
      rw [hsame Ty.noConfusion, helement hknown]
      exact hfailed
  | unknown => cases hfailed
  | _ =>
      rw [hsame Ty.noConfusion]
      exact hfailed

end Rule

/-- An error of a rule outlives every refinement of the operand types. -/
theorem Head.judge_failed_of_refinedBy
    {scope : Scope} {head : Head} {types finer : List Ty} {site : Site} {cause : Cause}
    (h : List.Forall₂ Ty.RefinedBy types finer)
    (hfailed : head.judge scope types = .failed site cause) :
    ∃ cause', head.judge scope finer = .failed site cause' ∧ cause'.code = cause.code := by
  by_cases hunknown : Ty.unknown ∈ types
  · -- Only calls and appends report anything beside an operand of unknown type.
    revert hfailed
    fun_cases Head.judge scope head types with
    | case1 => exact absurd hunknown List.not_mem_nil
    | case2 => exact absurd hunknown List.not_mem_nil
    | case3 => exact absurd hunknown List.not_mem_nil
    | case4 op left right =>
        rw [Rule.binary_of_unknown hunknown]
        exact fun hfailed => Verdict.noConfusion hfailed
    | case5 op operand =>
        rw [← List.mem_singleton.1 hunknown]
        exact fun hfailed => Verdict.noConfusion hfailed
    | case6 callee args =>
        intro hfailed
        cases h with
        | cons hcallee hargs => exact Rule.call_failed_of_refinedBy hcallee hargs hfailed
    | case7 list position =>
        rw [Rule.index_of_unknown hunknown]
        exact fun hfailed => Verdict.noConfusion hfailed
    | case8 member owner =>
        rw [← List.mem_singleton.1 hunknown]
        exact fun hfailed => Verdict.noConfusion hfailed
    | case9 list =>
        rw [← List.mem_singleton.1 hunknown]
        exact fun hfailed => Verdict.noConfusion hfailed
    | case10 list element =>
        intro hfailed
        rcases h with _ | ⟨hlist, _ | ⟨helement, _ | _⟩⟩
        exact ⟨cause, Rule.append_failed_of_refinedBy hlist helement hfailed, rfl⟩
    | case11 inner => exact fun hfailed => Verdict.noConfusion hfailed
    | case12 => exact fun hfailed => Verdict.noConfusion hfailed
  · rw [eq_of_refinedBy h hunknown]
    exact ⟨cause, hfailed, rfl⟩

/-- A site that errors may stand at leads to the same position in all nodes with
as many operands. -/
theorem Site.resolve_position
    {site : Site} {cause : Cause} {types : List Ty} {id id' : NodeId}
    {operands operands' : List NodeId}
    (hblames : (Verdict.failed site cause).BlamesKnown types)
    (hlength : operands.length = types.length) (hlength' : operands'.length = types.length) :
    (site.resolve id operands = id ∧ site.resolve id' operands' = id') ∨
      ∃ position : Nat, operands[position]? = some (site.resolve id operands) ∧
        operands'[position]? = some (site.resolve id' operands') := by
  cases site with
  | self => exact Or.inl ⟨rfl, rfl⟩
  | operand position =>
      obtain ⟨ty, hty, -⟩ := hblames
      obtain ⟨hlt, -⟩ := List.getElem?_eq_some_iff.1 hty
      have hchild := List.getElem?_eq_getElem (hlength ▸ hlt)
      have hchild' := List.getElem?_eq_getElem (hlength' ▸ hlt)
      refine Or.inr ⟨position, ?_, ?_⟩
      · rw [Site.resolve, hchild]
        rfl
      · rw [Site.resolve, hchild']
        rfl

theorem Composed.length_operands
    {g : Graph} {scope : Scope} {id : NodeId} {n : Node}
    {operands : List Checked} {own : Option TypeError} {result : Checked}
    (h : Composed g scope id n operands own result) :
    (g.operands n.shape).length = (operands.map Checked.ty).length := by
  have hoperands := h.operands_checked
  rw [mapM_check_operands (wellFormed_of_check_ok h.checked) h.node] at hoperands
  rw [← Except.ok.inj hoperands]
  simp

/-- An error is never caused by an operand of unknown type.

Whatever types the operands of unknown type are replaced by, a rule that fails
still fails at the same site with the same code.  Hence, if a node reports an
error of its own, so does every node of the same head whose operands have the
same types wherever these are known, with the same code and at the same position. -/
theorem errors_survive_refinement (scope : Scope) :
    (∀ head types finer site cause,
      List.Forall₂ Ty.RefinedBy types finer →
      Head.judge scope head types = .failed site cause →
      ∃ cause', head.judge scope finer = .failed site cause' ∧ cause'.code = cause.code) ∧
    ∀ g g' id id' n n' operands operands' own' result result' e,
      Composed g scope id n operands (some e) result →
      Composed g' scope id' n' operands' own' result' →
      n'.shape.head = n.shape.head →
      List.Forall₂ Ty.RefinedBy (operands.map Checked.ty) (operands'.map Checked.ty) →
      ∃ e', own' = some e' ∧ e'.code = e.code ∧
        ((e.node = id ∧ e'.node = id') ∨
          ∃ position : Nat, (g.operands n.shape)[position]? = some e.node ∧
            (g'.operands n'.shape)[position]? = some e'.node) := by
  refine ⟨fun _ _ _ _ _ => Head.judge_failed_of_refinedBy, ?_⟩
  intro g g' id id' n n' operands operands' own' result result' e h h' hhead hrefined
  obtain ⟨site, cause, hfailed, rfl⟩ := Verdict.error?_eq_some_iff.1 h.eq_verdict.2.symm
  obtain ⟨cause', hfailed', hcode⟩ := Head.judge_failed_of_refinedBy hrefined hfailed
  have hblames := n.shape.head.judge_blamesKnown scope (operands.map Checked.ty)
  rw [hfailed] at hblames
  rw [← hhead] at hfailed'
  have hown' := h'.eq_verdict.2
  rw [hfailed'] at hown'
  have hlength' := h'.length_operands.trans hrefined.length_eq.symm
  exact ⟨_, hown', hcode, Site.resolve_position hblames h.length_operands hlength'⟩

/-- A function `1` of an integer and a truth value. -/
def functionScope : Scope where
  frame := { structs := [], vars := [(⟨1⟩, .func [.int, .bool] .int)] }
  outer := []

/-- Two calls of the function with a number as second argument.  The first
argument is an undeclared variable in the one and a number in the other. -/
def twoCalls : Graph where
  nodes :=
    #[⟨.ident ⟨1⟩, Span.zero⟩, ⟨.ident ⟨7⟩, Span.zero⟩, ⟨.int 5, Span.zero⟩,
      ⟨.call ⟨0⟩ ⟨0, 2⟩, Span.zero⟩, ⟨.call ⟨0⟩ ⟨2, 4⟩, Span.zero⟩]
  args := #[⟨1⟩, ⟨2⟩, ⟨2⟩, ⟨2⟩]

theorem twoCalls_fail_alike :
    ∃ n n' operands operands' own' result result' e,
      Composed twoCalls functionScope ⟨3⟩ n operands (some e) result ∧
      Composed twoCalls functionScope ⟨4⟩ n' operands' own' result' ∧
      operands.map Checked.ty = [.func [.int, .bool] .int, .unknown, .int] ∧
      operands'.map Checked.ty = [.func [.int, .bool] .int, .int, .int] ∧
      ∃ e', own' = some e' ∧ e'.code = e.code := by
  have h : Composed twoCalls functionScope ⟨3⟩ _ _ _ _ :=
    composed_checkedAt functionScope (by decide) rfl
  have h' : Composed twoCalls functionScope ⟨4⟩ _ _ _ _ :=
    composed_checkedAt functionScope (by decide) rfl
  have hown : ownError? twoCalls functionScope ⟨3⟩ =
      some ⟨⟨3⟩, Span.zero, .argumentMismatch [.int, .bool] [.unknown, .int]⟩ := by
    decide +kernel
  have htypes : ((twoCalls.operands (.call ⟨0⟩ ⟨0, 2⟩)).map
      (checkedAt twoCalls functionScope)).map Checked.ty =
        [.func [.int, .bool] .int, .unknown, .int] := by
    decide +kernel
  have htypes' : ((twoCalls.operands (.call ⟨0⟩ ⟨2, 4⟩)).map
      (checkedAt twoCalls functionScope)).map Checked.ty =
        [.func [.int, .bool] .int, .int, .int] := by
    decide +kernel
  rw [hown] at h
  have hrefined : List.Forall₂ Ty.RefinedBy
      [.func [.int, .bool] .int, .unknown, .int] [.func [.int, .bool] .int, .int, .int] :=
    .cons (fun _ => rfl) (.cons (fun hne => absurd rfl hne) (.cons (fun _ => rfl) .nil))
  rw [← htypes, ← htypes'] at hrefined
  obtain ⟨e', hown', hcode, -⟩ := (errors_survive_refinement functionScope).2
    _ _ _ _ _ _ _ _ _ _ _ _ h h' rfl hrefined
  exact ⟨_, _, _, _, _, _, _, _, h, h', htypes, htypes', e', hown', hcode⟩

end ExprTyping
