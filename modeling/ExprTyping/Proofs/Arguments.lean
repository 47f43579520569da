import ExprTyping.Proofs.Suppression

/-!
# Arguments of unknown type

A call can be wrong although some of its arguments have no type: their number or the types
of the others may already rule out the parameters.  The rule for calls reports a mismatch
in exactly these cases.  As long as some choice of types in place of the unknown ones would
give the parameters, it reports nothing, and the call has the type of its result if there is
nothing left to choose.
-/

namespace ExprTyping

namespace Ty

/-- The types with `fill i` in place of an unknown type at position `i`. -/
def fillUnknown (fill : Nat → Ty) (types : List Ty) : List Ty :=
  types.mapIdx fun i ty => if ty = .unknown then fill i else ty

/-- Some choice of types in place of the unknown ones turns the arguments into the
parameters. -/
def Fillable (args params : List Ty) : Prop :=
  ∃ fill, fillUnknown fill args = params

theorem fillUnknown_cons (fill : Nat → Ty) (ty : Ty) (types : List Ty) :
    fillUnknown fill (ty :: types) =
      (if ty = .unknown then fill 0 else ty) :: fillUnknown (fun i => fill (i + 1)) types :=
  List.mapIdx_cons

end Ty

open Ty

namespace Rule

theorem acceptsAll_fillUnknown (fill : Nat → Ty) (args : List Ty) :
    acceptsAll (fillUnknown fill args) args = true := by
  induction args generalizing fill with
  | nil => rfl
  | cons arg args ih =>
      rw [fillUnknown_cons, acceptsAll, ih, Bool.and_true, accepts]
      by_cases hunknown : arg = .unknown
      · simp [hunknown]
      · simp [hunknown]

theorem fillable_of_acceptsAll {params args : List Ty} (h : acceptsAll params args = true) :
    Fillable args params := by
  induction args generalizing params with
  | nil =>
      cases params with
      | nil => exact ⟨fun _ => .unknown, rfl⟩
      | cons param params => cases h
  | cons arg args ih =>
      cases params with
      | nil => cases h
      | cons param params =>
          obtain ⟨hfirst, hrest⟩ := Bool.and_eq_true_iff.1 h
          obtain ⟨fill, hfill⟩ := ih hrest
          refine ⟨fun i => i.casesOn param fill, ?_⟩
          rw [fillUnknown_cons, hfill]
          by_cases hunknown : arg = .unknown
          · rw [if_pos hunknown]
            rfl
          · have harg : arg = param := by
              simpa [accepts, hunknown] using hfirst
            rw [if_neg hunknown, harg]

/-- Arguments are accepted exactly if the unknown types among them can be chosen so that the
parameters result. -/
theorem acceptsAll_iff_fillable {params args : List Ty} :
    acceptsAll params args = true ↔ Fillable args params := by
  constructor
  · exact fillable_of_acceptsAll
  · rintro ⟨fill, rfl⟩
    exact acceptsAll_fillUnknown fill args

end Rule

instance (args params : List Ty) : Decidable (Fillable args params) :=
  decidable_of_iff _ Rule.acceptsAll_iff_fillable

namespace Rule

theorem call_of_not_fillable {params args : List Ty} (result : Ty) (h : ¬Fillable args params) :
    call (.func params result) args = .failed .self (.argumentMismatch params args) := by
  rw [call, if_neg (mt acceptsAll_iff_fillable.1 h)]

theorem call_of_fillable {params args : List Ty} (result : Ty) (h : Fillable args params) :
    call (.func params result) args =
      if .unknown ∈ args then .suppressed else .typed result := by
  have hany : args.any isUnknown = true ↔ Ty.unknown ∈ args := by
    simp
  rw [call, if_pos (acceptsAll_iff_fillable.2 h)]
  exact if_congr hany rfl rfl

end Rule

/-- The types of the operands are those that checking the operands gives. -/
theorem Composed.map_ty_operands
    {g : Graph} {scope : Scope} {id : NodeId} {n : Node}
    {operands : List Checked} {own : Option TypeError} {result : Checked} {types : List Ty}
    (h : Composed g scope id n operands own result)
    (htypes : ((g.operands n.shape).mapM (check g scope)).map (List.map Checked.ty) = .ok types) :
    operands.map Checked.ty = types := by
  rw [h.operands_checked] at htypes
  exact Except.ok.inj htypes

namespace Composed

variable {g : Graph} {scope : Scope} {id callee : NodeId} {range : ArgRange} {span : Span}
  {function : Checked} {args : List Checked} {own : Option TypeError} {result : Checked}
  {params : List Ty} {ret : Ty}

/-- A call of a function is decided by the rule for calls. -/
theorem eq_call
    (h : Composed g scope id ⟨.call callee range, span⟩ (function :: args) own result)
    (hfunction : function.ty = .func params ret) :
    result.ty = (Rule.call (.func params ret) (args.map Checked.ty)).ty ∧
      own = (Rule.call (.func params ret) (args.map Checked.ty)).error? g id
        (callee :: g.argList range) := by
  have hverdict := h.eq_verdict
  rw [List.map_cons, hfunction] at hverdict
  exact hverdict

theorem own_of_not_fillable
    (h : Composed g scope id ⟨.call callee range, span⟩ (function :: args) own result)
    (hfunction : function.ty = .func params ret)
    (hfill : ¬Fillable (args.map Checked.ty) params) :
    own = some ⟨id, span, .argumentMismatch params (args.map Checked.ty)⟩ := by
  have hown := (h.eq_call hfunction).2
  rw [Rule.call_of_not_fillable ret hfill] at hown
  rw [hown, Verdict.error?, Site.resolve, Graph.spanOf_of_node h.node]

theorem own_and_ty_of_fillable
    (h : Composed g scope id ⟨.call callee range, span⟩ (function :: args) own result)
    (hfunction : function.ty = .func params ret)
    (hfill : Fillable (args.map Checked.ty) params) :
    own = none ∧ result.ty = if .unknown ∈ args.map Checked.ty then .unknown else ret := by
  obtain ⟨hty, hown⟩ := h.eq_call hfunction
  rw [Rule.call_of_fillable ret hfill] at hty hown
  rw [hty, hown]
  split
  · exact ⟨rfl, rfl⟩
  · exact ⟨rfl, rfl⟩

end Composed

/-- A call reports a mismatch exactly if no choice of types for the arguments of unknown type
could give the parameters.

This is so for the rule on any parameters and argument types, and for every call in a graph
whose callee has a function type.  The error stands at the call and lists the parameters and
the argument types.  A call that does not report a mismatch reports nothing at all; it has the
type of its result if all arguments have a type, and otherwise none. -/
theorem call_mismatch_iff_not_fillable :
    (∀ params args ret,
      Rule.call (.func params ret) args =
        if Fillable args params then
          if .unknown ∈ args then .suppressed else .typed ret
        else
          .failed .self (.argumentMismatch params args)) ∧
    ∀ (g : Graph) (scope : Scope) (id callee : NodeId) (range : ArgRange) (span : Span),
      g.WellFormed id → g.node id = .ok ⟨.call callee range, span⟩ →
      ∃ function args own result,
        Composed g scope id ⟨.call callee range, span⟩ (function :: args) own result ∧
        ∀ params ret, function.ty = .func params ret →
          ((∃ e ∈ own, ∃ expected found, e.cause = .argumentMismatch expected found) ↔
            ¬Fillable (args.map Checked.ty) params) ∧
          (∀ e ∈ own, e = ⟨id, span, .argumentMismatch params (args.map Checked.ty)⟩) ∧
          (Fillable (args.map Checked.ty) params →
            own = none ∧
              result.ty = if .unknown ∈ args.map Checked.ty then .unknown else ret) := by
  refine ⟨?_, ?_⟩
  · intro params args ret
    split
    · exact Rule.call_of_fillable ret ‹_›
    · exact Rule.call_of_not_fillable ret ‹_›
  · intro g scope id callee range span h hn
    have hcall : Composed g scope id _ (checkedAt g scope callee :: _) _ _ :=
      composed_checkedAt scope h hn
    refine ⟨_, _, _, _, hcall, ?_⟩
    intro params ret hfunction
    refine ⟨?_, ?_, hcall.own_and_ty_of_fillable hfunction⟩
    · constructor
      · rintro ⟨e, he, -⟩ hfill
        rw [(hcall.own_and_ty_of_fillable hfunction hfill).1] at he
        cases he
      · intro hfill
        exact ⟨_, hcall.own_of_not_fillable hfunction hfill, _, _, rfl⟩
    · intro e he
      by_cases hfill : Fillable (((g.argList range).map (checkedAt g scope)).map Checked.ty) params
      · rw [(hcall.own_and_ty_of_fillable hfunction hfill).1] at he
        cases he
      · rw [hcall.own_of_not_fillable hfunction hfill] at he
        exact (Option.some.inj he).symm

/-- Two calls of the function `1` with an undeclared variable as first argument.  The one has
a truth value as second argument, and the other has no second argument. -/
def unfinishedCalls : Graph where
  nodes :=
    #[⟨.ident ⟨1⟩, ⟨0, 1⟩⟩, ⟨.ident ⟨7⟩, ⟨2, 3⟩⟩, ⟨.bool true, ⟨5, 9⟩⟩,
      ⟨.call ⟨0⟩ ⟨0, 2⟩, ⟨0, 10⟩⟩, ⟨.call ⟨0⟩ ⟨2, 3⟩, ⟨0, 4⟩⟩]
  args := #[⟨1⟩, ⟨2⟩, ⟨1⟩]

theorem unfinishedCalls_decided :
    Fillable [.unknown, .bool] [.int, .bool] ∧ ¬Fillable [.unknown] [.int, .bool] ∧
      unfinishedCalls.WellFormed ⟨3⟩ ∧ unfinishedCalls.WellFormed ⟨4⟩ ∧
      (∃ function args result,
        Composed unfinishedCalls functionScope ⟨3⟩ ⟨.call ⟨0⟩ ⟨0, 2⟩, ⟨0, 10⟩⟩
          (function :: args) none result ∧
        function.ty = .func [.int, .bool] .int ∧ args.map Checked.ty = [.unknown, .bool] ∧
        result.ty = .unknown) ∧
      ∃ function args result e,
        Composed unfinishedCalls functionScope ⟨4⟩ ⟨.call ⟨0⟩ ⟨2, 3⟩, ⟨0, 4⟩⟩
          (function :: args) (some e) result ∧
        function.ty = .func [.int, .bool] .int ∧ args.map Checked.ty = [.unknown] ∧
        e = ⟨⟨4⟩, ⟨0, 4⟩, .argumentMismatch [.int, .bool] [.unknown]⟩ := by
  have hfill : Fillable [.unknown, .bool] [.int, .bool] := by decide
  have hshort : ¬Fillable [.unknown] [.int, .bool] := by decide
  obtain ⟨-, hcalls⟩ := call_mismatch_iff_not_fillable
  refine ⟨hfill, hshort, by decide, by decide, ?_, ?_⟩
  · obtain ⟨function, args, own, result, h, hdecided⟩ :=
      hcalls unfinishedCalls functionScope ⟨3⟩ _ _ _ (by decide) rfl
    have htypes : (([⟨0⟩, ⟨1⟩, ⟨2⟩] : List NodeId).mapM
        (check unfinishedCalls functionScope)).map (List.map Checked.ty) =
          .ok [.func [.int, .bool] .int, .unknown, .bool] := by
      decide +kernel
    obtain ⟨hfunction, hargs⟩ := List.cons.inj (h.map_ty_operands htypes)
    obtain ⟨-, -, hfillable⟩ := hdecided _ _ hfunction
    rw [hargs] at hfillable
    obtain ⟨rfl, hty⟩ := hfillable hfill
    exact ⟨function, args, result, h, hfunction, hargs, hty⟩
  · obtain ⟨function, args, own, result, h, hdecided⟩ :=
      hcalls unfinishedCalls functionScope ⟨4⟩ _ _ _ (by decide) rfl
    have htypes : (([⟨0⟩, ⟨1⟩] : List NodeId).mapM
        (check unfinishedCalls functionScope)).map (List.map Checked.ty) =
          .ok [.func [.int, .bool] .int, .unknown] := by
      decide +kernel
    obtain ⟨hfunction, hargs⟩ := List.cons.inj (h.map_ty_operands htypes)
    obtain ⟨hreport, hexact, -⟩ := hdecided _ _ hfunction
    rw [hargs] at hreport hexact
    obtain ⟨e, he, -⟩ := hreport.2 hshort
    obtain rfl : own = some e := he
    exact ⟨function, args, result, e, h, hfunction, hargs, hexact e rfl⟩

end ExprTyping
