import ExprTyping.Proofs.Visit

/-!
# A checker that is used again

One checker can infer the types of several nodes in turn.  It never reads what it has
noted before, so each call answers like a check of its own; the errors of all calls
follow each other, and the type table covers all expressions that were visited.

The table is written while a call is going on, node by node.  To speak about every
moment of a run, `Checker.Step` makes the single steps of `Checker.run` visible.  Each
pending visit leads to the type of its node, whatever the table holds, and so all notes
on a node are equal: an entry that has been written is never changed.
-/

namespace ExprTyping

namespace Checker

/-- Calls a checker at several nodes in turn, and gives the answer and the checker after
each call. -/
def inferAll (g : Graph) (scope : Scope) :
    List NodeId → Checker → Except Fault (List (Ty × Checker))
  | [], _ => .ok []
  | id :: ids, checker => do
    let (ty, after) ← infer g scope id checker
    let answers ← inferAll g scope ids after
    return (ty, after) :: answers

/-! ## The steps of a run -/

/-- A moment in a run of calls. -/
structure Stage where
  /-- The calls to come. -/
  calls : List NodeId
  /-- What is left to do for the present call. -/
  pending : List Task
  checker : Checker
  stack : List Ty

/-- A checker begins a call, enters a node or settles one. -/
inductive Step (g : Graph) (scope : Scope) : Stage → Stage → Prop where
  | call {id : NodeId} {calls : List NodeId} {checker : Checker} {stack : List Ty} :
      Step g scope ⟨id :: calls, [], checker, stack⟩
        ⟨calls, [.visit (g.size + 1) id], checker, []⟩
  | enter {calls : List NodeId} {depth : Nat} {id : NodeId} {pending : List Task}
      {checker : Checker} {stack : List Ty} {n : Node} (hn : g.node id = .ok n) :
      Step g scope ⟨calls, .visit (depth + 1) id :: pending, checker, stack⟩
        ⟨calls, (g.operands n.shape).map (.visit depth ·) ++ .settle id n.shape :: pending,
          checker.enter id, stack⟩
  | settle {calls : List NodeId} {id : NodeId} {shape : Shape} {pending : List Task}
      {checker : Checker} {stack : List Ty} {verdict : Verdict}
      (hverdict : verdict =
        shape.head.judge scope (stack.take (g.operands shape).length).reverse) :
      Step g scope ⟨calls, .settle id shape :: pending, checker, stack⟩
        ⟨calls, pending, checker.settle g id (g.operands shape) verdict,
          verdict.ty :: stack.drop (g.operands shape).length⟩

/-- Any number of steps. -/
def Steps (g : Graph) (scope : Scope) : Stage → Stage → Prop :=
  Relation.ReflTransGen (Step g scope)

/-- A run goes through its tasks step by step. -/
theorem steps_of_run
    {g : Graph} {scope : Scope} (calls : List NodeId) {pending : List Task}
    {before after : Checker} {stack rest : List Ty}
    (h : run g scope pending before stack = .ok (after, rest)) :
    Steps g scope ⟨calls, pending, before, stack⟩ ⟨calls, [], after, rest⟩ := by
  fun_induction run g scope pending before stack with
  | case1 checker stack =>
      cases h
      exact .refl
  | case2 id shape pending checker stack operands types verdict ih =>
      exact .head (.settle rfl) (ih h)
  | case3 => cases h
  | case4 => cases h
  | case5 depth id pending checker stack n hn ih => exact .head (.enter hn) (ih h)

theorem steps_of_infer
    {g : Graph} {scope : Scope} {id : NodeId} {calls : List NodeId} {before after : Checker}
    {stack : List Ty} {ty : Ty} (h : infer g scope id before = .ok (ty, after)) :
    Steps g scope ⟨id :: calls, [], before, stack⟩ ⟨calls, [], after, [ty]⟩ := by
  refine .head .call (steps_of_run calls ?_)
  rw [infer_eq_inferWithin] at h
  rw [run_cons_visit, h]
  change run g scope [] after [ty] = _
  rw [run]

/-! ## What no step changes -/

/-- The tasks find the types of their operands on the stack.  Each visit leaves the type
of its node there, and settling a node puts its type in the place of those. -/
inductive Ready (g : Graph) (scope : Scope) : List Task → List Ty → Prop where
  | done {stack : List Ty} : Ready g scope [] stack
  | visit {depth : Nat} {id : NodeId} {pending : List Task} {stack : List Ty}
      (hid : g.WellFormed id) (hpending : Ready g scope pending (typeAt g scope id :: stack)) :
      Ready g scope (.visit depth id :: pending) stack
  | settle {id : NodeId} {n : Node} {pending : List Task} {stack rest : List Ty}
      (hid : g.WellFormed id) (hn : g.node id = .ok n)
      (hstack : stack = ((g.operands n.shape).map (typeAt g scope)).reverse ++ rest)
      (hpending : Ready g scope pending (typeAt g scope id :: rest)) :
      Ready g scope (.settle id n.shape :: pending) stack

/-- The entries of the type table are inferred types. -/
def Sound (g : Graph) (scope : Scope) (checker : Checker) : Prop :=
  ∀ (id : NodeId) (ty : Ty), checker.types[id.index]? = some (some ty) → ty = typeAt g scope id

/-- What holds at every moment of a run. -/
structure Stage.Consistent (g : Graph) (scope : Scope) (stage : Stage) : Prop where
  calls : ∀ id ∈ stage.calls, g.WellFormed id
  ready : Ready g scope stage.pending stage.stack
  sound : stage.checker.Sound g scope

section Invariant

variable {g : Graph} {scope : Scope}

theorem Ready.visits
    {depth : Nat} {ids : List NodeId} {pending : List Task} {stack : List Ty}
    (hids : ∀ id ∈ ids, g.WellFormed id)
    (hpending : Ready g scope pending ((ids.map (typeAt g scope)).reverse ++ stack)) :
    Ready g scope (ids.map (.visit depth ·) ++ pending) stack := by
  induction ids generalizing stack with
  | nil => exact hpending
  | cons id ids ih =>
      refine .visit (hids id (by simp)) (ih (fun id hid => hids id (by simp [hid])) ?_)
      simpa using hpending

/-- A node is settled with its type. -/
theorem Ready.settled
    {id : NodeId} {shape : Shape} {pending : List Task} {stack : List Ty} {verdict : Verdict}
    (h : Ready g scope (.settle id shape :: pending) stack)
    (hverdict : verdict =
      shape.head.judge scope (stack.take (g.operands shape).length).reverse) :
    verdict.ty = typeAt g scope id ∧
      Ready g scope pending (verdict.ty :: stack.drop (g.operands shape).length) := by
  cases h with
  | @settle id n pending stack rest hid hn hstack hpending =>
      have hlength : ((g.operands n.shape).map (typeAt g scope)).reverse.length =
          (g.operands n.shape).length := by
        simp
      rw [hstack, List.take_left' hlength, List.reverse_reverse] at hverdict
      have hty : verdict.ty = typeAt g scope id := by
        rw [typeAt_of_node hid hn, hverdict, verdictAt]
      rw [hstack, List.drop_left' hlength, hty]
      exact ⟨rfl, hpending⟩

theorem getElem?_types_settle_iff
    {checker : Checker} {id k : NodeId} {operands : List NodeId} {verdict : Verdict} {ty : Ty} :
    (checker.settle g id operands verdict).types[k.index]? = some (some ty) ↔
      (id = k ∧ id.index < checker.types.size ∧ verdict.ty = ty) ∨
        (id ≠ k ∧ checker.types[k.index]? = some (some ty)) := by
  change (checker.types.setIfInBounds id.index (some verdict.ty))[k.index]? = _ ↔ _
  by_cases heq : id = k
  · subst heq
    simp [Array.getElem?_setIfInBounds]
  · have hidx : id.index ≠ k.index := fun hidx => heq (congrArg NodeId.mk hidx)
    simp [Array.getElem?_setIfInBounds_ne hidx, heq]

theorem Sound.settle
    {checker : Checker} (hsound : checker.Sound g scope) {id : NodeId} {verdict : Verdict}
    (hty : verdict.ty = typeAt g scope id) (operands : List NodeId) :
    (checker.settle g id operands verdict).Sound g scope := by
  intro k ty hk
  rcases getElem?_types_settle_iff.1 hk with ⟨rfl, -, rfl⟩ | ⟨-, hold⟩
  · exact hty
  · exact hsound k ty hold

/-- Settling a node with its type changes no entry of a sound table. -/
theorem Sound.settle_keeps
    {checker : Checker} (hsound : checker.Sound g scope) {id k : NodeId} {verdict : Verdict}
    (hty : verdict.ty = typeAt g scope id) (operands : List NodeId) {ty : Ty}
    (hk : checker.types[k.index]? = some (some ty)) :
    (checker.settle g id operands verdict).types[k.index]? = some (some ty) := by
  rw [getElem?_types_settle_iff]
  by_cases heq : id = k
  · subst heq
    obtain ⟨hlt, -⟩ := Array.getElem?_eq_some_iff.1 hk
    exact Or.inl ⟨rfl, hlt, hty.trans (hsound id ty hk).symm⟩
  · exact Or.inr ⟨heq, hk⟩

theorem Stage.Consistent.step
    {now next : Stage} (h : now.Consistent g scope) (hstep : Step g scope now next) :
    next.Consistent g scope := by
  obtain ⟨hcalls, hready, hsound⟩ := h
  cases hstep with
  | @call id calls checker stack =>
      have hid := hcalls id (by simp)
      exact ⟨fun k hk => hcalls k (by simp [hk]), .visit hid .done, hsound⟩
  | enter hn =>
      cases hready with
      | visit hid hpending =>
          refine ⟨hcalls, .visits (fun child hchild => hid.operand hn hchild) ?_, hsound⟩
          exact .settle hid hn rfl hpending
  | settle hverdict =>
      obtain ⟨hty, hpending⟩ := hready.settled hverdict
      exact ⟨hcalls, hpending, hsound.settle hty _⟩

theorem Stage.Consistent.keeps
    {now next : Stage} (h : now.Consistent g scope) (hstep : Step g scope now next)
    {k : NodeId} {ty : Ty} (hk : now.checker.types[k.index]? = some (some ty)) :
    next.checker.types[k.index]? = some (some ty) := by
  obtain ⟨-, hready, hsound⟩ := h
  cases hstep with
  | call => exact hk
  | enter hn => exact hk
  | settle hverdict =>
      -- Only here is the table written, and always with the type of the node.
      obtain ⟨hty, -⟩ := hready.settled hverdict
      exact hsound.settle_keeps hty _ hk

theorem Stage.Consistent.steps
    {now later : Stage} (h : now.Consistent g scope) (hsteps : Steps g scope now later) :
    later.Consistent g scope := by
  induction hsteps with
  | refl => exact h
  | tail _ hstep ih => exact ih.step hstep

/-- No number of steps changes an entry that has been written. -/
theorem Stage.Consistent.keeps_steps
    {now later : Stage} (h : now.Consistent g scope) (hsteps : Steps g scope now later)
    {k : NodeId} {ty : Ty} (hk : now.checker.types[k.index]? = some (some ty)) :
    later.checker.types[k.index]? = some (some ty) := by
  induction hsteps with
  | refl => exact hk
  | tail hbefore hstep ih => exact (h.steps hbefore).keeps hstep ih

theorem Stage.consistent_start
    {ids : List NodeId} (h : ∀ id ∈ ids, g.WellFormed id) :
    Stage.Consistent g scope ⟨ids, [], start g, []⟩ where
  calls := h
  ready := .done
  sound k ty hk := by
    simp [start, Array.getElem?_replicate] at hk

end Invariant

/-! ## What the calls find out -/

/-- A checker knows what the checks of the given nodes find out, and nothing else. -/
structure KnowsChecks (g : Graph) (scope : Scope) (ids : List NodeId) (checker : Checker) :
    Prop where
  /-- The errors of the checks follow each other. -/
  errors : ∃ results, ids.mapM (check g scope) = .ok results ∧
    checker.errors.toList = results.flatMap Checked.errors
  /-- A node of one of the expressions has the type that its own check gives it. -/
  visited : ∀ (ty : Ty) (id : NodeId), (∃ root ∈ ids, g.Reaches root id) →
    ∃ result, check g scope id = .ok result ∧ (checker.finish ty).typeOf id = some result.ty
  /-- No other node has a type. -/
  unvisited : ∀ (ty : Ty) (id : NodeId), (¬∃ root ∈ ids, g.Reaches root id) →
    (checker.finish ty).typeOf id = none

/-- The checker after the visits of the given nodes. -/
def afterVisits (g : Graph) (scope : Scope) (ids : List NodeId) (checker : Checker) : Checker :=
  (ids.map (visitAt g scope)).foldl extend checker

section Calls

variable {g : Graph} {scope : Scope} {ids : List NodeId}

theorem mem_flatMap_settled_iff (h : ∀ id ∈ ids, g.WellFormed id) (entry : NodeId × Ty) :
    entry ∈ (ids.map (visitAt g scope)).flatMap Visit.settled ↔
      (∃ root ∈ ids, g.Reaches root entry.1) ∧ entry.2 = typeAt g scope entry.1 := by
  rw [List.flatMap_map, List.mem_flatMap]
  constructor
  · rintro ⟨root, hroot, hentry⟩
    obtain ⟨hreach, hty⟩ := (mem_settled_iff (h root hroot) entry).1 hentry
    exact ⟨⟨root, hroot, hreach⟩, hty⟩
  · rintro ⟨⟨root, hroot, hreach⟩, hty⟩
    exact ⟨root, hroot, (mem_settled_iff (h root hroot) entry).2 ⟨hreach, hty⟩⟩

theorem typeOf_afterVisits_iff
    (h : ∀ id ∈ ids, g.WellFormed id) (final : Ty) (id : NodeId) (ty : Ty) :
    ((afterVisits g scope ids (start g)).finish final).typeOf id = some ty ↔
      (∃ root ∈ ids, g.Reaches root id) ∧ ty = typeAt g scope id := by
  have hentries : ∀ entry, entry ∈ (ids.map (visitAt g scope)).flatMap Visit.settled ↔ _ :=
    mem_flatMap_settled_iff h
  rw [← hentries (id, ty), afterVisits, foldl_extend]
  apply join_getElem?_noteTypes_start_iff
  · exact fun entry hentry => ((hentries entry).1 hentry).2
  · intro entry hentry
    obtain ⟨⟨root, hroot, hreach⟩, -⟩ := (hentries entry).1 hentry
    exact (h root hroot).inRange entry.1 hreach

theorem knowsChecks_afterVisits (h : ∀ id ∈ ids, g.WellFormed id) :
    KnowsChecks g scope ids (afterVisits g scope ids (start g)) where
  errors := by
    refine ⟨_, mapM_eq_ok_map fun id hid => check_eq_ok (h id hid), ?_⟩
    rw [afterVisits, foldl_extend]
    simp only [start, List.append_toArray, List.nil_append, List.flatMap_map]
    rfl
  visited ty id hvisited := by
    obtain ⟨root, hroot, hreach⟩ := hvisited
    refine ⟨_, check_eq_ok ((h root hroot).of_reaches hreach), ?_⟩
    exact (typeOf_afterVisits_iff h ty id _).2 ⟨⟨root, hroot, hreach⟩, rfl⟩
  unvisited final id hnot := by
    rw [Option.eq_none_iff_forall_ne_some]
    intro ty hty
    exact hnot ((typeOf_afterVisits_iff h final id ty).1 hty).1

/-- Every call answers with the type of its node and visits it. -/
theorem inferAll_eq_ok (h : ∀ id ∈ ids, g.WellFormed id) (checker : Checker) (stack : List Ty) :
    ∃ answers, inferAll g scope ids checker = .ok answers ∧ answers.length = ids.length ∧
      ∀ before id after, ids = before ++ id :: after →
        answers[before.length]? =
          some (typeAt g scope id, afterVisits g scope (before ++ [id]) checker) ∧
        Steps g scope ⟨ids, [], checker, stack⟩
          ⟨after, [], afterVisits g scope (before ++ [id]) checker, [typeAt g scope id]⟩ := by
  induction ids generalizing checker stack with
  | nil => exact ⟨[], rfl, rfl, fun before id after hsplit => by simp at hsplit⟩
  | cons first rest ih =>
      have hfirst : infer g scope first checker = _ := infer_eq_ok (h first (by simp)) checker
      have hrest : ∀ id ∈ rest, g.WellFormed id := fun id hid => h id (by simp [hid])
      obtain ⟨answers, hanswers, hlength, hat⟩ :=
        ih hrest (checker.extend (visitAt g scope first)) [typeAt g scope first]
      refine ⟨(typeAt g scope first, checker.extend (visitAt g scope first)) :: answers,
        ?_, by simp [hlength], ?_⟩
      · rw [inferAll, hfirst]
        change (inferAll g scope rest _ >>= _) = _
        rw [hanswers]
        rfl
      · intro before id after hsplit
        cases before with
        | nil =>
            obtain ⟨rfl, rfl⟩ := List.cons.inj hsplit
            exact ⟨rfl, steps_of_infer hfirst⟩
        | cons _ before =>
            obtain ⟨rfl, rfl⟩ := List.cons.inj hsplit
            obtain ⟨hanswer, hsteps⟩ := hat before id after rfl
            exact ⟨hanswer, (steps_of_infer hfirst).trans hsteps⟩

end Calls

end Checker

/-- A checker that is used again answers like independent checks.

Calls of one checker at well-formed expressions all succeed, also when nodes are repeated
or shared.  Each answer is the type that a check of its node gives.  After it, the errors
are those of the checks so far, one check after the other, and the type table holds
exactly the nodes of the expressions so far, each with the type of its own check.  The
answers lie on the run that the calls make step by step, and no step of this run changes
an entry of the table that has been written before. -/
theorem infer_reused_like_checks
    (g : Graph) (scope : Scope) (ids : List NodeId) (h : ∀ id ∈ ids, g.WellFormed id) :
    ∃ answers,
      Checker.inferAll g scope ids (Checker.start g) = .ok answers ∧
      answers.length = ids.length ∧
      (∀ before id after, ids = before ++ id :: after →
        ∃ result checker,
          check g scope id = .ok result ∧
          answers[before.length]? = some (result.ty, checker) ∧
          Checker.KnowsChecks g scope (before ++ [id]) checker ∧
          Checker.Steps g scope ⟨ids, [], Checker.start g, []⟩
            ⟨after, [], checker, [result.ty]⟩) ∧
      ∀ now later, Checker.Steps g scope ⟨ids, [], Checker.start g, []⟩ now →
        Checker.Steps g scope now later →
        ∀ (id : NodeId) (ty : Ty), now.checker.types[id.index]? = some (some ty) →
          later.checker.types[id.index]? = some (some ty) := by
  obtain ⟨answers, hanswers, hlength, hat⟩ := Checker.inferAll_eq_ok h (Checker.start g) []
  refine ⟨answers, hanswers, hlength, ?_, ?_⟩
  · intro before id after hsplit
    obtain ⟨hanswer, hsteps⟩ := hat before id after hsplit
    have hid : g.WellFormed id := h id (by simp [hsplit])
    have hcalls : ∀ k ∈ before ++ [id], g.WellFormed k := by
      intro k hk
      apply h k
      rw [hsplit, List.append_cons]
      exact List.mem_append_left after hk
    exact ⟨_, _, check_eq_ok hid, hanswer, Checker.knowsChecks_afterVisits hcalls, hsteps⟩
  · intro now later hnow hlater id ty hty
    exact ((Checker.Stage.consistent_start h).steps hnow).keeps_steps hlater hty

/-- A number is used both in a sum with an undeclared variable and in parentheses.  Node
`4` is used nowhere. -/
def sumBesideParens : Graph where
  nodes :=
    #[⟨.ident ⟨9⟩, Span.zero⟩, ⟨.int 5, Span.zero⟩, ⟨.binary .add ⟨1⟩ ⟨0⟩, Span.zero⟩,
      ⟨.paren ⟨1⟩, Span.zero⟩, ⟨.bool true, Span.zero⟩]
  args := #[]

theorem sumBesideParens_reused :
    (∀ id ∈ [⟨2⟩, ⟨3⟩, ⟨2⟩], sumBesideParens.WellFormed id) ∧
      ∃ answers checker,
        Checker.inferAll sumBesideParens Scope.empty [⟨2⟩, ⟨3⟩, ⟨2⟩]
          (Checker.start sumBesideParens) = .ok answers ∧
        answers.map Prod.fst = [.unknown, .int, .unknown] ∧
        answers[2]? = some (.unknown, checker) ∧
        Checker.KnowsChecks sumBesideParens Scope.empty [⟨2⟩, ⟨3⟩, ⟨2⟩] checker ∧
        checker.errors.toList.map TypeError.node = [⟨0⟩, ⟨0⟩] ∧
        (checker.finish .unknown).typeOf ⟨4⟩ = none := by
  have hwf : ∀ id ∈ [⟨2⟩, ⟨3⟩, ⟨2⟩], sumBesideParens.WellFormed id := by decide
  obtain ⟨answers, hanswers, -, hat, -⟩ :=
    infer_reused_like_checks sumBesideParens Scope.empty [⟨2⟩, ⟨3⟩, ⟨2⟩] hwf
  obtain ⟨result, checker, -, hlast, hknows, -⟩ := hat [⟨2⟩, ⟨3⟩] ⟨2⟩ [] rfl
  have heval : (Checker.inferAll sumBesideParens Scope.empty [⟨2⟩, ⟨3⟩, ⟨2⟩]
      (Checker.start sumBesideParens)).map (fun answers =>
        (answers.map Prod.fst, answers[2]?.map fun (ty, checker) =>
          (ty, checker.errors.toList.map TypeError.node,
            (checker.finish .unknown).typeOf ⟨4⟩))) =
      .ok ([.unknown, .int, .unknown], some (.unknown, [⟨0⟩, ⟨0⟩], none)) := by
    decide +kernel
  rw [hanswers] at heval
  obtain ⟨htypes, hthird⟩ := Prod.ext_iff.1 (Except.ok.inj heval)
  change answers[2]? = some (result.ty, checker) at hlast
  simp only [hlast, Option.map_some, Option.some.injEq, Prod.mk.injEq] at hthird
  obtain ⟨hty, herrors, hnone⟩ := hthird
  rw [hty] at hlast
  exact ⟨hwf, answers, checker, hanswers, htypes, hlast, hknows, herrors, hnone⟩

end ExprTyping
