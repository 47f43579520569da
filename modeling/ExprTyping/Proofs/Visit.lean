import ExprTyping.Checker
import ExprTyping.Proofs.Fold

/-!
# What a visit adds to a checker

Inference threads one checker through all nodes of an expression.  What the
visit of a node adds to it does not depend on what the checker knew before, so it
can be described as a fold over the expression: `Checker.inferWithin_run`.

The second half is about the check of a well-formed expression.  It succeeds,
and its type, errors and type table are those found at the single nodes; see
`check_eq_ok`, `typeAt_of_node`, `errorsAt_of_node` and `typeOf_checkedAt_iff`.
-/

namespace ExprTyping

/-- What the visit of a node adds to a checker. -/
structure Visit where
  ty : Ty
  /-- The nodes that were judged, in this order, with their types. -/
  settled : List (NodeId × Ty)
  errors : List TypeError
  log : List LogEntry
deriving DecidableEq, Repr, Inhabited

/-- The visit of a node after the visits of its operands. -/
def Visit.combine (g : Graph) (scope : Scope) (id : NodeId) (n : Node)
    (below : List Visit) : Visit :=
  let operands := g.operands n.shape
  let verdict := n.shape.head.judge scope (below.map Visit.ty)
  { ty := verdict.ty
    settled := below.flatMap Visit.settled ++ [(id, verdict.ty)]
    errors := below.flatMap Visit.errors ++ (verdict.error? g id operands).toList
    log := .inferring id :: (below.flatMap Visit.log ++
      (verdict.entry? g id operands).toList) }

/-- Writes the types of settled nodes into a type table. -/
def noteTypes (types : Array (Option Ty)) (settled : List (NodeId × Ty)) :
    Array (Option Ty) :=
  settled.foldl (fun types entry => types.setIfInBounds entry.1.index (some entry.2)) types

/-- A table keeps its entry for a node on which nothing is noted. -/
theorem getElem?_noteTypes_of_not_mem
    {settled : List (NodeId × Ty)} {id : NodeId}
    (hnone : ∀ entry ∈ settled, entry.1 ≠ id) {types : Array (Option Ty)} :
    (noteTypes types settled)[id.index]? = types[id.index]? := by
  induction settled generalizing types with
  | nil => rfl
  | cons entry settled ih =>
      have hfirst : entry.1.index ≠ id.index := by
        intro heq
        apply hnone entry (by simp)
        exact congrArg NodeId.mk heq
      change (noteTypes (types.setIfInBounds entry.1.index (some entry.2)) settled)[_]? = _
      rw [ih fun later hlater => hnone later (by simp [hlater]),
        Array.getElem?_setIfInBounds_ne hfirst]

/-- A table holds what is noted on a node, provided that all notes on it agree. -/
theorem getElem?_noteTypes_of_mem
    {settled : List (NodeId × Ty)} {value : NodeId → Ty}
    (hvalue : ∀ entry ∈ settled, entry.2 = value entry.1)
    {types : Array (Option Ty)} {id : NodeId} (hi : id.index < types.size)
    (hmem : ∃ entry ∈ settled, entry.1 = id) :
    (noteTypes types settled)[id.index]? = some (some (value id)) := by
  induction settled generalizing types with
  | nil => simp at hmem
  | cons entry settled ih =>
      change (noteTypes (types.setIfInBounds entry.1.index (some entry.2)) settled)[_]? = _
      by_cases hlater : ∃ later ∈ settled, later.1 = id
      · exact ih (fun later hlater => hvalue later (by simp [hlater])) (by simpa using hi) hlater
      · rw [getElem?_noteTypes_of_not_mem fun later hmem heq => hlater ⟨later, hmem, heq⟩]
        obtain ⟨found, hfound, rfl⟩ := hmem
        rcases List.mem_cons.1 hfound with rfl | hrest
        · rw [Array.getElem?_setIfInBounds_self_of_lt hi, hvalue found (by simp)]
        · exact absurd ⟨found, hrest, rfl⟩ hlater

/-- A table that was empty before holds exactly the notes, provided that all notes on a
node agree. -/
theorem join_getElem?_noteTypes_start_iff
    {g : Graph} {settled : List (NodeId × Ty)} {value : NodeId → Ty}
    (hvalue : ∀ entry ∈ settled, entry.2 = value entry.1)
    (hrange : ∀ entry ∈ settled, entry.1.index < g.size) {id : NodeId} {ty : Ty} :
    (noteTypes (Checker.start g).types settled)[id.index]?.join = some ty ↔
      (id, ty) ∈ settled := by
  by_cases hnoted : ∃ entry ∈ settled, entry.1 = id
  · obtain ⟨⟨id, found⟩, hfound, rfl⟩ := hnoted
    have hi : id.index < (Checker.start g).types.size := by
      simpa [Checker.start] using hrange _ hfound
    rw [getElem?_noteTypes_of_mem hvalue hi ⟨_, hfound, rfl⟩, Option.join_some,
      Option.some.injEq, ← hvalue _ hfound]
    constructor
    · rintro rfl
      exact hfound
    · intro hmem
      exact (hvalue _ hfound).trans (hvalue _ hmem).symm
  · have hnone : ∀ entry ∈ settled, entry.1 ≠ id :=
      fun entry hentry heq => hnoted ⟨entry, hentry, heq⟩
    have hstart : (Checker.start g).types[id.index]?.join = none := by
      by_cases hi : id.index < g.size
      · simp [Checker.start, hi]
      · simp [Checker.start, hi]
    rw [getElem?_noteTypes_of_not_mem hnone, hstart]
    constructor
    · intro h
      cases h
    · intro hmem
      exact absurd rfl (hnone _ hmem)

namespace Checker

/-- The checker after a visit. -/
def extend (checker : Checker) (visit : Visit) : Checker where
  types := noteTypes checker.types visit.settled
  errors := checker.errors ++ visit.errors.toArray
  log := checker.log ++ visit.log.toArray

theorem foldl_extend (checker : Checker) (visits : List Visit) :
    visits.foldl extend checker =
      { types := noteTypes checker.types (visits.flatMap Visit.settled)
        errors := checker.errors ++ (visits.flatMap Visit.errors).toArray
        log := checker.log ++ (visits.flatMap Visit.log).toArray } := by
  induction visits generalizing checker with
  | nil => simp [noteTypes]
  | cons visit visits ih =>
      rw [List.foldl_cons, ih]
      simp [extend, noteTypes, List.foldl_append]

/-- Settling a node after the visits of its operands completes its own visit. -/
theorem settle_foldl_extend
    (g : Graph) (scope : Scope) (id : NodeId) (n : Node)
    (checker : Checker) (below : List Visit) :
    (below.foldl extend (checker.enter id)).settle g id (g.operands n.shape)
        (n.shape.head.judge scope (below.map Visit.ty)) =
      checker.extend (Visit.combine g scope id n below) := by
  rw [foldl_extend]
  simp [settle, extend, Visit.combine, enter, record, noteTypes, List.foldl_append,
    ← Option.toArray_toList]

theorem mapM_inferWithin_run
    {g : Graph} {scope : Scope} {depth : Nat}
    (hrun : ∀ (id : NodeId) (checker : Checker),
      (inferWithin g scope depth id).run checker =
        (g.foldWithin (Visit.combine g scope) depth id).map
          fun visit => (visit.ty, checker.extend visit))
    (ids : List NodeId) (checker : Checker) :
    (ids.mapM (inferWithin g scope depth)).run checker =
      (ids.mapM (g.foldWithin (Visit.combine g scope) depth)).map
        fun visits => (visits.map Visit.ty, visits.foldl extend checker) := by
  induction ids generalizing checker with
  | nil => rfl
  | cons id ids ih =>
      rw [List.mapM_cons, List.mapM_cons, StateT.run_bind, hrun]
      cases g.foldWithin (Visit.combine g scope) depth id with
      | error fault => rfl
      | ok visit =>
          change ((ids.mapM (inferWithin g scope depth)).run (checker.extend visit) >>=
            fun found => Except.ok (visit.ty :: found.1, found.2)) = _
          rw [ih]
          cases ids.mapM (g.foldWithin (Visit.combine g scope) depth) with
          | error fault => rfl
          | ok visits => rfl

/-- Inference is a fold: it adds to a checker what the visit of the node adds. -/
theorem inferWithin_run
    (g : Graph) (scope : Scope) (depth : Nat) (id : NodeId) (checker : Checker) :
    (inferWithin g scope depth id).run checker =
      (g.foldWithin (Visit.combine g scope) depth id).map
        fun visit => (visit.ty, checker.extend visit) := by
  induction depth generalizing id checker with
  | zero => rfl
  | succ depth ih =>
      rw [inferWithin]
      cases hn : g.node id with
      | error fault =>
          rw [Graph.foldWithin_of_error hn]
          rfl
      | ok n =>
          rw [Graph.foldWithin_of_node hn]
          change (((g.operands n.shape).mapM (inferWithin g scope depth)).run
            (checker.enter id)) >>= _ = _
          rw [mapM_inferWithin_run ih]
          cases (g.operands n.shape).mapM
              (g.foldWithin (Visit.combine g scope) depth) with
          | error fault => rfl
          | ok below =>
              change _ = Except.ok (_, checker.extend (Visit.combine g scope id n below))
              rw [← settle_foldl_extend]
              rfl

end Checker

/-! ## Checking a well-formed expression -/

/-- What the visit of a node finds out. -/
def visitAt (g : Graph) (scope : Scope) (id : NodeId) : Visit :=
  g.valueAt (Visit.combine g scope) id

/-- The inferred type of a node. -/
def typeAt (g : Graph) (scope : Scope) (id : NodeId) : Ty :=
  (visitAt g scope id).ty

/-- The errors found in the expression at a node. -/
def errorsAt (g : Graph) (scope : Scope) (id : NodeId) : List TypeError :=
  (visitAt g scope id).errors

/-- The verdict on a node with the inferred types of its operands. -/
def verdictAt (g : Graph) (scope : Scope) (n : Node) : Verdict :=
  n.shape.head.judge scope ((g.operands n.shape).map (typeAt g scope))

/-- The result of checking the expression at a node. -/
def checkedAt (g : Graph) (scope : Scope) (id : NodeId) : Checked where
  ty := typeAt g scope id
  types := noteTypes (Checker.start g).types (visitAt g scope id).settled
  errors := errorsAt g scope id

section WellFormed

variable {g : Graph} {scope : Scope} {id root : NodeId} {n : Node}

/-- Inference succeeds from every checker and extends it by the same visit. -/
theorem infer_eq_ok (h : g.WellFormed id) (checker : Checker) :
    Checker.infer g scope id checker =
      .ok (typeAt g scope id, checker.extend (visitAt g scope id)) := by
  have hvisit := h.fold_eq_ok (Visit.combine g scope)
  rw [Graph.fold] at hvisit
  rw [Checker.infer_eq_inferWithin, Checker.inferWithin_run, hvisit]
  rfl

/-- The log of a check is that of the visit between its own first and last entry. -/
theorem checkLogged_eq_ok (h : g.WellFormed id) :
    checkLogged g scope id =
      .ok (checkedAt g scope id, .checking id :: ((visitAt g scope id).log ++
        [.checked (errorsAt g scope id).length (typeAt g scope id)])) := by
  unfold checkLogged
  rw [infer_eq_ok h]
  change Except.ok _ = Except.ok _
  simp [Checker.finish, Checker.record, Checker.extend, Checker.start, checkedAt, errorsAt]

theorem check_eq_ok (h : g.WellFormed id) :
    check g scope id = .ok (checkedAt g scope id) := by
  unfold check
  rw [checkLogged_eq_ok h]
  rfl

/-- The visit of a node follows those of its operands. -/
theorem visitAt_of_node (h : g.WellFormed id) (hn : g.node id = .ok n) :
    visitAt g scope id =
      { ty := (verdictAt g scope n).ty
        settled := (g.operands n.shape).flatMap (fun child => (visitAt g scope child).settled) ++
          [(id, (verdictAt g scope n).ty)]
        errors := (g.operands n.shape).flatMap (errorsAt g scope) ++
          ((verdictAt g scope n).error? g id (g.operands n.shape)).toList
        log := .inferring id ::
          ((g.operands n.shape).flatMap (fun child => (visitAt g scope child).log) ++
            (Verdict.entry? g id (g.operands n.shape) (verdictAt g scope n)).toList) } := by
  rw [visitAt, h.valueAt_eq hn (Visit.combine g scope), Visit.combine]
  simp only [List.map_map, List.flatMap_map]
  rfl

theorem typeAt_of_node (h : g.WellFormed id) (hn : g.node id = .ok n) :
    typeAt g scope id = (verdictAt g scope n).ty := by
  rw [typeAt, visitAt_of_node h hn]

theorem errorsAt_of_node (h : g.WellFormed id) (hn : g.node id = .ok n) :
    errorsAt g scope id =
      (g.operands n.shape).flatMap (errorsAt g scope) ++
        ((verdictAt g scope n).error? g id (g.operands n.shape)).toList := by
  rw [errorsAt, visitAt_of_node h hn]

/-- Exactly the nodes of the expression are settled. -/
theorem mem_settled_iff (h : g.WellFormed root) (entry : NodeId × Ty) :
    entry ∈ (visitAt g scope root).settled ↔
      g.Reaches root entry.1 ∧ entry.2 = typeAt g scope entry.1 := by
  revert entry
  refine h.induction ?_
  intro id n hn hid ih entry
  rw [visitAt_of_node hid hn, ← typeAt_of_node hid hn]
  rw [List.mem_append, List.mem_flatMap, List.mem_singleton, Graph.reaches_iff hn]
  constructor
  · rintro (⟨child, hchild, hmem⟩ | rfl)
    · obtain ⟨hreach, hty⟩ := (ih child hchild entry).1 hmem
      exact ⟨Or.inr ⟨child, hchild, hreach⟩, hty⟩
    · exact ⟨Or.inl rfl, rfl⟩
  · rintro ⟨hself | ⟨child, hchild, hreach⟩, hty⟩
    · exact Or.inr (Prod.ext hself (by rw [hty, hself]))
    · exact Or.inl ⟨child, hchild, (ih child hchild entry).2 ⟨hreach, hty⟩⟩

/-- The table of a check holds the types of exactly the nodes of the expression. -/
theorem typeOf_checkedAt_iff (h : g.WellFormed root) (id : NodeId) (ty : Ty) :
    (checkedAt g scope root).typeOf id = some ty ↔
      g.Reaches root id ∧ typeAt g scope id = ty := by
  have hentries : ∀ entry, entry ∈ (visitAt g scope root).settled ↔ _ := mem_settled_iff h
  have htable : (checkedAt g scope root).typeOf id = some ty ↔
      (id, ty) ∈ (visitAt g scope root).settled := by
    apply join_getElem?_noteTypes_start_iff
    · exact fun entry hentry => ((hentries entry).1 hentry).2
    · exact fun entry hentry => h.inRange entry.1 ((hentries entry).1 hentry).1
  rw [htable, hentries, eq_comm]

end WellFormed

end ExprTyping
