import ExprTyping.Proofs.Absorption
import Mathlib.Data.List.Forall2

/-!
# The log explains every unknown type

The visit of a node logs its begin, then what the visits of its operands log, and at
last what its own rule has to say.  In a scope whose declarations have no unknown parts,
this last part is empty exactly for nodes of known type and for parentheses; every other
node gets one entry that says why it has no type.

The entry also tells on whom the blame is put.  A follow-on error is suppressed only
where an operand has no type, and the two silent entries stand only where all operands
have one.  The errors in the log are the errors of the result.
-/

namespace ExprTyping

/-! ## What a visit logs -/

/-- The visit of a node adds these entries to the log of every checker. -/
def Logs (g : Graph) (scope : Scope) (id : NodeId) (entries : List LogEntry) : Prop :=
  ∀ before : Checker, ∃ ty after, Checker.infer g scope id before = .ok (ty, after) ∧
    after.log.toList = before.log.toList ++ entries

/-- What the visit of a node logs itself, after the visits of its operands. -/
structure LogsItself (g : Graph) (scope : Scope) (id : NodeId) (n : Node)
    (own : List LogEntry) : Prop where
  node : g.node id = .ok n
  composed : ∃ below, List.Forall₂ (Logs g scope) (g.operands n.shape) below ∧
    Logs g scope id (.inferring id :: (below.flatten ++ own))

/-- The entry says why the node has no type. -/
inductive LogEntry.Explains (id : NodeId) : LogEntry → Prop where
  | typeError (e : TypeError) : Explains id (.typeError e)
  | suppressed : Explains id (.suppressed id)
  | silent (silence : Silence) : Explains id (.silent id silence)
  | undeclared (struct : Name) : Explains id (.undeclared struct)

/-- The error that an entry of the log records. -/
def LogEntry.error? : LogEntry → Option TypeError
  | .typeError e => some e
  | _ => none

/-- What a node logs itself accounts for its type and for the types of its operands. -/
structure Accounts (g : Graph) (types : NodeId → Option Ty) (id : NodeId) (n : Node)
    (own : List LogEntry) : Prop where
  /-- A node without a type is explained by one entry. -/
  explained : n.shape.head ≠ .paren → types id = some .unknown →
    ∃ entry, own = [entry] ∧ entry.Explains id
  /-- Parentheses, and nodes with a type, need no explanation. -/
  unexplained : n.shape.head = .paren ∨ types id ≠ some .unknown → own = []
  /-- A follow-on error is suppressed because of an operand. -/
  suppressed : ∀ k, .suppressed k ∈ own →
    ∃ child ∈ g.operands n.shape, types child = some .unknown
  /-- No operand is the reason for a missing rule. -/
  silent : ∀ k silence, .silent k silence ∈ own →
    ∀ child ∈ g.operands n.shape, types child ≠ some .unknown
  /-- No operand is the reason for a missing declaration. -/
  undeclared : ∀ struct, .undeclared struct ∈ own →
    ∀ child ∈ g.operands n.shape, types child ≠ some .unknown

/-! ## Verdicts on operands without a type -/

/-- The verdict reports an error or leaves it to an operand. -/
def Verdict.Recovers : Verdict → Prop
  | .failed _ _ | .suppressed => True
  | _ => False

theorem Verdict.Recovers.isSilent_eq_false
    {verdict : Verdict} (h : verdict.Recovers) : verdict.isSilent = false := by
  cases verdict with
  | silent silence => exact h.elim
  | undeclared struct => exact h.elim
  | _ => rfl

namespace Rule

theorem call_recovers {callee : Ty} {args : List Ty} (h : Ty.unknown ∈ callee :: args) :
    (call callee args).Recovers := by
  cases callee with
  | func params result =>
      have hany : args.any Ty.isUnknown = true := by
        simpa using h
      -- Arguments that are refused are reported even where another has no type.
      rw [call, if_pos hany]
      split <;> trivial
  | _ => trivial

theorem append_recovers {list element : Ty} (h : Ty.unknown ∈ [list, element]) :
    (append list element).Recovers := by
  rcases Ty.eq_unknown_or_of_mem h with rfl | rfl
  · trivial
  · cases list with
    | list inner => simp [append, Ty.joins, Ty.isUnknown, Verdict.Recovers]
    | _ => trivial

end Rule

/-- With an operand of unknown type, a rule other than that for parentheses reports an
error or suppresses it. -/
theorem Head.judge_recovers
    (scope : Scope) {head : Head} {types : List Ty} (hhead : head ≠ .paren)
    (h : Ty.unknown ∈ types) :
    (head.judge scope types).Recovers := by
  revert hhead
  fun_cases Head.judge scope head types with
  | case1 => exact absurd h List.not_mem_nil
  | case2 => exact absurd h List.not_mem_nil
  | case3 => exact absurd h List.not_mem_nil
  | case4 op left right =>
      rw [Rule.binary_of_unknown h]
      exact fun _ => trivial
  | case5 op operand =>
      rw [← List.mem_singleton.1 h]
      exact fun _ => trivial
  | case6 callee args => exact fun _ => Rule.call_recovers h
  | case7 list position =>
      rw [Rule.index_of_unknown h]
      exact fun _ => trivial
  | case8 member owner =>
      rw [← List.mem_singleton.1 h]
      exact fun _ => trivial
  | case9 list =>
      rw [← List.mem_singleton.1 h]
      exact fun _ => trivial
  | case10 list element => exact fun _ => Rule.append_recovers h
  | case11 inner => exact fun hhead => absurd rfl hhead
  | case12 => exact fun _ => trivial

theorem Verdict.explains_of_entry?
    {g : Graph} {id : NodeId} {operands : List NodeId} {verdict : Verdict} {entry : LogEntry}
    (h : verdict.entry? g id operands = some entry) : entry.Explains id := by
  cases verdict with
  | typed ty => cases h
  | failed site cause =>
      cases h
      exact .typeError _
  | suppressed =>
      cases h
      exact .suppressed
  | silent silence =>
      cases h
      exact .silent silence
  | undeclared struct =>
      cases h
      exact .undeclared struct

theorem Verdict.entry?_eq_none_iff
    {g : Graph} {id : NodeId} {operands : List NodeId} {verdict : Verdict} :
    verdict.entry? g id operands = none ↔ ∃ ty, verdict = .typed ty := by
  cases verdict <;> simp [Verdict.entry?, Verdict.error?]

theorem Verdict.ty_eq_unknown_of_ne_typed
    {verdict : Verdict} (h : ∀ ty, verdict ≠ .typed ty) : verdict.ty = .unknown := by
  cases verdict with
  | typed ty => exact absurd rfl (h ty)
  | _ => rfl

theorem Verdict.eq_suppressed_of_entry?
    {g : Graph} {id k : NodeId} {operands : List NodeId} {verdict : Verdict}
    (h : verdict.entry? g id operands = some (.suppressed k)) : verdict = .suppressed := by
  cases verdict <;> cases h
  rfl

theorem Verdict.isSilent_of_silent
    {g : Graph} {id k : NodeId} {silence : Silence} {operands : List NodeId} {verdict : Verdict}
    (h : verdict.entry? g id operands = some (.silent k silence)) : verdict.isSilent = true := by
  cases verdict <;> cases h
  rfl

theorem Verdict.isSilent_of_undeclared
    {g : Graph} {id : NodeId} {struct : Name} {operands : List NodeId} {verdict : Verdict}
    (h : verdict.entry? g id operands = some (.undeclared struct)) : verdict.isSilent = true := by
  cases verdict <;> cases h
  rfl

theorem Verdict.filterMap_error?_entry?
    (g : Graph) (id : NodeId) (operands : List NodeId) (verdict : Verdict) :
    (verdict.entry? g id operands).toList.filterMap LogEntry.error? =
      (verdict.error? g id operands).toList := by
  cases verdict <;> rfl

section Accounting

variable {g : Graph} {scope : Scope} {id root : NodeId} {n : Node}

theorem logs_visitAt (h : g.WellFormed id) : Logs g scope id (visitAt g scope id).log := by
  intro before
  refine ⟨_, _, infer_eq_ok h before, ?_⟩
  simp [Checker.extend]

theorem verdictAt_recovers
    (hhead : n.shape.head ≠ .paren) {child : NodeId} (hchild : child ∈ g.operands n.shape)
    (hunknown : typeAt g scope child = .unknown) :
    (verdictAt g scope n).Recovers :=
  Head.judge_recovers scope hhead (List.mem_map.2 ⟨child, hchild, hunknown⟩)

theorem head_ne_paren_of_verdictAt (h : ∀ ty, verdictAt g scope n ≠ .typed ty) :
    n.shape.head ≠ .paren := by
  intro hhead
  obtain ⟨shape, span⟩ := n
  cases shape with
  | paren inner => exact h _ rfl
  | _ => cases hhead

/-- A rule other than that for parentheses gives known types only. -/
theorem ne_unknown_of_verdictAt_typed
    (h : g.WellFormed id) (hn : g.node id = .ok n) (hscope : scope.Known)
    (hhead : n.shape.head ≠ .paren) {ty : Ty} (hverdict : verdictAt g scope n = .typed ty) :
    ty ≠ .unknown := by
  by_cases hoperand : ∃ child ∈ g.operands n.shape, typeAt g scope child = .unknown
  · obtain ⟨child, hchild, hunknown⟩ := hoperand
    have hrecovers := verdictAt_recovers hhead hchild hunknown
    rw [hverdict] at hrecovers
    exact hrecovers.elim
  · have hdefinite := verdictAt_definite_of_ne_unknown h hn hscope
      fun child hchild hunknown => hoperand ⟨child, hchild, hunknown⟩
    rw [hverdict] at hdefinite
    exact hdefinite.ne_unknown

/-- A suppressed error is due to an operand. -/
theorem exists_unknown_of_verdictAt_suppressed
    (h : g.WellFormed id) (hn : g.node id = .ok n) (hscope : scope.Known)
    (hverdict : verdictAt g scope n = .suppressed) :
    ∃ child ∈ g.operands n.shape, typeAt g scope child = .unknown := by
  by_contra hnone
  have hdefinite := verdictAt_definite_of_ne_unknown h hn hscope
    fun child hchild hunknown => hnone ⟨child, hchild, hunknown⟩
  rw [hverdict] at hdefinite
  exact hdefinite

/-- A silent verdict is not due to an operand. -/
theorem ne_unknown_of_verdictAt_isSilent
    (hsilent : (verdictAt g scope n).isSilent = true) :
    ∀ child ∈ g.operands n.shape, typeAt g scope child ≠ .unknown := by
  intro child hchild hunknown
  have hne : ∀ ty, verdictAt g scope n ≠ .typed ty := by
    intro ty htyped
    rw [htyped] at hsilent
    cases hsilent
  have hrecovers := verdictAt_recovers (head_ne_paren_of_verdictAt hne) hchild hunknown
  rw [hrecovers.isSilent_eq_false] at hsilent
  cases hsilent

/-- The verdict on a node is the only thing that it logs itself. -/
theorem logsItself_of_node (h : g.WellFormed id) (hn : g.node id = .ok n) :
    LogsItself g scope id n
      (Verdict.entry? g id (g.operands n.shape) (verdictAt g scope n)).toList where
  node := hn
  composed := by
    refine ⟨(g.operands n.shape).map fun child => (visitAt g scope child).log, ?_, ?_⟩
    · apply List.forall₂_map_right_iff.2
      exact List.forall₂_same.2 fun child hchild => logs_visitAt (h.operand hn hchild)
    · have hlogs : Logs g scope id _ := logs_visitAt h
      rw [visitAt_of_node h hn, List.flatMap_def] at hlogs
      exact hlogs

/-- What a node logs itself accounts for the inferred types. -/
theorem accounts_of_node
    (h : g.WellFormed id) (hn : g.node id = .ok n) (hscope : scope.Known)
    {types : NodeId → Option Ty} (hself : types id = some (typeAt g scope id))
    (hoperands : ∀ child ∈ g.operands n.shape, types child = some (typeAt g scope child)) :
    Accounts g types id n
      (Verdict.entry? g id (g.operands n.shape) (verdictAt g scope n)).toList := by
  rw [typeAt_of_node h hn] at hself
  have hsilent : (verdictAt g scope n).isSilent = true →
      ∀ child ∈ g.operands n.shape, types child ≠ some .unknown := by
    intro hverdict child hchild htype
    rw [hoperands child hchild, Option.some.injEq] at htype
    exact ne_unknown_of_verdictAt_isSilent hverdict child hchild htype
  constructor
  case explained =>
    intro hhead hunknown
    rw [hself, Option.some.injEq] at hunknown
    cases hentry : Verdict.entry? g id (g.operands n.shape) (verdictAt g scope n) with
    | some entry => exact ⟨entry, rfl, Verdict.explains_of_entry? hentry⟩
    | none =>
        obtain ⟨ty, hverdict⟩ := Verdict.entry?_eq_none_iff.1 hentry
        rw [hverdict] at hunknown
        exact absurd hunknown (ne_unknown_of_verdictAt_typed h hn hscope hhead hverdict)
  case unexplained =>
    intro hor
    have htyped : ∃ ty, verdictAt g scope n = .typed ty := by
      by_contra hnot
      have hne : ∀ ty, verdictAt g scope n ≠ .typed ty := not_exists.1 hnot
      rcases hor with hhead | htype
      · exact head_ne_paren_of_verdictAt hne hhead
      · exact htype (hself.trans (congrArg some (Verdict.ty_eq_unknown_of_ne_typed hne)))
    rw [Verdict.entry?_eq_none_iff.2 htyped, Option.toList_none]
  case suppressed =>
    intro k hmem
    have hverdict := Verdict.eq_suppressed_of_entry? (Option.mem_toList.1 hmem)
    obtain ⟨child, hchild, hty⟩ := exists_unknown_of_verdictAt_suppressed h hn hscope hverdict
    exact ⟨child, hchild, by rw [hoperands child hchild, hty]⟩
  case silent =>
    intro k silence hmem
    exact hsilent (Verdict.isSilent_of_silent (Option.mem_toList.1 hmem))
  case undeclared =>
    intro struct hmem
    exact hsilent (Verdict.isSilent_of_undeclared (Option.mem_toList.1 hmem))

/-- The errors in the log of a visit are those that it finds. -/
theorem filterMap_error?_log (h : g.WellFormed root) :
    (visitAt g scope root).log.filterMap LogEntry.error? = errorsAt g scope root := by
  refine h.induction ?_
  intro id n hn hid ih
  rw [visitAt_of_node hid hn, errorsAt_of_node hid hn]
  have hself : LogEntry.error? (.inferring id) = none := rfl
  rw [List.filterMap_cons_none hself, List.filterMap_append, Verdict.filterMap_error?_entry?,
    List.filterMap_flatMap, List.flatMap_def, List.map_congr_left ih, List.flatMap_def]

end Accounting

/-- Every unknown type is explained exactly once in the log.

A well-formed expression can be checked.  The log consists of what the visit of its root
logs, between the begin of the check and its end.  Each node of the expression logs its
visit, then what its operands log, and last what it has to say itself.  If no declaration
of the scope has unknown parts, this accounts for the types: a node without a type gives
one reason unless it stands for parentheses, and all others give none; a follow-on error
is suppressed because of an operand, and a silent reason is the node's own.  The errors
in the log are the errors of the result, in the same order. -/
theorem check_log_explains_unknown
    (g : Graph) (scope : Scope) (root : NodeId) (h : g.WellFormed root) (hscope : scope.Known) :
    ∃ result log,
      checkLogged g scope root = .ok (result, log) ∧
      (∃ entries, Logs g scope root entries ∧
        log = .checking root :: (entries ++ [.checked result.errors.length result.ty])) ∧
      log.filterMap LogEntry.error? = result.errors ∧
      ∀ id, g.Reaches root id →
        ∃ n own, LogsItself g scope id n own ∧ Accounts g result.typeOf id n own := by
  refine ⟨_, _, checkLogged_eq_ok h, ⟨_, logs_visitAt h, rfl⟩, ?_, ?_⟩
  · rw [List.filterMap_cons_none rfl, List.filterMap_append, filterMap_error?_log h,
      List.filterMap_cons_none rfl, List.filterMap_nil, List.append_nil]
    rfl
  · intro id hreach
    have hid := h.of_reaches hreach
    obtain ⟨n, hn⟩ := hid.exists_node
    refine ⟨n, _, logsItself_of_node hid hn, accounts_of_node hid hn hscope ?_ ?_⟩
    · exact (typeOf_checkedAt_iff h id _).2 ⟨hreach, rfl⟩
    · exact typeOf_checkedAt_operand scope h hreach hn

/-- The sum of a negated list, in parentheses, and an undeclared variable. -/
def negatedPlusStray : Graph where
  nodes :=
    #[⟨.ident ⟨1⟩, Span.zero⟩, ⟨.unary .minus ⟨0⟩, Span.zero⟩, ⟨.paren ⟨1⟩, Span.zero⟩,
      ⟨.ident ⟨9⟩, Span.zero⟩, ⟨.binary .add ⟨2⟩ ⟨3⟩, Span.zero⟩]
  args := #[]

theorem negatedPlusStray_explained :
    negatedPlusStray.WellFormed ⟨4⟩ ∧ listScope.Known ∧
      ∃ result log, checkLogged negatedPlusStray listScope ⟨4⟩ = .ok (result, log) ∧
        result.errors.map TypeError.node = [⟨3⟩] ∧
        log.filterMap LogEntry.error? = result.errors ∧
        (∃ n entry, LogsItself negatedPlusStray listScope ⟨4⟩ n [entry] ∧
          entry.Explains ⟨4⟩) ∧
        ∃ n, LogsItself negatedPlusStray listScope ⟨2⟩ n [] := by
  have hwf : negatedPlusStray.WellFormed ⟨4⟩ := by decide
  obtain ⟨result, log, hlogged, -, herrors, hnodes⟩ :=
    check_log_explains_unknown negatedPlusStray listScope ⟨4⟩ hwf listScope_known
  have heval : (checkLogged negatedPlusStray listScope ⟨4⟩).map
      (fun found => (found.1.errors.map TypeError.node, found.1.typeOf ⟨4⟩)) =
        .ok ([⟨3⟩], some .unknown) := by
    decide +kernel
  rw [hlogged] at heval
  obtain ⟨hnode, htype⟩ := Prod.ext_iff.1 (Except.ok.inj heval)
  refine ⟨hwf, listScope_known, result, log, hlogged, hnode, herrors, ?_, ?_⟩
  · obtain ⟨n, own, hlogs, haccounts⟩ := hnodes ⟨4⟩ (Graph.Reaches.refl _ _)
    obtain rfl := Except.ok.inj (hlogs.node.symm.trans rfl)
    obtain ⟨entry, rfl, hexplains⟩ := haccounts.explained (by decide) htype
    exact ⟨_, entry, hlogs, hexplains⟩
  · have hreach : negatedPlusStray.Reaches ⟨4⟩ ⟨2⟩ :=
      Relation.ReflTransGen.single ((Graph.hasOperand_iff rfl).2 (by decide))
    obtain ⟨n, own, hlogs, haccounts⟩ := hnodes ⟨2⟩ hreach
    obtain rfl := Except.ok.inj (hlogs.node.symm.trans rfl)
    obtain rfl := haccounts.unexplained (Or.inl rfl)
    exact ⟨_, hlogs⟩

end ExprTyping
