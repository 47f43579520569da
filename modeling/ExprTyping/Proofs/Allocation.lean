import ExprTyping.Proofs.Access
import ExprTyping.Proofs.Renaming

/-!
# Graphs that grow

A graph is filled by storing nodes and argument lists one after the other.  Each of them
goes behind what is stored already, so a number or range that was given out once leads to
the same thing for ever.  The ranges that are not empty lie side by side in the argument
table, in the order in which they were given out.

A check reads nothing but the nodes of an expression, the argument lists of its calls and
the spans of its nodes.  Hence it finds out the same after the graph has grown.
-/

namespace ExprTyping

/-- Something to be stored in a graph. -/
inductive Allocation where
  | node (n : Node)
  | args (ids : List NodeId)
deriving DecidableEq, Repr

/-- What leads to a stored thing. -/
inductive Handle where
  | node (id : NodeId)
  | args (range : ArgRange)
deriving DecidableEq, Repr

namespace ArgRange

def isEmpty (range : ArgRange) : Bool :=
  range.stop ≤ range.start

/-- Ranges that are not empty and follow each other without gaps from `start` to `stop`. -/
def Tile (start stop : Nat) : List ArgRange → Prop
  | [] => start = stop
  | range :: ranges =>
    range.start = start ∧ range.start < range.stop ∧ Tile range.stop stop ranges

theorem Tile.bounds
    {start stop : Nat} {ranges : List ArgRange} (h : Tile start stop ranges) :
    start ≤ stop ∧ ∀ range ∈ ranges, start ≤ range.start := by
  induction ranges generalizing start with
  | nil => exact ⟨Nat.le_of_eq h, nofun⟩
  | cons first ranges ih =>
      obtain ⟨rfl, hlt, hrest⟩ := h
      obtain ⟨hle, hlater⟩ := ih hrest
      refine ⟨by omega, ?_⟩
      intro range hmem
      rcases List.mem_cons.1 hmem with rfl | hmem
      · exact Nat.le_refl _
      · exact Nat.le_trans (Nat.le_of_lt hlt) (hlater range hmem)

/-- Of two ranges side by side, the first ends before the second begins. -/
theorem Tile.pairwise
    {start stop : Nat} {ranges : List ArgRange} (h : Tile start stop ranges) :
    ranges.Pairwise fun a b => a.stop ≤ b.start := by
  induction ranges generalizing start with
  | nil => exact List.Pairwise.nil
  | cons first ranges ih =>
      obtain ⟨-, -, hrest⟩ := h
      exact List.Pairwise.cons hrest.bounds.2 (ih hrest)

end ArgRange

/-- The ranges among handles, except for empty ones. -/
def Handle.ranges (handles : List Handle) : List ArgRange :=
  handles.filterMap fun
    | .args range => if range.isEmpty then none else some range
    | .node _ => none

namespace Graph

/-! ## Storing one thing after the other -/

/-- Stores something behind all that is stored already. -/
def allocate (g : Graph) : Allocation → Handle × Graph
  | .node n =>
    let (id, grown) := g.add n
    (.node id, grown)
  | .args ids =>
    let (range, grown) := g.addArgs ids
    (.args range, grown)

def allocateAll (g : Graph) : List Allocation → List Handle × Graph
  | [] => ([], g)
  | allocation :: allocations =>
    let (handle, next) := g.allocate allocation
    let (handles, last) := next.allocateAll allocations
    (handle :: handles, last)

/-- The handle leads to exactly what was stored, and the tables are large enough for it. -/
def Yields (g : Graph) : Allocation → Handle → Prop
  | .node n, .node id => g.node id = .ok n
  | .args ids, .args range => g.InTable range ∧ g.argList range = ids
  | _, _ => False

theorem yields_allocate (g : Graph) (allocation : Allocation) :
    (g.allocate allocation).2.Yields allocation (g.allocate allocation).1 := by
  rcases allocation with n | ids
  · exact node_add_self g n
  · exact ⟨inTable_addArgs_self g ids, argList_addArgs_self g ids⟩

/-- The second graph has the nodes and arguments of the first one at the same places, and
perhaps more behind them. -/
structure GrownTo (g g' : Graph) : Prop where
  nodes_isPrefix : g.nodes.toList <+: g'.nodes.toList
  args_isPrefix : g.args.toList <+: g'.args.toList

theorem GrownTo.refl (g : Graph) : g.GrownTo g :=
  ⟨List.prefix_refl _, List.prefix_refl _⟩

theorem GrownTo.trans {g g' g'' : Graph} (h : g.GrownTo g') (h' : g'.GrownTo g'') :
    g.GrownTo g'' :=
  ⟨h.nodes_isPrefix.trans h'.nodes_isPrefix, h.args_isPrefix.trans h'.args_isPrefix⟩

theorem grownTo_allocate (g : Graph) (allocation : Allocation) :
    g.GrownTo (g.allocate allocation).2 := by
  rcases allocation with n | ids
  · refine ⟨?_, List.prefix_refl _⟩
    rw [allocate, add, Array.toList_push]
    exact List.prefix_append _ _
  · refine ⟨List.prefix_refl _, ?_⟩
    rw [allocate, addArgs, Array.toList_append]
    exact List.prefix_append _ _

theorem grownTo_allocateAll (g : Graph) (allocations : List Allocation) :
    g.GrownTo (g.allocateAll allocations).2 := by
  induction allocations generalizing g with
  | nil => exact GrownTo.refl g
  | cons allocation allocations ih => exact (grownTo_allocate g allocation).trans (ih _)

/-! ## What a grown graph keeps -/

namespace GrownTo

variable {g g' : Graph}

theorem size_le (h : g.GrownTo g') : g.size ≤ g'.size := by
  rw [size, size, ← Array.length_toList, ← Array.length_toList]
  exact h.nodes_isPrefix.length_le

theorem node_eq (h : g.GrownTo g') {id : NodeId} (hid : id.index < g.size) :
    g'.node id = g.node id := by
  obtain ⟨more, hmore⟩ := h.nodes_isPrefix
  have hget : g'.nodes[id.index]? = g.nodes[id.index]? := by
    rw [size, ← Array.length_toList] at hid
    rw [← Array.getElem?_toList, ← Array.getElem?_toList, ← hmore,
      List.getElem?_append_left hid]
  obtain ⟨n, hn⟩ := exists_node_of_index_lt hid
  rw [hn, node_eq_ok_iff, hget, ← node_eq_ok_iff, hn]

theorem spanOf_eq (h : g.GrownTo g') {id : NodeId} (hid : id.index < g.size) :
    g'.spanOf id = g.spanOf id := by
  obtain ⟨n, hn⟩ := exists_node_of_index_lt hid
  rw [spanOf_of_node hn, spanOf_of_node ((h.node_eq hid).trans hn)]

theorem inTable (h : g.GrownTo g') {range : ArgRange} (hrange : g.InTable range) :
    g'.InTable range := by
  obtain ⟨hle, hstop⟩ := hrange
  refine ⟨hle, Nat.le_trans hstop ?_⟩
  rw [← Array.length_toList, ← Array.length_toList]
  exact h.args_isPrefix.length_le

theorem argList_eq (h : g.GrownTo g') {range : ArgRange} (hrange : g.InTable range) :
    g'.argList range = g.argList range := by
  obtain ⟨more, hmore⟩ := h.args_isPrefix
  obtain ⟨hle, hstop⟩ := hrange
  rw [← Array.length_toList] at hstop
  rw [argList, argList, Array.toList_extract, Array.toList_extract, ← hmore,
    List.extract_eq_take_drop, List.extract_eq_take_drop,
    List.drop_append_of_le_length (Nat.le_trans hle hstop), List.take_append_of_le_length]
  rw [List.length_drop]
  omega

theorem yields (h : g.GrownTo g') {allocation : Allocation} {handle : Handle}
    (hyields : g.Yields allocation handle) :
    g'.Yields allocation handle := by
  rcases allocation with n | ids
  · rcases handle with id | range
    · exact (h.node_eq (index_lt_of_node hyields)).trans hyields
    · exact hyields
  · rcases handle with id | range
    · exact hyields
    · obtain ⟨hrange, hids⟩ := hyields
      exact ⟨h.inTable hrange, (h.argList_eq hrange).trans hids⟩

end GrownTo

/-- All handles lead to what was stored for them, however much has been stored since. -/
theorem yields_allocateAll (g : Graph) (allocations : List Allocation) :
    List.Forall₂ (g.allocateAll allocations).2.Yields allocations
      (g.allocateAll allocations).1 := by
  induction allocations generalizing g with
  | nil => exact List.Forall₂.nil
  | cons allocation allocations ih =>
      apply List.Forall₂.cons _ (ih _)
      exact (grownTo_allocateAll _ allocations).yields (yields_allocate g allocation)

/-- The ranges that were given out tile what has been added to the argument table. -/
theorem tile_allocateAll (g : Graph) (allocations : List Allocation) :
    ArgRange.Tile g.args.size (g.allocateAll allocations).2.args.size
      (Handle.ranges (g.allocateAll allocations).1) := by
  induction allocations generalizing g with
  | nil => rfl
  | cons allocation allocations ih =>
      rcases allocation with n | ids
      · exact ih (g.add n).2
      · have hsize : (g.addArgs ids).2.args.size = g.args.size + ids.length := by
          simp [addArgs]
        have hrest := ih (g.addArgs ids).2
        by_cases hempty : ids = []
        · have hskip : Handle.ranges (g.allocateAll (.args ids :: allocations)).1 =
              Handle.ranges ((g.addArgs ids).2.allocateAll allocations).1 := by
            apply List.filterMap_cons_none
            simp [ArgRange.isEmpty, hempty]
          rw [hsize, hempty] at hrest
          rw [hskip, hempty]
          exact hrest
        · have hgrows : g.args.size < (g.addArgs ids).2.args.size := by
            have hlength := List.length_pos_of_ne_nil hempty
            omega
          have hfirst : Handle.ranges (g.allocateAll (.args ids :: allocations)).1 =
              (g.addArgs ids).1 ::
                Handle.ranges ((g.addArgs ids).2.allocateAll allocations).1 := by
            apply List.filterMap_cons_some
            apply if_neg
            rw [ArgRange.isEmpty, decide_eq_true_eq]
            exact Nat.not_le.2 hgrows
          rw [hfirst]
          exact ⟨rfl, hgrows, hrest⟩

end Graph

/-! ## What a check reads -/

/-- Only through the error does the entry of a verdict depend on the graph. -/
theorem Verdict.entry?_congr
    {g g' : Graph} {id : NodeId} {operands : List NodeId} {verdict : Verdict}
    (h : verdict.error? g' id operands = verdict.error? g id operands) :
    verdict.entry? g' id operands = verdict.entry? g id operands := by
  cases verdict with
  | failed site cause => exact congrArg (Option.map LogEntry.typeError) h
  | _ => rfl

/-- Where every step succeeds or fails in one way, so do all of them together. -/
theorem mapM_ok_or_error
    {α β ε : Type} {f : α → Except ε β} {as : List α} {e : ε}
    (h : ∀ a ∈ as, (∃ b, f a = .ok b) ∨ f a = .error e) :
    (∃ bs, as.mapM f = .ok bs) ∨ as.mapM f = .error e := by
  induction as with
  | nil => exact Or.inl ⟨[], rfl⟩
  | cons a as ih =>
      rw [List.mapM_cons]
      rcases h a (by simp) with ⟨b, hb⟩ | herror
      · rw [hb]
        rcases ih fun later hlater => h later (by simp [hlater]) with ⟨bs, hbs⟩ | herror
        · rw [hbs]
          exact Or.inl ⟨b :: bs, rfl⟩
        · rw [herror]
          exact Or.inr rfl
      · rw [herror]
        exact Or.inr rfl

namespace Graph

/-- The expression at `root` lies in the graph: its nodes exist, and the arguments of its
calls are in the table. -/
structure Encloses (g : Graph) (root : NodeId) : Prop where
  inRange : ∀ id, g.Reaches root id → id.index < g.size
  inTable : ∀ id callee args span, g.Reaches root id →
    g.node id = .ok ⟨.call callee args, span⟩ → g.InTable args

namespace Encloses

variable {g g' : Graph} {root id : NodeId} {n : Node}

theorem exists_node (h : g.Encloses root) (hid : g.Reaches root id) :
    ∃ n, g.node id = .ok n :=
  exists_node_of_index_lt (h.inRange id hid)

theorem reaches_operand (hid : g.Reaches root id) (hn : g.node id = .ok n)
    {child : NodeId} (hchild : child ∈ g.operands n.shape) : g.Reaches root child :=
  Relation.ReflTransGen.tail hid ((hasOperand_iff hn).2 hchild)

theorem operands_eq (h : g.Encloses root) (hgrown : g.GrownTo g')
    (hid : g.Reaches root id) (hn : g.node id = .ok n) :
    g'.operands n.shape = g.operands n.shape := by
  obtain ⟨shape, span⟩ := n
  cases shape with
  | call callee args =>
      rw [operands, operands, hgrown.argList_eq (h.inTable id callee args span hid hn)]
  | _ => rfl

/-- A node is judged alike after the graph has grown. -/
theorem combine_eq (h : g.Encloses root) (hgrown : g.GrownTo g') (scope : Scope)
    (hid : g.Reaches root id) (hn : g.node id = .ok n) :
    Visit.combine g' scope id n = Visit.combine g scope id n := by
  funext below
  have hoperands := h.operands_eq hgrown hid hn
  have hspans : ∀ child ∈ g.operands n.shape, g'.spanOf child = g.spanOf child := by
    intro child hchild
    exact hgrown.spanOf_eq (h.inRange child (reaches_operand hid hn hchild))
  have herror := (n.shape.head.judge scope (below.map Visit.ty)).error?_congr
    (hgrown.spanOf_eq (h.inRange id hid)) hspans
  rw [Visit.combine, Visit.combine, hoperands, herror, Verdict.entry?_congr herror]

/-- What is found out below a node does not depend on the rest of the graph. -/
theorem foldWithin_eq (h : g.Encloses root) (hgrown : g.GrownTo g') (scope : Scope)
    (depth : Nat) (hid : g.Reaches root id) :
    g'.foldWithin (Visit.combine g' scope) depth id =
      g.foldWithin (Visit.combine g scope) depth id := by
  induction depth generalizing id with
  | zero => rfl
  | succ depth ih =>
      obtain ⟨n, hn⟩ := h.exists_node hid
      have hbelow : ∀ child ∈ g.operands n.shape,
          g'.foldWithin (Visit.combine g' scope) depth child =
            g.foldWithin (Visit.combine g scope) depth child :=
        fun child hchild => ih (reaches_operand hid hn hchild)
      rw [foldWithin_of_node hn, foldWithin_of_node ((hgrown.node_eq (index_lt_of_node hn)).trans hn),
        h.operands_eq hgrown hid hn, mapM_congr hbelow, h.combine_eq hgrown scope hid hn]

/-- Inside a graph nothing but a cycle can go wrong. -/
theorem foldWithin_ok_or_cyclic (h : g.Encloses root) {β : Type}
    (f : NodeId → Node → List β → β) (depth : Nat) (hid : g.Reaches root id) :
    (∃ b, g.foldWithin f depth id = .ok b) ∨ g.foldWithin f depth id = .error .cyclic := by
  induction depth generalizing id with
  | zero => exact Or.inr rfl
  | succ depth ih =>
      obtain ⟨n, hn⟩ := h.exists_node hid
      rw [foldWithin_of_node hn]
      rcases mapM_ok_or_error fun child hchild => ih (reaches_operand hid hn hchild) with
        ⟨below, hbelow⟩ | herror
      · rw [hbelow]
        exact Or.inl ⟨f id n below, rfl⟩
      · rw [herror]
        exact Or.inr rfl

/-- With a cycle there is no result, whatever the depth. -/
theorem foldWithin_of_cycle (h : g.Encloses root) {β : Type}
    (f : NodeId → Node → List β → β) (depth : Nat) (hcycle : ¬g.Acyclic root) :
    g.foldWithin f depth root = .error .cyclic := by
  rcases h.foldWithin_ok_or_cyclic f depth (Reaches.refl g root) with ⟨b, hb⟩ | herror
  · refine absurd ?_ hcycle
    intro id hid
    obtain ⟨left, hleft⟩ := (within_of_foldWithin_ok hb).of_reaches hid
    exact hleft.not_below_self
  · exact herror

theorem fold_eq (h : g.Encloses root) (hgrown : g.GrownTo g') (scope : Scope) :
    g'.fold (Visit.combine g' scope) root = g.fold (Visit.combine g scope) root := by
  rw [fold, h.foldWithin_eq hgrown scope _ (Reaches.refl g root), fold]
  -- A larger graph allows for a greater depth, which makes a difference only if the smaller
  -- one is not enough; with a cycle neither is.
  by_cases hacyclic : g.Acyclic root
  · exact foldWithin_eq_of_within hacyclic.within (Nat.succ_le_succ hgrown.size_le)
  · rw [h.foldWithin_of_cycle _ _ hacyclic, h.foldWithin_of_cycle _ _ hacyclic]

theorem wellFormed (h : g.Encloses root) (hacyclic : g.Acyclic root) : g.WellFormed root :=
  ⟨h.inRange, hacyclic⟩

end Encloses
end Graph

/-- The second result is the first one for a larger graph: it has the same type and errors,
the same types of nodes below `size` and none for others. -/
structure Checked.SameBelow (size : Nat) (result result' : Checked) : Prop where
  ty_eq : result'.ty = result.ty
  errors_eq : result'.errors = result.errors
  typeOf_eq : ∀ id, id.index < size → result'.typeOf id = result.typeOf id
  typeOf_new : ∀ id, size ≤ id.index → result'.typeOf id = none

section Growing

variable {g g' : Graph} {root : NodeId}

/-- The table of a larger graph holds the same types. -/
theorem typeOf_checked_grown (scope : Scope) (h : g.WellFormed root) (hsize : g.size ≤ g'.size)
    (id : NodeId) :
    ((visitAt g scope root).checked g').typeOf id = (checkedAt g scope root).typeOf id := by
  have hentries : ∀ entry, entry ∈ (visitAt g scope root).settled ↔ _ := mem_settled_iff h
  have hvalue : ∀ entry ∈ (visitAt g scope root).settled, entry.2 = typeAt g scope entry.1 :=
    fun entry hentry => ((hentries entry).1 hentry).2
  have hrange : ∀ entry ∈ (visitAt g scope root).settled, entry.1.index < g.size :=
    fun entry hentry => h.inRange entry.1 ((hentries entry).1 hentry).1
  have hrange' : ∀ entry ∈ (visitAt g scope root).settled, entry.1.index < g'.size :=
    fun entry hentry => Nat.lt_of_lt_of_le (hrange entry hentry) hsize
  apply Option.ext
  intro ty
  exact (join_getElem?_noteTypes_start_iff hvalue hrange').trans
    (join_getElem?_noteTypes_start_iff hvalue hrange).symm

/-- A check finds out the same in a graph that has grown. -/
theorem Graph.Encloses.check_grown
    (h : g.Encloses root) (hgrown : g.GrownTo g') (scope : Scope) (hacyclic : g.Acyclic root) :
    ∃ result result', check g scope root = .ok result ∧ check g' scope root = .ok result' ∧
      result.SameBelow g.size result' := by
  have hwf := h.wellFormed hacyclic
  have hcheck : check g' scope root = .ok ((visitAt g scope root).checked g') := by
    rw [check_eq_fold, h.fold_eq hgrown, hwf.fold_eq_ok]
    rfl
  have htypes := typeOf_checked_grown scope hwf hgrown.size_le
  refine ⟨_, _, check_eq_ok hwf, hcheck, rfl, rfl, fun id _ => htypes id, ?_⟩
  intro id hid
  rw [htypes, Option.eq_none_iff_forall_ne_some]
  intro ty hty
  have hreached := ((typeOf_checkedAt_iff hwf id ty).1 hty).1
  exact absurd (hwf.inRange id hreached) (Nat.not_lt.2 hid)

theorem Graph.Encloses.check_of_cycle
    (h : g.Encloses root) (hgrown : g.GrownTo g') (scope : Scope) (hcycle : ¬g.Acyclic root) :
    check g' scope root = .error .cyclic := by
  rw [check_eq_fold, h.fold_eq hgrown, fold, h.foldWithin_of_cycle _ _ hcycle]
  rfl

/-- Where calls hold only ranges that were given out, the nodes alone decide whether an
expression lies in the graph. -/
theorem Graph.Built.encloses
    {ranges : List ArgRange} (hbuilt : g.Built ranges)
    (hrange : ∀ id, g.Reaches root id → id.index < g.size) : g.Encloses root where
  inRange := hrange
  inTable _ _ args _ _ hnode := hbuilt.inTable args (hbuilt.args_mem hnode)

end Growing

/-- A graph only grows, and a check does not notice.

Let a graph be filled by storing nodes and argument lists one after the other, the `later`
ones after the `earlier` ones.  Each handle that was returned for an earlier one still leads
to exactly what was stored, and numbers and ranges stay within the tables.  The ranges that
are not empty are disjoint and tile the argument table in order.

An expression that lies in the graph before the later additions has the same result after
them: the same type, the same errors, the same types of all old nodes, and no types of new
ones.  An expression that contains itself has a result neither before nor after. -/
theorem allocation_keeps_entries_and_checks (earlier later : List Allocation) :
    let handles := (Graph.empty.allocateAll earlier).1
    let g := (Graph.empty.allocateAll earlier).2
    let g' := (g.allocateAll later).2
    List.Forall₂ g'.Yields earlier handles ∧
      ArgRange.Tile 0 g.args.size (Handle.ranges handles) ∧
      (Handle.ranges handles).Pairwise (fun a b => a.stop ≤ b.start) ∧
      ∀ scope root,
        (∀ ranges, g.Built ranges → (∀ id, g.Reaches root id → id.index < g.size) →
          g.Encloses root) ∧
        (g.Encloses root → g.Acyclic root →
          ∃ result result', check g scope root = .ok result ∧ check g' scope root = .ok result' ∧
            result.SameBelow g.size result') ∧
        (g.Encloses root → ¬g.Acyclic root →
          check g scope root = .error .cyclic ∧ check g' scope root = .error .cyclic) := by
  intro handles g g'
  have hgrown : g.GrownTo g' := Graph.grownTo_allocateAll g later
  have htile : ArgRange.Tile 0 g.args.size (Handle.ranges handles) :=
    Graph.tile_allocateAll Graph.empty earlier
  refine ⟨?_, htile, htile.pairwise, ?_⟩
  · refine (Graph.yields_allocateAll Graph.empty earlier).imp ?_
    intro allocation handle
    exact hgrown.yields
  · intro scope root
    refine ⟨fun ranges => Graph.Built.encloses, fun h => h.check_grown hgrown scope, ?_⟩
    intro h hcycle
    exact ⟨h.check_of_cycle (Graph.GrownTo.refl g) scope hcycle, h.check_of_cycle hgrown scope hcycle⟩

/-- A call of an undeclared function with one number as both of its arguments, and an empty
argument list. -/
def storedCall : List Allocation :=
  [.node ⟨.ident ⟨7⟩, ⟨0, 1⟩⟩, .node ⟨.int 5, ⟨2, 3⟩⟩, .args [⟨1⟩, ⟨1⟩], .args [],
    .node ⟨.call ⟨0⟩ ⟨0, 2⟩, ⟨0, 6⟩⟩]

/-- The stored call becomes the argument of a call of the number. -/
def outerCall : List Allocation :=
  [.args [⟨2⟩], .node ⟨.call ⟨1⟩ ⟨2, 3⟩, ⟨7, 12⟩⟩]

theorem storedCall_built :
    (Graph.empty.allocateAll storedCall).2.Built [⟨2, 2⟩, ⟨0, 2⟩, ArgRange.empty] :=
  Graph.Built.empty
    |>.add ⟨.ident ⟨7⟩, ⟨0, 1⟩⟩ nofun
    |>.add ⟨.int 5, ⟨2, 3⟩⟩ nofun
    |>.addArgs [⟨1⟩, ⟨1⟩]
    |>.addArgs []
    |>.add ⟨.call ⟨0⟩ ⟨0, 2⟩, ⟨0, 6⟩⟩ (by rintro _ _ ⟨⟩; decide)

/-- The later call leaves the stored one alone.  A node that is its own operand has a result
neither alone nor beside the call. -/
theorem storedCall_kept :
    let handles := (Graph.empty.allocateAll storedCall).1
    let g := (Graph.empty.allocateAll storedCall).2
    let g' := (g.allocateAll outerCall).2
    let loop := (Graph.empty.allocateAll [.node ⟨.paren ⟨0⟩, ⟨0, 2⟩⟩]).2
    handles = [.node ⟨0⟩, .node ⟨1⟩, .args ⟨0, 2⟩, .args ⟨2, 2⟩, .node ⟨2⟩] ∧
      List.Forall₂ g'.Yields storedCall handles ∧
      ArgRange.Tile 0 2 [⟨0, 2⟩] ∧ g.Encloses ⟨2⟩ ∧ g.Acyclic ⟨2⟩ ∧
      (∃ result result', check g Scope.empty ⟨2⟩ = .ok result ∧
        check g' Scope.empty ⟨2⟩ = .ok result' ∧ result.SameBelow 3 result') ∧
      loop.Encloses ⟨0⟩ ∧ check (loop.allocateAll storedCall).2 Scope.empty ⟨0⟩ = .error .cyclic := by
  intro handles g g' loop
  obtain ⟨hyields, htile, -, hcheck⟩ := allocation_keeps_entries_and_checks storedCall outerCall
  obtain ⟨hbuilt, hlocal, -⟩ := hcheck Scope.empty ⟨2⟩
  have hwf : g.WellFormed ⟨2⟩ := by decide
  have hencloses : g.Encloses ⟨2⟩ := hbuilt _ storedCall_built hwf.inRange
  obtain ⟨-, -, -, hloops⟩ :=
    allocation_keeps_entries_and_checks [.node ⟨.paren ⟨0⟩, ⟨0, 2⟩⟩] storedCall
  obtain ⟨hloop, -, hcyclic⟩ := hloops Scope.empty ⟨0⟩
  have hself : ∀ id, loop.Reaches ⟨0⟩ id → id = ⟨0⟩ := by
    intro id hid
    induction hid with
    | refl => rfl
    | tail _ hchild ih =>
        subst ih
        obtain ⟨n, hn, hmem⟩ := hchild
        obtain rfl : ⟨.paren ⟨0⟩, ⟨0, 2⟩⟩ = n := Except.ok.inj hn
        exact List.mem_singleton.1 hmem
  have hinside : loop.Encloses ⟨0⟩ := by
    apply hloop _ (Graph.Built.empty.add ⟨.paren ⟨0⟩, ⟨0, 2⟩⟩ nofun)
    intro id hid
    rw [hself id hid]
    decide
  exact ⟨by decide, hyields, htile, hencloses, hwf.acyclic, hlocal hencloses hwf.acyclic, hinside,
    (hcyclic hinside (by decide)).2⟩

end ExprTyping
