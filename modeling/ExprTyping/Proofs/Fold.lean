import ExprTyping.Proofs.Reachability

/-!
# Folding an expression

A fold computes a value for a node from the values for its operands.  The
preorder of an expression is a fold, and so is everything that a check finds out.

On an expression without cycles the fold satisfies the equation of its
definition with no bound on the depth.  On a well-formed expression it succeeds,
so that it can be replaced by a total function, `valueAt`.  Conversely the
expression is well formed if its preorder exists, which makes well-formedness
decidable.
-/

namespace ExprTyping

theorem mapM_congr
    {α β : Type} {m : Type → Type} [Monad m] [LawfulMonad m]
    {f g : α → m β} {as : List α}
    (h : ∀ a ∈ as, f a = g a) :
    as.mapM f = as.mapM g := by
  induction as with
  | nil => rfl
  | cons a as ih =>
      rw [List.mapM_cons, List.mapM_cons, h a (by simp),
        ih fun b hb => h b (by simp [hb])]

theorem mapM_eq_ok_map
    {α β ε : Type} {f : α → Except ε β} {value : α → β} {as : List α}
    (h : ∀ a ∈ as, f a = .ok (value a)) :
    as.mapM f = .ok (as.map value) := by
  rw [mapM_congr (g := fun a => pure (value a)) h]
  exact List.mapM_pure

theorem bind_eq_ok_iff
    {α β ε : Type} {x : Except ε α} {f : α → Except ε β} {b : β} :
    x >>= f = .ok b ↔ ∃ a, x = .ok a ∧ f a = .ok b := by
  cases x with
  | error e => simp [bind, Except.bind]
  | ok a => simp [bind, Except.bind]

theorem exists_ok_of_mapM
    {α β ε : Type} {f : α → Except ε β} {as : List α} {bs : List β} {a : α}
    (h : as.mapM f = .ok bs) (ha : a ∈ as) :
    ∃ b, f a = .ok b := by
  induction as generalizing bs with
  | nil => exact absurd ha List.not_mem_nil
  | cons first as ih =>
      rw [List.mapM_cons, bind_eq_ok_iff] at h
      obtain ⟨b, hb, hrest⟩ := h
      obtain ⟨rest, htail, -⟩ := bind_eq_ok_iff.1 hrest
      rcases List.mem_cons.1 ha with rfl | hmem
      · exact ⟨b, hb⟩
      · exact ih htail hmem

namespace Graph

variable {β : Type}

/-- Combines the values for the operands of a node, provided that no path below
it has more than `depth` nodes. -/
def foldWithin (g : Graph) (f : NodeId → Node → List β → β) :
    Nat → NodeId → Except Fault β
  | 0, _ => .error .cyclic
  | depth + 1, id => do
    let node ← g.node id
    let below ← (g.operands node.shape).mapM (g.foldWithin f depth)
    return f id node below

/-- Combines the values for the operands of a node. -/
def fold (g : Graph) (f : NodeId → Node → List β → β) (root : NodeId) : Except Fault β :=
  g.foldWithin f (g.size + 1) root

theorem foldWithin_of_node
    {g : Graph} {f : NodeId → Node → List β → β} {depth : Nat} {id : NodeId} {n : Node}
    (hn : g.node id = .ok n) :
    g.foldWithin f (depth + 1) id =
      ((g.operands n.shape).mapM (g.foldWithin f depth)).map (f id n) := by
  rw [foldWithin, hn]
  change ((g.operands n.shape).mapM (g.foldWithin f depth) >>= _) = _
  cases (g.operands n.shape).mapM (g.foldWithin f depth) with
  | error fault => rfl
  | ok below => rfl

theorem foldWithin_of_error
    {g : Graph} {f : NodeId → Node → List β → β} {depth : Nat} {id : NodeId} {fault : Fault}
    (hn : g.node id = .error fault) :
    g.foldWithin f (depth + 1) id = .error fault := by
  rw [foldWithin, hn]
  rfl

/-- Beyond the depth of an expression the bound does not matter. -/
theorem foldWithin_eq_of_within
    {g : Graph} {f : NodeId → Node → List β → β} {depth deeper : Nat} {id : NodeId}
    (h : g.Within depth id) (hle : depth ≤ deeper) :
    g.foldWithin f deeper id = g.foldWithin f depth id := by
  induction depth generalizing deeper id with
  | zero => exact h.elim
  | succ depth ih =>
      obtain ⟨deeper, rfl⟩ := Nat.exists_eq_add_of_le' hle
      rw [← Nat.add_assoc]
      cases hn : g.node id with
      | error fault => rw [foldWithin_of_error hn, foldWithin_of_error hn]
      | ok n =>
          have hbelow : ∀ child ∈ g.operands n.shape,
              g.foldWithin f (deeper + depth) child = g.foldWithin f depth child := by
            intro child hchild
            exact ih (h child ((hasOperand_iff hn).2 hchild)) (Nat.le_add_left _ _)
          rw [foldWithin_of_node hn, foldWithin_of_node hn, mapM_congr hbelow]

theorem fold_of_node
    {g : Graph} {f : NodeId → Node → List β → β} {id : NodeId} {n : Node}
    (h : g.Acyclic id) (hn : g.node id = .ok n) :
    g.fold f id = ((g.operands n.shape).mapM (g.fold f)).map (f id n) := by
  have hbelow : ∀ child ∈ g.operands n.shape,
      g.fold f child = g.foldWithin f g.size child := by
    intro child hchild
    have hwithin := h.within child ((hasOperand_iff hn).2 hchild)
    exact foldWithin_eq_of_within hwithin (Nat.le_succ g.size)
  rw [mapM_congr hbelow]
  exact foldWithin_of_node hn

/-! ## The value of a well-formed expression -/

/-- The result of a fold, or the default where there is none. -/
def valueAt [Inhabited β] (g : Graph) (f : NodeId → Node → List β → β) (id : NodeId) : β :=
  (g.fold f id).toOption.getD default

theorem WellFormed.fold_eq_ok
    [Inhabited β] {g : Graph} {root : NodeId} (h : g.WellFormed root)
    (f : NodeId → Node → List β → β) :
    g.fold f root = .ok (g.valueAt f root) := by
  suffices hok : ∃ b, g.fold f root = .ok b by
    obtain ⟨b, hb⟩ := hok
    rw [valueAt, hb]
    rfl
  refine h.induction ?_
  intro id n hn hid ih
  have hbelow : ∀ child ∈ g.operands n.shape,
      g.fold f child = .ok (g.valueAt f child) := by
    intro child hchild
    obtain ⟨b, hb⟩ := ih child hchild
    rw [valueAt, hb]
    rfl
  rw [fold_of_node hid.acyclic hn, mapM_eq_ok_map hbelow]
  exact ⟨_, rfl⟩

theorem WellFormed.valueAt_eq
    [Inhabited β] {g : Graph} {id : NodeId} {n : Node} (h : g.WellFormed id)
    (hn : g.node id = .ok n) (f : NodeId → Node → List β → β) :
    g.valueAt f id = f id n ((g.operands n.shape).map (g.valueAt f)) := by
  have hbelow : ∀ child ∈ g.operands n.shape,
      g.fold f child = .ok (g.valueAt f child) :=
    fun child hchild => (h.operand hn hchild).fold_eq_ok f
  have hfold := fold_of_node (f := f) h.acyclic hn
  rw [mapM_eq_ok_map hbelow, h.fold_eq_ok f] at hfold
  exact Except.ok.inj hfold

/-! ## Orders of the nodes -/

/-- The postorder below a node lists, operand by operand, the postorder below
each of them and then the node. -/
def postorder (g : Graph) (root : NodeId) : Except Fault (List NodeId) :=
  g.fold (fun id _ below => below.flatten ++ [id]) root

theorem preorderWithin_eq_foldWithin (g : Graph) (depth : Nat) (id : NodeId) :
    g.preorderWithin depth id =
      g.foldWithin (fun id _ below => id :: below.flatten) depth id := by
  induction depth generalizing id with
  | zero => rfl
  | succ depth ih =>
      simp only [preorderWithin, foldWithin, children_eq_operands, funext ih]

theorem preorder_eq_fold (g : Graph) (root : NodeId) :
    g.preorder root = g.fold (fun id _ below => id :: below.flatten) root := by
  rw [preorder_eq_preorderWithin, preorderWithin_eq_foldWithin, fold]

/-! ## Deciding well-formedness -/

/-- Where a fold succeeds, it succeeds at every operand with less depth. -/
theorem foldWithin_operand_ok
    {g : Graph} {f : NodeId → Node → List β → β} {depth : Nat} {id child : NodeId} {b : β}
    (h : g.foldWithin f depth id = .ok b) (hchild : g.HasOperand id child) :
    ∃ less c, less + 1 = depth ∧ g.foldWithin f less child = .ok c := by
  obtain ⟨n, hn, hmem⟩ := hchild
  cases depth with
  | zero => simp [foldWithin] at h
  | succ depth =>
      rw [foldWithin_of_node hn] at h
      cases hbelow : (g.operands n.shape).mapM (g.foldWithin f depth) with
      | error fault => simp [hbelow, Except.map] at h
      | ok below =>
          obtain ⟨c, hc⟩ := exists_ok_of_mapM hbelow hmem
          exact ⟨depth, c, rfl, hc⟩

theorem foldWithin_reaches_ok
    {g : Graph} {f : NodeId → Node → List β → β} {depth : Nat} {root id : NodeId} {b : β}
    (h : g.foldWithin f depth root = .ok b) (hid : g.Reaches root id) :
    ∃ left c, g.foldWithin f left id = .ok c := by
  induction hid with
  | refl => exact ⟨depth, b, h⟩
  | tail _ hchild ih =>
      obtain ⟨left, c, hc⟩ := ih
      obtain ⟨less, d, -, hd⟩ := foldWithin_operand_ok hc hchild
      exact ⟨less, d, hd⟩

theorem exists_node_of_foldWithin_ok
    {g : Graph} {f : NodeId → Node → List β → β} {depth : Nat} {id : NodeId} {b : β}
    (h : g.foldWithin f depth id = .ok b) :
    ∃ n, g.node id = .ok n := by
  cases depth with
  | zero => simp [foldWithin] at h
  | succ depth =>
      cases hn : g.node id with
      | error fault => simp [foldWithin_of_error hn] at h
      | ok n => exact ⟨n, rfl⟩

theorem within_of_foldWithin_ok
    {g : Graph} {f : NodeId → Node → List β → β} {depth : Nat} {id : NodeId} {b : β}
    (h : g.foldWithin f depth id = .ok b) :
    g.Within depth id := by
  induction depth generalizing id b with
  | zero => simp [foldWithin] at h
  | succ depth ih =>
      intro child hchild
      obtain ⟨less, c, hless, hc⟩ := foldWithin_operand_ok h hchild
      obtain rfl := Nat.succ.inj hless
      exact ih hc

/-- A fold cannot succeed on a cycle or outside the graph. -/
theorem wellFormed_of_fold_ok
    {g : Graph} {f : NodeId → Node → List β → β} {root : NodeId} {b : β}
    (h : g.fold f root = .ok b) :
    g.WellFormed root where
  inRange id hid := by
    obtain ⟨left, c, hc⟩ := foldWithin_reaches_ok h hid
    obtain ⟨n, hn⟩ := exists_node_of_foldWithin_ok hc
    exact index_lt_of_node hn
  acyclic := acyclic_iff_within.2 (within_of_foldWithin_ok h)

theorem wellFormed_iff_preorderWithin (g : Graph) (root : NodeId) :
    g.WellFormed root ↔ (g.preorderWithin (g.size + 1) root).isOk = true := by
  rw [preorderWithin_eq_foldWithin]
  constructor
  · intro h
    have hok := h.fold_eq_ok fun id _ below => id :: below.flatten
    rw [fold] at hok
    rw [hok]
    rfl
  · intro h
    cases hfold : g.foldWithin (fun id _ below => id :: below.flatten) (g.size + 1) root with
    | error fault => simp [hfold, Except.isOk, Except.toBool] at h
    | ok ids => exact wellFormed_of_fold_ok hfold

instance (g : Graph) (root : NodeId) : Decidable (g.WellFormed root) :=
  decidable_of_iff _ (wellFormed_iff_preorderWithin g root).symm

end Graph
end ExprTyping
