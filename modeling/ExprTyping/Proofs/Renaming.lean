import ExprTyping.Proofs.Compositionality
import Mathlib.Logic.Function.Basic

/-!
# Renaming

Names are compared for equality and for nothing else.  If all names of a scope and of
a graph are replaced injectively, every lookup gives the renamed answer and every rule
the renamed verdict, and so does the fold by which a check is described:
`check_rename`.

The renaming reaches into the types of declarations and, on the other side, into
inferred types and the causes of errors.  Nodes and spans stay as they are.
-/

namespace ExprTyping

/-! ## Renaming types -/

namespace Ty

/-- Induction over types in which the parameters of a function count as parts of it. -/
@[elab_as_elim]
theorem induction
    {motive : Ty → Prop} (t : Ty)
    (int : motive .int) (bool : motive .bool) (void : motive .void)
    (list : ∀ element, motive element → motive (.list element))
    (struct : ∀ name, motive (.struct name))
    (func : ∀ params result, (∀ param ∈ params, motive param) → motive result →
      motive (.func params result))
    (unknown : motive .unknown) :
    motive t := by
  refine @Ty.rec motive (fun params => ∀ param ∈ params, motive param)
    int bool void list struct func unknown (by simp) ?_ t
  intro first rest hfirst hrest param hparam
  rcases List.mem_cons.1 hparam with rfl | hmem
  · exact hfirst
  · exact hrest param hmem

mutual

/-- The type with every name replaced. -/
def rename (r : Name → Name) : Ty → Ty
  | .int => .int
  | .bool => .bool
  | .void => .void
  | .list element => .list (element.rename r)
  | .struct name => .struct (r name)
  | .func params result => .func (renameAll r params) (result.rename r)
  | .unknown => .unknown

/-- The types with every name replaced. -/
def renameAll (r : Name → Name) : List Ty → List Ty
  | [] => []
  | t :: ts => t.rename r :: renameAll r ts

end

theorem renameAll_eq_map (r : Name → Name) (ts : List Ty) :
    renameAll r ts = ts.map (rename r) := by
  induction ts with
  | nil => rfl
  | cons t ts ih => rw [renameAll, ih, List.map_cons]

@[simp]
theorem rename_func (r : Name → Name) (params : List Ty) (result : Ty) :
    (Ty.func params result).rename r = .func (params.map (rename r)) (result.rename r) := by
  rw [rename, renameAll_eq_map]

theorem rename_id (t : Ty) : t.rename id = t := by
  induction t using Ty.induction with
  | list element ih => rw [rename, ih]
  | func params result hparams hresult =>
      rw [rename_func, List.map_congr_left hparams, List.map_id'', hresult]
      exact fun _ => rfl
  | _ => rfl

theorem rename_rename (r s : Name → Name) (t : Ty) :
    (t.rename r).rename s = t.rename (s ∘ r) := by
  induction t using Ty.induction with
  | list element ih => rw [rename, rename, rename, ih]
  | func params result hparams hresult =>
      rw [rename_func, rename_func, rename_func, List.map_map, hresult]
      congr 1
      exact List.map_congr_left hparams
  | _ => rfl

/-- Different types stay different. -/
theorem rename_injective {r : Name → Name} (hr : Function.Injective r) :
    Function.Injective (rename r) := by
  obtain ⟨s, hs⟩ := hr.hasLeftInverse
  have hinverse : Function.LeftInverse (rename s) (rename r) := by
    intro t
    rw [rename_rename, hs.comp_eq_id, rename_id]
  exact hinverse.injective

@[simp]
theorem isUnknown_rename (r : Name → Name) (t : Ty) : (t.rename r).isUnknown = t.isUnknown := by
  cases t <;> rfl

theorem joins_rename (r : Name → Name) (a b : Ty) :
    (a.rename r).joins (b.rename r) = a.joins b := by
  cases a <;> cases b <;> rfl

end Ty

/-! ## Renaming scopes and graphs -/

/-- The struct with every name replaced. -/
def StructDecl.rename (r : Name → Name) (decl : StructDecl) : StructDecl where
  name := r decl.name
  fields := decl.fields.map fun field => (r field.1, field.2.rename r)

/-- The frame with every name replaced. -/
def Frame.rename (r : Name → Name) (frame : Frame) : Frame where
  structs := frame.structs.map (StructDecl.rename r)
  vars := frame.vars.map fun var => (r var.1, var.2.rename r)

/-- The scope with every name replaced. -/
def Scope.rename (r : Name → Name) (scope : Scope) : Scope where
  frame := scope.frame.rename r
  outer := scope.outer.map (Frame.rename r)

/-- The shape with its identifier or member replaced. -/
def Shape.rename (r : Name → Name) : Shape → Shape
  | .ident name => .ident (r name)
  | .field owner member => .field owner (r member)
  | shape => shape

/-- The node with its identifier or member replaced. -/
def Node.rename (r : Name → Name) (n : Node) : Node where
  shape := n.shape.rename r
  span := n.span

/-- The graph with every identifier and member replaced. -/
def Graph.rename (r : Name → Name) (g : Graph) : Graph where
  nodes := g.nodes.map (Node.rename r)
  args := g.args

/-- The head with its identifier or member replaced. -/
def Head.rename (r : Name → Name) : Head → Head
  | .ident name => .ident (r name)
  | .field member => .field (r member)
  | head => head

section Lookups

variable {r : Name → Name} (hr : Function.Injective r)
include hr

theorem StructDecl.field?_rename (decl : StructDecl) (member : Name) :
    (decl.rename r).field? (r member) = (decl.field? member).map (Ty.rename r) := by
  simp only [StructDecl.field?, StructDecl.rename, List.find?_map, Option.map_map,
    Function.comp_def, hr.eq_iff]

theorem Frame.struct?_rename (frame : Frame) (name : Name) :
    (frame.rename r).struct? (r name) = (frame.struct? name).map (StructDecl.rename r) := by
  simp only [Frame.struct?, Frame.rename, List.find?_map, Function.comp_def,
    StructDecl.rename, hr.eq_iff]

theorem Frame.var?_rename (frame : Frame) (name : Name) :
    (frame.rename r).var? (r name) = (frame.var? name).map (Ty.rename r) := by
  simp only [Frame.var?, Frame.rename, List.find?_map, Option.map_map,
    Function.comp_def, hr.eq_iff]

theorem Scope.struct?_rename (scope : Scope) (name : Name) :
    (scope.rename r).struct? (r name) = (scope.struct? name).map (StructDecl.rename r) := by
  have hframes : (scope.rename r).frames = scope.frames.map (Frame.rename r) := rfl
  rw [Scope.struct?, Scope.struct?, hframes, List.findSome?_map, List.map_findSome?]
  congr 1
  exact funext fun frame => frame.struct?_rename hr name

theorem Scope.var?_rename (scope : Scope) (name : Name) :
    (scope.rename r).var? (r name) = (scope.var? name).map (Ty.rename r) := by
  have hframes : (scope.rename r).frames = scope.frames.map (Frame.rename r) := rfl
  rw [Scope.var?, Scope.var?, hframes, List.findSome?_map, List.map_findSome?]
  congr 1
  exact funext fun frame => frame.var?_rename hr name

end Lookups

namespace Graph

variable (r : Name → Name) (g : Graph)

theorem node_rename (id : NodeId) : (g.rename r).node id = (g.node id).map (Node.rename r) := by
  simp only [node, rename, size, Array.getElem?_map, Array.size_map]
  cases g.nodes[id.index]? <;> rfl

theorem spanOf_rename (id : NodeId) : (g.rename r).spanOf id = g.spanOf id := by
  simp only [spanOf, rename, Array.getElem?_map, Option.map_map]
  rfl

theorem size_rename : (g.rename r).size = g.size :=
  Array.size_map

theorem operands_rename (shape : Shape) :
    (g.rename r).operands (shape.rename r) = g.operands shape := by
  cases shape <;> rfl

end Graph

theorem Shape.head_rename (r : Name → Name) (shape : Shape) :
    (shape.rename r).head = shape.head.rename r := by
  cases shape <;> rfl

/-! ## Renaming results -/

/-- The cause with every name replaced. -/
def Cause.rename (r : Name → Name) : Cause → Cause
  | .unknownMember struct member => .unknownMember (r struct) (r member)
  | .unknownIdentifier name => .unknownIdentifier (r name)
  | .argumentMismatch expected found =>
    .argumentMismatch (expected.map (Ty.rename r)) (found.map (Ty.rename r))
  | cause => cause

/-- The error with every name of its cause replaced. -/
def TypeError.rename (r : Name → Name) (error : TypeError) : TypeError where
  node := error.node
  span := error.span
  cause := error.cause.rename r

/-- The entry with every name replaced. -/
def LogEntry.rename (r : Name → Name) : LogEntry → LogEntry
  | .typeError error => .typeError (error.rename r)
  | .undeclared struct => .undeclared (r struct)
  | .checked errors ty => .checked errors (ty.rename r)
  | entry => entry

/-- The verdict with every name replaced. -/
def Verdict.rename (r : Name → Name) : Verdict → Verdict
  | .typed ty => .typed (ty.rename r)
  | .failed site cause => .failed site (cause.rename r)
  | .undeclared struct => .undeclared (r struct)
  | verdict => verdict

/-- The result with every name replaced, in the types and in the errors. -/
def Checked.rename (r : Name → Name) (result : Checked) : Checked where
  ty := result.ty.rename r
  types := result.types.map (Option.map (Ty.rename r))
  errors := result.errors.map (TypeError.rename r)

theorem Checked.typeOf_rename (r : Name → Name) (result : Checked) (id : NodeId) :
    (result.rename r).typeOf id = (result.typeOf id).map (Ty.rename r) := by
  simp only [Checked.typeOf, Checked.rename, Array.getElem?_map]
  cases result.types[id.index]? <;> rfl

namespace Verdict

theorem ty_rename (r : Name → Name) (verdict : Verdict) :
    (verdict.rename r).ty = verdict.ty.rename r := by
  cases verdict <;> rfl

theorem error?_rename (r : Name → Name) (g : Graph) (id : NodeId) (operands : List NodeId)
    (verdict : Verdict) :
    (verdict.rename r).error? (g.rename r) id operands =
      (verdict.error? g id operands).map (TypeError.rename r) := by
  cases verdict with
  | failed site cause => simp [rename, error?, TypeError.rename, Graph.spanOf_rename]
  | _ => rfl

theorem entry?_rename (r : Name → Name) (g : Graph) (id : NodeId) (operands : List NodeId)
    (verdict : Verdict) :
    Verdict.entry? (g.rename r) id operands (verdict.rename r) =
      (verdict.entry? g id operands).map (LogEntry.rename r) := by
  cases verdict with
  | failed site cause =>
      change ((failed site cause).rename r |>.error? (g.rename r) id operands).map _ = _
      rw [error?_rename]
      rfl
  | _ => rfl

end Verdict

/-! ## The rules -/

theorem BinOp.result?_rename (r : Name → Name) (op : BinOp) (left right : Ty) :
    op.result? (left.rename r) (right.rename r) = (op.result? left right).map (Ty.rename r) := by
  have hints : op.onInts.map (Ty.rename r) = op.onInts := by cases op <;> rfl
  have hbools : op.onBools.map (Ty.rename r) = op.onBools := by cases op <;> rfl
  have hvalues : op.onValues.map (Ty.rename r) = op.onValues := by cases op <;> rfl
  have hlists : op.onLists.map (Ty.rename r) = op.onLists := by cases op <;> rfl
  cases left <;> cases right <;> simp [Ty.rename, result?, hints, hbools, hvalues, hlists]

namespace Rule

variable {r : Name → Name}

theorem binary_rename (op : BinOp) (left right : Ty) :
    binary op (left.rename r) (right.rename r) = (binary op left right).rename r := by
  simp only [binary, Ty.isUnknown_rename, BinOp.result?_rename]
  split
  · rfl
  · cases op.result? left right <;> rfl

theorem unary_rename (op : UnOp) (operand : Ty) :
    unary op (operand.rename r) = (unary op operand).rename r := by
  cases operand <;> cases op <;> rfl

theorem index_rename (list position : Ty) :
    index (list.rename r) (position.rename r) = (index list position).rename r := by
  cases list <;> cases position <;> rfl

theorem size_rename (list : Ty) : size (list.rename r) = (size list).rename r := by
  cases list <;> rfl

theorem append_rename (list element : Ty) :
    append (list.rename r) (element.rename r) = (append list element).rename r := by
  cases list with
  | list inner =>
      simp only [Ty.rename, append, Ty.joins_rename, Ty.isUnknown_rename]
      split
      · rfl
      · split <;> rfl
  | _ => rfl

variable (hr : Function.Injective r)
include hr

theorem ident_rename (scope : Scope) (name : Name) :
    ident (scope.rename r) (r name) = (ident scope name).rename r := by
  rw [ident, ident, scope.var?_rename hr]
  cases scope.var? name <;> rfl

theorem accepts_rename (param arg : Ty) :
    accepts (param.rename r) (arg.rename r) = accepts param arg := by
  simp only [accepts, Ty.isUnknown_rename, (Ty.rename_injective hr).eq_iff]

theorem acceptsAll_rename (params args : List Ty) :
    acceptsAll (params.map (Ty.rename r)) (args.map (Ty.rename r)) = acceptsAll params args := by
  rw [acceptsAll_eq_all_zip, acceptsAll_eq_all_zip, List.length_map, List.length_map, List.zip_map,
    List.all_map]
  congr 2
  funext pair
  exact accepts_rename hr pair.1 pair.2

theorem call_rename (callee : Ty) (args : List Ty) :
    call (callee.rename r) (args.map (Ty.rename r)) = (call callee args).rename r := by
  cases callee with
  | func params result =>
      have hany : (args.map (Ty.rename r)).any Ty.isUnknown = args.any Ty.isUnknown := by
        rw [List.any_map]
        congr 1
        exact funext (Ty.isUnknown_rename r)
      simp only [Ty.rename_func, call, acceptsAll_rename hr, hany]
      split
      · split <;> rfl
      · rfl
  | _ => rfl

theorem field_rename (scope : Scope) (member : Name) (owner : Ty) :
    field (scope.rename r) (r member) (owner.rename r) = (field scope member owner).rename r := by
  cases owner with
  | struct name =>
      have hstruct := scope.struct?_rename hr name
      rw [Ty.rename]
      cases hfound : scope.struct? name with
      | none =>
          rw [hfound] at hstruct
          rw [field_of_undeclared member hfound, field_of_undeclared (r member) hstruct]
          rfl
      | some decl =>
          rw [hfound] at hstruct
          rw [field_of_declared member hfound, field_of_declared (r member) hstruct,
            decl.field?_rename hr]
          cases decl.field? member <;> rfl
  | _ => rfl

end Rule

/-- A rule commutes with the renaming of everything it looks at. -/
theorem Head.judge_rename
    {r : Name → Name} (hr : Function.Injective r) (scope : Scope) (head : Head)
    (types : List Ty) :
    (head.rename r).judge (scope.rename r) (types.map (Ty.rename r)) =
      (head.judge scope types).rename r := by
  match head, types with
  | .int, [] | .int, _ :: _ | .bool, [] | .bool, _ :: _ => rfl
  | .ident name, [] => exact Rule.ident_rename hr scope name
  | .binary op, [left, right] => exact Rule.binary_rename op left right
  | .unary op, [operand] => exact Rule.unary_rename op operand
  | .call, callee :: args => exact Rule.call_rename hr callee args
  | .index, [list, position] => exact Rule.index_rename list position
  | .field member, [owner] => exact Rule.field_rename hr scope member owner
  | .size, [list] => exact Rule.size_rename list
  | .append, [list, element] => exact Rule.append_rename list element
  | .paren, [_] => rfl
  -- The heads with a wrong number of operands.
  | .ident _, _ :: _ | .call, [] => rfl
  | .unary _, [] | .field _, [] | .size, [] | .paren, [] => rfl
  | .unary _, _ :: _ :: _ | .field _, _ :: _ :: _ | .size, _ :: _ :: _ | .paren, _ :: _ :: _ => rfl
  | .binary _, [] | .index, [] | .append, [] => rfl
  | .binary _, [_] | .index, [_] | .append, [_] => rfl
  | .binary _, _ :: _ :: _ :: _ | .index, _ :: _ :: _ :: _ | .append, _ :: _ :: _ :: _ => rfl

/-! ## The check -/

/-- The visit with every name replaced. -/
def Visit.rename (r : Name → Name) (visit : Visit) : Visit where
  ty := visit.ty.rename r
  settled := visit.settled.map fun entry => (entry.1, entry.2.rename r)
  errors := visit.errors.map (TypeError.rename r)
  log := visit.log.map (LogEntry.rename r)

theorem Visit.combine_rename
    {r : Name → Name} (hr : Function.Injective r) (g : Graph) (scope : Scope) (id : NodeId)
    (n : Node) (below : List Visit) :
    combine (g.rename r) (scope.rename r) id (n.rename r) (below.map (rename r)) =
      (combine g scope id n below).rename r := by
  have hverdict : (n.rename r).shape.head.judge (scope.rename r)
      ((below.map (rename r)).map Visit.ty) =
        (n.shape.head.judge scope (below.map Visit.ty)).rename r := by
    rw [← Head.judge_rename hr, List.map_map, List.map_map, Node.rename, Shape.head_rename]
    rfl
  have hoperands : (g.rename r).operands (n.rename r).shape = g.operands n.shape :=
    g.operands_rename r n.shape
  rw [combine, combine, hverdict, hoperands, rename]
  simp only [Verdict.ty_rename, Verdict.error?_rename, Verdict.entry?_rename, Option.toList_map,
    List.map_append, List.map_flatMap, List.flatMap_map, List.map_cons, List.map_nil,
    LogEntry.rename]
  rfl

theorem mapM_map_eq
    {α β γ ε : Type} (f : α → Except ε β) (h : β → γ) (as : List α) :
    as.mapM (fun a => (f a).map h) = (as.mapM f).map (List.map h) := by
  induction as with
  | nil => rfl
  | cons a as ih =>
      rw [List.mapM_cons, List.mapM_cons, ih]
      cases f a with
      | error e => rfl
      | ok b =>
          cases as.mapM f with
          | error e => rfl
          | ok bs => rfl

theorem foldWithin_rename
    {r : Name → Name} (hr : Function.Injective r) (g : Graph) (scope : Scope) (depth : Nat)
    (id : NodeId) :
    (g.rename r).foldWithin (Visit.combine (g.rename r) (scope.rename r)) depth id =
      (g.foldWithin (Visit.combine g scope) depth id).map (Visit.rename r) := by
  induction depth generalizing id with
  | zero => rfl
  | succ depth ih =>
      have hnode := g.node_rename r id
      cases hn : g.node id with
      | error fault =>
          rw [hn] at hnode
          rw [Graph.foldWithin_of_error hn, Graph.foldWithin_of_error hnode]
          rfl
      | ok n =>
          rw [hn] at hnode
          have hoperands : (g.rename r).operands (n.rename r).shape = g.operands n.shape :=
            g.operands_rename r n.shape
          rw [Graph.foldWithin_of_node hn, Graph.foldWithin_of_node hnode, hoperands, funext ih,
            mapM_map_eq]
          cases (g.operands n.shape).mapM (g.foldWithin (Visit.combine g scope) depth) with
          | error fault => rfl
          | ok below => exact congrArg Except.ok (Visit.combine_rename hr g scope id n below)

theorem noteTypes_map
    (f : Ty → Ty) (types : Array (Option Ty)) (settled : List (NodeId × Ty)) :
    noteTypes (types.map (Option.map f)) (settled.map fun entry => (entry.1, f entry.2)) =
      (noteTypes types settled).map (Option.map f) := by
  induction settled generalizing types with
  | nil => rfl
  | cons entry settled ih =>
      change noteTypes ((types.map (Option.map f)).setIfInBounds entry.1.index
        (Option.map f (some entry.2))) (settled.map _) = _
      rw [← Array.map_setIfInBounds, ih]
      rfl

/-- The result of a check as a function of its visit. -/
def Visit.checked (g : Graph) (visit : Visit) : Checked where
  ty := visit.ty
  types := noteTypes (Checker.start g).types visit.settled
  errors := visit.errors

theorem check_eq_fold (g : Graph) (scope : Scope) (root : NodeId) :
    check g scope root = (g.fold (Visit.combine g scope) root).map (Visit.checked g) := by
  rw [check_eq_inferWithin, Checker.inferWithin_run, Graph.fold]
  cases g.foldWithin (Visit.combine g scope) (g.size + 1) root with
  | error fault => rfl
  | ok visit =>
      change Except.ok _ = Except.ok _
      simp [Checker.finish, Checker.extend, Checker.record, Checker.start, Visit.checked]

theorem Visit.checked_rename (r : Name → Name) (g : Graph) (visit : Visit) :
    (visit.rename r).checked (g.rename r) = (visit.checked g).rename r := by
  have htable : (Checker.start (g.rename r)).types =
      (Checker.start g).types.map (Option.map (Ty.rename r)) := by
    simp [Checker.start, Graph.size_rename]
  simp only [checked, rename, htable, noteTypes_map, Checked.rename]

/-- The check of a renamed expression gives the renamed result. -/
theorem check_rename
    {r : Name → Name} (hr : Function.Injective r) (g : Graph) (scope : Scope) (root : NodeId) :
    check (g.rename r) (scope.rename r) root = (check g scope root).map (Checked.rename r) := by
  rw [check_eq_fold, check_eq_fold, Graph.fold, Graph.fold, Graph.size_rename,
    foldWithin_rename hr]
  cases g.foldWithin (Visit.combine g scope) (g.size + 1) root with
  | error fault => rfl
  | ok visit => exact congrArg Except.ok (visit.checked_rename r g)

end ExprTyping
