import ExprTyping.Proofs.Weakening
import Mathlib.Data.List.Nodup
import Mathlib.Data.List.Induction

/-!
# Struct declarations in a session

The scopes of a session change one at a time, and a child keeps the frames that its
parent had when it was taken.  From then on the two go separate ways: the same struct
may be declared in both of them, with different fields.

Seen from a single scope there is no such freedom.  Every scope of a session has come
about from the empty scope by a line of actions of its own, and along one line no struct
is declared twice.  What one action keeps therefore holds in all scopes at all times.
-/

namespace ExprTyping

/-! ## Formed structs -/

namespace StructDecl

theorem firstRepeat?_eq_none_iff {seen names : List Name} :
    firstRepeat? seen names = none ↔ names.Nodup ∧ ∀ name ∈ names, name ∉ seen := by
  induction names generalizing seen with
  | nil => simp [firstRepeat?]
  | cons name names ih =>
      rw [firstRepeat?]
      by_cases hseen : name ∈ seen
      · simp [hseen]
      · rw [if_neg hseen, ih]
        simp only [List.nodup_cons, List.mem_cons, not_or, forall_eq_or_imp]
        constructor
        · rintro ⟨hnodup, hfresh⟩
          exact ⟨⟨fun hmem => (hfresh name hmem).1 rfl, hnodup⟩, hseen,
            fun other hother => (hfresh other hother).2⟩
        · rintro ⟨⟨hname, hnodup⟩, -, hfresh⟩
          refine ⟨hnodup, fun other hother => ⟨?_, hfresh other hother⟩⟩
          rintro rfl
          exact hname hother

/-- A struct is formed exactly if its field names are distinct. -/
theorem ofFields_eq_ok_iff {name : Name} {fields : List (Name × Ty)} {decl : StructDecl} :
    ofFields name fields = .ok decl ↔
      (fields.map Prod.fst).Nodup ∧ decl = ⟨name, fields⟩ := by
  have hnone : firstRepeat? [] (fields.map Prod.fst) = none ↔ (fields.map Prod.fst).Nodup := by
    simp [firstRepeat?_eq_none_iff]
  rw [ofFields, ← hnone]
  rcases firstRepeat? [] (fields.map Prod.fst) with _ | field
  · simp [eq_comm]
  · simp

/-- In a list with distinct names, such as those of structs or of fields, an entry is found by
its name. -/
theorem find?_eq_some_iff_mem
    {α : Type} {nameOf : α → Name} {entries : List α} (hnodup : (entries.map nameOf).Nodup)
    {name : Name} {entry : α} :
    entries.find? (nameOf · = name) = some entry ↔ entry ∈ entries ∧ nameOf entry = name := by
  constructor
  · intro hfind
    exact ⟨List.mem_of_find?_eq_some hfind, by simpa using List.find?_some hfind⟩
  · rintro ⟨hmem, rfl⟩
    induction entries with
    | nil => exact absurd hmem List.not_mem_nil
    | cons first entries ih =>
        rw [List.map_cons, List.nodup_cons] at hnodup
        rcases List.mem_cons.1 hmem with rfl | hlater
        · simp
        · have hne : nameOf first ≠ nameOf entry := by
            intro heq
            exact hnodup.1 (heq ▸ List.mem_map_of_mem hlater)
          rw [List.find?_cons_of_neg (by simpa using hne)]
          exact ih hnodup.2 hlater

end StructDecl

/-! ## Structs along a chain of frames -/

namespace Scope

variable {scope : Scope}

/-- All struct declarations along the chain. -/
def structDecls (scope : Scope) : List StructDecl :=
  scope.frames.flatMap Frame.structs

theorem struct?_eq_find? (scope : Scope) (name : Name) :
    scope.struct? name = scope.structDecls.find? (·.name = name) := by
  rw [structDecls, List.find?_flatMap]
  rfl

/-- Along the chain no two structs share a name, and no struct repeats a field. -/
structure WellDeclared (scope : Scope) : Prop where
  names_nodup : (scope.structDecls.map StructDecl.name).Nodup
  fields_nodup : ∀ decl ∈ scope.structDecls, (decl.fields.map Prod.fst).Nodup

theorem wellDeclared_empty : empty.WellDeclared where
  names_nodup := List.nodup_nil
  fields_nodup := fun _ hdecl => absurd hdecl List.not_mem_nil

theorem structDecls_child (scope : Scope) : scope.child.structDecls = scope.structDecls := rfl

theorem structDecls_declareVar
    {changed : Scope} {name : Name} {ty : Ty} (h : scope.declareVar name ty = (.ok (), changed)) :
    changed.structDecls = scope.structDecls := by
  obtain ⟨-, rfl⟩ := declareVar_eq_ok_iff.1 h
  rfl

theorem structDecls_declareStruct
    {changed : Scope} {decl : StructDecl} (h : scope.declareStruct decl = (.ok (), changed)) :
    changed.structDecls = decl :: scope.structDecls := by
  obtain ⟨-, rfl⟩ := declareStruct_eq_ok_iff.1 h
  rfl

/-- A declared struct joins structs of other names. -/
theorem WellDeclared.declareStruct
    (h : scope.WellDeclared) {changed : Scope} {decl : StructDecl}
    (hfields : (decl.fields.map Prod.fst).Nodup)
    (hdeclare : scope.declareStruct decl = (.ok (), changed)) :
    changed.WellDeclared := by
  have hfree : decl.name ∉ scope.structDecls.map StructDecl.name := by
    obtain ⟨hnone, -⟩ := declareStruct_eq_ok_iff.1 hdeclare
    rw [struct?_eq_find?, List.find?_eq_none] at hnone
    intro hmem
    obtain ⟨other, hother, hname⟩ := List.mem_map.1 hmem
    exact hnone other hother (by simpa using hname)
  have hdecls := structDecls_declareStruct hdeclare
  constructor
  · rw [hdecls, List.map_cons, List.nodup_cons]
    exact ⟨hfree, h.names_nodup⟩
  · rw [hdecls]
    intro other hother
    rcases List.mem_cons.1 hother with rfl | hold
    · exact hfields
    · exact h.fields_nodup other hold

theorem declare_struct_eq_ok_iff
    {changed : Scope} {name : Name} {fields : List (Name × Ty)} :
    scope.declare (.struct name fields) = (.ok (), changed) ↔
      (fields.map Prod.fst).Nodup ∧ scope.declareStruct ⟨name, fields⟩ = (.ok (), changed) := by
  rcases hform : StructDecl.ofFields name fields with e | decl
  · have hrepeat : ¬(fields.map Prod.fst).Nodup := by
      intro hnodup
      have hok : StructDecl.ofFields name fields = .ok ⟨name, fields⟩ :=
        StructDecl.ofFields_eq_ok_iff.2 ⟨hnodup, rfl⟩
      rw [hform] at hok
      cases hok
    rw [declare_struct_of_error hform]
    simp [hrepeat]
  · obtain ⟨hnodup, rfl⟩ := StructDecl.ofFields_eq_ok_iff.1 hform
    rw [declare_struct_of_ok hform]
    exact ⟨fun hdeclare => ⟨hnodup, hdeclare⟩, fun h => h.2⟩

theorem WellDeclared.act (h : scope.WellDeclared) (action : Action) :
    (scope.act action).WellDeclared := by
  rcases action with declaration | _
  · rw [Scope.act]
    rcases hdeclare : scope.declare declaration with ⟨e | _, changed⟩
    · rw [declare_error_eq hdeclare]
      exact h
    · change changed.WellDeclared
      rcases declaration with ⟨name, fields⟩ | ⟨name, ty⟩ | ⟨name, params, result⟩
      · obtain ⟨hfields, hnew⟩ := declare_struct_eq_ok_iff.1 hdeclare
        exact h.declareStruct hfields hnew
      all_goals
        have hdecls := structDecls_declareVar hdeclare
        exact ⟨hdecls ▸ h.names_nodup, hdecls ▸ h.fields_nodup⟩
  · have hdecls := structDecls_child scope
    exact ⟨hdecls ▸ h.names_nodup, hdecls ▸ h.fields_nodup⟩

theorem WellDeclared.after (h : scope.WellDeclared) (actions : List Action) :
    (scope.after actions).WellDeclared := by
  induction actions generalizing scope with
  | nil => exact h
  | cons action actions ih => exact ih (h.act action)

/-- No two frames of the chain declare the same struct. -/
theorem WellDeclared.frames_disjoint (h : scope.WellDeclared) :
    scope.frames.Pairwise fun inner outer =>
      ∀ name, inner.struct? name = none ∨ outer.struct? name = none := by
  have hnames := h.names_nodup
  rw [structDecls, List.map_flatMap, List.nodup_flatMap] at hnames
  refine hnames.2.imp ?_
  intro inner outer hdisjoint name
  by_contra! hboth
  obtain ⟨a, ha⟩ := Option.ne_none_iff_exists'.1 hboth.1
  obtain ⟨b, hb⟩ := Option.ne_none_iff_exists'.1 hboth.2
  have hname : a.name = b.name := by
    have haname : a.name = name := by simpa using List.find?_some ha
    have hbname : b.name = name := by simpa using List.find?_some hb
    rw [haname, hbname]
  exact hdisjoint (List.mem_map_of_mem (List.mem_of_find?_eq_some ha))
    (hname ▸ List.mem_map_of_mem (List.mem_of_find?_eq_some hb))

/-- Structs are found in whatever order the frames are searched. -/
theorem WellDeclared.findSome?_of_perm
    (h : scope.WellDeclared) {order : List Frame} (hperm : order.Perm scope.frames)
    (name : Name) :
    order.findSome? (·.struct? name) = scope.struct? name := by
  have hdecls : (order.flatMap Frame.structs).Perm scope.structDecls :=
    hperm.flatMap_right Frame.structs
  have hnodup : ((order.flatMap Frame.structs).map StructDecl.name).Nodup :=
    (hdecls.map StructDecl.name).nodup_iff.2 h.names_nodup
  have horder : order.findSome? (·.struct? name) =
      (order.flatMap Frame.structs).find? (·.name = name) :=
    List.find?_flatMap.symm
  rw [horder, struct?_eq_find?]
  ext decl
  rw [StructDecl.find?_eq_some_iff_mem hnodup, StructDecl.find?_eq_some_iff_mem h.names_nodup,
    hdecls.mem_iff]

/-! ## Sessions step by step -/

namespace Session

/-- An action and the number of the scope it is meant for. -/
structure Step where
  target : Nat
  action : Action
deriving DecidableEq, Repr

/-- The session after a step, be it refused or not. -/
def step (session : Session) (s : Step) : Session :=
  (session.act s.target s.action).2

/-- The session after a sequence of steps. -/
def after (session : Session) (steps : List Step) : Session :=
  steps.foldl step session

/-- Scope `k` is the scope `origin`, or the steps have taken it as a child of `origin` or
of another scope of this kind. -/
inductive Descends (session : Session) (origin : Nat) : List Step → Nat → Prop where
  | self (steps : List Step) : Descends session origin steps origin
  | child {before : List Step} {k : Nat} (h : Descends session origin before k)
      (later : List Step) :
      Descends session origin (before ++ ⟨k, .child⟩ :: later)
        (session.after before).scopes.size

variable (session : Session)

theorem after_append (first second : List Step) :
    session.after (first ++ second) = (session.after first).after second :=
  List.foldl_append

theorem after_cons (s : Step) (steps : List Step) :
    session.after (s :: steps) = (session.step s).after steps := rfl

theorem after_append_singleton (steps : List Step) (s : Step) :
    session.after (steps ++ [s]) = (session.after steps).step s :=
  List.foldl_append

theorem step_child (target : Nat) :
    session.step ⟨target, .child⟩ =
      ⟨session.scopes.push (session.scope target).child⟩ := rfl

/-- A declaration replaces the scope that it is meant for, if there is one. -/
theorem step_declare (target : Nat) (declaration : Declaration) :
    session.step ⟨target, .declare declaration⟩ =
      ⟨session.scopes.setIfInBounds target
        ((session.scope target).act (.declare declaration))⟩ := rfl

theorem scope_of_size_le {k : Nat} (h : session.scopes.size ≤ k) :
    session.scope k = Scope.empty := by
  rw [scope, Array.getElem?_eq_none h]
  rfl

theorem scope_step_child (target k : Nat) :
    (session.step ⟨target, .child⟩).scope k =
      if k = session.scopes.size then (session.scope target).child else session.scope k := by
  rw [step_child, scope, Array.getElem?_push]
  split
  · rfl
  · rfl

theorem scope_step_declare (target k : Nat) (declaration : Declaration) :
    (session.step ⟨target, .declare declaration⟩).scope k =
      if k = target ∧ k < session.scopes.size then
        (session.scope k).act (.declare declaration)
      else session.scope k := by
  rw [step_declare, scope, Array.getElem?_setIfInBounds]
  by_cases htarget : target = k
  · subst htarget
    by_cases hlt : target < session.scopes.size
    · simp [hlt]
    · simp [hlt, scope]
  · have hne : k ≠ target := fun heq => htarget heq.symm
    simp [htarget, hne, scope]

/-- A step leaves a scope alone, or makes it by an action from a scope there was before. -/
theorem scope_step_cases (s : Step) (k : Nat) :
    (session.step s).scope k = session.scope k ∨
      ∃ origin, (session.step s).scope k = (session.scope origin).act s.action := by
  obtain ⟨target, declaration | _⟩ := s
  · rw [scope_step_declare]
    split
    · exact Or.inr ⟨k, rfl⟩
    · exact Or.inl rfl
  · rw [scope_step_child]
    split
    · exact Or.inr ⟨target, rfl⟩
    · exact Or.inl rfl

/-- Every scope of a session comes from the empty scope by a line of actions. -/
theorem exists_scope_eq_after (history : List Step) (k : Nat) :
    ∃ actions, (start.after history).scope k = Scope.empty.after actions := by
  induction history using List.reverseRecOn generalizing k with
  | nil =>
      refine ⟨[], ?_⟩
      rcases k with _ | k
      · rfl
      · exact scope_of_size_le _ (Nat.le_add_left 1 k)
  | append_singleton history s ih =>
      rw [after_append_singleton]
      rcases scope_step_cases (start.after history) s k with hsame | ⟨origin, hnew⟩
      · rw [hsame]
        exact ih k
      · obtain ⟨actions, hactions⟩ := ih origin
        refine ⟨actions ++ [s.action], ?_⟩
        rw [hnew, hactions, Scope.after, Scope.after, List.foldl_append]
        rfl

theorem wellDeclared_scope (history : List Step) (k : Nat) :
    ((start.after history).scope k).WellDeclared := by
  obtain ⟨actions, hactions⟩ := exists_scope_eq_after history k
  rw [hactions]
  exact wellDeclared_empty.after actions

variable {session} {name : Name} {decl : StructDecl} {k : Nat}

/-- A struct found in a scope of a session is never lost or changed there. -/
theorem struct?_scope_step
    (h : (session.scope k).struct? name = some decl) (s : Step) :
    ((session.step s).scope k).struct? name = some decl := by
  have hlt : k < session.scopes.size := by
    by_contra hle
    rw [session.scope_of_size_le (Nat.le_of_not_lt hle)] at h
    exact absurd h nofun
  obtain ⟨target, declaration | _⟩ := s
  · rw [scope_step_declare]
    split
    · exact struct?_act h _
    · exact h
  · rw [scope_step_child, if_neg (Nat.ne_of_lt hlt)]
    exact h

theorem struct?_scope_after
    (h : (session.scope k).struct? name = some decl) (steps : List Step) :
    ((session.after steps).scope k).struct? name = some decl := by
  induction steps generalizing session with
  | nil => exact h
  | cons s steps ih => exact ih (struct?_scope_step h s)

/-- Nor in any scope that is taken from it later. -/
theorem Descends.struct?_eq
    {steps : List Step} {other : Nat} (hdescends : session.Descends k steps other)
    (h : (session.scope k).struct? name = some decl) :
    ((session.after steps).scope other).struct? name = some decl := by
  induction hdescends with
  | self steps => exact struct?_scope_after h steps
  | @child before origin _ later ih =>
      rw [after_append, after_cons]
      apply struct?_scope_after
      rw [scope_step_child, if_pos rfl, struct?_child]
      exact ih

/-- A struct that can be formed is refused exactly if its name is taken. -/
theorem act_declare_struct_error_iff
    {fields : List (Name × Ty)} (hform : StructDecl.ofFields name fields = .ok decl) :
    (∃ e, (session.act k (.declare (.struct name fields))).1 = .error e) ↔
      ((session.scope k).struct? decl.name).isSome = true := by
  change (∃ e, ((session.scope k).declare (.struct name fields)).1 = .error e) ↔ _
  rw [declare_struct_of_ok hform, declareStruct_eq_ite]
  split
  · next htaken => simpa using htaken
  · next hfree => simpa using hfree

end Session
end Scope

open Scope in
/-- Struct declarations are unique along every chain, and they last.

In every scope of every session, whatever has been declared, refused or taken as a child:
no two frames of its chain declare the same struct, so that the frames may be searched in
any order; a struct that is found has the name it was looked up by and distinct fields,
and is found from then on in this scope and in all scopes that are taken from it; and a
struct is refused exactly if one of its name is found. -/
theorem struct_declarations_unique_and_stable (history : List Session.Step) (k : Nat) :
    let session := Session.start.after history
    let scope := session.scope k
    (scope.frames.Pairwise fun inner outer =>
      ∀ name, inner.struct? name = none ∨ outer.struct? name = none) ∧
    (∀ order : List Frame, order.Perm scope.frames → ∀ name,
      order.findSome? (·.struct? name) = scope.struct? name) ∧
    (∀ name decl, scope.struct? name = some decl →
      decl.name = name ∧ (decl.fields.map Prod.fst).Nodup ∧
      ∀ later other, session.Descends k later other →
        ((session.after later).scope other).struct? name = some decl) ∧
    (∀ name fields decl, StructDecl.ofFields name fields = .ok decl →
      ((∃ e, (session.act k (.declare (.struct name fields))).1 = .error e) ↔
        (scope.struct? decl.name).isSome = true)) := by
  intro session scope
  have hscope : scope.WellDeclared := Session.wellDeclared_scope history k
  refine ⟨hscope.frames_disjoint, fun order hperm => hscope.findSome?_of_perm hperm, ?_,
    fun name fields decl hform => Session.act_declare_struct_error_iff hform⟩
  intro name decl hfound
  have hmem : decl ∈ scope.structDecls ∧ decl.name = name := by
    rwa [struct?_eq_find?, StructDecl.find?_eq_some_iff_mem hscope.names_nodup] at hfound
  exact ⟨hmem.2, hscope.fields_nodup decl hmem.1,
    fun later other hdescends => hdescends.struct?_eq hfound⟩

/-- A scope and its child declare the same struct after they have parted, and a child is
taken of each. -/
def partedScopes : List Scope.Session.Step :=
  [⟨0, .child⟩, ⟨0, .declare (.struct ⟨1⟩ [(⟨2⟩, .int)])⟩, ⟨1, .declare (.struct ⟨1⟩ [])⟩,
    ⟨0, .child⟩, ⟨1, .child⟩]

example :
    let session := Scope.Session.start.after partedScopes
    (session.scope 2).struct? ⟨1⟩ = some ⟨⟨1⟩, [(⟨2⟩, .int)]⟩ ∧
      (session.scope 3).struct? ⟨1⟩ = some ⟨⟨1⟩, []⟩ := by
  decide

end ExprTyping
