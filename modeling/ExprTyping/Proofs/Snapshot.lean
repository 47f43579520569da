import ExprTyping.Proofs.Session

/-!
# Scopes as snapshots

A declaration reaches one frame of one scope.  A child has a frame of its own in front of
the frames that its parent had at that moment, and these never change again.

What a variable means in a scope can therefore be read off the history of the session
alone: the first declaration of it that was meant for this scope counts, and without one
the history up to the moment when the scope was taken decides, for its parent.
-/

namespace ExprTyping

/-- The variable that a declaration declares, with its type. -/
def Declaration.binding? : Declaration → Option (Name × Ty)
  | .struct _ _ => none
  | .var name ty => some (name, ty)
  | .func name params result => some (name, .func params result)

namespace Scope

/-- The type that an action asks to declare a variable with. -/
def Action.typeFor? (name : Name) : Action → Option Ty
  | .child => none
  | .declare declaration =>
    match declaration.binding? with
    | some (declared, ty) => if declared = name then some ty else none
    | none => none

theorem SameLookups.of_eq {a b : Scope} (h : a = b) : a.SameLookups b where
  struct? _ := by rw [h]
  var? _ := by rw [h]

theorem sameLookups_child (scope : Scope) : scope.child.SameLookups scope where
  struct? := scope.struct?_child
  var? := scope.var?_child

section Declaring

variable {scope : Scope} {declaration : Declaration} {name : Name} {ty : Ty}

theorem declare_of_binding? (h : declaration.binding? = some (name, ty)) :
    declare declaration = declareVar name ty := by
  rcases declaration with _ | _ | _
  · exact absurd h nofun
  all_goals
    obtain ⟨rfl, rfl⟩ := Prod.mk.inj (Option.some.inj h)
    rfl

theorem var?_eq_or (scope : Scope) (name : Name) :
    scope.var? name =
      (scope.frame.var? name).or (scope.outer.findSome? (·.var? name)) := by
  rw [var?, frames, List.findSome?_cons]
  rcases scope.frame.var? name with _ | ty
  · rfl
  · rfl

theorem frame_var?_declareStruct
    {changed : Scope} {decl : StructDecl} (h : scope.declareStruct decl = (.ok (), changed))
    (name : Name) :
    changed.frame.var? name = scope.frame.var? name := by
  obtain ⟨-, rfl⟩ := declareStruct_eq_ok_iff.1 h
  rfl

theorem frame_var?_declareVar
    {changed : Scope} (h : scope.declareVar name ty = (.ok (), changed)) (other : Name) :
    changed.frame.var? other = if name = other then some ty else scope.frame.var? other := by
  obtain ⟨-, rfl⟩ := declareVar_eq_ok_iff.1 h
  by_cases hname : name = other
  · simp [Frame.var?, hname]
  · simp [Frame.var?, hname]

theorem frame_var?_act_struct (struct : Name) (fields : List (Name × Ty)) (name : Name) :
    (scope.act (.declare (.struct struct fields))).frame.var? name = scope.frame.var? name := by
  rw [act]
  rcases hdeclare : scope.declare (.struct struct fields) with ⟨e | _, changed⟩
  · rw [declare_error_eq hdeclare]
  · exact frame_var?_declareStruct (declare_struct_eq_ok_iff.1 hdeclare).2 name

theorem frame_var?_act_of_binding?
    (h : declaration.binding? = some (name, ty)) (other : Name) :
    (scope.act (.declare declaration)).frame.var? other =
      (scope.frame.var? other).or (if name = other then some ty else none) := by
  rw [act, declare_of_binding? h]
  rcases hdeclare : scope.declareVar name ty with ⟨e | _, changed⟩
  · obtain ⟨htaken, -, rfl⟩ := declareVar_eq_error_iff.1 hdeclare
    obtain ⟨old, hold⟩ := Option.isSome_iff_exists.1 htaken
    by_cases hname : name = other
    · subst hname
      simp [hold]
    · simp [hname]
  · obtain ⟨hfree, -⟩ := declareVar_eq_ok_iff.1 hdeclare
    change changed.frame.var? other = _
    rw [frame_var?_declareVar hdeclare]
    by_cases hname : name = other
    · subst hname
      simp [hfree]
    · simp [hname]

/-- A variable keeps its type in a frame; a new one has the type it is declared with. -/
theorem frame_var?_act_declare (scope : Scope) (declaration : Declaration) (name : Name) :
    (scope.act (.declare declaration)).frame.var? name =
      (scope.frame.var? name).or (Action.typeFor? name (.declare declaration)) := by
  rcases declaration with ⟨struct, fields⟩ | ⟨declared, ty⟩ | ⟨declared, params, result⟩
  · rw [frame_var?_act_struct]
    exact Option.or_none.symm
  · exact frame_var?_act_of_binding? rfl name
  · exact frame_var?_act_of_binding? rfl name

end Declaring

namespace Session

/-! ## One step -/

section Step

variable (session : Session)

/-- A step changes no scope but the one it is meant for. -/
theorem scope_step_of_ne
    {s : Step} {other : Nat} (hother : other < session.scopes.size) (hne : other ≠ s.target) :
    (session.step s).scope other = session.scope other := by
  obtain ⟨target, declaration | _⟩ := s
  · rw [scope_step_declare, if_neg fun h => hne h.1]
  · rw [scope_step_child, if_neg (Nat.ne_of_lt hother)]

theorem setIfInBounds_scope_self (target : Nat) :
    session.scopes.setIfInBounds target (session.scope target) = session.scopes := by
  by_cases hlt : target < session.scopes.size
  · have hself : session.scope target = session.scopes[target] := by
      simp [scope, hlt]
    rw [hself, Array.setIfInBounds, dif_pos hlt, Array.set_getElem_self]
  · exact Array.setIfInBounds_eq_of_size_le (Nat.le_of_not_lt hlt)

/-- A refused action puts back the scope that it was meant for as it was. -/
theorem act_of_error
    {target : Nat} {action : Action} {e : ScopeError}
    (h : (session.act target action).1 = .error e) :
    (session.act target action).2 = session := by
  rcases action with declaration | _
  · have hrefused : (session.scope target).declare declaration =
        (.error e, (session.scope target).act (.declare declaration)) :=
      Prod.ext h rfl
    change Session.mk (session.scopes.setIfInBounds target
      ((session.scope target).act (.declare declaration))) = session
    rw [declare_error_eq hrefused, setIfInBounds_scope_self]
  · cases h

theorem size_step_child (target : Nat) :
    (session.step ⟨target, .child⟩).scopes.size = session.scopes.size + 1 := by
  rw [step_child, Array.size_push]

theorem size_step_declare (target : Nat) (declaration : Declaration) :
    (session.step ⟨target, .declare declaration⟩).scopes.size = session.scopes.size := by
  rw [step_declare, Array.size_setIfInBounds]

theorem size_le_size_step (s : Step) :
    session.scopes.size ≤ (session.step s).scopes.size := by
  obtain ⟨target, declaration | _⟩ := s
  · exact Nat.le_of_eq (session.size_step_declare target declaration).symm
  · rw [size_step_child]
    exact Nat.le_succ _

/-- A step does not touch the frames that a scope has taken over. -/
theorem outer_scope_step (s : Step) {k : Nat} (hk : k < session.scopes.size) :
    ((session.step s).scope k).outer = (session.scope k).outer := by
  obtain ⟨target, declaration | _⟩ := s
  · rw [scope_step_declare]
    split
    · exact outer_act_declare _ _
    · rfl
  · rw [scope_step_child, if_neg (Nat.ne_of_lt hk)]

theorem outer_scope_after (steps : List Step) {k : Nat} (hk : k < session.scopes.size) :
    ((session.after steps).scope k).outer = (session.scope k).outer := by
  induction steps generalizing session with
  | nil => rfl
  | cons s steps ih =>
      calc
        (((session.step s).after steps).scope k).outer = ((session.step s).scope k).outer :=
          ih (session.step s) (Nat.lt_of_lt_of_le hk (session.size_le_size_step s))
        _ = (session.scope k).outer := session.outer_scope_step s hk

/-- What becomes of the scope in which a variable is declared. -/
theorem scope_act_declare_of_binding?
    {changed : Session} {target : Nat} (htarget : target < session.scopes.size)
    {declaration : Declaration} {name : Name} {ty : Ty}
    (hbinding : declaration.binding? = some (name, ty))
    (h : session.act target (.declare declaration) = (.ok (), changed)) :
    (session.scope target).declareVar name ty = (.ok (), changed.scope target) := by
  have hok : ((session.scope target).declare declaration).1 = .ok () := congrArg Prod.fst h
  have hchanged : changed = session.step ⟨target, .declare declaration⟩ :=
    (congrArg Prod.snd h).symm
  have hscope : changed.scope target = (session.scope target).act (.declare declaration) := by
    rw [hchanged, scope_step_declare, if_pos ⟨rfl, htarget⟩]
  rw [hscope, ← declare_of_binding? hbinding]
  exact Prod.ext hok rfl

theorem act_declare_error_iff
    {target : Nat} {declaration : Declaration} {name : Name} {ty : Ty}
    (hbinding : declaration.binding? = some (name, ty)) :
    (∃ e, (session.act target (.declare declaration)).1 = .error e) ↔
      ((session.scope target).frame.var? name).isSome = true := by
  change (∃ e, ((session.scope target).declare declaration).1 = .error e) ↔ _
  rw [declare_of_binding? hbinding, declareVar_eq_ite]
  split
  · next htaken => simpa using htaken
  · next hfree => simpa using hfree

end Step

/-! ## Reading the history -/

/-- Every step is meant for a scope that exists at its time. -/
def InRange (session : Session) : List Step → Prop
  | [] => True
  | s :: steps => s.target < session.scopes.size ∧ (session.step s).InRange steps

instance decidableInRange : (session : Session) → (steps : List Step) →
    Decidable (session.InRange steps)
  | _, [] => inferInstanceAs (Decidable True)
  | session, s :: steps =>
    have := decidableInRange (session.step s) steps
    inferInstanceAs (Decidable (s.target < session.scopes.size ∧ (session.step s).InRange steps))

/-- The type that the first declaration of a variable in scope `k` itself gives to it. -/
def ownType? (history : List Step) (k : Nat) (name : Name) : Option Ty :=
  history.findSome? fun s => if s.target = k then s.action.typeFor? name else none

/-- In scope `k` the history gives a type to the variable: by a declaration in the scope
itself, or else, through the parent, by the history before the scope was taken. -/
inductive Resolves (name : Name) : List Step → Nat → Ty → Prop where
  | own {history : List Step} {k : Nat} {ty : Ty} (h : ownType? history k name = some ty) :
      Resolves name history k ty
  | inherited {before later : List Step} {parent k : Nat} {ty : Ty}
      (hk : (start.after before).scopes.size = k)
      (hown : ownType? (before ++ ⟨parent, .child⟩ :: later) k name = none)
      (h : Resolves name before parent ty) :
      Resolves name (before ++ ⟨parent, .child⟩ :: later) k ty

theorem inRange_append {session : Session} {first second : List Step} :
    session.InRange (first ++ second) ↔
      session.InRange first ∧ (session.after first).InRange second := by
  induction first generalizing session with
  | nil => simp [InRange, after]
  | cons s first ih =>
      rw [List.cons_append, InRange, InRange, ih, after_cons, and_assoc]

theorem isSome_ownType?_iff {history : List Step} {k : Nat} {name : Name} :
    (ownType? history k name).isSome = true ↔
      ∃ s ∈ history, s.target = k ∧ (s.action.typeFor? name).isSome = true := by
  rw [ownType?, List.findSome?_isSome_iff]
  refine exists_congr fun s => and_congr_right fun _ => ?_
  split
  · next heq => simp [heq]
  · next hne => simp [hne]

theorem ownType?_append_singleton (history : List Step) (s : Step) (k : Nat) (name : Name) :
    ownType? (history ++ [s]) k name =
      (ownType? history k name).or
        (if s.target = k then s.action.typeFor? name else none) := by
  rw [ownType?, List.findSome?_append, List.findSome?_singleton]
  rfl

/-- The frame of a scope holds what has been declared in the scope itself. -/
theorem frame_var?_eq_ownType?
    {history : List Step} (hrange : start.InRange history) (k : Nat) (name : Name) :
    ((start.after history).scope k).frame.var? name = ownType? history k name := by
  induction history using List.reverseRecOn generalizing k with
  | nil =>
      rcases k with _ | k
      · rfl
      · rw [scope_of_size_le (start.after []) (Nat.le_add_left 1 k)]
        rfl
  | append_singleton history s ih =>
      obtain ⟨hbefore, htarget, -⟩ := inRange_append.1 hrange
      rw [after_append_singleton, ownType?_append_singleton, ← ih hbefore]
      obtain ⟨target, declaration | _⟩ := s
      · rw [scope_step_declare]
        by_cases heq : target = k
        · subst heq
          rw [if_pos ⟨rfl, htarget⟩, if_pos rfl, frame_var?_act_declare]
        · rw [if_neg fun h => heq h.1.symm, if_neg heq, Option.or_none]
      · rw [Action.typeFor?, ite_self, Option.or_none, scope_step_child]
        split
        · next heq =>
            -- Before it was taken, the scope was unknown, and nothing was meant for it.
            rw [heq, scope_of_size_le _ (Nat.le_refl _)]
            rfl
        · rfl

/-- Every scope but the first has been taken from a parent at some moment. -/
theorem exists_taken
    {history : List Step} {k : Nat} (hpos : 0 < k) (hk : k < (start.after history).scopes.size) :
    ∃ before parent later, history = before ++ ⟨parent, .child⟩ :: later ∧
      (start.after before).scopes.size = k := by
  induction history using List.reverseRecOn with
  | nil =>
      change k < 1 at hk
      omega
  | append_singleton history s ih =>
      by_cases hold : k < (start.after history).scopes.size
      · obtain ⟨before, parent, later, rfl, hsize⟩ := ih hold
        exact ⟨before, parent, later ++ [s], by simp, hsize⟩
      · rw [after_append_singleton] at hk
        obtain ⟨target, declaration | _⟩ := s
        · rw [size_step_declare] at hk
          exact absurd hk hold
        · rw [size_step_child] at hk
          exact ⟨history, target, [], rfl, by omega⟩

/-- A scope has taken over the frames of its parent. -/
theorem var?_scope_of_taken
    (before later : List Step) (parent : Nat) (name : Name) :
    let k := (start.after before).scopes.size
    let scope := (start.after (before ++ ⟨parent, .child⟩ :: later)).scope k
    scope.var? name =
      (scope.frame.var? name).or (((start.after before).scope parent).var? name) := by
  intro k scope
  have hk : k < ((start.after before).step ⟨parent, .child⟩).scopes.size := by
    rw [size_step_child]
    exact Nat.lt_succ_self _
  have houter : scope.outer = ((start.after before).scope parent).frames := by
    calc
      scope.outer = (((start.after before).step ⟨parent, .child⟩).scope k).outer := by
        rw [← outer_scope_after _ later hk, ← after_cons, ← after_append]
      _ = ((start.after before).scope parent).child.outer := by
        rw [scope_step_child, if_pos rfl]
  rw [var?_eq_or, houter]
  rfl

theorem outer_scope_zero (history : List Step) :
    ((start.after history).scope 0).outer = [] :=
  outer_scope_after start history Nat.zero_lt_one

theorem Resolves.var?_eq
    {history : List Step} {name : Name} {k : Nat} {ty : Ty} (h : Resolves name history k ty)
    (hrange : start.InRange history) :
    ((start.after history).scope k).var? name = some ty := by
  induction h with
  | own hown => rw [var?_eq_or, frame_var?_eq_ownType? hrange, hown, Option.some_or]
  | @inherited before later parent k ty hk hown _ ih =>
      subst hk
      rw [var?_scope_of_taken, frame_var?_eq_ownType? hrange, hown, Option.none_or]
      exact ih (inRange_append.1 hrange).1

/-- A variable has a type in a scope exactly if the history gives it that type. -/
theorem var?_eq_some_iff_resolves
    {history : List Step} (hrange : start.InRange history) {k : Nat}
    (hk : k < (start.after history).scopes.size) {name : Name} {ty : Ty} :
    ((start.after history).scope k).var? name = some ty ↔ Resolves name history k ty := by
  refine ⟨?_, fun h => h.var?_eq hrange⟩
  -- A parent has a smaller number than its child.
  induction k using Nat.strongRecOn generalizing history with
  | ind k ih =>
      intro hvar
      rcases hown : ownType? history k name with _ | own
      · by_cases hzero : k = 0
        · subst hzero
          rw [var?_eq_or, frame_var?_eq_ownType? hrange, hown, outer_scope_zero] at hvar
          exact absurd hvar nofun
        · obtain ⟨before, parent, later, rfl, rfl⟩ :=
            exists_taken (Nat.pos_of_ne_zero hzero) hk
          obtain ⟨hbefore, hparent, -⟩ := inRange_append.1 hrange
          rw [var?_scope_of_taken, frame_var?_eq_ownType? hrange, hown, Option.none_or] at hvar
          exact .inherited rfl hown (ih parent hparent hbefore hparent hvar)
      · rw [var?_eq_or, frame_var?_eq_ownType? hrange, hown, Option.some_or] at hvar
        exact .own (hvar ▸ hown)

end Session
end Scope

open Scope in
/-- Scopes of a session are snapshots, and declarations are atomic.

After any steps, meant for scopes of the session: a further step changes no answer of
another scope, and a refused one no answer at all.  A new child answers as its parent
does, and the scopes there were answer as before.  A declared variable or function has its
type in its scope, where no other answer changes; it is refused exactly if the same scope
was asked to declare it before.  So the type of a variable in a scope is the one that the
history of its frames gives to it. -/
theorem session_scopes_isolated
    (history : List Session.Step) (hrange : Session.start.InRange history) :
    let session := Session.start.after history
    (∀ target action other, other < session.scopes.size → other ≠ target →
      ((session.step ⟨target, action⟩).scope other).SameLookups (session.scope other)) ∧
    (∀ target action e, (session.act target action).1 = .error e → ∀ k,
      ((session.step ⟨target, action⟩).scope k).SameLookups (session.scope k)) ∧
    (∀ target, ∃ changed, session.act target .child = (.ok (), changed) ∧
      changed.scopes.size = session.scopes.size + 1 ∧
      (changed.scope session.scopes.size).SameLookups (session.scope target) ∧
      ∀ k < session.scopes.size, (changed.scope k).SameLookups (session.scope k)) ∧
    (∀ target < session.scopes.size, ∀ declaration name ty,
      declaration.binding? = some (name, ty) →
        (∀ changed, session.act target (.declare declaration) = (.ok (), changed) →
          (changed.scope target).var? name = some ty ∧
          (∀ other, other ≠ name →
            (changed.scope target).var? other = (session.scope target).var? other) ∧
          ∀ struct, (changed.scope target).struct? struct =
            (session.scope target).struct? struct) ∧
        ((∃ e, (session.act target (.declare declaration)).1 = .error e) ↔
          ∃ s ∈ history, s.target = target ∧ (s.action.typeFor? name).isSome = true)) ∧
    (∀ k < session.scopes.size, ∀ name ty,
      (session.scope k).var? name = some ty ↔ Session.Resolves name history k ty) := by
  intro session
  refine ⟨?_, ?_, ?_, ?_, ?_⟩
  · intro target action other hother hne
    exact .of_eq (session.scope_step_of_ne hother hne)
  · intro target action e herror k
    exact .of_eq (by rw [Session.step, session.act_of_error herror])
  · intro target
    have hscope := session.scope_step_child target
    refine ⟨session.step ⟨target, .child⟩, rfl, session.size_step_child target, ?_, ?_⟩
    · rw [hscope, if_pos rfl]
      exact sameLookups_child _
    · intro k hk
      exact .of_eq (by rw [hscope, if_neg (Nat.ne_of_lt hk)])
  · intro target htarget declaration name ty hbinding
    constructor
    · intro changed hact
      have hdeclare := session.scope_act_declare_of_binding? htarget hbinding hact
      refine ⟨?_, ?_, struct?_declareVar hdeclare⟩
      · rw [var?_declareVar hdeclare, if_pos rfl]
      · intro other hne
        rw [var?_declareVar hdeclare, if_neg hne.symm]
    · rw [session.act_declare_error_iff hbinding, Session.frame_var?_eq_ownType? hrange,
        Session.isSome_ownType?_iff]
  · intro k hk name ty
    exact Session.var?_eq_some_iff_resolves hrange hk

/-- The variable `1` is declared in the first scope, and hidden in its child `1` between the
taking of the scopes `2` and `3`; the function `2` comes too late for all of them. -/
def hiddenVariable : List Scope.Session.Step :=
  [⟨0, .declare (.var ⟨1⟩ .int)⟩, ⟨0, .child⟩, ⟨0, .declare (.func ⟨2⟩ [.int] .bool)⟩,
    ⟨1, .child⟩, ⟨1, .declare (.var ⟨1⟩ .bool)⟩, ⟨1, .declare (.var ⟨1⟩ .int)⟩, ⟨1, .child⟩]

open Scope in
theorem hiddenVariable_resolved :
    Session.start.InRange hiddenVariable ∧
      Session.Resolves ⟨1⟩ hiddenVariable 2 .int ∧
      Session.Resolves ⟨1⟩ hiddenVariable 3 .bool ∧
      (¬∃ ty, Session.Resolves ⟨2⟩ hiddenVariable 3 ty) ∧
      let session := Session.start.after hiddenVariable
      (∃ e, (session.act 1 (.declare (.var ⟨1⟩ .void))).1 = .error e) ∧
        ∃ changed, session.act 3 (.declare (.var ⟨1⟩ .void)) = (.ok (), changed) ∧
          (changed.scope 3).var? ⟨1⟩ = some .void ∧
          (changed.scope 1).SameLookups (session.scope 1) := by
  have hrange : Session.start.InRange hiddenVariable := by decide
  obtain ⟨hother, -, -, hdeclare, hresolve⟩ := session_scopes_isolated hiddenVariable hrange
  refine ⟨hrange, (hresolve 2 (by decide) _ _).1 (by decide),
    (hresolve 3 (by decide) _ _).1 (by decide), ?_, ?_, ?_⟩
  · rintro ⟨ty, hty⟩
    have hnone : ((Session.start.after hiddenVariable).scope 3).var? ⟨2⟩ = none := by decide
    rw [(hresolve 3 (by decide) _ _).2 hty] at hnone
    exact absurd hnone nofun
  · refine (hdeclare 1 (by decide) (.var ⟨1⟩ .void) _ _ rfl).2.2 ?_
    exact ⟨⟨1, .declare (.var ⟨1⟩ .bool)⟩, by decide, rfl, by decide⟩
  · refine ⟨_, rfl, ?_, hother 3 (.declare (.var ⟨1⟩ .void)) 1 (by decide) (by decide)⟩
    exact ((hdeclare 3 (by decide) (.var ⟨1⟩ .void) _ _ rfl).1 _ rfl).1

end ExprTyping
