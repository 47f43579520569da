import ExprTyping.Proofs.Renaming
import ExprTyping.Proofs.Snapshot

/-!
# Fields of structs

A struct is formed field by field.  Each field is looked up among those before it, so the first
one whose name has occurred already is refused, and the fields of a formed struct have distinct
names.

Where names are distinct, a lookup finds a field wherever it stands.  The order of the fields is
therefore invisible to the rules, and thus to every check in every scope that comes about after
the declaration.
-/

namespace ExprTyping

namespace StructDecl

/-! ## Forming a struct -/

/-- Adds a field behind the others, unless the struct has one of its name. -/
def addField (decl : StructDecl) (field : Name × Ty) : Except ScopeError StructDecl :=
  if (decl.field? field.1).isSome then
    .error (.fieldRepeated decl.name field.1)
  else
    .ok { decl with fields := decl.fields ++ [field] }

theorem isSome_field?_iff {decl : StructDecl} {member : Name} :
    (decl.field? member).isSome = true ↔ member ∈ decl.fields.map Prod.fst := by
  simp [field?]

/-- Adding fields goes on up to the first repeat.  The names seen so far are those of the fields
that have been added. -/
theorem foldlM_addField
    {name : Name} {formed fields : List (Name × Ty)} {seen : List Name}
    (hseen : ∀ member, member ∈ seen ↔ member ∈ formed.map Prod.fst) :
    fields.foldlM addField ⟨name, formed⟩ =
      match firstRepeat? seen (fields.map Prod.fst) with
      | some field => .error (.fieldRepeated name field)
      | none => .ok ⟨name, formed ++ fields⟩ := by
  induction fields generalizing formed seen with
  | nil =>
      rw [List.append_nil]
      rfl
  | cons field fields ih =>
      rw [List.foldlM_cons, addField, List.map_cons, firstRepeat?]
      by_cases hrepeat : field.1 ∈ seen
      · have hfound : (field? ⟨name, formed⟩ field.1).isSome = true :=
          isSome_field?_iff.2 ((hseen field.1).1 hrepeat)
        rw [if_pos hfound, if_pos hrepeat]
        rfl
      · have hfresh : ¬(field? ⟨name, formed⟩ field.1).isSome = true :=
          fun hfound => hrepeat ((hseen field.1).2 (isSome_field?_iff.1 hfound))
        have hnext : ∀ member,
            member ∈ field.1 :: seen ↔ member ∈ (formed ++ [field]).map Prod.fst := by
          intro member
          simp [hseen, or_comm]
        rw [if_neg hfresh, if_neg hrepeat]
        change fields.foldlM addField ⟨name, formed ++ [field]⟩ = _
        rw [ih hnext, List.append_assoc, List.singleton_append]

theorem ofFields_eq_foldlM (name : Name) (fields : List (Name × Ty)) :
    ofFields name fields = fields.foldlM addField ⟨name, []⟩ := by
  have hseen : ∀ member : Name, member ∈ [] ↔ member ∈ ([] : List (Name × Ty)).map Prod.fst := by
    simp
  rw [foldlM_addField hseen, List.nil_append]
  rfl

theorem firstRepeat?_append (seen names others : List Name) :
    firstRepeat? seen (names ++ others) =
      (firstRepeat? seen names).or (firstRepeat? (names.reverse ++ seen) others) := by
  induction names generalizing seen with
  | nil => simp [firstRepeat?]
  | cons name names ih =>
      rw [List.cons_append, firstRepeat?, firstRepeat?]
      by_cases hseen : name ∈ seen
      · rw [if_pos hseen, if_pos hseen, Option.some_or]
      · rw [if_neg hseen, if_neg hseen, ih, List.reverse_cons, List.append_assoc,
          List.singleton_append]

/-- The first repeat is the first name that stands earlier in the list as well. -/
theorem firstRepeat?_eq_some_iff {names : List Name} {name : Name} :
    firstRepeat? [] names = some name ↔
      ∃ before after, names = before ++ name :: after ∧ before.Nodup ∧ name ∈ before := by
  constructor
  · intro hrepeat
    induction names using List.reverseRecOn with
    | nil => exact absurd hrepeat nofun
    | append_singleton names last ih =>
        rw [firstRepeat?_append] at hrepeat
        rcases hfirst : firstRepeat? [] names with _ | earlier
        · -- The names up to the last one are distinct, so the last one is the repeat.
          rw [hfirst, Option.none_or, firstRepeat?, firstRepeat?] at hrepeat
          obtain ⟨hmem, hlast⟩ := Option.ite_none_right_eq_some.1 hrepeat
          obtain rfl := Option.some.inj hlast
          exact ⟨names, [], rfl, (firstRepeat?_eq_none_iff.1 hfirst).1, by simpa using hmem⟩
        · rw [hfirst, Option.some_or] at hrepeat
          obtain ⟨before, after, rfl, hbefore⟩ := ih (hfirst.trans hrepeat)
          exact ⟨before, after ++ [last], by simp, hbefore⟩
  · rintro ⟨before, after, rfl, hnodup, hmem⟩
    have hnone : firstRepeat? [] before = none :=
      firstRepeat?_eq_none_iff.2 ⟨hnodup, by simp⟩
    rw [firstRepeat?_append, hnone, Option.none_or, firstRepeat?, if_pos (by simpa using hmem)]

/-- A struct is refused for the first of its fields whose name has occurred before. -/
theorem ofFields_eq_error_iff {name : Name} {fields : List (Name × Ty)} {e : ScopeError} :
    ofFields name fields = .error e ↔
      ∃ before field ty after, fields = before ++ (field, ty) :: after ∧
        (before.map Prod.fst).Nodup ∧ field ∈ before.map Prod.fst ∧
        e = .fieldRepeated name field := by
  have hrepeat : ofFields name fields = .error e ↔
      ∃ field, firstRepeat? [] (fields.map Prod.fst) = some field ∧
        e = .fieldRepeated name field := by
    rw [ofFields]
    rcases firstRepeat? [] (fields.map Prod.fst) with _ | field
    · simp
    · simp [eq_comm]
  rw [hrepeat]
  constructor
  · rintro ⟨field, hfield, rfl⟩
    obtain ⟨names, others, hnames, hnodup, hmem⟩ := firstRepeat?_eq_some_iff.1 hfield
    obtain ⟨before, rest, rfl, rfl, hrest⟩ := List.map_eq_append_iff.1 hnames
    obtain ⟨⟨found, ty⟩, after, rfl, rfl, -⟩ := List.map_eq_cons_iff.1 hrest
    exact ⟨before, found, ty, after, rfl, hnodup, hmem, rfl⟩
  · rintro ⟨before, field, ty, after, rfl, hnodup, hmem, rfl⟩
    refine ⟨field, firstRepeat?_eq_some_iff.2 ⟨_, after.map Prod.fst, ?_, hnodup, hmem⟩, rfl⟩
    rw [List.map_append, List.map_cons]

/-! ## Looking up a field -/

variable {decl other : StructDecl}

/-- Among distinct names, a field is found wherever it stands. -/
theorem field?_eq_some_iff (hnodup : (decl.fields.map Prod.fst).Nodup) {member : Name} {ty : Ty} :
    decl.field? member = some ty ↔ (member, ty) ∈ decl.fields := by
  rw [field?, Option.map_eq_some_iff]
  constructor
  · rintro ⟨⟨found, _⟩, hfind, rfl⟩
    obtain ⟨hmem, rfl⟩ := (find?_eq_some_iff_mem hnodup).1 hfind
    exact hmem
  · intro hmem
    exact ⟨(member, ty), (find?_eq_some_iff_mem hnodup).2 ⟨hmem, rfl⟩, rfl⟩

theorem field?_of_perm
    (hnodup : (decl.fields.map Prod.fst).Nodup) (hperm : other.fields.Perm decl.fields) :
    other.field? = decl.field? := by
  have hother : (other.fields.map Prod.fst).Nodup := (hperm.map Prod.fst).nodup_iff.2 hnodup
  funext member
  ext ty
  rw [field?_eq_some_iff hnodup, field?_eq_some_iff hother, hperm.mem_iff]

end StructDecl

/-! ## Scopes with reordered structs -/

namespace Scope

/-- Two scopes that may differ in the order in which their structs list the fields, but in no
answer about a variable or a member. -/
structure SameMembers (a b : Scope) : Prop where
  frame_var? : ∀ name, a.frame.var? name = b.frame.var? name
  var? : ∀ name, a.var? name = b.var? name
  field? : ∀ name, (a.struct? name).map StructDecl.field? = (b.struct? name).map StructDecl.field?

/-- Two declarations are refused for the same reason, or both are accepted, and the scopes that
they leave behind have the same members. -/
structure DeclaredAlike (x y : Except ScopeError Unit × Scope) : Prop where
  outcome : x.1 = y.1
  sameMembers : x.2.SameMembers y.2

namespace SameMembers

variable {a b : Scope}

theorem refl (scope : Scope) : scope.SameMembers scope :=
  ⟨fun _ => rfl, fun _ => rfl, fun _ => rfl⟩

theorem child (h : a.SameMembers b) : a.child.SameMembers b.child where
  frame_var? _ := rfl
  var? name := by rw [var?_child, var?_child, h.var?]
  field? name := by rw [struct?_child, struct?_child, h.field?]

theorem struct?_eq_none_iff (h : a.SameMembers b) (name : Name) :
    a.struct? name = none ↔ b.struct? name = none := by
  have hfields := h.field? name
  rw [← Option.map_eq_none_iff (f := StructDecl.field?), hfields, Option.map_eq_none_iff]

/-- Structs of one name whose fields are looked up alike are declared alike. -/
theorem declareStruct
    (h : a.SameMembers b) {decl other : StructDecl} (hname : other.name = decl.name)
    (hfield : other.field? = decl.field?) :
    DeclaredAlike (a.declareStruct decl) (b.declareStruct other) := by
  have hiff := h.struct?_eq_none_iff decl.name
  by_cases hfree : b.struct? decl.name = none
  · obtain ⟨changed, hdecl⟩ : ∃ changed, a.declareStruct decl = (.ok (), changed) :=
      ⟨_, declareStruct_eq_ok_iff.2 ⟨hiff.2 hfree, rfl⟩⟩
    obtain ⟨reordered, hother⟩ : ∃ reordered, b.declareStruct other = (.ok (), reordered) :=
      ⟨_, declareStruct_eq_ok_iff.2 ⟨hname ▸ hfree, rfl⟩⟩
    rw [hdecl, hother]
    refine ⟨rfl, ?_, ?_, ?_⟩
    · intro name
      rw [frame_var?_declareStruct hdecl, frame_var?_declareStruct hother, h.frame_var?]
    · intro name
      rw [var?_declareStruct hdecl, var?_declareStruct hother, h.var?]
    · intro name
      rw [struct?_declareStruct hdecl, struct?_declareStruct hother, hname]
      by_cases hself : decl.name = name
      · rw [if_pos hself, if_pos hself, Option.map_some, Option.map_some, hfield]
      · rw [if_neg hself, if_neg hself, h.field?]
  · have hdecl : a.declareStruct decl = (.error (.structDeclared decl.name), a) :=
      declareStruct_eq_error_iff.2 ⟨Option.isSome_iff_ne_none.2 (mt hiff.1 hfree), rfl, rfl⟩
    have hother : b.declareStruct other = (.error (.structDeclared decl.name), b) :=
      declareStruct_eq_error_iff.2
        ⟨Option.isSome_iff_ne_none.2 (hname ▸ hfree), by rw [hname], rfl⟩
    rw [hdecl, hother]
    exact ⟨rfl, h⟩

theorem declareVar (h : a.SameMembers b) (name : Name) (ty : Ty) :
    DeclaredAlike (a.declareVar name ty) (b.declareVar name ty) := by
  by_cases hfree : b.frame.var? name = none
  · obtain ⟨changed, ha⟩ : ∃ changed, a.declareVar name ty = (.ok (), changed) :=
      ⟨_, declareVar_eq_ok_iff.2 ⟨(h.frame_var? name).trans hfree, rfl⟩⟩
    obtain ⟨reordered, hb⟩ : ∃ reordered, b.declareVar name ty = (.ok (), reordered) :=
      ⟨_, declareVar_eq_ok_iff.2 ⟨hfree, rfl⟩⟩
    rw [ha, hb]
    refine ⟨rfl, ?_, ?_, ?_⟩
    · intro other
      rw [frame_var?_declareVar ha, frame_var?_declareVar hb, h.frame_var?]
    · intro other
      rw [var?_declareVar ha, var?_declareVar hb, h.var?]
    · intro struct
      rw [struct?_declareVar ha, struct?_declareVar hb, h.field?]
  · have htaken := Option.isSome_iff_ne_none.2 hfree
    rw [declareVar_eq_ite, declareVar_eq_ite, h.frame_var?, if_pos htaken, if_pos htaken]
    exact ⟨rfl, h⟩

theorem declare (h : a.SameMembers b) (declaration : Declaration) :
    DeclaredAlike (a.declare declaration) (b.declare declaration) := by
  rcases declaration with ⟨name, fields⟩ | ⟨name, ty⟩ | ⟨name, params, result⟩
  · rcases hform : StructDecl.ofFields name fields with e | decl
    · rw [declare_struct_of_error hform, declare_struct_of_error hform]
      exact ⟨rfl, h⟩
    · rw [declare_struct_of_ok hform]
      exact h.declareStruct rfl rfl
  · exact h.declareVar name ty
  · exact h.declareVar name _

theorem act (h : a.SameMembers b) (action : Action) :
    (a.act action).SameMembers (b.act action) := by
  rcases action with declaration | _
  · exact (h.declare declaration).sameMembers
  · exact h.child

theorem after (h : a.SameMembers b) (actions : List Action) :
    (a.after actions).SameMembers (b.after actions) := by
  induction actions generalizing a b with
  | nil => exact h
  | cons action actions ih => exact ih (h.act action)

end SameMembers

end Scope

/-! ## Checking in reordered scopes -/

theorem check_eq_of_judge
    {a b : Scope} (h : ∀ (head : Head) (types : List Ty), head.judge a types = head.judge b types)
    (g : Graph) (root : NodeId) :
    check g a root = check g b root := by
  have hcombine : Visit.combine g a = Visit.combine g b := by
    funext id n below
    rw [Visit.combine, Visit.combine, h]
  rw [check_eq_fold, check_eq_fold, hcombine]

/-- The rule for members asks a struct for one field and never for the list of fields. -/
theorem Rule.field_of_sameMembers
    {a b : Scope} (h : a.SameMembers b) (member : Name) (owner : Ty) :
    field a member owner = field b member owner := by
  rcases owner with _ | _ | _ | _ | name | _ | _
  case struct =>
    have hfields := h.field? name
    rcases ha : a.struct? name with _ | decl
    · have hb := (h.struct?_eq_none_iff name).1 ha
      rw [field_of_undeclared member ha, field_of_undeclared member hb]
    · rw [ha, Option.map_some, eq_comm, Option.map_eq_some_iff] at hfields
      obtain ⟨other, hb, hother⟩ := hfields
      rw [field_of_declared member ha, field_of_declared member hb, hother]
  all_goals rfl

/-- A check does not see in which order structs list their fields. -/
theorem Scope.SameMembers.check_eq
    {a b : Scope} (h : a.SameMembers b) (g : Graph) (root : NodeId) :
    check g a root = check g b root := by
  apply check_eq_of_judge
  apply Head.judge_eq_of_rules
  · intro name
    rw [Rule.ident, Rule.ident, h.var?]
  · exact Rule.field_of_sameMembers h

/-- A struct with its fields in another order is declared like the struct itself. -/
theorem Scope.declare_reordered
    (scope : Scope) (name : Name) {fields order : List (Name × Ty)}
    (hnodup : (fields.map Prod.fst).Nodup) (hperm : order.Perm fields) :
    DeclaredAlike (scope.declare (.struct name order)) (scope.declare (.struct name fields)) := by
  have horder : (order.map Prod.fst).Nodup := (hperm.map Prod.fst).nodup_iff.2 hnodup
  rw [declare_struct_of_ok (StructDecl.ofFields_eq_ok_iff.2 ⟨horder, rfl⟩),
    declare_struct_of_ok (StructDecl.ofFields_eq_ok_iff.2 ⟨hnodup, rfl⟩)]
  exact (SameMembers.refl scope).declareStruct rfl (StructDecl.field?_of_perm horder hperm.symm)

/-- Structs are formed from fields with distinct names, in any order.

Forming a struct adds its fields one after the other, each after a look at those before it.  It
succeeds if and only if the names of the fields are distinct, and otherwise it is refused for
the first field whose name has occurred before.  A struct that has been formed lists its fields
as they were given, and finds each of them by its name.  With the fields in another order it is
formed as well; a scope accepts or refuses both structs alike, and whatever is declared after
them, every check has the same outcome. -/
theorem structs_formed_from_distinct_fields (name : Name) (fields : List (Name × Ty)) :
    StructDecl.ofFields name fields = fields.foldlM StructDecl.addField ⟨name, []⟩ ∧
      ((∃ decl, StructDecl.ofFields name fields = .ok decl) ↔ (fields.map Prod.fst).Nodup) ∧
      (∀ e, StructDecl.ofFields name fields = .error e ↔
        ∃ before field ty after, fields = before ++ (field, ty) :: after ∧
          (before.map Prod.fst).Nodup ∧ field ∈ before.map Prod.fst ∧
          e = .fieldRepeated name field) ∧
      ∀ decl, StructDecl.ofFields name fields = .ok decl →
        decl.name = name ∧ decl.fields = fields ∧
        (∀ member ty, decl.field? member = some ty ↔ (member, ty) ∈ fields) ∧
        ∀ order : List (Name × Ty), order.Perm fields →
          StructDecl.ofFields name order = .ok ⟨name, order⟩ ∧
          ∀ scope : Scope,
            (∀ e, (scope.declare (.struct name order)).1 = .error e ↔
              (scope.declare (.struct name fields)).1 = .error e) ∧
            ∀ actions g root,
              check g (scope.after (.declare (.struct name order) :: actions)) root =
                check g (scope.after (.declare (.struct name fields) :: actions)) root := by
  refine ⟨StructDecl.ofFields_eq_foldlM name fields, ?_, fun e => StructDecl.ofFields_eq_error_iff,
    ?_⟩
  · constructor
    · rintro ⟨decl, hform⟩
      exact (StructDecl.ofFields_eq_ok_iff.1 hform).1
    · intro hnodup
      exact ⟨_, StructDecl.ofFields_eq_ok_iff.2 ⟨hnodup, rfl⟩⟩
  · intro decl hform
    obtain ⟨hnodup, rfl⟩ := StructDecl.ofFields_eq_ok_iff.1 hform
    refine ⟨rfl, rfl, fun member ty => StructDecl.field?_eq_some_iff hnodup, ?_⟩
    intro order hperm
    have horder : (order.map Prod.fst).Nodup := (hperm.map Prod.fst).nodup_iff.2 hnodup
    refine ⟨StructDecl.ofFields_eq_ok_iff.2 ⟨horder, rfl⟩, ?_⟩
    intro scope
    have hdeclared := scope.declare_reordered name hnodup hperm
    refine ⟨fun e => by rw [hdeclared.outcome], ?_⟩
    intro actions g root
    exact (hdeclared.sameMembers.after actions).check_eq g root

/-- A number `2` and a list of truth values `3`. -/
def flaggedFields : List (Name × Ty) :=
  [(⟨2⟩, .int), (⟨3⟩, .list .bool)]

/-- Four fields with two names.  The second name is the first one that occurs again. -/
def repeatedFields : List (Name × Ty) :=
  [(⟨2⟩, .int), (⟨3⟩, .bool), (⟨3⟩, .int), (⟨2⟩, .bool)]

/-- A variable `4` of the struct `1`, and a scope inside. -/
def declaredInside : List Scope.Action :=
  [.declare (.var ⟨4⟩ (.struct ⟨1⟩)), .child]

/-- The size of the member `3` of the variable `4`. -/
def sizeOfMember : Graph where
  nodes := #[⟨.size ⟨1⟩, Span.zero⟩, ⟨.field ⟨2⟩ ⟨3⟩, Span.zero⟩, ⟨.ident ⟨4⟩, Span.zero⟩]
  args := #[]

theorem flaggedFields_in_any_order :
    StructDecl.ofFields ⟨1⟩ repeatedFields = .error (.fieldRepeated ⟨1⟩ ⟨3⟩) ∧
      StructDecl.ofFields ⟨1⟩ flaggedFields = .ok ⟨⟨1⟩, flaggedFields⟩ ∧
      flaggedFields.reverse.Perm flaggedFields ∧
      (check sizeOfMember (Scope.empty.after
        (.declare (.struct ⟨1⟩ flaggedFields) :: declaredInside)) ⟨0⟩).map Checked.ty = .ok .int ∧
      check sizeOfMember (Scope.empty.after
          (.declare (.struct ⟨1⟩ flaggedFields.reverse) :: declaredInside)) ⟨0⟩ =
        check sizeOfMember (Scope.empty.after
          (.declare (.struct ⟨1⟩ flaggedFields) :: declaredInside)) ⟨0⟩ := by
  obtain ⟨-, -, hrefused, -⟩ := structs_formed_from_distinct_fields ⟨1⟩ repeatedFields
  obtain ⟨-, hiff, -, hformed⟩ := structs_formed_from_distinct_fields ⟨1⟩ flaggedFields
  obtain ⟨⟨name, fields⟩, hform⟩ := hiff.2 (by decide)
  obtain ⟨rfl, rfl, -, hreorder⟩ := hformed _ hform
  obtain ⟨-, hscope⟩ := hreorder _ (List.reverse_perm _)
  refine ⟨?_, hform, List.reverse_perm _, by decide +kernel, (hscope _).2 _ _ _⟩
  exact (hrefused _).2 ⟨[(⟨2⟩, .int), (⟨3⟩, .bool)], ⟨3⟩, .int, [(⟨2⟩, .bool)], rfl, by decide,
    by decide, rfl⟩

end ExprTyping
