import ExprTyping.Interner
import ExprTyping.Proofs.Renaming
import ExprTyping.Report
import Mathlib.Algebra.Order.BigOperators.Group.List
import Mathlib.Algebra.Order.Ring.Nat
import Mathlib.Data.List.Basic

/-!
# The numbering of names is invisible

A name is a number, and which number a string gets depends on the order in which
strings were interned.  What is shown of a result does not depend on it: with texts
that follow a renumbering, every type, every diagnostic and every report read the same.

The texts matter for the names in a result only.  That these come from the graph and
from the scope needs no second look at the rules: an injective renaming that keeps the
names of the graph and the scope, and moves all others, keeps the result as well.
-/

namespace ExprTyping

/-! ## The names that occur -/

namespace Ty

mutual

/-- The names of structs in a type. -/
def names : Ty → List Name
  | .int | .bool | .void | .unknown => []
  | .list element => element.names
  | .struct name => [name]
  | .func params result => namesAll params ++ result.names

/-- The names of structs in a list of types. -/
def namesAll : List Ty → List Name
  | [] => []
  | t :: ts => t.names ++ namesAll ts

end

theorem namesAll_eq_flatMap (ts : List Ty) : namesAll ts = ts.flatMap names := by
  induction ts with
  | nil => rfl
  | cons t ts ih => rw [namesAll, ih, List.flatMap_cons]

@[simp]
theorem names_func (params : List Ty) (result : Ty) :
    (Ty.func params result).names = params.flatMap names ++ result.names := by
  rw [names, namesAll_eq_flatMap]

end Ty

/-- The identifier or member of a shape. -/
def Shape.names : Shape → List Name
  | .ident name => [name]
  | .field _ member => [member]
  | _ => []

/-- The identifiers and members of a graph. -/
def Graph.names (g : Graph) : List Name :=
  g.nodes.toList.flatMap fun n => n.shape.names

/-- Names with types, and the names in these types. -/
def entryNames (entries : List (Name × Ty)) : List Name :=
  entries.flatMap fun entry => entry.1 :: entry.2.names

/-- The names of the structs, members and variables of a frame and in their types. -/
def Frame.names (frame : Frame) : List Name :=
  frame.structs.flatMap (fun decl => decl.name :: entryNames decl.fields) ++
    entryNames frame.vars

/-- The names of the structs, members and variables of a scope and in their types. -/
def Scope.names (scope : Scope) : List Name :=
  scope.frames.flatMap Frame.names

/-- The names in a cause. -/
def Cause.names : Cause → List Name
  | .unknownMember struct member => [struct, member]
  | .unknownIdentifier name => [name]
  | .argumentMismatch expected found => expected.flatMap Ty.names ++ found.flatMap Ty.names
  | _ => []

/-! ## What a renaming keeps -/

section Keeps

variable {s : Name → Name}

theorem map_eq_self_iff {α : Type} {f : α → α} {as : List α} :
    as.map f = as ↔ ∀ a ∈ as, f a = a := by
  simpa using List.map_inj_left (l := as) (f := f) (g := id)

/-- A type is kept by a renaming exactly if its names are. -/
theorem Ty.rename_eq_self_iff {t : Ty} :
    t.rename s = t ↔ ∀ name ∈ t.names, s name = name := by
  induction t using Ty.induction with
  | list element ih => rw [rename, list.injEq, ih, names]
  | struct name => simp [rename, names]
  | func params result hparams hresult =>
      rw [rename_func, func.injEq, hresult, map_eq_self_iff, names_func, List.forall_mem_append,
        List.forall_mem_flatMap]
      exact and_congr_left' (forall₂_congr hparams)
  | _ => simp [rename, names]

theorem Cause.kept_names {cause : Cause} (h : cause.rename s = cause) :
    ∀ name ∈ cause.names, s name = name := by
  cases cause with
  | argumentMismatch expected found =>
      rw [rename, argumentMismatch.injEq, map_eq_self_iff, map_eq_self_iff] at h
      rw [names, List.forall_mem_append, List.forall_mem_flatMap, List.forall_mem_flatMap]
      exact ⟨fun t ht => Ty.rename_eq_self_iff.1 (h.1 t ht),
        fun t ht => Ty.rename_eq_self_iff.1 (h.2 t ht)⟩
  | unknownMember struct member => simpa [rename, names] using h
  | unknownIdentifier name => simpa [rename, names] using h
  | _ => simp [names]

theorem entries_rename_eq_self
    {entries : List (Name × Ty)} (h : ∀ name ∈ entryNames entries, s name = name) :
    entries.map (fun entry => (s entry.1, entry.2.rename s)) = entries := by
  rw [entryNames, List.forall_mem_flatMap] at h
  rw [map_eq_self_iff]
  intro entry hentry
  obtain ⟨hname, hty⟩ := List.forall_mem_cons.1 (h entry hentry)
  rw [hname, Ty.rename_eq_self_iff.2 hty]

theorem Frame.rename_eq_self
    {frame : Frame} (h : ∀ name ∈ frame.names, s name = name) : frame.rename s = frame := by
  rw [names, List.forall_mem_append, List.forall_mem_flatMap] at h
  obtain ⟨hstructs, hvars⟩ := h
  have hdecls : frame.structs.map (StructDecl.rename s) = frame.structs := by
    rw [map_eq_self_iff]
    intro decl hdecl
    obtain ⟨hname, hfields⟩ := List.forall_mem_cons.1 (hstructs decl hdecl)
    rw [StructDecl.rename, hname, entries_rename_eq_self hfields]
  rw [rename, hdecls, entries_rename_eq_self hvars]

theorem Scope.rename_eq_self
    {scope : Scope} (h : ∀ name ∈ scope.names, s name = name) : scope.rename s = scope := by
  rw [names, List.forall_mem_flatMap, frames, List.forall_mem_cons] at h
  obtain ⟨hframe, houter⟩ := h
  rw [rename, Frame.rename_eq_self hframe,
    map_eq_self_iff.2 fun frame hmem => Frame.rename_eq_self (houter frame hmem)]

theorem Shape.rename_eq_self
    {shape : Shape} (h : ∀ name ∈ shape.names, s name = name) : shape.rename s = shape := by
  cases shape with
  | ident name => rw [rename, h name (List.mem_singleton_self name)]
  | field owner member => rw [rename, h member (List.mem_singleton_self member)]
  | _ => rfl

theorem Graph.rename_eq_self
    {g : Graph} (h : ∀ name ∈ g.names, s name = name) : g.rename s = g := by
  rw [names, List.forall_mem_flatMap] at h
  have hnodes : g.nodes.map (Node.rename s) = g.nodes := by
    rw [← Array.toList_inj, Array.toList_map, map_eq_self_iff]
    intro n hn
    rw [Node.rename, Shape.rename_eq_self (h n hn)]
  rw [rename, hnodes]

end Keeps

/-! ## The names of a result -/

/-- Keeps the names of a list and moves all others beyond it. -/
def moveOthers (kept : List Name) (name : Name) : Name :=
  if name ∈ kept then name else ⟨name.id + (kept.map Name.id).sum + 1⟩

theorem moveOthers_eq_self_iff {kept : List Name} {name : Name} :
    moveOthers kept name = name ↔ name ∈ kept := by
  unfold moveOthers
  constructor
  · intro h
    by_contra hname
    rw [if_neg hname] at h
    have hid := congrArg Name.id h
    simp only at hid
    omega
  · intro hname
    rw [if_pos hname]

theorem moveOthers_injective (kept : List Name) : Function.Injective (moveOthers kept) := by
  have hbound : ∀ name ∈ kept, name.id ≤ (kept.map Name.id).sum :=
    fun name hname => List.le_sum_of_mem (List.mem_map_of_mem hname)
  intro a b hab
  apply Name.ext_id
  have hid := congrArg Name.id hab
  unfold moveOthers at hid
  split at hid <;> split at hid
  · exact hid
  · have := hbound a ‹_›
    simp only at hid
    omega
  · have := hbound b ‹_›
    simp only at hid
    omega
  · simp only at hid
    omega

section Names

variable {g : Graph} {scope : Scope} {root : NodeId} {result : Checked}

/-- Moving the names that neither the graph nor the scope has does not change a result. -/
theorem rename_result_eq_self (h : check g scope root = .ok result) :
    result.rename (moveOthers (g.names ++ scope.names)) = result := by
  have hkept : ∀ name ∈ g.names ++ scope.names,
      moveOthers (g.names ++ scope.names) name = name :=
    fun _ hname => moveOthers_eq_self_iff.2 hname
  obtain ⟨hgraph, hscope⟩ := List.forall_mem_append.1 hkept
  have hrename := check_rename (moveOthers_injective (g.names ++ scope.names)) g scope root
  rw [Graph.rename_eq_self hgraph, Scope.rename_eq_self hscope, h] at hrename
  exact (Except.ok.inj hrename).symm

/-- The names in the type of a result come from the graph and the scope. -/
theorem names_ty (h : check g scope root = .ok result) :
    ∀ name ∈ result.ty.names, name ∈ g.names ++ scope.names := by
  have hty := congrArg Checked.ty (rename_result_eq_self h)
  intro name hname
  exact moveOthers_eq_self_iff.1 (Ty.rename_eq_self_iff.1 hty name hname)

/-- The names in the type table of a result come from the graph and the scope. -/
theorem names_typeOf
    (h : check g scope root = .ok result) {id : NodeId} {ty : Ty}
    (hty : result.typeOf id = some ty) :
    ∀ name ∈ ty.names, name ∈ g.names ++ scope.names := by
  have htable := result.typeOf_rename (moveOthers (g.names ++ scope.names)) id
  rw [rename_result_eq_self h, hty, Option.map_some, Option.some.injEq] at htable
  intro name hname
  exact moveOthers_eq_self_iff.1 (Ty.rename_eq_self_iff.1 htable.symm name hname)

/-- The names in the errors of a result come from the graph and the scope. -/
theorem names_errors
    (h : check g scope root = .ok result) {e : TypeError} (he : e ∈ result.errors) :
    ∀ name ∈ e.cause.names, name ∈ g.names ++ scope.names := by
  have herrors := congrArg Checked.errors (rename_result_eq_self h)
  have hcause := congrArg TypeError.cause (map_eq_self_iff.1 herrors e he)
  intro name hname
  exact moveOthers_eq_self_iff.1 (Cause.kept_names hcause name hname)

end Names

/-! ## Texts -/

section Texts

variable {r : Name → Name} {text text' : Name → String}

theorem Ty.renderAll_rename
    {ts : List Ty} (h : ∀ t ∈ ts, (t.rename r).render text' = t.render text) :
    renderAll text' (ts.map (rename r)) = renderAll text ts := by
  induction ts with
  | nil => rfl
  | cons t ts ih =>
      have hfirst := h t List.mem_cons_self
      have hrest := ih fun u hu => h u (List.mem_cons_of_mem _ hu)
      cases ts with
      | nil => exact hfirst
      | cons u ts =>
          rw [List.map_cons, List.map_cons, renderAll, renderAll, hfirst, ← hrest, List.map_cons]

/-- A renamed type reads the same if the texts follow the renaming. -/
theorem Ty.render_rename
    {t : Ty} (h : ∀ name ∈ t.names, text' (r name) = text name) :
    (t.rename r).render text' = t.render text := by
  induction t using Ty.induction with
  | list element ih => rw [rename, render, render, ih h]
  | struct name => rw [rename, render, render, h name (List.mem_singleton_self name)]
  | func params result hparams hresult =>
      rw [names_func] at h
      have hresult := hresult fun name hname => h name (List.mem_append_right _ hname)
      have hall : renderAll text' (params.map (rename r)) = renderAll text params := by
        apply renderAll_rename
        intro param hparam
        apply hparams param hparam
        intro name hname
        exact h name (List.mem_append_left _ (List.mem_flatMap.2 ⟨param, hparam, hname⟩))
      cases params with
      | nil => rw [rename_func, List.map_nil, render, render, hresult]
      | cons param params =>
          rw [List.map_cons] at hall
          rw [rename_func, List.map_cons, render, render, hall, hresult]
  | _ => rfl

namespace Cause

variable {cause : Cause}

theorem code_rename (cause : Cause) : (cause.rename r).code = cause.code := by
  cases cause <;> rfl

theorem message_rename (h : ∀ name ∈ cause.names, text' (r name) = text name) :
    (cause.rename r).message text' = cause.message text := by
  cases cause with
  | unknownMember struct member =>
      unfold rename message
      dsimp only
      rw [h struct (by simp [names]), h member (by simp [names])]
  | unknownIdentifier name =>
      unfold rename message
      dsimp only
      rw [h name (by simp [names])]
  | _ => rfl

theorem label_rename (h : ∀ name ∈ cause.names, text' (r name) = text name) :
    (cause.rename r).label text' = cause.label text := by
  cases cause with
  | unknownMember struct member =>
      unfold rename label
      dsimp only
      rw [h member (by simp [names])]
  | _ => rfl

theorem notes_rename (h : ∀ name ∈ cause.names, text' (r name) = text name) :
    (cause.rename r).notes text' = cause.notes text := by
  cases cause with
  | argumentMismatch expected found =>
      have hexpected : Ty.renderAll text' (expected.map (Ty.rename r)) =
          Ty.renderAll text expected := by
        refine Ty.renderAll_rename fun t ht => Ty.render_rename fun name hname => ?_
        exact h name (List.mem_append_left _ (List.mem_flatMap.2 ⟨t, ht, hname⟩))
      have hfound : Ty.renderAll text' (found.map (Ty.rename r)) = Ty.renderAll text found := by
        refine Ty.renderAll_rename fun t ht => Ty.render_rename fun name hname => ?_
        exact h name (List.mem_append_right _ (List.mem_flatMap.2 ⟨t, ht, hname⟩))
      unfold rename notes
      dsimp only
      rw [hexpected, hfound]
  | _ => rfl

end Cause

theorem TypeError.code_rename (e : TypeError) : (e.rename r).code = e.code :=
  e.cause.code_rename

/-- A renamed error gives the same diagnostic if the texts follow the renaming. -/
theorem TypeError.diagnostic_rename
    {e : TypeError} (h : ∀ name ∈ e.cause.names, text' (r name) = text name) :
    (e.rename r).diagnostic text' = e.diagnostic text := by
  rw [diagnostic, diagnostic, code_rename, rename, Cause.message_rename h, Cause.label_rename h,
    Cause.notes_rename h]

theorem Report.gather_rename
    {errors : List TypeError}
    (h : ∀ e ∈ errors, (e.rename r).diagnostic text' = e.diagnostic text)
    (source : String) (config : QueueConfig) :
    gather text' source config (errors.map (TypeError.rename r)) =
      gather text source config errors := by
  rw [gather, gather, List.foldl_map]
  apply List.foldl_ext
  intro progress e he
  rw [offer, offer, h e he, e.code_rename]
  rfl

/-- The report on renamed results is the same if the diagnostics are. -/
theorem Report.collect_rename
    (results : List Checked)
    (h : ∀ e ∈ results.flatMap Checked.errors,
      (e.rename r).diagnostic text' = e.diagnostic text)
    (source : String) (config : QueueConfig) :
    collect (results.map (Checked.rename r)) text' source config =
      collect results text source config := by
  have herrors : (results.map (Checked.rename r)).flatMap Checked.errors =
      (results.flatMap Checked.errors).map (TypeError.rename r) := by
    rw [List.flatMap_map, List.map_flatMap]
    rfl
  rw [collect, collect, collectLogged, collectLogged, herrors, gather_rename h]

end Texts

/-- The numbers of names cannot be seen in what is shown.

If all names of a graph and of a scope are renumbered injectively, the check fails
exactly as before or gives the renumbered result: types, table and errors, which stay
at their nodes and spans.  If moreover two interners give corresponding names the same
text, every type and every diagnostic of the two results reads the same, and so do the
reports on them. -/
theorem check_independent_of_numbering
    (r : Name → Name) (hr : Function.Injective r)
    (g : Graph) (scope : Scope) (root : NodeId) :
    check (g.rename r) (scope.rename r) root = (check g scope root).map (Checked.rename r) ∧
      ∀ table table' : Interner,
        (∀ name ∈ g.names ++ scope.names, table'.text (r name) = table.text name) →
        ∀ result, check g scope root = .ok result →
          ∃ result', check (g.rename r) (scope.rename r) root = .ok result' ∧
            result'.ty.render table'.text = result.ty.render table.text ∧
            (∀ id, (result'.typeOf id).map (Ty.render table'.text) =
              (result.typeOf id).map (Ty.render table.text)) ∧
            result'.errors.map (TypeError.diagnostic table'.text) =
              result.errors.map (TypeError.diagnostic table.text) ∧
            ∀ source config, Report.collect [result'] table'.text source config =
              Report.collect [result] table.text source config := by
  refine ⟨check_rename hr g scope root, ?_⟩
  intro table table' htext result hresult
  have hdiagnostic : ∀ e ∈ result.errors,
      (e.rename r).diagnostic table'.text = e.diagnostic table.text :=
    fun e he => TypeError.diagnostic_rename fun name hname =>
      htext name (names_errors hresult he name hname)
  refine ⟨result.rename r, ?_, ?_, ?_, ?_, ?_⟩
  · rw [check_rename hr, hresult]
    rfl
  · exact Ty.render_rename fun name hname => htext name (names_ty hresult name hname)
  · intro id
    rw [Checked.typeOf_rename]
    cases hty : result.typeOf id with
    | none => rfl
    | some ty =>
        apply congrArg some
        exact Ty.render_rename fun name hname => htext name (names_typeOf hresult hty name hname)
  · rw [Checked.rename, List.map_map]
    exact List.map_congr_left hdiagnostic
  · intro source config
    apply Report.collect_rename [result]
    rw [List.flatMap_singleton]
    exact hdiagnostic

/-- A struct `1` with the member `3`, and a variable `2` of it. -/
def structScope : Scope where
  frame := { structs := [⟨⟨1⟩, [(⟨3⟩, .int)]⟩], vars := [(⟨2⟩, .struct ⟨1⟩)] }
  outer := []

/-- The member `4` of the variable `2`, which its struct does not have. -/
def missingMember : Graph where
  nodes := #[⟨.ident ⟨2⟩, ⟨0, 1⟩⟩, ⟨.field ⟨0⟩ ⟨4⟩, ⟨0, 3⟩⟩]
  args := #[]

/-- The numbers from one to four in reverse order. -/
def reversed (name : Name) : Name :=
  if 1 ≤ name.id ∧ name.id ≤ 4 then ⟨5 - name.id⟩ else name

theorem reversed_injective : Function.Injective reversed := by
  rintro ⟨a⟩ ⟨b⟩ hab
  simp only [reversed] at hab
  split at hab <;> split at hab <;> simp only [Name.mk.injEq] at hab ⊢ <;> omega

/-- The interner of the strings, in this order. -/
def internerOf (strings : List String) : Interner :=
  strings.foldl Interner.push Interner.empty

theorem missingMember_shown_alike :
    Function.Injective reversed ∧
      (∀ name ∈ missingMember.names ++ structScope.names,
        (internerOf ["y", "x", "p", "point"]).text (reversed name) =
          (internerOf ["point", "p", "x", "y"]).text name) ∧
      ∃ result result', check missingMember structScope ⟨1⟩ = .ok result ∧
        check (missingMember.rename reversed) (structScope.rename reversed) ⟨1⟩ = .ok result' ∧
        result.errors = [⟨⟨1⟩, ⟨0, 3⟩, .unknownMember ⟨1⟩ ⟨4⟩⟩] ∧
        result'.errors = [⟨⟨1⟩, ⟨0, 3⟩, .unknownMember ⟨4⟩ ⟨1⟩⟩] ∧
        result'.errors.map (TypeError.diagnostic (internerOf ["y", "x", "p", "point"]).text) =
          result.errors.map (TypeError.diagnostic (internerOf ["point", "p", "x", "y"]).text) := by
  have htext : ∀ name ∈ missingMember.names ++ structScope.names,
      (internerOf ["y", "x", "p", "point"]).text (reversed name) =
        (internerOf ["point", "p", "x", "y"]).text name := by
    decide +kernel
  have heval : (check missingMember structScope ⟨1⟩).map Checked.errors =
      .ok [⟨⟨1⟩, ⟨0, 3⟩, .unknownMember ⟨1⟩ ⟨4⟩⟩] := by
    decide +kernel
  obtain ⟨hrename, hshown⟩ :=
    check_independent_of_numbering reversed reversed_injective missingMember structScope ⟨1⟩
  obtain ⟨result, hresult, herrors⟩ : ∃ result, check missingMember structScope ⟨1⟩ = .ok result ∧
      result.errors = [⟨⟨1⟩, ⟨0, 3⟩, .unknownMember ⟨1⟩ ⟨4⟩⟩] := by
    cases hcheck : check missingMember structScope ⟨1⟩ with
    | error fault => simp [hcheck, Except.map] at heval
    | ok result =>
        rw [hcheck] at heval
        exact ⟨result, rfl, Except.ok.inj heval⟩
  obtain ⟨result', hresult', -, -, hdiagnostics, -⟩ := hshown _ _ htext result hresult
  have hrenamed : result' = result.rename reversed := by
    rw [hresult', hresult] at hrename
    exact Except.ok.inj hrename
  refine ⟨reversed_injective, htext, result, result', hresult, hresult', herrors, ?_, hdiagnostics⟩
  rw [hrenamed, Checked.rename, herrors]
  rfl

end ExprTyping
