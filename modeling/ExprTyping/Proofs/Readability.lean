import ExprTyping.Proofs.Interning
import ExprTyping.Proofs.Numbering

/-!
# Reading written types

A written type can be read back, with one exception: a function without parameters is written
like a function with the single parameter `void`.

Types are written inside of each other, so it is not enough to compare whole texts.  Wherever
a type is written, the text either ends after it or goes on with one of the `delimiters`.  The
first character of a written type tells its kind, and its parts can be read one after the
other, each up to the delimiter behind it.  So two texts that begin with written types can
agree only if the types do, and then they agree behind the types as well.
-/

namespace ExprTyping

namespace Text

/-- The text is empty or begins with one of the marks. -/
def StopsAt (marks cs : List Char) : Prop :=
  ∀ c ∈ cs.head?, c ∈ marks

theorem stopsAt_nil (marks : List Char) : StopsAt marks [] :=
  nofun

theorem stopsAt_cons {marks cs : List Char} {c : Char} (h : c ∈ marks) : StopsAt marks (c :: cs) := by
  intro d hd
  rwa [← Option.some.inj hd]

theorem takeWhile_append_of_stopsAt {marks xs ys : List Char}
    (hx : ∀ c ∈ xs, c ∉ marks) (hy : StopsAt marks ys) :
    (xs ++ ys).takeWhile (· ∉ marks) = xs := by
  have hstop : ys.takeWhile (· ∉ marks) = [] := by
    cases ys with
    | nil => rfl
    | cons c ys => simp [hy c rfl]
  rw [List.takeWhile_append_of_pos (by simpa using hx), hstop, List.append_nil]

/-- A text without marks is read up to the first mark. -/
theorem append_inj_of_stopsAt {marks xs ys xs' ys' : List Char}
    (hx : ∀ c ∈ xs, c ∉ marks) (hx' : ∀ c ∈ xs', c ∉ marks)
    (hy : StopsAt marks ys) (hy' : StopsAt marks ys') (h : xs ++ ys = xs' ++ ys') :
    xs = xs' ∧ ys = ys' := by
  have hfirst : xs = xs' := by
    rw [← takeWhile_append_of_stopsAt hx hy, h, takeWhile_append_of_stopsAt hx' hy']
  subst hfirst
  exact ⟨rfl, List.append_cancel_left h⟩

end Text

open Text

namespace Ty

/-- The characters that can follow a written type. -/
def delimiters : List Char :=
  [' ', ',', ')', '>']

/-! ## Functions without parameters -/

/-- The parameters of a function as they are written: `void` where there are none. -/
def orVoid : List Ty → List Ty
  | [] => [.void]
  | param :: params => param :: params

mutual

/-- The type in which every function without parameters has the parameter `void`. -/
def explicitVoid : Ty → Ty
  | .int => .int
  | .bool => .bool
  | .void => .void
  | .list element => .list element.explicitVoid
  | .struct name => .struct name
  | .func params result => .func (orVoid (explicitVoidAll params)) result.explicitVoid
  | .unknown => .unknown

/-- The types in which every function without parameters has the parameter `void`. -/
def explicitVoidAll : List Ty → List Ty
  | [] => []
  | t :: ts => t.explicitVoid :: explicitVoidAll ts

end

theorem explicitVoidAll_eq_map (ts : List Ty) : explicitVoidAll ts = ts.map explicitVoid := by
  induction ts with
  | nil => rfl
  | cons t ts ih => rw [explicitVoidAll, ih, List.map_cons]

theorem explicitVoid_func (params : List Ty) (result : Ty) :
    (Ty.func params result).explicitVoid =
      .func ((orVoid params).map explicitVoid) result.explicitVoid := by
  rw [explicitVoid, explicitVoidAll_eq_map]
  cases params with
  | nil => rfl
  | cons param params => rfl

theorem exists_orVoid_eq_cons (params : List Ty) : ∃ first rest, orVoid params = first :: rest := by
  cases params with
  | nil => exact ⟨.void, [], rfl⟩
  | cons param params => exact ⟨param, params, rfl⟩

/-- What holds of `void` and of all parameters holds of the parameters as they are written. -/
theorem forall_mem_orVoid {motive : Ty → Prop} {params : List Ty} (hvoid : motive .void)
    (hparams : ∀ param ∈ params, motive param) : ∀ param ∈ orVoid params, motive param := by
  cases params with
  | nil => simpa [orVoid] using hvoid
  | cons param params => exact hparams

/-! ## Written parts -/

section Written

variable (text : Name → String)

theorem renderAll_eq_intercalate (ts : List Ty) :
    renderAll text ts = ", ".intercalate (ts.map (render text)) := by
  induction ts with
  | nil => rfl
  | cons t ts ih =>
      cases ts with
      | nil => exact String.intercalate_singleton.symm
      | cons u ts =>
          rw [renderAll, ih]
          exact String.intercalate_cons_cons.symm

theorem render_func (params : List Ty) (result : Ty) :
    (Ty.func params result).render text =
      "fptr<" ++ renderAll text (orVoid params) ++ " -> " ++ result.render text ++ ">" := by
  cases params with
  | nil =>
      have hvoid : "fptr<void -> " = "fptr<" ++ "void" ++ " -> " := by decide
      rw [render, hvoid]
      rfl
  | cons param params => rw [render, orVoid]

/-- A type is written like the one with the missing parameters put in. -/
theorem render_explicitVoid (t : Ty) : t.explicitVoid.render text = t.render text := by
  induction t using Ty.induction with
  | list element ih => rw [explicitVoid, render, render, ih]
  | func params result hparams hresult =>
      have hall : (orVoid params).map (render text ∘ explicitVoid) =
          (orVoid params).map (render text) :=
        List.map_congr_left (forall_mem_orVoid
          (motive := fun t => (render text ∘ explicitVoid) t = render text t) rfl hparams)
      obtain ⟨first, rest, hcons⟩ := exists_orVoid_eq_cons params
      rw [explicitVoid_func, render_func, render_func, hresult, renderAll_eq_intercalate,
        renderAll_eq_intercalate, ← hall, ← List.map_map, hcons]
      rfl
  | _ => rfl

/-- The parameters behind the first one, as they are written. -/
def renderRest (ts : List Ty) : List Char :=
  ts.flatMap fun t => ',' :: ' ' :: (t.render text).toList

theorem toList_renderAll_cons (t : Ty) (ts : List Ty) :
    (renderAll text (t :: ts)).toList = (t.render text).toList ++ renderRest text ts := by
  induction ts generalizing t with
  | nil => simp [renderAll, renderRest]
  | cons u ts ih => simp [renderAll, renderRest, ih]

theorem toList_render_list (element : Ty) :
    ((Ty.list element).render text).toList =
      "list(".toList ++ ((element.render text).toList ++ [')']) := by
  simp [render]

theorem toList_render_func {params : List Ty} {first : Ty} {rest : List Ty}
    (h : orVoid params = first :: rest) (result : Ty) :
    ((Ty.func params result).render text).toList =
      "fptr<".toList ++ ((first.render text).toList ++ (renderRest text rest ++
        ' ' :: ("-> ".toList ++ ((result.render text).toList ++ ['>'])))) := by
  rw [render_func, h]
  simp [toList_renderAll_cons]

/-- The first character of a written type. -/
def lead : Ty → Char
  | .int => 'i'
  | .bool => 'b'
  | .void => 'v'
  | .list _ => 'l'
  | .struct _ => 's'
  | .func _ _ => 'f'
  | .unknown => '<'

theorem head?_render (t : Ty) : (t.render text).toList.head? = some t.lead := by
  cases t with
  | func params result => simp [render_func, lead]
  | _ => simp [render, lead]

end Written

/-! ## Unique reading -/

/-- All names in the type are in use, and none has a delimiter in its text. -/
def LegibleIn (table : Interner) (t : Ty) : Prop :=
  ∀ name ∈ t.names, name.id < table.size ∧ ∀ c ∈ (table.text name).toList, c ∉ delimiters

instance (table : Interner) (t : Ty) : Decidable (t.LegibleIn table) :=
  -- There are finitely many characters, but only those of the text should be tried.
  have (name : Name) : Decidable (∀ c ∈ (table.text name).toList, c ∉ delimiters) :=
    List.decidableBAll _ _
  inferInstanceAs (Decidable (∀ name ∈ t.names,
    name.id < table.size ∧ ∀ c ∈ (table.text name).toList, c ∉ delimiters))

/-- A text that begins with the written type, up to a delimiter, begins with no other written
type, and it is known where the type ends. -/
def UniquelyRead (table : Interner) (t : Ty) : Prop :=
  ∀ (u : Ty) (xs ys : List Char), u.LegibleIn table → StopsAt delimiters xs → StopsAt delimiters ys →
    (t.render table.text).toList ++ xs = (u.render table.text).toList ++ ys →
    t.explicitVoid = u.explicitVoid ∧ xs = ys

section Reading

variable {table : Interner} {t u : Ty} {xs ys : List Char}

theorem lead_eq
    (h : (t.render table.text).toList ++ xs = (u.render table.text).toList ++ ys) :
    t.lead = u.lead := by
  have hhead := congrArg List.head? h
  rw [List.head?_append, List.head?_append, head?_render, head?_render] at hhead
  exact Option.some.inj hhead

theorem LegibleIn.of_func {params : List Ty} {result : Ty}
    (h : (Ty.func params result).LegibleIn table) :
    (∀ param ∈ params, param.LegibleIn table) ∧ result.LegibleIn table := by
  rwa [LegibleIn, names_func, List.forall_mem_append, List.forall_mem_flatMap] at h

/-- A type without parts is known from its first character. -/
theorem uniquelyRead_of_atom (hatom : t ∈ [Ty.int, .bool, .void, .unknown]) :
    t.UniquelyRead table := by
  intro u xs ys _ _ _ h
  have hlead := lead_eq h
  have hsame : u = t := by
    simp only [List.mem_cons, List.not_mem_nil, or_false] at hatom
    revert hlead
    rcases hatom with rfl | rfl | rfl | rfl <;> cases u <;> simp [lead]
  subst hsame
  exact ⟨rfl, List.append_cancel_left h⟩

theorem uniquelyRead_list (ih : t.UniquelyRead table) : (Ty.list t).UniquelyRead table := by
  intro u xs ys hu _ _ h
  have hlead := lead_eq h
  cases u with
  | list element =>
      rw [toList_render_list, toList_render_list] at h
      simp only [List.append_assoc, List.append_cancel_left_eq, List.singleton_append] at h
      obtain ⟨helement, hrest⟩ := ih element _ _ hu (stopsAt_cons (by decide))
        (stopsAt_cons (by decide)) h
      exact ⟨by rw [explicitVoid, explicitVoid, helement], (List.cons.inj hrest).2⟩
  | _ => cases hlead

/-- The name of a struct is read up to the delimiter behind it. -/
theorem uniquelyRead_struct (htable : table.Reachable) {name : Name}
    (hname : (Ty.struct name).LegibleIn table) : (Ty.struct name).UniquelyRead table := by
  intro u xs ys hu hx hy h
  have hlead := lead_eq h
  cases u with
  | struct other =>
      simp only [render, String.toList_append, List.append_assoc, List.append_cancel_left_eq] at h
      obtain ⟨hknown, hplain⟩ := hname name (List.mem_singleton_self name)
      obtain ⟨hknown', hplain'⟩ := hu other (List.mem_singleton_self other)
      obtain ⟨htext, hrest⟩ := append_inj_of_stopsAt hplain hplain' hx hy h
      rw [htable.text_inj hknown hknown' (String.toList_inj.1 htext)]
      exact ⟨rfl, hrest⟩
  | _ => cases hlead

theorem stopsAt_renderRest (text : Name → String) (ts : List Ty) (xs : List Char) :
    StopsAt delimiters (renderRest text ts ++ ' ' :: xs) := by
  cases ts with
  | nil => exact stopsAt_cons (by decide)
  | cons t ts => exact stopsAt_cons (by decide)

/-- Whether another parameter follows is seen from the delimiter, which is a comma or a
space. -/
theorem renderRest_append_inj {ts us : List Ty} (hts : ∀ t ∈ ts, t.UniquelyRead table)
    (hus : ∀ u ∈ us, u.LegibleIn table)
    (h : renderRest table.text ts ++ ' ' :: xs = renderRest table.text us ++ ' ' :: ys) :
    ts.map explicitVoid = us.map explicitVoid ∧ xs = ys := by
  induction ts generalizing us with
  | nil =>
      cases us with
      | nil => exact ⟨rfl, (List.cons.inj h).2⟩
      | cons u us => simp [renderRest] at h
  | cons t ts ih =>
      cases us with
      | nil => simp [renderRest] at h
      | cons u us =>
          obtain ⟨ht, hts⟩ := List.forall_mem_cons.1 hts
          obtain ⟨hu, hus⟩ := List.forall_mem_cons.1 hus
          have hcut : (t.render table.text).toList ++ (renderRest table.text ts ++ ' ' :: xs) =
              (u.render table.text).toList ++ (renderRest table.text us ++ ' ' :: ys) := by
            simpa [renderRest] using h
          obtain ⟨hfirst, hrest⟩ := ht u _ _ hu (stopsAt_renderRest _ ts xs)
            (stopsAt_renderRest _ us ys) hcut
          obtain ⟨hmap, htail⟩ := ih hts hus hrest
          exact ⟨by rw [List.map_cons, List.map_cons, hfirst, hmap], htail⟩

theorem uniquelyRead_func {params : List Ty} {result : Ty}
    (hparams : ∀ param ∈ params, param.UniquelyRead table) (hresult : result.UniquelyRead table) :
    (Ty.func params result).UniquelyRead table := by
  intro u xs ys hu hx hy h
  have hlead := lead_eq h
  cases u with
  | func params' result' =>
      have hwritten := forall_mem_orVoid (uniquelyRead_of_atom (by simp)) hparams
      obtain ⟨hlegible, hlegible'⟩ := hu.of_func
      replace hlegible := forall_mem_orVoid nofun hlegible
      obtain ⟨first, rest, hcons⟩ := exists_orVoid_eq_cons params
      obtain ⟨first', rest', hcons'⟩ := exists_orVoid_eq_cons params'
      rw [toList_render_func _ hcons, toList_render_func _ hcons'] at h
      rw [hcons, List.forall_mem_cons] at hwritten
      rw [hcons', List.forall_mem_cons] at hlegible
      simp only [List.append_assoc, List.cons_append, List.nil_append,
        List.append_cancel_left_eq] at h
      -- First the parameters one by one, then the arrow, then the result.
      obtain ⟨hfirst, h⟩ := hwritten.1 first' _ _ hlegible.1 (stopsAt_renderRest _ _ _)
        (stopsAt_renderRest _ _ _) h
      obtain ⟨hrest, h⟩ := renderRest_append_inj hwritten.2 hlegible.2 h
      obtain ⟨hres, h⟩ := hresult result' _ _ hlegible' (stopsAt_cons (by decide))
        (stopsAt_cons (by decide)) (List.append_cancel_left h)
      refine ⟨?_, (List.cons.inj h).2⟩
      rw [explicitVoid_func, explicitVoid_func, hcons, hcons', List.map_cons, List.map_cons, hfirst,
        hrest, hres]
  | _ => cases hlead

/-- Every type can be read where it is written. -/
theorem LegibleIn.uniquelyRead (htable : table.Reachable) (ht : t.LegibleIn table) :
    t.UniquelyRead table := by
  induction t using Ty.induction with
  | list element ih => exact uniquelyRead_list (ih ht)
  | struct name => exact uniquelyRead_struct htable ht
  | func params result hparams hresult =>
      obtain ⟨hlegible, hlegible'⟩ := ht.of_func
      refine uniquelyRead_func ?_ (hresult hlegible')
      intro param hparam
      exact hparams param hparam (hlegible param hparam)
  | _ => exact uniquelyRead_of_atom (by simp)

end Reading

end Ty

/-- Two types are written alike exactly if they differ at most in whether a function without
parameters is given the parameter `void`.

The names of structs have to be in use and must not contain a space, a comma or a closing
bracket, since nothing else tells where a name ends. -/
theorem render_eq_iff_explicitVoid_eq
    (table : Interner) (htable : table.Reachable) (t u : Ty)
    (ht : t.LegibleIn table) (hu : u.LegibleIn table) :
    t.render table.text = u.render table.text ↔ t.explicitVoid = u.explicitVoid := by
  constructor
  · intro h
    have hread := ht.uniquelyRead htable u [] [] hu (stopsAt_nil _) (stopsAt_nil _)
    rw [List.append_nil, List.append_nil, h] at hread
    exact (hread rfl).1
  · intro h
    rw [← Ty.render_explicitVoid, h, Ty.render_explicitVoid]

theorem missingParameter_written_like_void :
    let table := internerOf ["point"]
    let points := Ty.list (.struct ⟨1⟩)
    table.Reachable ∧ (Ty.func [] points).LegibleIn table ∧
      (Ty.func [.void] points).LegibleIn table ∧ (Ty.func [points] .void).LegibleIn table ∧
      (Ty.func [] points).render table.text = (Ty.func [.void] points).render table.text ∧
      (Ty.func [] points).render table.text ≠ (Ty.func [points] .void).render table.text := by
  intro table points
  have htable : table.Reachable := .push .empty (by simp [Interner.probe_empty]) (by decide)
  have hnone : (Ty.func [] points).LegibleIn table := by decide +kernel
  have hvoid : (Ty.func [.void] points).LegibleIn table := by decide +kernel
  have hother : (Ty.func [points] .void).LegibleIn table := by decide +kernel
  refine ⟨htable, hnone, hvoid, hother, ?_, ?_⟩
  · exact (render_eq_iff_explicitVoid_eq table htable _ _ hnone hvoid).2 rfl
  · rw [Ne, render_eq_iff_explicitVoid_eq table htable _ _ hnone hother]
    decide

end ExprTyping
