import ExprTyping.Proofs.Interning
import Mathlib.Data.List.Dedup

/-!
# Interning at the same time

A call to intern a string holds the table twice: for its reading section and, if that finds
nothing, for its writing section.  Each section is atomic, but any number of sections of
other calls may come between the two of one call, and the string may be stored there.

Every call takes effect in its last section.  A reading section that finds the string
answers as a whole call would at this moment.  So does a writing section, because it looks
again before it stores anything.  A reading section in vain leaves no trace.  Hence all
calls together do what whole calls do one after the other, in the order of their last
sections.
-/

namespace ExprTyping
namespace Interner

/-! ## Whole calls one after the other -/

/-- A whole call: its outcome and the table after it.  A failure leaves the table as it was. -/
def attempt (table : Interner) (s : String) : Except InternError Name × Interner :=
  match table.intern s with
  | .ok (name, after) => (.ok name, after)
  | .error e => (.error e, table)

/-- Whole calls one after the other. -/
def attemptAll (table : Interner) : List String → List (Except InternError Name) × Interner
  | [] => ([], table)
  | s :: strings =>
    let (outcome, next) := table.attempt s
    let (outcomes, last) := next.attemptAll strings
    (outcome :: outcomes, last)

theorem attemptAll_append_singleton (table : Interner) (strings : List String) (s : String) :
    table.attemptAll (strings ++ [s]) =
      ((table.attemptAll strings).1 ++ [((table.attemptAll strings).2.attempt s).1],
        ((table.attemptAll strings).2.attempt s).2) := by
  induction strings generalizing table with
  | nil => rfl
  | cons first strings ih =>
      simp only [List.cons_append, attemptAll, ih]

/-- As long as there are numbers left, every call succeeds, and its name is the number of
its string. -/
theorem Numbers.attemptAll
    {table : Interner} {earlier : List String} (h : table.Numbers earlier) (strings : List String)
    (hroom : (numbering (earlier ++ strings)).length ≤ capacity) :
    ∃ last, last.Numbers (earlier ++ strings) ∧
      table.attemptAll strings =
        (strings.map fun s => .ok ⟨(numbering (earlier ++ strings)).idxOf s⟩, last) := by
  induction strings generalizing table earlier with
  | nil =>
      refine ⟨table, ?_, rfl⟩
      rwa [List.append_nil]
  | cons s strings ih =>
      rw [List.append_cons] at hroom ⊢
      have hfirst : (numbering (earlier ++ [s])).length ≤ capacity :=
        Nat.le_trans (numbering_isPrefix_append _ _).length_le hroom
      obtain ⟨next, hnext, hintern⟩ := h.intern s hfirst
      obtain ⟨last, hlast, hrest⟩ := ih hnext hroom
      have hmem : s ∈ numbering (earlier ++ [s]) := by
        rw [mem_numbering]
        exact Or.inr (by simp)
      refine ⟨last, hlast, ?_⟩
      rw [Interner.attemptAll, attempt, hintern, List.map_cons, idxOf_numbering_append hmem]
      dsimp only
      rw [hrest]

/-! ## Calls that share a table -/

/-- How far a call has come. -/
inductive Phase where
  /-- The call has not looked for its string. -/
  | begun
  /-- The call has looked for its string in vain. -/
  | missed
  | returned (outcome : Except InternError Name)

namespace Phase

/-- The next section of a call for the string `s`, during which no other call uses the
table.  A call that has returned has no further section. -/
def step? (table : Interner) (s : String) : Phase → Option (Phase × Interner)
  | .begun =>
    match table.probe s with
    | some name => some (.returned (.ok name), table)
    | none => some (.missed, table)
  | .missed =>
    match table.commit s with
    | .ok (name, after) => some (.returned (.ok name), after)
    | .error e => some (.returned (.error e), table)
  | .returned _ => none

def outcome? : Phase → Option (Except InternError Name)
  | .returned outcome => some outcome
  | _ => none

/-- A call can go on exactly as long as it has no outcome. -/
theorem isSome_step?_iff (table : Interner) (s : String) (phase : Phase) :
    (phase.step? table s).isSome = true ↔ phase.outcome? = none := by
  rcases phase with _ | _ | outcome
  · rw [step?]
    split
    · simp [outcome?]
    · simp [outcome?]
  · rw [step?]
    split
    · simp [outcome?]
    · simp [outcome?]
  · simp [step?, outcome?]

/-- A section either changes nothing but that the call has looked in vain, or it ends the
call and does what a whole call does. -/
theorem step?_cases
    {table after : Interner} {s : String} {phase next : Phase}
    (h : phase.step? table s = some (next, after)) :
    next = .missed ∧ after = table ∨
      ∃ outcome, next = .returned outcome ∧ table.attempt s = (outcome, after) := by
  rcases phase with _ | _ | outcome
  · rw [step?] at h
    rcases hprobe : table.probe s with _ | name
    · rw [hprobe] at h
      obtain ⟨rfl, rfl⟩ := Prod.mk.inj (Option.some.inj h)
      exact Or.inl ⟨rfl, rfl⟩
    · rw [hprobe] at h
      obtain ⟨rfl, rfl⟩ := Prod.mk.inj (Option.some.inj h)
      refine Or.inr ⟨_, rfl, ?_⟩
      rw [attempt, intern_of_probe_eq_some hprobe]
  · rw [step?] at h
    -- The string may have been stored since the call looked for it, so nothing is known about
    -- the table here; the writing section looks again.
    rcases hcommit : table.commit s with e | ⟨name, changed⟩
    · rw [hcommit] at h
      obtain ⟨rfl, rfl⟩ := Prod.mk.inj (Option.some.inj h)
      refine Or.inr ⟨_, rfl, ?_⟩
      rw [attempt, intern_eq_commit, hcommit]
    · rw [hcommit] at h
      obtain ⟨rfl, rfl⟩ := Prod.mk.inj (Option.some.inj h)
      refine Or.inr ⟨_, rfl, ?_⟩
      rw [attempt, intern_eq_commit, hcommit]
  · exact absurd h nofun

end Phase

/-- A table and the calls that use it, of which there may be any number. -/
structure Shared (ι : Type) where
  table : Interner
  phase : ι → Phase

namespace Shared

variable {ι : Type} [DecidableEq ι]

/-- No call has taken a step. -/
def start (table : Interner) : Shared ι where
  table := table
  phase _ := .begun

/-- The call `i`, which is for the string `string i`, takes its next step. -/
def advance? (string : ι → String) (shared : Shared ι) (i : ι) : Option (Shared ι) :=
  ((shared.phase i).step? shared.table (string i)).map fun (next, table) =>
    { table, phase := Function.update shared.phase i next }

/-- The calls take steps in the order of a schedule, which names a call for each of its
steps. -/
def run? (string : ι → String) (shared : Shared ι) (schedule : List ι) : Option (Shared ι) :=
  schedule.foldlM (advance? string) shared

/-- What a call has returned. -/
def outcome? (shared : Shared ι) (i : ι) : Option (Except InternError Name) :=
  (shared.phase i).outcome?

/-- The calls that have returned, in the order of their last steps: `dedup` keeps the last
occurrence of every call in the schedule. -/
def order (shared : Shared ι) (schedule : List ι) : List ι :=
  schedule.dedup.filter fun i => (shared.outcome? i).isSome

theorem run?_append_singleton
    (string : ι → String) (shared : Shared ι) (schedule : List ι) (i : ι) :
    shared.run? string (schedule ++ [i]) =
      (shared.run? string schedule).bind fun middle => middle.advance? string i := by
  rw [run?, run?, List.foldlM_append]
  simp [List.foldlM_cons]

/-! ## The order of last steps -/

theorem dedup_append_singleton (schedule : List ι) (i : ι) :
    (schedule ++ [i]).dedup = schedule.dedup.filter (· ≠ i) ++ [i] := by
  induction schedule with
  | nil => simp
  | cons first schedule ih =>
      rw [List.cons_append]
      by_cases hlater : first ∈ schedule
      · rw [List.dedup_cons_of_mem (List.mem_append_left _ hlater), List.dedup_cons_of_mem hlater,
          ih]
      · by_cases hself : first = i
        · rw [List.dedup_cons_of_mem (by simp [hself]), List.dedup_cons_of_notMem hlater, ih]
          simp [hself]
        · rw [List.dedup_cons_of_notMem (by simp [hlater, hself]),
            List.dedup_cons_of_notMem hlater, ih]
          simp [hself]

/-- A call that returns in a step is put behind all calls that have returned before.  A step
after which the call has not returned does not count. -/
theorem order_append_singleton
    {shared next : Shared ι} {schedule : List ι} {i : ι} (hi : shared.outcome? i = none)
    (hothers : ∀ j, j ≠ i → next.outcome? j = shared.outcome? j) :
    next.order (schedule ++ [i]) =
      shared.order schedule ++ [i].filter fun j => (next.outcome? j).isSome := by
  rw [order, order, dedup_append_singleton, List.filter_append, List.filter_filter,
    List.append_cancel_right_eq]
  apply List.filter_congr
  intro j _
  by_cases hj : j = i
  · simp [hj, hi]
  · simp [hj, hothers j hj]

/-! ## Every run is a run of whole calls -/

/-- The calls that have returned did what whole calls do in the order of their last steps,
and a call without a step has not begun. -/
structure Linearized (string : ι → String) (table : Interner) (schedule : List ι)
    (shared : Shared ι) : Prop where
  begun : ∀ i, i ∉ schedule → shared.phase i = .begun
  attempts : table.attemptAll ((shared.order schedule).map string) =
    ((shared.order schedule).filterMap shared.outcome?, shared.table)

section Run

variable {string : ι → String} {table : Interner} {schedule : List ι} {shared next : Shared ι}
  {i : ι}

theorem linearized_start (string : ι → String) (table : Interner) :
    Linearized string table [] (start table) where
  begun _ _ := rfl
  attempts := rfl

theorem Linearized.advance (h : Linearized string table schedule shared)
    (hstep : shared.advance? string i = some next) :
    Linearized string table (schedule ++ [i]) next := by
  obtain ⟨⟨phase, after⟩, hphase, rfl⟩ := Option.map_eq_some_iff.1 hstep
  have hpending : shared.outcome? i = none :=
    (Phase.isSome_step?_iff _ _ _).1 (Option.isSome_of_eq_some hphase)
  have hself : outcome? ⟨after, Function.update shared.phase i phase⟩ i = phase.outcome? := by
    simp [outcome?]
  have hothers : ∀ j, j ≠ i →
      outcome? ⟨after, Function.update shared.phase i phase⟩ j = shared.outcome? j := by
    intro j hj
    simp [outcome?, hj]
  have hreturned : ∀ j ∈ shared.order schedule,
      outcome? ⟨after, Function.update shared.phase i phase⟩ j = shared.outcome? j := by
    intro j hj
    apply hothers
    rintro rfl
    have hsome := (List.mem_filter.1 hj).2
    rw [hpending] at hsome
    exact absurd hsome nofun
  constructor
  · intro j hj
    rw [List.mem_append, List.mem_singleton, not_or] at hj
    obtain ⟨hbefore, hne⟩ := hj
    change Function.update shared.phase i phase j = .begun
    rw [Function.update_of_ne hne]
    exact h.begun j hbefore
  · rw [order_append_singleton hpending hothers]
    rcases Phase.step?_cases hphase with ⟨rfl, rfl⟩ | ⟨outcome, rfl, hattempt⟩
    · -- The call has not taken effect, and will be ordered by a later step.
      have hmissed : Phase.outcome? .missed = none := rfl
      rw [List.filter_cons_of_neg (by simp [hself, hmissed]), List.filter_nil, List.append_nil,
        h.attempts, List.filterMap_congr hreturned]
    · have hlast : Phase.outcome? (.returned outcome) = some outcome := rfl
      rw [hlast] at hself
      rw [List.filter_cons_of_pos (by simp [hself]), List.filter_nil, List.map_append,
        List.map_singleton, attemptAll_append_singleton, h.attempts, hattempt,
        List.filterMap_append, List.filterMap_congr hreturned, List.filterMap_cons_some hself,
        List.filterMap_nil]

theorem linearized_run (hrun : (start table).run? string schedule = some shared) :
    Linearized string table schedule shared := by
  induction schedule using List.reverseRecOn generalizing shared with
  | nil =>
      obtain rfl := Option.some.inj hrun
      exact linearized_start string table
  | append_singleton schedule i ih =>
      rw [run?_append_singleton] at hrun
      obtain ⟨middle, hmiddle, hstep⟩ := Option.bind_eq_some_iff.1 hrun
      exact (ih hmiddle).advance hstep

theorem Linearized.mem_order_iff (h : Linearized string table schedule shared) :
    i ∈ shared.order schedule ↔ (shared.outcome? i).isSome = true := by
  rw [order, List.mem_filter, List.mem_dedup]
  constructor
  · exact And.right
  · intro hreturned
    refine ⟨?_, hreturned⟩
    by_contra hi
    rw [outcome?, h.begun i hi] at hreturned
    exact absurd hreturned nofun

end Run

end Shared

theorem length_numbering_le_capacity
    {strings all : List String} (hsubset : strings ⊆ all)
    (hfew : all.toFinset.card < capacity) :
    (numbering strings).length ≤ capacity := by
  have hnonempty : (strings.filter (· ≠ "")).toFinset ⊆ all.toFinset := by
    intro s hs
    rw [List.mem_toFinset] at hs ⊢
    exact hsubset (List.mem_of_mem_filter hs)
  have hcard := Finset.card_le_card hnonempty
  rw [length_numbering]
  omega

end Interner

open Interner in
/-- Interning at the same time is linearizable.

Let any number of calls share a table, which numbers the strings interned `earlier`, and let
their sections be interleaved in any way; some calls may still be under way at the end.  The
table and the outcomes of all calls that have returned are those of whole calls one after
the other in the order of their last sections.  As long as fewer than `capacity` distinct
strings are interned, every call that returns has a name.  No string is stored twice, two
names are equal exactly if their strings are, what was stored before stays in place, and the
string of every call that has returned is found under its name.  No call is ever stuck. -/
theorem interning_linearizable
    {ι : Type} [DecidableEq ι] (string : ι → String) (table : Interner) (earlier : List String)
    (schedule : List ι) (final : Shared ι)
    (htable : table.Numbers earlier)
    (hfew : (earlier ++ schedule.map string).toFinset.card < capacity)
    (hrun : (Shared.start table).run? string schedule = some final) :
    (final.order schedule).Nodup ∧
      (∀ i, i ∈ final.order schedule ↔ (final.outcome? i).isSome = true) ∧
      table.attemptAll ((final.order schedule).map string) =
        ((final.order schedule).filterMap final.outcome?, final.table) ∧
      (∀ i, (final.advance? string i).isSome = true ↔ final.outcome? i = none) ∧
      final.table.texts.toList.Nodup ∧
      table.texts.toList <+: final.table.texts.toList ∧
      ∀ i outcome, final.outcome? i = some outcome → ∃ name, outcome = .ok name ∧
        final.table.probe (string i) = some name ∧ final.table.text name = string i ∧
        ∀ j, final.outcome? j = some (.ok name) ↔
          (final.outcome? j).isSome = true ∧ string j = string i := by
  have hlinearized := Shared.linearized_run hrun
  have hsubset : (earlier ++ (final.order schedule).map string) ⊆
      earlier ++ schedule.map string := by
    apply List.append_subset.2
    refine ⟨List.subset_append_left _ _, ?_⟩
    apply List.Subset.trans _ (List.subset_append_right _ _)
    apply List.map_subset
    intro i hi
    exact List.mem_dedup.1 (List.mem_of_mem_filter hi)
  obtain ⟨last, hnumbers, hattempts⟩ :=
    htable.attemptAll _ (length_numbering_le_capacity hsubset hfew)
  rw [hlinearized.attempts] at hattempts
  obtain ⟨houtcomes, rfl⟩ := Prod.mk.inj hattempts
  rw [List.map_map, List.filterMap_eq_map_iff_forall_eq_some] at houtcomes
  have hstored : ∀ i, (final.outcome? i).isSome = true →
      string i ∈ numbering (earlier ++ (final.order schedule).map string) := by
    intro i hi
    have hmem : string i ∈ (final.order schedule).map string :=
      List.mem_map_of_mem (hlinearized.mem_order_iff.2 hi)
    exact mem_numbering.2 (Or.inr (List.mem_append_right _ hmem))
  refine ⟨(List.nodup_dedup schedule).filter _, fun i => hlinearized.mem_order_iff,
    hlinearized.attempts, ?_, ?_, ?_, ?_⟩
  · intro i
    rw [Shared.advance?, Option.isSome_map]
    exact Phase.isSome_step?_iff _ _ _
  · rw [hnumbers.texts_eq]
    exact nodup_numbering _
  · rw [htable.texts_eq, hnumbers.texts_eq]
    exact numbering_isPrefix_append _ _
  · intro i outcome hi
    have hreturned : (final.outcome? i).isSome = true := Option.isSome_of_eq_some hi
    have hmem := hstored i hreturned
    have hname := houtcomes i (hlinearized.mem_order_iff.2 hreturned)
    rw [hi] at hname
    refine ⟨_, Option.some.inj hname, hnumbers.probe_of_mem hmem, ?_, ?_⟩
    · rw [hnumbers.text_eq, getElem?_idxOf_numbering hmem]
      rfl
    · intro j
      constructor
      · intro hj
        have hother : (final.outcome? j).isSome = true := Option.isSome_of_eq_some hj
        refine ⟨hother, ?_⟩
        have hsame := houtcomes j (hlinearized.mem_order_iff.2 hother)
        rw [hj] at hsame
        have hindex := Name.mk.inj (Except.ok.inj (Option.some.inj hsame))
        exact ((List.idxOf_inj hmem).1 hindex).symm
      · rintro ⟨hother, hstring⟩
        rw [houtcomes j (hlinearized.mem_order_iff.2 hother), Function.comp_apply, hstring]

/-- The calls with even numbers are for one string, the others for another one. -/
def contested (i : Nat) : String :=
  if i % 2 = 0 then "x" else "y"

open Interner in
/-- Three calls look for their strings in vain before any of them is stored.  The call `0`
finds its string in the writing section, because the call `2` has stored it. -/
theorem contested_linearized :
    ∃ final, Interner.empty.Numbers [] ∧
      ([] ++ [0, 2, 1, 2, 1, 0].map contested).toFinset.card < capacity ∧
      (Shared.start Interner.empty).run? contested [0, 2, 1, 2, 1, 0] = some final ∧
      final.order [0, 2, 1, 2, 1, 0] = [2, 1, 0] ∧
      Interner.empty.attemptAll ["x", "y", "x"] =
        ([.ok ⟨1⟩, .ok ⟨2⟩, .ok ⟨1⟩], final.table) ∧
      final.table.texts.toList.Nodup ∧ final.table.text ⟨1⟩ = "x" := by
  have hfew : ([] ++ [0, 2, 1, 2, 1, 0].map contested).toFinset.card < capacity := by decide
  have hsize : Interner.empty.size = 1 := rfl
  obtain ⟨final, hrun, hzero, hone, htwo⟩ :
      ∃ final, (Shared.start Interner.empty).run? contested [0, 2, 1, 2, 1, 0] = some final ∧
        final.outcome? 0 = some (.ok ⟨1⟩) ∧ final.outcome? 1 = some (.ok ⟨2⟩) ∧
        final.outcome? 2 = some (.ok ⟨1⟩) := by
    simp [Shared.run?, Shared.advance?, Shared.start, Shared.outcome?, Phase.step?,
      Phase.outcome?, contested, commit, probe_empty, probe_push, hsize, capacity]
  have hlast : [0, 2, 1, 2, 1, 0].dedup = [2, 1, 0] := by decide
  have horder : final.order [0, 2, 1, 2, 1, 0] = [2, 1, 0] := by
    simp [Shared.order, hlast, hzero, hone, htwo]
  obtain ⟨-, -, hattempts, -, hnodup, -, hnames⟩ :=
    interning_linearizable contested Interner.empty [] _ final numbers_empty hfew hrun
  obtain ⟨name, hname, -, htext, -⟩ := hnames 2 _ htwo
  obtain rfl := Except.ok.inj hname
  rw [horder] at hattempts
  refine ⟨final, numbers_empty, hfew, hrun, horder, ?_, hnodup, htext⟩
  simpa [contested, hzero, hone, htwo] using hattempts

end ExprTyping
