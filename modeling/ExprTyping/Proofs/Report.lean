import ExprTyping.Report
import ExprTyping.Proofs.Selection

/-!
# What a report contains

A report is made by offering the diagnostics of all errors to one queue.  Its
parts can be described directly in terms of the offered diagnostics: the kept
ones in stable order of their positions, the notice if any were refused, and the
counts.
-/

namespace ExprTyping

/-! ## Stable order -/

/-- The second list is the first one ordered by position, where diagnostics at
one position stay in the order of the first list. -/
structure StablySorted (position : Diagnostic → Position)
    (before after : List Diagnostic) : Prop where
  perm : after.Perm before
  ordered : after.Pairwise fun a b => (position a).le (position b) = true
  stable : ∀ p, after.filter (position · = p) = before.filter (position · = p)

theorem Position.le_refl (p : Position) : p.le p = true := by
  simpa using Position.le_total p p

/-- Whether a diagnostic is reported no later than another one. -/
def Diagnostic.noLater (position : Diagnostic → Position) (a b : Diagnostic) : Bool :=
  (position a).le (position b)

theorem Diagnostic.noLater_trans
    (position : Diagnostic → Position) (a b c : Diagnostic)
    (hab : a.noLater position b = true) (hbc : b.noLater position c = true) :
    a.noLater position c = true :=
  Position.le_trans hab hbc

theorem Diagnostic.noLater_total (position : Diagnostic → Position) (a b : Diagnostic) :
    (a.noLater position b || b.noLater position a) = true :=
  Position.le_total (position a) (position b)

theorem stablySorted_mergeSort (position : Diagnostic → Position) (ds : List Diagnostic) :
    StablySorted position ds (ds.mergeSort (Diagnostic.noLater position)) where
  perm := List.mergeSort_perm ds _
  ordered :=
    List.pairwise_mergeSort (Diagnostic.noLater_trans position)
      (Diagnostic.noLater_total position) ds
  stable p := by
    have hordered : (ds.filter (position · = p)).Pairwise
        fun a b => a.noLater position b = true := by
      apply List.pairwise_of_forall_mem_list
      intro a ha b hb
      have hpa : position a = p := by simpa using (List.mem_filter.1 ha).2
      have hpb : position b = p := by simpa using (List.mem_filter.1 hb).2
      rw [Diagnostic.noLater, hpa, hpb]
      exact p.le_refl
    -- What is in order already is not rearranged, so it is still there, and there
    -- is no room for anything else at this position.
    have hsublist : (ds.filter (position · = p)).Sublist
        (ds.mergeSort (Diagnostic.noLater position)) :=
      List.sublist_mergeSort (Diagnostic.noLater_trans position)
        (Diagnostic.noLater_total position) hordered List.filter_sublist
    have hfilter := hsublist.filter (position · = p)
    rw [List.filter_filter] at hfilter
    simp only [Bool.and_self] at hfilter
    have hperm := (List.mergeSort_perm ds (Diagnostic.noLater position)).filter (position · = p)
    exact (hfilter.eq_of_length hperm.length_eq.symm).symm

/-- A queue sorts what it has kept. -/
theorem Queue.Holds.sorted_eq
    {queue : Queue} {config : QueueConfig} {position : Diagnostic → Position}
    {offered : List Diagnostic} (h : queue.Holds config position offered) :
    queue.sorted = (config.kept offered).mergeSort (Diagnostic.noLater position) := by
  have hmap : ((config.kept offered).mergeSort (Diagnostic.noLater position)).map
      (fun d => (position d, d)) = queue.entries.toList.mergeSort fun a b => a.1.le b.1 := by
    rw [h.entries_eq]
    exact List.map_mergeSort fun _ _ _ _ => rfl
  rw [Queue.sorted, ← hmap, List.map_map]
  exact List.map_id' _

theorem Queue.notice?_eq_none {queue : Queue} (h : queue.dropped = 0) (span : Span) :
    queue.notice? span = none := by
  simp [Queue.notice?, h]

theorem Queue.exists_notice {queue : Queue} (h : 0 < queue.dropped) (span : Span) :
    ∃ notice, queue.notice? span = some notice ∧
      notice.code = .limitNotice ∧ notice.span = span := by
  rw [Queue.notice?, if_pos h]
  exact ⟨_, rfl, rfl, rfl⟩

/-- No error has the code of the notice. -/
theorem TypeError.diagnostic_code_ne (text : Name → String) (error : TypeError) :
    (error.diagnostic text).code ≠ .limitNotice := by
  obtain ⟨node, span, cause⟩ := error
  cases cause <;> exact Code.noConfusion

/-! ## The gathered errors -/

namespace Report

/-- The position that a diagnostic is reported at. -/
def positionIn (source : String) (d : Diagnostic) : Position :=
  (LineTable.ofText source).position source d.span.start

/-- The diagnostics of all errors, in the order of the results. -/
def offered (text : Name → String) (results : List Checked) : List Diagnostic :=
  (results.flatMap Checked.errors).map (TypeError.diagnostic text)

/-- The notice about refused diagnostics, if there are any. -/
def notices (text : Name → String) (source : String) (config : QueueConfig)
    (results : List Checked) : List Diagnostic :=
  let progress := gather text source config (results.flatMap Checked.errors)
  (progress.queue.notice? progress.lastSpan).toList

section Gathering

variable (text : Name → String) (source : String) (config : QueueConfig)

theorem gather_append_singleton (errors : List TypeError) (error : TypeError) :
    gather text source config (errors ++ [error]) =
      offer text source (LineTable.ofText source) (gather text source config errors) error := by
  rw [gather, gather, List.foldl_append]
  rfl

theorem gather_holds (errors : List TypeError) :
    (gather text source config errors).queue.Holds config (positionIn source)
      (errors.map (TypeError.diagnostic text)) := by
  induction errors using List.reverseRecOn with
  | nil => exact Queue.holds_empty config (positionIn source)
  | append_singleton errors error ih =>
      rw [gather_append_singleton, List.map_append, List.map_singleton]
      exact ih.add (error.diagnostic text)

theorem gather_lastSpan (errors : List TypeError) :
    (gather text source config errors).lastSpan =
      (errors.getLast?.map TypeError.span).getD Span.zero := by
  induction errors using List.reverseRecOn with
  | nil => rfl
  | append_singleton errors error ih =>
      rw [gather_append_singleton, List.getLast?_concat]
      rfl

variable (results : List Checked)

theorem dropped_collect :
    (collect results text source config).dropped = config.refused (offered text results) :=
  (gather_holds text source config (results.flatMap Checked.errors)).dropped_eq

theorem errorCount_collect :
    (collect results text source config).errorCount =
      (config.kept (offered text results)).length +
        (collect results text source config).dropped := by
  have hholds := gather_holds text source config (results.flatMap Checked.errors)
  exact congrArg (· + _) hholds.size_eq

/-- The diagnostics of a report are the kept ones and the notice. -/
theorem diagnostics_collect :
    (collect results text source config).diagnostics =
      (config.kept (offered text results)).mergeSort (Diagnostic.noLater (positionIn source)) ++
        notices text source config results := by
  have hholds := gather_holds text source config (results.flatMap Checked.errors)
  exact congrArg (· ++ _) hholds.sorted_eq

theorem guarantee_collect :
    (collect results text source config).guarantee.isSome = true ↔
      ∃ result ∈ results, result.hasErrors = true := by
  have hholds := gather_holds text source config (results.flatMap Checked.errors)
  have hcount : (collect results text source config).guarantee =
      Guarantee.ofCount (config.kept (offered text results)).length :=
    congrArg Guarantee.ofCount hholds.size_eq
  have hsome : ∀ count, (Guarantee.ofCount count).isSome = true ↔ count ≠ 0 := by
    intro count
    cases count <;> simp [Guarantee.ofCount]
  rw [hcount, hsome, ne_eq, List.length_eq_zero_iff, config.kept_eq_nil_iff, offered,
    List.map_eq_nil_iff, List.flatMap_eq_nil_iff]
  simp [Checked.hasErrors]

theorem notices_eq_nil
    (h : (collect results text source config).dropped = 0) :
    notices text source config results = [] := by
  rw [notices, Queue.notice?_eq_none h]
  rfl

/-- If something was refused, one notice stands where the last error does. -/
theorem notices_eq_singleton
    (h : 0 < (collect results text source config).dropped) :
    ∃ last notice, (offered text results).getLast? = some last ∧
      notices text source config results = [notice] ∧
      notice.code = .limitNotice ∧ notice.span = last.span := by
  have hne : results.flatMap Checked.errors ≠ [] := by
    intro hnil
    rw [dropped_collect, offered, hnil] at h
    simp [QueueConfig.refused] at h
  have hlast := List.getLast?_eq_getLast_of_ne_nil hne
  obtain ⟨notice, hnotice, hcode, hspan⟩ := Queue.exists_notice h
    (gather text source config (results.flatMap Checked.errors)).lastSpan
  refine ⟨((results.flatMap Checked.errors).getLast hne).diagnostic text, notice,
    ?_, ?_, hcode, ?_⟩
  · rw [offered, List.getLast?_map, hlast]
    rfl
  · rw [notices, hnotice]
    rfl
  · rw [hspan, gather_lastSpan, hlast]
    rfl

/-- A notice is no error. -/
theorem code_of_mem_notices
    {d : Diagnostic} (hd : d ∈ notices text source config results) :
    d.code = .limitNotice := by
  by_cases h : 0 < (collect results text source config).dropped
  · obtain ⟨last, notice, -, hnotices, hcode, -⟩ := notices_eq_singleton text source config results h
    rw [hnotices, List.mem_singleton] at hd
    rw [hd]
    exact hcode
  · rw [notices_eq_nil text source config results (by omega)] at hd
    exact absurd hd List.not_mem_nil

end Gathering

end Report

/-- A report contains what its offered diagnostics ask for.

The kept diagnostics come first, in stable order of their positions.  They are
followed by one notice at the span of the last error exactly if something was
refused, and none of them is such a notice.  The counts are those of kept and
refused diagnostics, and there is a guarantee exactly if some result has an error,
whatever the limit. -/
theorem collect_eq_description
    (results : List Checked) (text : Name → String) (source : String) (config : QueueConfig) :
    let report := Report.collect results text source config
    let offered := Report.offered text results
    let kept := config.kept offered
    ∃ sorted notices,
      report.diagnostics = sorted ++ notices ∧
      StablySorted (Report.positionIn source) kept sorted ∧
      (∀ d ∈ sorted, d.code ≠ .limitNotice) ∧
      (report.dropped = 0 → notices = []) ∧
      (0 < report.dropped → ∃ last notice, offered.getLast? = some last ∧
        notices = [notice] ∧ notice.code = .limitNotice ∧ notice.span = last.span) ∧
      report.dropped = config.refused offered ∧
      report.errorCount = kept.length + report.dropped ∧
      (report.guarantee.isSome = true ↔ ∃ result ∈ results, result.hasErrors = true) := by
  intro report offered kept
  have hsorted := stablySorted_mergeSort (Report.positionIn source) kept
  refine ⟨_, _, Report.diagnostics_collect text source config results, hsorted, ?_,
    Report.notices_eq_nil text source config results,
    Report.notices_eq_singleton text source config results,
    Report.dropped_collect text source config results,
    Report.errorCount_collect text source config results,
    Report.guarantee_collect text source config results⟩
  intro d hd
  have hkept : d ∈ kept := hsorted.perm.mem_iff.1 hd
  obtain ⟨error, -, rfl⟩ := List.mem_map.1 ((config.kept_sublist offered).subset hkept)
  exact error.diagnostic_code_ne text

end ExprTyping
