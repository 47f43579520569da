import ExprTyping.Batch
import ExprTyping.Proofs.Report
import Mathlib.Data.Finset.Card

/-!
# Counting distinct errors

With removal of repeats, the counts of a report are meant to count every report
once.  For the diagnostics that are shown they do.  A diagnostic that the limit
refuses is forgotten, however, and a repeat of it is refused and counted again.

So the counts are at least those of distinct reports, and they are equal to them
exactly if no report that is left out occurs twice.
-/

namespace ExprTyping

namespace Diagnostic

/-- The number of distinct reports among diagnostics. -/
def distinctCount (ds : List Diagnostic) : Nat :=
  (ds.map report).toFinset.card

theorem distinctCount_le_length (ds : List Diagnostic) : distinctCount ds ≤ ds.length := by
  rw [← List.length_map (f := report)]
  exact List.toFinset_card_le _

/-- All diagnostics are distinct reports exactly if none is a repeat. -/
theorem length_eq_distinctCount_iff (ds : List Diagnostic) :
    ds.length = distinctCount ds ↔ (ds.map report).Nodup := by
  have hiff : (ds.map report).toFinset.card = (ds.map report).length ↔ (ds.map report).Nodup :=
    Multiset.toFinset_card_eq_card_iff_nodup
  rw [← hiff, List.length_map, eq_comm]
  rfl

/-- Where every shown diagnostic is a report of its own, the distinct reports are
the shown ones and those among the diagnostics that repeat none of them. -/
theorem distinctCount_eq_add
    {shown ds : List Diagnostic}
    (hshown : shown.Sublist ds) (hnodup : (shown.map report).Nodup) :
    distinctCount ds =
      shown.length + distinctCount (ds.filter fun d => !shown.any (·.sameReport d)) := by
  let others := ds.filter fun d => !shown.any (·.sameReport d)
  have hothers : ∀ d ∈ others, d.report ∉ shown.map report := by
    intro d hd
    rw [← any_sameReport_iff]
    simpa using (List.mem_filter.1 hd).2
  have hunion : (ds.map report).toFinset =
      (shown.map report).toFinset ∪ (others.map report).toFinset := by
    ext r
    simp only [Finset.mem_union, List.mem_toFinset]
    constructor
    · intro hr
      by_cases hmem : r ∈ shown.map report
      · exact Or.inl hmem
      · obtain ⟨d, hd, rfl⟩ := List.mem_map.1 hr
        rw [← any_sameReport_iff] at hmem
        have hother : d ∈ others := List.mem_filter.2 ⟨hd, by simp [hmem]⟩
        exact Or.inr (List.mem_map_of_mem hother)
    · rintro (hr | hr)
      · exact (hshown.map report).subset hr
      · exact (List.filter_sublist.map report).subset hr
  have hdisjoint : Disjoint (shown.map report).toFinset (others.map report).toFinset := by
    rw [Finset.disjoint_left]
    intro r hr hother
    rw [List.mem_toFinset] at hr hother
    obtain ⟨d, hd, rfl⟩ := List.mem_map.1 hother
    exact hothers d hd hr
  calc
    distinctCount ds = ((shown.map report).toFinset ∪ (others.map report).toFinset).card :=
      congrArg Finset.card hunion
    _ = (shown.map report).toFinset.card + distinctCount others :=
      Finset.card_union_of_disjoint hdisjoint
    _ = shown.length + distinctCount others := by
      rw [List.toFinset_card_of_nodup hnodup, List.length_map]

end Diagnostic

open Diagnostic

namespace Report

/-- The offered diagnostics that repeat none of those that are shown. -/
def unshown (report : Report) (offered : List Diagnostic) : List Diagnostic :=
  offered.filter fun d => !report.diagnostics.any (·.sameReport d)

section Counting

variable (text : Name → String) (source : String) (config : QueueConfig) (results : List Checked)

/-- An offered diagnostic is shown if one that it repeats is kept. -/
theorem any_diagnostics_collect {d : Diagnostic} (hd : d ∈ offered text results) :
    (collect results text source config).diagnostics.any (·.sameReport d) =
      (config.kept (offered text results)).any (·.sameReport d) := by
  have hnotice : (notices text source config results).any (·.sameReport d) = false := by
    rw [List.any_eq_false]
    intro notice hmem hsame
    have hcode := code_of_mem_notices text source config results hmem
    rw [(sameReport_iff.1 hsame).1] at hcode
    obtain ⟨error, -, rfl⟩ := List.mem_map.1 hd
    exact error.diagnostic_code_ne text hcode
  rw [diagnostics_collect, List.any_append, hnotice, Bool.or_false]
  exact (List.mergeSort_perm _ _).any_eq

theorem unshown_collect :
    (collect results text source config).unshown (offered text results) =
      (offered text results).filter
        fun d => !(config.kept (offered text results)).any (·.sameReport d) := by
  apply List.filter_congr
  intro d hd
  rw [any_diagnostics_collect text source config results hd]

/-- Every diagnostic that is left out is counted, repeats included. -/
theorem dropped_eq_length_unshown (hdedup : config.dedup = true) :
    (collect results text source config).dropped =
      ((collect results text source config).unshown (offered text results)).length := by
  rw [dropped_collect, unshown_collect, QueueConfig.refused, if_pos hdedup,
    List.countP_eq_length_filter]

theorem distinctCount_offered (hdedup : config.dedup = true) :
    distinctCount (offered text results) =
      (config.kept (offered text results)).length +
        distinctCount ((collect results text source config).unshown (offered text results)) := by
  rw [unshown_collect]
  exact distinctCount_eq_add (config.kept_sublist _) (QueueConfig.nodup_map_report_kept hdedup _)

end Counting

end Report

/-- The counts of a report with removal of repeats.

What is left out is counted with its repeats.  Hence the number of dropped errors
and the number of all errors are never less than the numbers of distinct reports,
and each of them is right exactly if no report that is left out occurs twice. -/
theorem collect_counts_distinct_iff
    (results : List Checked) (text : Name → String) (source : String) (limit : Nat) :
    let report := Report.collect results text source ⟨limit, true⟩
    let offered := Report.offered text results
    let unshown := report.unshown offered
    report.dropped = unshown.length ∧
      distinctCount unshown ≤ report.dropped ∧
      distinctCount offered ≤ report.errorCount ∧
      (report.dropped = distinctCount unshown ↔ (unshown.map Diagnostic.report).Nodup) ∧
      (report.errorCount = distinctCount offered ↔ (unshown.map Diagnostic.report).Nodup) := by
  intro report offered unshown
  let shown := QueueConfig.kept ⟨limit, true⟩ offered
  have hdropped : report.dropped = unshown.length :=
    Report.dropped_eq_length_unshown text source ⟨limit, true⟩ results rfl
  have herrors : report.errorCount = shown.length + report.dropped :=
    Report.errorCount_collect text source ⟨limit, true⟩ results
  have hdistinct : distinctCount offered = shown.length + distinctCount unshown :=
    Report.distinctCount_offered text source ⟨limit, true⟩ results rfl
  have hle := distinctCount_le_length unshown
  have hexcess : report.errorCount + distinctCount unshown =
      distinctCount offered + unshown.length := by
    omega
  rw [← length_eq_distinctCount_iff, hdropped]
  refine ⟨rfl, hle, by omega, Iff.rfl, ?_⟩
  constructor
  · intro hcount
    omega
  · intro hcount
    omega

/-- Three expressions: the negation of a number, and an undeclared variable twice
at the same place. -/
def repeatedVariable : List Expression :=
  let negation : Graph := ⟨#[⟨.int 5, ⟨4, 5⟩⟩, ⟨.unary .not ⟨0⟩, ⟨0, 5⟩⟩], #[]⟩
  let variableUse : Graph := ⟨#[⟨.ident ⟨1⟩, ⟨6, 7⟩⟩], #[]⟩
  [⟨negation, ⟨1⟩⟩, ⟨variableUse, ⟨0⟩⟩, ⟨variableUse, ⟨0⟩⟩]

theorem repeatedVariable_counted_twice :
    ∃ results, checkAll Scope.empty repeatedVariable = .ok results ∧
      let report := Report.collect results (fun _ => "y") "not 5\ny\n" ⟨1, true⟩
      let offered := Report.offered (fun _ => "y") results
      report.dropped = 2 ∧ distinctCount (report.unshown offered) = 1 ∧
        report.errorCount = 3 ∧ distinctCount offered = 2 := by
  refine ⟨[⟨.unknown, #[some .int, some .unknown], [⟨⟨1⟩, ⟨0, 5⟩, .unsupportedOperand "not"⟩]⟩,
    ⟨.unknown, #[some .unknown], [⟨⟨0⟩, ⟨6, 7⟩, .unknownIdentifier ⟨1⟩⟩]⟩,
    ⟨.unknown, #[some .unknown], [⟨⟨0⟩, ⟨6, 7⟩, .unknownIdentifier ⟨1⟩⟩]⟩], ?_, ?_⟩
  · decide +kernel
  · decide +kernel

end ExprTyping
