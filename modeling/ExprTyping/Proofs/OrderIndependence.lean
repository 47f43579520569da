import ExprTyping.Proofs.Report

/-!
# Reports on results in another order

The results of a batch are gathered one after the other, so their order decides which of
several repeats is kept and how diagnostics at one position are arranged.  Nothing else
depends on it as long as there is no limit: removal of repeats keeps one diagnostic of every
report, whichever comes first, and sorting determines the sequence of positions.

With a limit the kept diagnostics depend on the order, but without removal of repeats their
number does not.
-/

namespace ExprTyping

open Diagnostic

theorem Position.le_antisymm {a b : Position} (hab : a.le b = true) (hba : b.le a = true) :
    a = b := by
  obtain ⟨line, column⟩ := a
  obtain ⟨line', column'⟩ := b
  simp only [le, Bool.or_eq_true, Bool.and_eq_true, decide_eq_true_eq] at hab hba
  rw [Position.mk.injEq]
  omega

/-! ## Sorting forgets the order -/

namespace StablySorted

variable {position : Diagnostic → Position} {before after before' after' : List Diagnostic}

/-- The sequence of positions is determined by which positions occur, and how often. -/
theorem map_position_eq
    (h : StablySorted position before after) (h' : StablySorted position before' after')
    (hperm : (before'.map position).Perm (before.map position)) :
    after'.map position = after.map position := by
  have hsorted : (after.map position).Pairwise fun p q => p.le q = true :=
    List.pairwise_map.2 h.ordered
  have hsorted' : (after'.map position).Pairwise fun p q => p.le q = true :=
    List.pairwise_map.2 h'.ordered
  have hafter : (after'.map position).Perm (after.map position) :=
    ((h'.perm.map position).trans hperm).trans (h.perm.map position).symm
  refine hafter.eq_of_pairwise ?_ hsorted' hsorted
  intro p q _ _
  exact Position.le_antisymm

/-- Diagnostics at different positions can be arranged in one way only. -/
theorem eq_of_nodup
    (h : StablySorted position before after) (h' : StablySorted position before' after')
    (hperm : before'.Perm before) (hnodup : (before.map position).Nodup) :
    after' = after := by
  have hafter : after'.Perm after := (h'.perm.trans hperm).trans h.perm.symm
  refine hafter.eq_of_pairwise ?_ h'.ordered h.ordered
  intro a b ha hb hab hba
  have hmem : a ∈ before := hperm.mem_iff.1 (h'.perm.mem_iff.1 ha)
  exact List.inj_on_of_nodup_map hnodup hmem (h.perm.mem_iff.1 hb) (Position.le_antisymm hab hba)

end StablySorted

/-! ## Removal of repeats forgets the order -/

/-- Whatever the order, one diagnostic of every report is the first. -/
theorem Diagnostic.map_report_firsts_perm {ds ds' : List Diagnostic} (hperm : ds'.Perm ds) :
    ((firsts ds').map report).Perm ((firsts ds).map report) := by
  rw [List.perm_ext_iff_of_nodup (nodup_map_report_firsts ds') (nodup_map_report_firsts ds)]
  intro r
  rw [mem_map_report_firsts, mem_map_report_firsts, (hperm.map report).mem_iff]

/-- Where nothing is repeated, nothing is removed. -/
theorem Diagnostic.firsts_eq_self {ds : List Diagnostic} (hnodup : (ds.map report).Nodup) :
    firsts ds = ds := by
  have hperm : ((firsts ds).map report).Perm (ds.map report) := by
    rw [List.perm_ext_iff_of_nodup (nodup_map_report_firsts ds) hnodup]
    intro r
    exact mem_map_report_firsts
  have hlength := hperm.length_eq
  rw [List.length_map, List.length_map] at hlength
  exact (firsts_sublist ds).eq_of_length hlength

namespace QueueConfig

variable {config : QueueConfig} {ds ds' : List Diagnostic}

theorem kept_of_unlimited (hlimit : config.limit = 0) (ds : List Diagnostic) :
    config.kept ds = config.candidates ds := by
  rw [kept, if_pos hlimit]

theorem map_report_candidates_perm (config : QueueConfig) (hperm : ds'.Perm ds) :
    ((config.candidates ds').map report).Perm ((config.candidates ds).map report) := by
  rw [candidates, candidates]
  split
  · exact map_report_firsts_perm hperm
  · exact hperm.map report

theorem candidates_eq_self (config : QueueConfig) (hnodup : (ds.map report).Nodup) :
    config.candidates ds = ds := by
  rw [candidates]
  split
  · exact firsts_eq_self hnodup
  · rfl

/-- If repeats are kept, only the number of diagnostics decides how many are kept. -/
theorem length_kept_perm (hdedup : config.dedup = false) (hperm : ds'.Perm ds) :
    (config.kept ds').length = (config.kept ds).length := by
  have hcandidates : ∀ ds, config.candidates ds = ds := by
    intro ds
    simp [candidates, hdedup]
  rw [kept, kept, hcandidates, hcandidates]
  split
  · exact hperm.length_eq
  · rw [List.length_take, List.length_take, hperm.length_eq]

theorem refused_perm (hdedup : config.dedup = false) (hperm : ds'.Perm ds) :
    config.refused ds' = config.refused ds := by
  have hlength := length_kept_perm hdedup hperm
  rw [refused, refused, hdedup, hlength, hperm.length_eq]
  rfl

end QueueConfig

/-! ## Reports -/

theorem Guarantee.eq_of_isSome_iff {a b : Option Guarantee}
    (h : a.isSome = true ↔ b.isSome = true) : a = b := by
  rcases a with _ | ⟨⟩
  · rcases b with _ | ⟨⟩
    · rfl
    · simp at h
  · rcases b with _ | ⟨⟩
    · simp at h
    · rfl

namespace Report

/-- Two reports have found equally many errors and left out equally many. -/
structure SameCounts (report other : Report) : Prop where
  errorCount_eq : other.errorCount = report.errorCount
  dropped_eq : other.dropped = report.dropped
  guarantee_eq : other.guarantee = report.guarantee

section Reordering

variable {results reordered : List Checked} (hperm : reordered.Perm results)
  (text : Name → String) (source : String) (config : QueueConfig)

include hperm

theorem offered_perm : (offered text reordered).Perm (offered text results) :=
  (hperm.flatMap_right Checked.errors).map (TypeError.diagnostic text)

theorem guarantee_perm :
    (collect reordered text source config).guarantee =
      (collect results text source config).guarantee := by
  apply Guarantee.eq_of_isSome_iff
  rw [guarantee_collect, guarantee_collect]
  constructor
  · rintro ⟨result, hmem, herrors⟩
    exact ⟨result, hperm.mem_iff.1 hmem, herrors⟩
  · rintro ⟨result, hmem, herrors⟩
    exact ⟨result, hperm.mem_iff.2 hmem, herrors⟩

/-- Equal numbers of kept and refused diagnostics make equal counts. -/
theorem sameCounts_of_lengths
    (hkept : (config.kept (offered text reordered)).length =
      (config.kept (offered text results)).length)
    (hrefused : config.refused (offered text reordered) =
      config.refused (offered text results)) :
    SameCounts (collect results text source config) (collect reordered text source config) where
  errorCount_eq := by
    rw [errorCount_collect, errorCount_collect, dropped_collect, dropped_collect, hkept, hrefused]
  dropped_eq := by
    rw [dropped_collect, dropped_collect, hrefused]
  guarantee_eq := guarantee_perm hperm text source config

end Reordering

section Unlimited

variable {config : QueueConfig} (hlimit : config.limit = 0)

include hlimit

theorem dropped_of_unlimited (ds : List Diagnostic) : config.refused ds = 0 :=
  QueueConfig.refused_eq_zero (QueueConfig.kept_of_unlimited hlimit ds)

/-- Without a limit a report shows the candidates in stable order, and nothing else. -/
theorem stablySorted_diagnostics
    (text : Name → String) (source : String) (results : List Checked) :
    StablySorted (positionIn source) (config.candidates (offered text results))
      (collect results text source config).diagnostics := by
  have hnone : (collect results text source config).dropped = 0 := by
    rw [dropped_collect]
    exact dropped_of_unlimited hlimit _
  rw [diagnostics_collect, notices_eq_nil text source config results hnone, List.append_nil,
    QueueConfig.kept_of_unlimited hlimit]
  exact stablySorted_mergeSort (positionIn source) _

end Unlimited

/-- The position of a diagnostic is a matter of its report. -/
theorem map_positionIn_eq (source : String) (ds : List Diagnostic) :
    ds.map (positionIn source) =
      (ds.map Diagnostic.report).map fun r =>
        (LineTable.ofText source).position source r.2.1.start := by
  rw [List.map_map]
  rfl

end Report

open Report in
/-- The order of the results does not change what is reported.

Without a limit, reports on the same results in another order show the same sequence of
positions and the same reports, each as often, and have the same counts.  If no two errors
share a position, the diagnostics are the same altogether; if repeats are kept, they are the
same except for their arrangement.  If repeats are kept, the counts do not depend on the
order even with a limit. -/
theorem collect_independent_of_order
    (results reordered : List Checked) (text : Name → String) (source : String)
    (hperm : reordered.Perm results) :
    (∀ dedup,
      let report := collect results text source ⟨0, dedup⟩
      let other := collect reordered text source ⟨0, dedup⟩
      other.diagnostics.map (positionIn source) = report.diagnostics.map (positionIn source) ∧
      (other.diagnostics.map Diagnostic.report).Perm (report.diagnostics.map Diagnostic.report) ∧
      report.SameCounts other ∧
      (((offered text results).map (positionIn source)).Nodup →
        other.diagnostics = report.diagnostics) ∧
      (dedup = false → other.diagnostics.Perm report.diagnostics)) ∧
    ∀ limit,
      (collect results text source ⟨limit, false⟩).SameCounts
        (collect reordered text source ⟨limit, false⟩) := by
  have hoffered := offered_perm hperm text
  constructor
  · intro dedup report other
    have hsorted : StablySorted (positionIn source) _ report.diagnostics :=
      stablySorted_diagnostics rfl text source results
    have hsorted' : StablySorted (positionIn source) _ other.diagnostics :=
      stablySorted_diagnostics rfl text source reordered
    have hreports := QueueConfig.map_report_candidates_perm ⟨0, dedup⟩ hoffered
    refine ⟨?_, ?_, ?_, ?_, ?_⟩
    · apply hsorted.map_position_eq hsorted'
      rw [map_positionIn_eq, map_positionIn_eq]
      exact hreports.map _
    · exact ((hsorted'.perm.map _).trans hreports).trans (hsorted.perm.map _).symm
    · apply sameCounts_of_lengths hperm
      · have hlength := hreports.length_eq
        rw [List.length_map, List.length_map] at hlength
        rw [QueueConfig.kept_of_unlimited rfl, QueueConfig.kept_of_unlimited rfl, hlength]
      · rw [dropped_of_unlimited rfl, dropped_of_unlimited rfl]
    · intro hnodup
      have hself : ∀ ds : List Diagnostic, (ds.map (positionIn source)).Nodup →
          QueueConfig.candidates ⟨0, dedup⟩ ds = ds := by
        intro ds hds
        rw [map_positionIn_eq] at hds
        exact QueueConfig.candidates_eq_self _ (hds.of_map _)
      have hnodup' : ((offered text reordered).map (positionIn source)).Nodup :=
        (hoffered.map _).nodup_iff.2 hnodup
      rw [hself _ hnodup] at hsorted
      rw [hself _ hnodup'] at hsorted'
      exact hsorted.eq_of_nodup hsorted' hoffered hnodup
    · rintro rfl
      exact (hsorted'.perm.trans hoffered).trans hsorted.perm.symm
  · intro limit
    exact sameCounts_of_lengths hperm text source _ (QueueConfig.length_kept_perm rfl hoffered)
      (QueueConfig.refused_perm rfl hoffered)

/-- A call that takes other arguments than it is given, always at the same place. -/
def failedCall (expected found : List Ty) : Checked :=
  ⟨.unknown, #[some .unknown], [⟨⟨0⟩, ⟨0, 4⟩, .argumentMismatch expected found⟩]⟩

/-- A variable that is not declared. -/
def strayVariable : Checked :=
  ⟨.unknown, #[some .unknown], [⟨⟨0⟩, ⟨5, 6⟩, .unknownIdentifier ⟨1⟩⟩]⟩

/-- Two calls at one place are repeats with different notes.  The other order shows the notes
of the other call, but the same reports at the same positions. -/
theorem failedCalls_reported_alike :
    let results := [failedCall [.int] [.bool], strayVariable, failedCall [.bool] [.int]]
    let collect := fun results config => Report.collect results (fun _ => "y") "f(x)\ny\n" config
    let positions := fun report : Report =>
      report.diagnostics.map (Report.positionIn "f(x)\ny\n")
    results.reverse.Perm results ∧
      ¬(QueueConfig.kept ⟨0, true⟩ (Report.offered (fun _ => "y") results.reverse)).Perm
        (QueueConfig.kept ⟨0, true⟩ (Report.offered (fun _ => "y") results)) ∧
      positions (collect results.reverse ⟨0, true⟩) = positions (collect results ⟨0, true⟩) ∧
      (collect results.reverse ⟨0, false⟩).diagnostics.Perm
        (collect results ⟨0, false⟩).diagnostics ∧
      (collect results ⟨1, false⟩).SameCounts (collect results.reverse ⟨1, false⟩) ∧
      (collect [strayVariable, failedCall [.int] []] ⟨0, true⟩).diagnostics =
        (collect [failedCall [.int] [], strayVariable] ⟨0, true⟩).diagnostics := by
  intro results collect positions
  have hperm : results.reverse.Perm results := List.reverse_perm results
  have hswap : [strayVariable, failedCall [.int] []].Perm [failedCall [.int] [], strayVariable] :=
    List.Perm.swap _ _ _
  obtain ⟨hunlimited, hlimited⟩ :=
    collect_independent_of_order results results.reverse (fun _ => "y") "f(x)\ny\n" hperm
  obtain ⟨hpair, -⟩ := collect_independent_of_order _ _ (fun _ => "y") "f(x)\ny\n" hswap
  obtain ⟨hpositions, -⟩ := hunlimited true
  obtain ⟨-, -, -, -, hkeeping⟩ := hunlimited false
  obtain ⟨-, -, -, hdistinct, -⟩ := hpair true
  refine ⟨hperm, by decide +kernel, hpositions, hkeeping rfl, hlimited 1, hdistinct ?_⟩
  decide +kernel

end ExprTyping
