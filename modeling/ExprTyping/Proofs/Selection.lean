import ExprTyping.Diagnostic.Queue
import Mathlib.Data.List.Nodup
import Mathlib.Data.List.Induction

/-!
# What a queue keeps

A queue decides about every diagnostic when it is offered.  This module describes
the outcome without that history: which of the offered diagnostics are kept and
how many of them are refused.

Repeats are removed first and the limit is applied to what remains.  The queue
looks for repeats among the kept diagnostics only.  As long as it is not full,
these represent everything that was offered; once it is full, nothing is kept any
more, and a diagnostic is refused as often as it is offered.
-/

namespace ExprTyping

namespace Diagnostic

/-- What a diagnostic reports: two diagnostics are repeats of each other if they
agree in this. -/
def report (d : Diagnostic) : Code × Span × String :=
  (d.code, d.span, d.message)

theorem sameReport_iff_report_eq {a b : Diagnostic} :
    a.sameReport b = true ↔ a.report = b.report := by
  rw [sameReport_iff]
  simp [report]

theorem any_sameReport_iff {ds : List Diagnostic} {d : Diagnostic} :
    ds.any (·.sameReport d) = true ↔ d.report ∈ ds.map report := by
  simp only [List.any_eq_true, sameReport_iff_report_eq, List.mem_map]

/-- The first diagnostic of every report. -/
def firsts : List Diagnostic → List Diagnostic
  | [] => []
  | d :: ds => d :: (firsts ds).filter (!d.sameReport ·)

theorem firsts_append_singleton (ds : List Diagnostic) (d : Diagnostic) :
    firsts (ds ++ [d]) =
      if ds.any (·.sameReport d) then firsts ds else firsts ds ++ [d] := by
  induction ds with
  | nil => rfl
  | cons first ds ih =>
      rw [List.cons_append, firsts, ih, List.any_cons, firsts]
      by_cases hlater : ds.any (·.sameReport d) = true
      · simp [hlater]
      · by_cases hfirst : first.sameReport d = true
        · simp [hlater, hfirst]
        · simp [hlater, hfirst]

theorem firsts_sublist (ds : List Diagnostic) : (firsts ds).Sublist ds := by
  induction ds with
  | nil => exact List.Sublist.refl _
  | cons d ds ih => exact (List.filter_sublist.trans ih).cons_cons d

/-- Every report has a first diagnostic. -/
theorem mem_map_report_firsts {ds : List Diagnostic} {r : Code × Span × String} :
    r ∈ (firsts ds).map report ↔ r ∈ ds.map report := by
  induction ds using List.reverseRecOn with
  | nil => rfl
  | append_singleton ds d ih =>
      rw [firsts_append_singleton]
      by_cases hrepeat : ds.any (·.sameReport d) = true
      · rw [if_pos hrepeat, ih, List.map_append, List.mem_append, List.map_singleton,
          List.mem_singleton]
        have hmem := any_sameReport_iff.1 hrepeat
        constructor
        · exact Or.inl
        · rintro (h | rfl)
          · exact h
          · exact hmem
      · rw [if_neg hrepeat, List.map_append, List.map_append, List.mem_append,
          List.mem_append, ih]

/-- No two of the first diagnostics are repeats of each other. -/
theorem nodup_map_report_firsts (ds : List Diagnostic) : ((firsts ds).map report).Nodup := by
  induction ds using List.reverseRecOn with
  | nil => exact List.nodup_nil
  | append_singleton ds d ih =>
      rw [firsts_append_singleton]
      by_cases hrepeat : ds.any (·.sameReport d) = true
      · rw [if_pos hrepeat]
        exact ih
      · have hnew : d.report ∉ (firsts ds).map report := by
          rwa [mem_map_report_firsts, ← any_sameReport_iff]
        rw [if_neg hrepeat, List.map_append, List.map_singleton, ← List.concat_eq_append]
        exact ih.concat hnew

end Diagnostic

open Diagnostic

namespace QueueConfig

variable {config : QueueConfig} {ds : List Diagnostic} {d : Diagnostic}

/-- The offered diagnostics that the queue keeps if there is room for them. -/
def candidates (config : QueueConfig) (ds : List Diagnostic) : List Diagnostic :=
  if config.dedup then firsts ds else ds

/-- The offered diagnostics that the queue keeps. -/
def kept (config : QueueConfig) (ds : List Diagnostic) : List Diagnostic :=
  if config.limit = 0 then config.candidates ds
  else (config.candidates ds).take config.limit

/-- The number of offered diagnostics that the limit refuses: with removal of
repeats those that repeat no kept one, and otherwise all that are not kept. -/
def refused (config : QueueConfig) (ds : List Diagnostic) : Nat :=
  if config.dedup then ds.countP fun d => !(config.kept ds).any (·.sameReport d)
  else ds.length - (config.kept ds).length

/-! ## Kept diagnostics are offered ones -/

theorem kept_sublist (config : QueueConfig) (ds : List Diagnostic) :
    (config.kept ds).Sublist ds := by
  have hcandidates : (config.candidates ds).Sublist ds := by
    rw [candidates]
    split
    · exact firsts_sublist ds
    · exact List.Sublist.refl ds
  rw [kept]
  split
  · exact hcandidates
  · exact (List.take_sublist _ _).trans hcandidates

/-- Something is kept as soon as something is offered, whatever the limit. -/
theorem kept_eq_nil_iff (config : QueueConfig) (ds : List Diagnostic) :
    config.kept ds = [] ↔ ds = [] := by
  constructor
  · intro hnil
    by_contra hne
    obtain ⟨d, rest, rfl⟩ := List.exists_cons_of_ne_nil hne
    have hcandidates : config.candidates (d :: rest) ≠ [] := by
      rw [candidates]
      split <;> simp [firsts]
    rw [kept] at hnil
    split at hnil
    · exact hcandidates hnil
    · next hlimit =>
        exact (List.take_eq_nil_iff.1 hnil).elim hlimit hcandidates
  · rintro rfl
    exact List.sublist_nil.1 (config.kept_sublist [])

theorem nodup_map_report_kept
    (hdedup : config.dedup = true) (ds : List Diagnostic) :
    ((config.kept ds).map report).Nodup := by
  have hcandidates : ((config.candidates ds).map report).Nodup := by
    rw [candidates, if_pos hdedup]
    exact nodup_map_report_firsts ds
  rw [kept]
  split
  · exact hcandidates
  · rw [List.map_take]
    exact hcandidates.sublist (List.take_sublist _ _)

/-! ## A queue that is not full has lost nothing -/

theorem isFull_eq_true_iff {count : Nat} :
    config.isFull count = true ↔ 0 < config.limit ∧ config.limit ≤ count := by
  simp [isFull]

theorem any_candidates_of_dedup (hdedup : config.dedup = true) :
    (config.candidates ds).any (·.sameReport d) = ds.any (·.sameReport d) := by
  rw [candidates, if_pos hdedup, Bool.eq_iff_iff, any_sameReport_iff, any_sameReport_iff,
    mem_map_report_firsts]

theorem candidates_append_singleton :
    config.candidates (ds ++ [d]) =
      if config.dedup && ds.any (·.sameReport d) then config.candidates ds
      else config.candidates ds ++ [d] := by
  cases hdedup : config.dedup with
  | false => simp [candidates, hdedup]
  | true => simp [candidates, hdedup, firsts_append_singleton]

/-- The kept diagnostics are all candidates, unless the queue is full. -/
theorem kept_eq_candidates_of_not_isFull
    (h : ¬config.isFull (config.kept ds).length = true) :
    config.kept ds = config.candidates ds := by
  by_cases hlimit : config.limit = 0
  · rw [kept, if_pos hlimit]
  · rw [isFull_eq_true_iff, kept, if_neg hlimit, List.length_take] at h
    rw [kept, if_neg hlimit, List.take_of_length_le (by omega)]

theorem length_kept_le (config : QueueConfig) (ds : List Diagnostic) :
    (config.kept ds).length ≤ (config.candidates ds).length := by
  rw [kept]
  split
  · exact Nat.le_refl _
  · exact List.length_take_le' _ _

/-- As long as all candidates are kept, none is refused. -/
theorem refused_eq_zero (h : config.kept ds = config.candidates ds) :
    config.refused ds = 0 := by
  rw [refused, h]
  cases hdedup : config.dedup with
  | false => simp [candidates, hdedup]
  | true =>
      rw [if_pos rfl, List.countP_eq_zero]
      intro d hd
      have hrepeat : ds.any (·.sameReport d) = true :=
        any_sameReport_iff.2 (List.mem_map_of_mem hd)
      rw [any_candidates_of_dedup hdedup, hrepeat]
      decide

/-! ## One more diagnostic -/

theorem kept_append_singleton_of_isFull
    (h : config.isFull (config.kept ds).length = true) :
    config.kept (ds ++ [d]) = config.kept ds := by
  obtain ⟨hpos, hle⟩ := isFull_eq_true_iff.1 h
  have hcandidates := Nat.le_trans hle (length_kept_le config ds)
  have hlimit : config.limit ≠ 0 := by omega
  rw [kept, kept, if_neg hlimit, if_neg hlimit, candidates_append_singleton]
  split
  · rfl
  · exact List.take_append_of_le_length hcandidates

theorem kept_append_singleton_of_not_isFull
    (h : ¬config.isFull (config.kept ds).length = true) :
    config.kept (ds ++ [d]) = config.candidates (ds ++ [d]) := by
  by_cases hlimit : config.limit = 0
  · rw [kept, if_pos hlimit]
  · rw [kept_eq_candidates_of_not_isFull h, isFull_eq_true_iff] at h
    have hroom : (config.candidates (ds ++ [d])).length ≤ config.limit := by
      rw [candidates_append_singleton]
      split
      · omega
      · simp only [List.length_append, List.length_singleton]
        omega
    rw [kept, if_neg hlimit, List.take_of_length_le hroom]

/-- A repeat of a kept diagnostic changes nothing. -/
theorem kept_append_singleton_of_repeat
    (hdedup : config.dedup = true) (hrepeat : (config.kept ds).any (·.sameReport d) = true) :
    config.kept (ds ++ [d]) = config.kept ds := by
  by_cases hfull : config.isFull (config.kept ds).length = true
  · exact kept_append_singleton_of_isFull hfull
  · have hall := kept_eq_candidates_of_not_isFull hfull
    rw [hall, any_candidates_of_dedup hdedup] at hrepeat
    rw [kept_append_singleton_of_not_isFull hfull, candidates_append_singleton, hall,
      hdedup, hrepeat]
    rfl

theorem kept_append_singleton_of_room
    (hnew : ¬(config.dedup && (config.kept ds).any (·.sameReport d)) = true)
    (hroom : ¬config.isFull (config.kept ds).length = true) :
    config.kept (ds ++ [d]) = config.kept ds ++ [d] := by
  have hall := kept_eq_candidates_of_not_isFull hroom
  have hfresh : ¬(config.dedup && ds.any (·.sameReport d)) = true := by
    cases hdedup : config.dedup with
    | false => simp
    | true => rwa [hall, any_candidates_of_dedup hdedup, hdedup] at hnew
  rw [kept_append_singleton_of_not_isFull hroom, candidates_append_singleton, if_neg hfresh, hall]

theorem refused_append_singleton_of_repeat
    (hdedup : config.dedup = true) (hrepeat : (config.kept ds).any (·.sameReport d) = true) :
    config.refused (ds ++ [d]) = config.refused ds := by
  rw [refused, refused, kept_append_singleton_of_repeat hdedup hrepeat, if_pos hdedup,
    if_pos hdedup, List.countP_append, List.countP_singleton, hrepeat]
  rfl

theorem refused_append_singleton_of_isFull
    (hnew : ¬(config.dedup && (config.kept ds).any (·.sameReport d)) = true)
    (hfull : config.isFull (config.kept ds).length = true) :
    config.refused (ds ++ [d]) = config.refused ds + 1 := by
  rw [refused, refused, kept_append_singleton_of_isFull hfull]
  cases hdedup : config.dedup with
  | false =>
      have hle := length_kept_le config ds
      rw [candidates, hdedup] at hle
      simp only [Bool.false_eq_true, if_false, List.length_append, List.length_singleton] at hle ⊢
      omega
  | true =>
      have hfresh : (config.kept ds).any (·.sameReport d) = false := by
        simpa [hdedup] using hnew
      simp only [if_true]
      rw [List.countP_append, List.countP_singleton, hfresh]
      rfl

theorem refused_append_singleton_of_room
    (hroom : ¬config.isFull (config.kept ds).length = true) :
    config.refused (ds ++ [d]) = config.refused ds := by
  rw [refused_eq_zero (kept_eq_candidates_of_not_isFull hroom),
    refused_eq_zero (kept_append_singleton_of_not_isFull hroom)]

end QueueConfig

/-! ## The queue after a list of offers -/

/-- The queue holds what is kept of the offered diagnostics, each with its
position, and has counted what is refused. -/
structure Queue.Holds (queue : Queue) (config : QueueConfig)
    (position : Diagnostic → Position) (offered : List Diagnostic) : Prop where
  config_eq : queue.config = config
  entries_eq : queue.entries.toList = (config.kept offered).map fun d => (position d, d)
  dropped_eq : queue.dropped = config.refused offered

namespace Queue

variable {queue : Queue} {config : QueueConfig} {position : Diagnostic → Position}
  {offered : List Diagnostic}

theorem holds_empty (config : QueueConfig) (position : Diagnostic → Position) :
    (Queue.empty config).Holds config position [] where
  config_eq := rfl
  entries_eq := by simp [empty, QueueConfig.kept, QueueConfig.candidates, firsts]
  dropped_eq := by simp [empty, QueueConfig.refused]

theorem Holds.size_eq (h : queue.Holds config position offered) :
    queue.size = (config.kept offered).length := by
  rw [size, ← Array.length_toList, h.entries_eq, List.length_map]

theorem Holds.repeats_eq (h : queue.Holds config position offered) (d : Diagnostic) :
    queue.repeats d = (config.kept offered).any (·.sameReport d) := by
  rw [repeats, ← Array.any_toList, h.entries_eq, List.any_map]
  rfl

/-- An offer keeps the queue in line with the list of all offers. -/
theorem Holds.add (h : queue.Holds config position offered) (d : Diagnostic) :
    (queue.add d (position d)).2.Holds config position (offered ++ [d]) := by
  rw [Queue.add, h.config_eq, h.repeats_eq, h.size_eq]
  by_cases hrepeat : (config.dedup && (config.kept offered).any (·.sameReport d)) = true
  · rw [if_pos hrepeat]
    obtain ⟨hdedup, hany⟩ := Bool.and_eq_true_iff.1 hrepeat
    refine ⟨h.config_eq, ?_, ?_⟩
    · rw [QueueConfig.kept_append_singleton_of_repeat hdedup hany]
      exact h.entries_eq
    · rw [QueueConfig.refused_append_singleton_of_repeat hdedup hany]
      exact h.dropped_eq
  · rw [if_neg hrepeat]
    by_cases hfull : config.isFull (config.kept offered).length = true
    · rw [if_pos hfull]
      refine ⟨rfl, ?_, ?_⟩
      · rw [QueueConfig.kept_append_singleton_of_isFull hfull]
        exact h.entries_eq
      · rw [QueueConfig.refused_append_singleton_of_isFull hrepeat hfull]
        exact congrArg (· + 1) h.dropped_eq
    · rw [if_neg hfull]
      refine ⟨rfl, ?_, ?_⟩
      · rw [QueueConfig.kept_append_singleton_of_room hrepeat hfull, List.map_append,
          ← h.entries_eq]
        exact Array.toList_push
      · rw [QueueConfig.refused_append_singleton_of_room hfull]
        exact h.dropped_eq

end Queue
end ExprTyping
