import ExprTyping.Proofs.Readability
import ExprTyping.Proofs.Selection

/-!
# Repeats are repeats

A queue takes two diagnostics for the same report if their codes, spans and messages are equal.
It compares messages as texts, in which the names of an error are only quoted.  Nevertheless
no error is taken for another one: the code tells the kind of the error, and what the message
quotes can be read off between the quotation marks.  Only the types in a mismatch of arguments
do not appear in its message, and two such mismatches at one place are merged.
-/

namespace ExprTyping

open Text

namespace Cause

/-- The mark before and after everything that a message quotes. -/
def quotationMark : Char := '\x60'

/-- All names of the cause are in use, and none has a quotation mark in its text. -/
def LegibleIn (table : Interner) (cause : Cause) : Prop :=
  ∀ name ∈ cause.names, name.id < table.size ∧ quotationMark ∉ (table.text name).toList

instance (table : Interner) (cause : Cause) : Decidable (cause.LegibleIn table) :=
  inferInstanceAs (Decidable (∀ name ∈ cause.names,
    name.id < table.size ∧ quotationMark ∉ (table.text name).toList))

/-- The arguments of a call do not match, whatever the types are. -/
def IsMismatch (cause : Cause) : Prop :=
  ∃ expected found, cause = .argumentMismatch expected found

/-- Causes with the same code differ at most in what they name. -/
theorem cases_of_code_eq {a b : Cause} (h : a.code = b.code) :
    a = b ∨
      (∃ operator operator', a = .unsupportedOperand operator ∧ b = .unsupportedOperand operator') ∨
      (∃ name name', a = .unknownIdentifier name ∧ b = .unknownIdentifier name') ∨
      (∃ struct member struct' member',
        a = .unknownMember struct member ∧ b = .unknownMember struct' member') ∨
      a.IsMismatch ∧ b.IsMismatch := by
  cases a <;> cases b <;> simp [code, IsMismatch] at h ⊢

/-! ## What a message quotes -/

section Quoted

variable {table : Interner}

theorem operator_eq_of_message_eq {operator operator' : String}
    (h : message table.text (.unsupportedOperand operator) =
      message table.text (.unsupportedOperand operator')) : operator = operator' := by
  have hquoted : "unsupported operand type for `" ++ operator ++ "`" =
      "unsupported operand type for `" ++ operator' ++ "`" := h
  rwa [String.append_left_inj, String.append_right_inj] at hquoted

theorem name_eq_of_message_eq (htable : table.Reachable) {name name' : Name}
    (hname : (unknownIdentifier name).LegibleIn table)
    (hname' : (unknownIdentifier name').LegibleIn table)
    (h : message table.text (.unknownIdentifier name) =
      message table.text (.unknownIdentifier name')) : name = name' := by
  have hquoted : "unknown identifier `" ++ table.text name ++ "`" =
      "unknown identifier `" ++ table.text name' ++ "`" := h
  rw [String.append_left_inj, String.append_right_inj] at hquoted
  exact htable.text_inj (hname name (by simp [names])).1 (hname' name' (by simp [names])).1 hquoted

theorem stopsAt_between_names (cs : List Char) :
    StopsAt [quotationMark] ("` has no member `".toList ++ cs) := by
  have hmark : "` has no member `".toList = quotationMark :: " has no member `".toList := by
    decide
  rw [hmark]
  exact stopsAt_cons (List.mem_singleton_self _)

/-- The first of two quoted names ends at the first quotation mark behind its beginning. -/
theorem names_eq_of_message_eq (htable : table.Reachable) {struct member struct' member' : Name}
    (hnames : (unknownMember struct member).LegibleIn table)
    (hnames' : (unknownMember struct' member').LegibleIn table)
    (h : message table.text (.unknownMember struct member) =
      message table.text (.unknownMember struct' member')) :
    struct = struct' ∧ member = member' := by
  obtain ⟨hstruct, hplain⟩ := hnames struct (by simp [names])
  obtain ⟨hmember, -⟩ := hnames member (by simp [names])
  obtain ⟨hstruct', hplain'⟩ := hnames' struct' (by simp [names])
  obtain ⟨hmember', -⟩ := hnames' member' (by simp [names])
  have hquoted : "struct `" ++ table.text struct ++ "` has no member `" ++
        table.text member ++ "`" =
      "struct `" ++ table.text struct' ++ "` has no member `" ++
        table.text member' ++ "`" := h
  rw [String.append_left_inj] at hquoted
  simp only [String.append_assoc, String.append_right_inj] at hquoted
  rw [← String.toList_inj] at hquoted
  simp only [String.toList_append] at hquoted
  rw [← List.forall_mem_ne'] at hplain hplain'
  obtain ⟨hfirst, hrest⟩ := append_inj_of_stopsAt (by simpa using hplain) (by simpa using hplain')
    (stopsAt_between_names _) (stopsAt_between_names _) hquoted
  have hsecond := List.append_cancel_left hrest
  constructor
  · exact htable.text_inj hstruct hstruct' (String.toList_inj.1 hfirst)
  · exact htable.text_inj hmember hmember' (String.toList_inj.1 hsecond)

/-- Code and message tell a cause, up to the types of a mismatch. -/
theorem eq_or_isMismatch_of_message_eq (htable : table.Reachable) {a b : Cause}
    (ha : a.LegibleIn table) (hb : b.LegibleIn table) (hcode : a.code = b.code)
    (hmessage : a.message table.text = b.message table.text) :
    a = b ∨ a.IsMismatch ∧ b.IsMismatch := by
  rcases cases_of_code_eq hcode with rfl | ⟨operator, operator', rfl, rfl⟩ |
    ⟨name, name', rfl, rfl⟩ | ⟨struct, member, struct', member', rfl, rfl⟩ | hmismatch
  · exact Or.inl rfl
  · rw [operator_eq_of_message_eq hmessage]
    exact Or.inl rfl
  · rw [name_eq_of_message_eq htable ha hb hmessage]
    exact Or.inl rfl
  · obtain ⟨rfl, rfl⟩ := names_eq_of_message_eq htable ha hb hmessage
    exact Or.inl rfl
  · exact Or.inr hmismatch

end Quoted

end Cause

/-- Only repeats are taken for repeats.

If all names of two errors are in use and have texts without quotation marks, the diagnostics
of the errors are the same report exactly if the errors have the same span and the same cause
or are both mismatches of arguments.  To be the same report is an equivalence relation on
diagnostics, so that it does not matter with which of several repeats one compares. -/
theorem sameReport_iff_same_error :
    (∀ table : Interner, table.Reachable → ∀ a b : TypeError,
      a.cause.LegibleIn table → b.cause.LegibleIn table →
      ((a.diagnostic table.text).sameReport (b.diagnostic table.text) = true ↔
        a.span = b.span ∧ (a.cause = b.cause ∨ a.cause.IsMismatch ∧ b.cause.IsMismatch))) ∧
    Equivalence fun d d' : Diagnostic => d.sameReport d' = true := by
  refine ⟨?_, ?_⟩
  · intro table htable a b ha hb
    rw [Diagnostic.sameReport_iff]
    constructor
    · rintro ⟨hcode, hspan, hmessage⟩
      exact ⟨hspan, Cause.eq_or_isMismatch_of_message_eq htable ha hb hcode hmessage⟩
    · obtain ⟨node, span, cause⟩ := a
      obtain ⟨node', span', cause'⟩ := b
      rintro ⟨rfl, rfl | ⟨⟨expected, found, rfl⟩, expected', found', rfl⟩⟩
      · exact ⟨rfl, rfl, rfl⟩
      · exact ⟨rfl, rfl, rfl⟩
  · simp only [Diagnostic.sameReport_iff_report_eq]
    exact ⟨fun _ => rfl, Eq.symm, Eq.trans⟩

/-- The struct `1` does not have the member. -/
def missingFrom (member : Name) : TypeError :=
  ⟨⟨1⟩, ⟨0, 7⟩, .unknownMember ⟨1⟩ member⟩

/-- A call with an argument of the given type instead of a number. -/
def notANumber (found : Ty) : TypeError :=
  ⟨⟨1⟩, ⟨0, 7⟩, .argumentMismatch [.int] [found]⟩

theorem missingMembers_reported_apart :
    let table := internerOf ["point", "x", "y"]
    table.Reachable ∧
      (missingFrom ⟨2⟩).cause.LegibleIn table ∧ (missingFrom ⟨3⟩).cause.LegibleIn table ∧
      (notANumber .bool).cause.LegibleIn table ∧
      (notANumber (.struct ⟨1⟩)).cause.LegibleIn table ∧
      ¬((missingFrom ⟨2⟩).diagnostic table.text).sameReport
        ((missingFrom ⟨3⟩).diagnostic table.text) = true ∧
      ((notANumber .bool).diagnostic table.text).sameReport
        ((notANumber (.struct ⟨1⟩)).diagnostic table.text) = true := by
  intro table
  have hpoint : (internerOf ["point"]).Reachable :=
    .push .empty (by simp [Interner.probe_empty]) (by decide)
  have hx : (internerOf ["point", "x"]).Reachable :=
    hpoint.push (by simp [internerOf, Interner.probe_push, Interner.probe_empty]) (by decide)
  have htable : table.Reachable :=
    hx.push (by simp [internerOf, Interner.probe_push, Interner.probe_empty]) (by decide)
  have htwo : (missingFrom ⟨2⟩).cause.LegibleIn table := by decide +kernel
  have hthree : (missingFrom ⟨3⟩).cause.LegibleIn table := by decide +kernel
  have hbool : (notANumber .bool).cause.LegibleIn table := by decide +kernel
  have hstruct : (notANumber (.struct ⟨1⟩)).cause.LegibleIn table := by decide +kernel
  obtain ⟨hsame, -⟩ := sameReport_iff_same_error
  refine ⟨htable, htwo, hthree, hbool, hstruct, ?_, ?_⟩
  · rw [hsame table htable _ _ htwo hthree]
    simp [missingFrom, Cause.IsMismatch]
  · rw [hsame table htable _ _ hbool hstruct]
    exact ⟨rfl, Or.inr ⟨⟨_, _, rfl⟩, _, _, rfl⟩⟩

end ExprTyping
