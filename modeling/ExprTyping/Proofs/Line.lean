import ExprTyping.Diagnostic.Layout
import ExprTyping.Proofs.Position
import Mathlib.Data.List.DropRight
import Mathlib.Data.List.TakeDrop

/-!
# Lines of a text

The line table and the excerpts of diagnostics know lines by byte offsets.  Here a line is
described by the text alone: it begins at the start of the text or behind a line feed, holds
no line feed, and ends before a line feed or at the end of the text.

The main statement is `Excerpt.of?_eq_some`.  The excerpt of a span shows the line in which
the span starts, without the carriage returns at its end, and from the column of the
excerpt on the line reads like the first line of what the span covers.  This holds in every
text shorter than `offsetLimit`: where line or column are cut off at thirty-two bits, the text
ends, and the shown line is still the right one.
-/

namespace ExprTyping
namespace Text

/-! ## Cutting a text around a line -/

/-- A text is cut into all that comes before a line, this line, and all that follows it. -/
structure CutsLine (cs before raw after : List Char) : Prop where
  text_eq : cs = before ++ raw ++ after
  starts : before = [] ∨ before.getLast? = some '\n'
  unbroken : '\n' ∉ raw
  stops : after = [] ∨ after.head? = some '\n'

/-- The line that contains an offset.  The line feed after a line belongs to it. -/
def LineAt (cs : List Char) (offset : Nat) (raw : List Char) : Prop :=
  ∃ before after, CutsLine cs before raw after ∧
    byteLength before ≤ offset ∧ offset ≤ byteLength (before ++ raw)

theorem exists_lastBreak (cs : List Char) :
    ∃ front tail, cs = front ++ tail ∧ (front = [] ∨ front.getLast? = some '\n') ∧
      '\n' ∉ tail := by
  induction cs using List.reverseRecOn with
  | nil => exact ⟨[], [], rfl, Or.inl rfl, nofun⟩
  | append_singleton cs c ih =>
      obtain ⟨front, tail, rfl, hfront, htail⟩ := ih
      by_cases hc : c = '\n'
      · refine ⟨front ++ tail ++ [c], [], by simp, Or.inr ?_, nofun⟩
        rw [List.getLast?_concat, hc]
      · refine ⟨front, tail ++ [c], by simp, hfront, ?_⟩
        simp [htail, Ne.symm hc]

theorem exists_firstBreak (cs : List Char) :
    ∃ front rest, cs = front ++ rest ∧ '\n' ∉ front ∧
      (rest = [] ∨ rest.head? = some '\n') := by
  induction cs with
  | nil => exact ⟨[], [], rfl, nofun, Or.inl rfl⟩
  | cons c cs ih =>
      by_cases hc : c = '\n'
      · exact ⟨[], c :: cs, rfl, nofun, Or.inr (by rw [hc]; rfl)⟩
      · obtain ⟨front, rest, rfl, hfront, hrest⟩ := ih
        refine ⟨c :: front, rest, rfl, ?_, hrest⟩
        simp [hfront, Ne.symm hc]

/-- Every offset between two characters lies in a line. -/
theorem IsBoundary.exists_lineAt {cs : List Char} {offset : Nat} (h : IsBoundary cs offset) :
    ∃ raw, LineAt cs offset raw := by
  obtain ⟨xs, rest, rfl, rfl⟩ := h
  obtain ⟨before, tail, rfl, hbefore, htail⟩ := exists_lastBreak xs
  obtain ⟨more, after, rfl, hmore, hafter⟩ := exists_firstBreak rest
  refine ⟨tail ++ more, before, after, ⟨by simp, hbefore, ?_, hafter⟩, ?_, ?_⟩
  · simp [htail, hmore]
  · rw [byteLength_append]
    exact Nat.le_add_right _ _
  · simp only [byteLength_append]
    omega

/-- Of two first parts of a text, the one with at least as many bytes continues the other. -/
theorem exists_append_of_byteLength_le
    {xs ys xs' ys' : List Char} (h : xs ++ ys = xs' ++ ys')
    (hle : byteLength xs ≤ byteLength xs') :
    ∃ more, xs' = xs ++ more ∧ ys = more ++ ys' := by
  rcases List.append_eq_append_iff.1 h with ⟨more, hmore⟩ | ⟨more, hxs, hys⟩
  · exact ⟨more, hmore⟩
  · have hnil : more = [] := by
      rw [hxs, byteLength_append] at hle
      have hlength := length_le_byteLength more
      exact List.eq_nil_of_length_eq_zero (by omega)
    subst hnil
    exact ⟨[], by simpa using hxs.symm, by simpa using hys.symm⟩

/-- An offset between two characters splits its line. -/
theorem CutsLine.exists_split
    {cs before raw after xs rest : List Char} (h : CutsLine cs before raw after)
    (hcut : cs = xs ++ rest) (hle : byteLength before ≤ byteLength xs)
    (hge : byteLength xs ≤ byteLength (before ++ raw)) :
    ∃ tail more, xs = before ++ tail ∧ raw = tail ++ more ∧ rest = more ++ after := by
  have htext := h.text_eq.symm.trans hcut
  obtain ⟨more, hbefore, hrest⟩ := exists_append_of_byteLength_le htext.symm hge
  rw [List.append_assoc] at htext
  obtain ⟨tail, rfl, -⟩ := exists_append_of_byteLength_le htext hle
  rw [List.append_assoc, List.append_cancel_left_eq] at hbefore
  exact ⟨tail, more, rfl, hbefore, hrest⟩

/-- The last line feed of a text of line feeds ends an empty line. -/
theorem cutsLine_replicate_lineFeed (n : Nat) :
    CutsLine (List.replicate (n + 1) '\n') (List.replicate n '\n') [] ['\n'] where
  text_eq := by rw [List.replicate_succ', List.append_nil]
  starts := by
    cases n with
    | zero => exact Or.inl rfl
    | succ n => rw [List.replicate_succ', List.getLast?_concat]; exact Or.inr rfl
  unbroken := List.not_mem_nil
  stops := Or.inr rfl

/-! ## The start of a line -/

theorem startsAfter_of_notMem {cs : List Char} (h : '\n' ∉ cs) (offset : Nat) :
    startsAfter offset cs = [] := by
  induction cs generalizing offset with
  | nil => rfl
  | cons c cs ih =>
      rw [List.mem_cons, not_or] at h
      rw [startsAfter, if_neg (Ne.symm h.1)]
      exact ih h.2 _

theorem length_startsAfter (offset : Nat) (cs : List Char) :
    (startsAfter offset cs).length = cs.count '\n' := by
  induction cs generalizing offset with
  | nil => rfl
  | cons c cs ih =>
      rw [startsAfter, List.count_cons]
      by_cases hc : c = '\n'
      · simp [hc, ih]
      · simp [hc, ih]

/-- Behind a line feed, the last line that has begun begins right there. -/
theorem getLast?_startsAfter
    {before : List Char} (h : before = [] ∨ before.getLast? = some '\n') :
    (0 :: startsAfter 0 before).getLast? = some (byteLength before) := by
  rcases h with rfl | hlast
  · rfl
  · obtain ⟨front, rfl⟩ := List.getLast?_eq_some_iff.1 hlast
    rw [startsAfter_append, startsAfter, if_pos rfl, startsAfter, ← List.cons_append,
      List.getLast?_concat]
    simp

/-- The line feed that ends a line is followed by the start of the next one. -/
theorem head?_startsAfter {offset : Nat} {after : List Char}
    (h : after = [] ∨ after.head? = some '\n') :
    (startsAfter offset after).head? = after.head?.map fun _ => offset + 1 := by
  rcases h with rfl | hhead
  · rfl
  · obtain ⟨rest, rfl⟩ := List.head?_eq_some_iff.1 hhead
    rw [startsAfter, if_pos rfl]
    rfl

theorem rdropWhile_congr {p q : Char → Bool} {cs : List Char} (h : ∀ c ∈ cs, p c = q c) :
    cs.rdropWhile p = cs.rdropWhile q := by
  induction cs using List.reverseRecOn with
  | nil => rfl
  | append_singleton cs c ih =>
      have hcs := ih fun d hd => h d (by simp [hd])
      rw [List.rdropWhile_concat, List.rdropWhile_concat, h c (by simp), hcs]

/-- A line and its line feed lose all that can end a line. -/
theorem trimBreaks_line {raw after : List Char} (hraw : '\n' ∉ raw)
    (h : after = [] ∨ after.head? = some '\n') :
    trimBreaks (raw ++ after.take 1) = raw.rdropWhile (· = '\r') := by
  have hcarriage : raw.rdropWhile isBreak = raw.rdropWhile (· = '\r') := by
    apply rdropWhile_congr
    intro c hc
    have hne : c ≠ '\n' := by
      rintro rfl
      exact hraw hc
    simp [isBreak, hne]
  rw [← hcarriage]
  change (raw ++ after.take 1).rdropWhile isBreak = _
  rcases h with rfl | hhead
  · simp
  · obtain ⟨rest, rfl⟩ := List.head?_eq_some_iff.1 hhead
    exact List.rdropWhile_concat_pos _ _ _ rfl

end Text

open Text

/-! ## Lines by the line table -/

namespace LineTable

variable {source : String} {before raw after : List Char}
variable (hsize : byteLength source.toList < offsetLimit)

include hsize

/-- The place of an offset in a line counts the lines before and the characters in front of
the offset. -/
theorem place_of_cutsLine (h : CutsLine source.toList before raw after) {tail more : List Char}
    (hraw : raw = tail ++ more) :
    (ofText source).place source (byteLength (before ++ tail)) =
      ⟨(startsAfter 0 before).length + 1, tail.length + 1⟩ := by
  have hcut : source.toList = (before ++ tail) ++ (more ++ after) := by
    rw [h.text_eq, hraw]
    simp
  have htail : '\n' ∉ tail := by
    intro hmem
    exact h.unbroken (hraw ▸ List.mem_append_left _ hmem)
  have hstarts : startsAfter 0 (before ++ tail) = startsAfter 0 before := by
    rw [startsAfter_append, startsAfter_of_notMem htail, List.append_nil]
  have hindex := lineIndex_ofText hsize hcut
  have hstart := lineStart_ofText hsize hcut
    (by rw [hstarts]; exact getLast?_startsAfter h.starts)
  have hstop : min (byteLength (before ++ tail)) (byteLength source.toList) =
      byteLength (before ++ tail) := by
    rw [hcut, byteLength_append (before ++ tail)]
    omega
  have hslice : slice? source.toList (byteLength before) (byteLength (before ++ tail)) =
      some tail := by
    rw [slice?_eq_some_iff]
    exact ⟨before, more ++ after, hcut, rfl, rfl⟩
  rw [hstarts] at hindex hstart
  rw [place, hindex, hstart, hstop, hslice]
  rfl

/-- The text of a line is the line without the carriage returns at its end. -/
theorem lineText_of_cutsLine (h : CutsLine source.toList before raw after) :
    (ofText source).lineText source ((startsAfter 0 before).length + 1) =
      raw.rdropWhile (· = '\r') := by
  have hcut : source.toList = before ++ (raw ++ after) := by
    rw [h.text_eq, List.append_assoc]
  have hstarts : (ofText source).starts =
      (0 :: startsAfter 0 before) ++ startsAfter (byteLength (before ++ raw)) after := by
    rw [starts_ofText hsize, h.text_eq, startsAfter_append, startsAfter_append,
      startsAfter_of_notMem h.unbroken, List.append_nil, Nat.zero_add]
    rfl
  have hnext : (ofText source).starts[(startsAfter 0 before).length + 1]? =
      after.head?.map fun _ => byteLength (before ++ raw) + 1 := by
    rw [hstarts, ← List.length_cons (a := 0), List.getElem?_append_right (Nat.le_refl _),
      Nat.sub_self, ← List.head?_eq_getElem?, head?_startsAfter h.stops]
  have hlength : (startsAfter 0 before).length < (ofText source).starts.length := by
    rw [hstarts, List.length_append, List.length_cons]
    omega
  have hslice : slice? source.toList (byteLength before)
      ((after.head?.map fun _ => byteLength (before ++ raw) + 1).getD
        (byteLength source.toList)) = some (raw ++ after.take 1) := by
    rw [slice?_eq_some_iff]
    rcases h.stops with rfl | hhead
    · refine ⟨before, [], by simpa using hcut, rfl, ?_⟩
      simp [hcut]
    · obtain ⟨rest, rfl⟩ := List.head?_eq_some_iff.1 hhead
      refine ⟨before, rest, by simpa using hcut, rfl, ?_⟩
      simp [byteLength_append]
      rfl
  rw [lineText]
  simp only [Nat.add_sub_cancel]
  rw [if_pos hlength, hnext, lineStart_ofText hsize hcut (getLast?_startsAfter h.starts), hslice]
  exact trimBreaks_line h.unbroken h.stops

/-- The text of a line is also found by the nearest number of thirty-two bits. -/
theorem lineText_saturate (h : CutsLine source.toList before raw after) :
    (ofText source).lineText source (saturate ((startsAfter 0 before).length + 1)) =
      raw.rdropWhile (· = '\r') := by
  rcases Nat.lt_or_ge ((startsAfter 0 before).length + 1) offsetLimit with hline | hline
  · rw [saturate_of_lt hline, lineText_of_cutsLine hsize h]
  · -- With so many line feeds before the line, there is nothing else in the text.
    have hlength : byteLength source.toList =
        byteLength before + byteLength raw + byteLength after := by
      rw [h.text_eq, byteLength_append, byteLength_append]
    have hbefore := length_le_byteLength before
    have hraw := length_le_byteLength raw
    have hafter := length_le_byteLength after
    have hcount := List.count_le_length (a := '\n') (l := before)
    rw [saturate_of_le hline]
    rw [length_startsAfter] at hline
    obtain ⟨n, hn⟩ : ∃ n, offsetLimit = n + 2 := ⟨_, rfl⟩
    have hfeeds : ∀ c ∈ before, '\n' = c := List.count_eq_length.1 (by omega)
    obtain rfl : before = List.replicate (n + 1) '\n' :=
      List.eq_replicate_iff.2 ⟨by omega, fun c hc => (hfeeds c hc).symm⟩
    obtain rfl : raw = [] := List.eq_nil_of_length_eq_zero (by omega)
    obtain rfl : after = [] := List.eq_nil_of_length_eq_zero (by omega)
    have hsource : source.toList = List.replicate (n + 1) '\n' := by
      simpa using h.text_eq
    have hprevious := lineText_of_cutsLine hsize (hsource ▸ cutsLine_replicate_lineFeed n)
    rw [length_startsAfter, List.count_replicate_self] at hprevious
    rw [hn]
    exact hprevious

end LineTable

/-! ## The first line of a text -/

namespace Text

/-- The part of a text before its first line feed, or all of it.  A carriage return directly
before the line feed does not belong to it. -/
inductive FirstLine : List Char → List Char → Prop where
  | whole {cs : List Char} (hcs : '\n' ∉ cs) : FirstLine cs cs
  | lineFeed {first rest : List Char} (hfirst : '\n' ∉ first)
      (hlast : first.getLast? ≠ some '\r') : FirstLine (first ++ '\n' :: rest) first
  | carriageReturn {first rest : List Char} (hfirst : '\n' ∉ first) :
      FirstLine (first ++ '\r' :: '\n' :: rest) first

namespace FirstLine

variable {cs first : List Char}

theorem unbroken (h : FirstLine cs first) : '\n' ∉ first := by
  rcases h with hcs | ⟨hfirst, -⟩ | hfirst
  · exact hcs
  · exact hfirst
  · exact hfirst

theorem isPrefix (h : FirstLine cs first) : first <+: cs := by
  rcases h with hcs | ⟨hfirst, -⟩ | hfirst
  · exact List.prefix_refl _
  · exact List.prefix_append _ _
  · exact List.prefix_append _ _

theorem exists_of_text (cs : List Char) : ∃ first, FirstLine cs first := by
  obtain ⟨front, rest, rfl, hfront, rfl | hrest⟩ := exists_firstBreak cs
  · rw [List.append_nil]
    exact ⟨front, whole hfront⟩
  · obtain ⟨rest, rfl⟩ := List.head?_eq_some_iff.1 hrest
    by_cases hlast : front.getLast? = some '\r'
    · obtain ⟨first, rfl⟩ := List.getLast?_eq_some_iff.1 hlast
      rw [List.append_assoc]
      refine ⟨first, carriageReturn ?_⟩
      intro hmem
      exact hfront (List.mem_append_left _ hmem)
    · exact ⟨front, lineFeed hfront hlast⟩

/-- There is no other first line than the computed one. -/
theorem firstLine_eq (h : FirstLine cs first) : Excerpt.firstLine cs = first := by
  have hkeep : ∀ front : List Char, '\n' ∉ front → ∀ c ∈ front, decide (c ≠ '\n') = true := by
    intro front hfront c hc
    simp only [decide_eq_true_eq]
    rintro rfl
    exact hfront hc
  rw [Excerpt.firstLine, List.span_eq_takeWhile_dropWhile]
  rcases h with hcs | ⟨hfirst, hlast⟩ | hfirst
  · rw [List.takeWhile_eq_self_iff.2 (hkeep _ hcs), List.dropWhile_eq_nil_iff.2 (hkeep _ hcs)]
  · rw [List.takeWhile_append_of_pos (hkeep _ hfirst), List.dropWhile_append_of_pos (hkeep _ hfirst)]
    simp [hlast]
  · rw [List.takeWhile_append_of_pos (hkeep _ hfirst), List.dropWhile_append_of_pos (hkeep _ hfirst)]
    simp

/-- The first line of what follows an offset is the rest of the line of the offset, or
stops before. -/
theorem isPrefix_line (h : FirstLine cs first) {more after : List Char}
    (hcs : cs <+: more ++ after) (hafter : after = [] ∨ after.head? = some '\n') :
    first <+: more := by
  obtain ⟨later, hlater⟩ := h.isPrefix.trans hcs
  rcases List.append_eq_append_iff.1 hlater with ⟨rest, rfl, -⟩ | ⟨rest, hfirst, hrest⟩
  · exact List.prefix_append _ _
  · rcases rest with _ | ⟨c, rest⟩
    · rw [List.append_nil] at hfirst
      exact hfirst ▸ List.prefix_refl _
    · -- The line ends with a line feed here, which the first line would have to contain.
      rw [hrest] at hafter
      have hbreak : c = '\n' := by simpa using hafter
      refine absurd ?_ h.unbroken
      rw [hfirst, hbreak]
      simp

end FirstLine
end Text

/-! ## The excerpt of a span -/

/-- The excerpt of a span is cut out of the line in which the span starts. -/
theorem Excerpt.of?_eq_some
    {source : String} {span : Span} {covered raw first : List Char}
    (hsize : byteLength source.toList < offsetLimit)
    (hcovered : span.covered? source = some covered)
    (hraw : LineAt source.toList span.start raw) (hfirst : FirstLine covered first) :
    let position := (LineTable.ofText source).position source span.start
    Excerpt.of? source span =
        some ⟨position, raw.rdropWhile (· = '\r'), max 1 first.length⟩ ∧
      first <+: raw.drop (position.column - 1) := by
  intro position
  obtain ⟨xs, ys, htext, hstart, -⟩ := slice?_eq_some_iff.1 hcovered
  rw [List.append_assoc] at htext
  obtain ⟨before, after, hline, hle, hge⟩ := hraw
  rw [← hstart] at hle hge
  obtain ⟨tail, more, rfl, rfl, hrest⟩ := hline.exists_split htext hle hge
  have hposition : position =
      ⟨saturate ((startsAfter 0 before).length + 1), saturate (tail.length + 1)⟩ := by
    change (LineTable.ofText source).position source span.start = _
    rw [← hstart, LineTable.position, LineTable.place_of_cutsLine hsize hline rfl]
    rfl
  constructor
  · have hexcerpt : Excerpt.of? source span =
        some ⟨position, (LineTable.ofText source).lineText source position.line,
          max 1 (Excerpt.firstLine covered).length⟩ := by
      rw [Excerpt.of?, hcovered]
      rfl
    rw [hexcerpt, hfirst.firstLine_eq, hposition, LineTable.lineText_saturate hsize hline]
  · rw [hposition]
    rcases Nat.lt_or_ge (tail.length + 1) offsetLimit with hcolumn | hcolumn
    · rw [saturate_of_lt hcolumn, Nat.add_sub_cancel, List.drop_left]
      exact hfirst.isPrefix_line ⟨ys, hrest⟩ hline.stops
    · -- Only the end of the text can have such a column, and nothing is covered there.
      have hbytes := length_le_byteLength tail
      have hlength := length_le_byteLength covered
      simp only [htext, byteLength_append] at hsize
      obtain rfl : covered = [] := List.eq_nil_of_length_eq_zero (by omega)
      obtain rfl : first = [] := List.prefix_nil.1 hfirst.isPrefix
      exact List.nil_prefix

end ExprTyping
