import ExprTyping.Proofs.Report

/-!
# Positions in the order of the text

Whoever reads a text one character at a time moves on by one column, and after a line feed
to the first column of the next line.  Either way the reader moves ahead.

The line table computes positions without reading: it looks for the last line that starts
no later than an offset and counts the characters from there.  At every offset between two
characters this is the place that the reader has reached.  Line and column of the place may
exceed thirty-two bits only at the largest offset, the end of a text that could not be longer.
Everywhere else positions are in the order of offsets.  A report, which is sorted by positions,
is then sorted by offsets.
-/

namespace ExprTyping

namespace Text

/-- An offset at which a text can be cut: some first part of it has that many bytes. -/
def IsBoundary (cs : List Char) (offset : Nat) : Prop :=
  ∃ xs ys, cs = xs ++ ys ∧ byteLength xs = offset

theorem isBoundary_iff_isSome {cs : List Char} {offset : Nat} :
    IsBoundary cs offset ↔ (splitAt? cs offset).isSome = true := by
  rw [Option.isSome_iff_exists]
  constructor
  · rintro ⟨xs, ys, hcut⟩
    exact ⟨(xs, ys), splitAt?_eq_some_iff.2 hcut⟩
  · rintro ⟨⟨xs, ys⟩, hcut⟩
    exact ⟨xs, ys, splitAt?_eq_some_iff.1 hcut⟩

instance (cs : List Char) (offset : Nat) : Decidable (IsBoundary cs offset) :=
  decidable_of_iff _ isBoundary_iff_isSome.symm

theorem IsBoundary.le_byteLength {cs : List Char} {offset : Nat} (h : IsBoundary cs offset) :
    offset ≤ byteLength cs := by
  obtain ⟨xs, ys, rfl, rfl⟩ := h
  rw [byteLength_append]
  exact Nat.le_add_right _ _

/-- An offset between two characters that is smaller than the largest offset. -/
structure IsInnerBoundary (cs : List Char) (offset : Nat) : Prop where
  isBoundary : IsBoundary cs offset
  succ_lt : offset + 1 < offsetLimit

theorem IsBoundary.isInnerBoundary {cs : List Char} {offset : Nat} (h : IsBoundary cs offset)
    (hsize : byteLength cs < offsetLimit)
    (hroom : offset < byteLength cs ∨ byteLength cs + 1 < offsetLimit) :
    IsInnerBoundary cs offset := by
  have hle := h.le_byteLength
  exact ⟨h, by omega⟩

theorem length_le_byteLength (cs : List Char) : cs.length ≤ byteLength cs := by
  induction cs with
  | nil => exact Nat.le_refl 0
  | cons c cs ih =>
      have hpos := c.utf8Size_pos
      rw [List.length_cons, byteLength_cons]
      omega

/-- Of two first parts of a text, the one with more bytes continues the other. -/
theorem exists_append_of_byteLength_lt
    {xs ys xs' ys' : List Char} (h : xs ++ ys = xs' ++ ys')
    (hlt : byteLength xs < byteLength xs') :
    ∃ c cs, xs' = xs ++ c :: cs := by
  rcases List.append_eq_append_iff.1 h with ⟨more, rfl, -⟩ | ⟨more, rfl, -⟩
  · rcases more with _ | ⟨c, cs⟩
    · simp at hlt
    · exact ⟨c, cs, rfl⟩
  · rw [byteLength_append] at hlt
    omega

/-! ## Line starts -/

theorem startsAfter_append (offset : Nat) (xs ys : List Char) :
    startsAfter offset (xs ++ ys) =
      startsAfter offset xs ++ startsAfter (offset + byteLength xs) ys := by
  induction xs generalizing offset with
  | nil => rfl
  | cons c xs ih =>
      rw [List.cons_append, startsAfter, startsAfter, ih, byteLength_cons, Nat.add_assoc]
      split
      · rfl
      · rfl

/-- A line that follows starts after a character, and no later than the text ends. -/
theorem mem_startsAfter_bounds
    {offset start : Nat} {cs : List Char} (h : start ∈ startsAfter offset cs) :
    offset < start ∧ start ≤ offset + byteLength cs := by
  induction cs generalizing offset with
  | nil => exact absurd h List.not_mem_nil
  | cons c cs ih =>
      have hpos := c.utf8Size_pos
      have hlater : start ∈ startsAfter (offset + c.utf8Size) cs →
          offset < start ∧ start ≤ offset + byteLength (c :: cs) := by
        intro hmem
        have hbounds := ih hmem
        rw [byteLength_cons]
        omega
      rw [startsAfter] at h
      split at h
      · rcases List.mem_cons.1 h with rfl | hmem
        · rw [byteLength_cons]
          omega
        · exact hlater hmem
      · exact hlater h

end Text

open Text

/-! ## The place that a reader has reached -/

namespace Position

/-- The place before the first character. -/
def first : Position := ⟨1, 1⟩

/-- The place behind a character. -/
def advance (p : Position) (c : Char) : Position :=
  if c = '\n' then ⟨p.line + 1, 1⟩ else ⟨p.line, p.column + 1⟩

/-- The place behind a text. -/
def behind (cs : List Char) : Position :=
  cs.foldl advance first

/-- The lexicographic order of lines and columns. -/
def Before (a b : Position) : Prop :=
  a.line < b.line ∨ a.line = b.line ∧ a.column < b.column

theorem Before.trans {a b c : Position} (hab : a.Before b) (hbc : b.Before c) : a.Before c := by
  unfold Before at *
  omega

theorem le_eq_true_iff {a b : Position} : a.le b = true ↔ ¬b.Before a := by
  simp only [le, Before, Bool.or_eq_true, Bool.and_eq_true, decide_eq_true_eq]
  omega

theorem before_advance (p : Position) (c : Char) : p.Before (p.advance c) := by
  rw [advance]
  split
  · exact Or.inl (Nat.lt_succ_self _)
  · exact Or.inr ⟨rfl, Nat.lt_succ_self _⟩

theorem before_foldl_advance (p : Position) (c : Char) (cs : List Char) :
    p.Before ((c :: cs).foldl advance p) := by
  induction cs generalizing p c with
  | nil => exact before_advance p c
  | cons next cs ih => exact (before_advance p c).trans (ih (p.advance c) next)

theorem behind_concat (xs : List Char) (c : Char) :
    behind (xs ++ [c]) = (behind xs).advance c := by
  rw [behind, List.foldl_append]
  rfl

/-- A reader who reads on is further ahead. -/
theorem behind_before_behind_append (xs : List Char) (c : Char) (cs : List Char) :
    (behind xs).Before (behind (xs ++ c :: cs)) := by
  rw [behind, behind, List.foldl_append]
  exact before_foldl_advance _ c cs

/-- Every character moves on either the line or the column. -/
theorem line_add_column_behind_le (xs : List Char) :
    (behind xs).line + (behind xs).column ≤ xs.length + 2 ∧
      1 ≤ (behind xs).line ∧ 1 ≤ (behind xs).column := by
  induction xs using List.reverseRecOn with
  | nil => exact ⟨Nat.le_refl _, Nat.le_refl _, Nat.le_refl _⟩
  | append_singleton xs c ih =>
      rw [behind_concat, advance, List.length_append, List.length_singleton]
      split
      · dsimp only
        omega
      · dsimp only
        omega

/-- If line and column are cut off, no place gets in front of an earlier one. -/
theorem Before.saturate_le {a b : Position} (h : a.Before b)
    (ha : a.line + a.column ≤ Text.offsetLimit) (hcolumn : 1 ≤ a.column)
    (hcolumn' : 1 ≤ b.column) : a.saturate.le b.saturate = true := by
  rw [le_eq_true_iff]
  simp only [Before, Position.saturate, Text.saturate] at *
  omega

/-- The place behind a text lies behind its last line feed: it is in the line that starts
there, after the characters that follow. -/
theorem exists_behind_eq (xs : List Char) :
    ∃ front tail, xs = front ++ tail ∧
      (0 :: startsAfter 0 xs).getLast? = some (byteLength front) ∧
      behind xs = ⟨(startsAfter 0 xs).length + 1, tail.length + 1⟩ := by
  induction xs using List.reverseRecOn with
  | nil => exact ⟨[], [], rfl, rfl, rfl⟩
  | append_singleton xs c ih =>
      obtain ⟨front, tail, hxs, hlast, hbehind⟩ := ih
      have hstarts : startsAfter 0 (xs ++ [c]) =
          startsAfter 0 xs ++ startsAfter (byteLength xs) [c] := by
        rw [startsAfter_append, Nat.zero_add]
      rw [behind_concat, hbehind, advance, hstarts]
      by_cases hbreak : c = '\n'
      · subst hbreak
        refine ⟨xs ++ ['\n'], [], by simp, ?_, ?_⟩
        · rw [startsAfter, if_pos rfl, ← List.cons_append, startsAfter, List.getLast?_concat]
          simp
        · simp [startsAfter]
      · refine ⟨front, tail ++ [c], by simp [hxs], ?_, ?_⟩
        · simpa [startsAfter, hbreak] using hlast
        · simp [startsAfter, hbreak]

end Position

/-! ## Positions by the line table -/

namespace LineTable

variable {source : String}

/-- Offsets beyond the end stand for the end. -/
theorem place_of_length_le {offset : Nat} (h : byteLength source.toList ≤ offset) :
    (ofText source).place source offset =
      (ofText source).place source (byteLength source.toList) := by
  have hindex : ∀ k, byteLength source.toList ≤ k →
      (ofText source).lineIndex k = (ofText source).starts.length - 1 := by
    intro k hk
    have hall : (ofText source).starts.countP (· ≤ k) = (ofText source).starts.length := by
      rw [List.countP_eq_length]
      intro start hstart
      simp only [decide_eq_true_eq]
      rcases List.mem_cons.1 hstart with rfl | hlater
      · exact Nat.zero_le k
      · obtain ⟨later, hmem, rfl⟩ := List.mem_map.1 hlater
        have hbounds := mem_startsAfter_bounds hmem
        have hle : saturate later ≤ later := Nat.min_le_left _ _
        omega
    rw [lineIndex, hall]
  rw [place, place, hindex offset h, hindex _ (Nat.le_refl _), Nat.min_eq_right h,
    Nat.min_self]

theorem position_of_length_le {offset : Nat} (h : byteLength source.toList ≤ offset) :
    (ofText source).position source offset =
      (ofText source).position source (byteLength source.toList) := by
  rw [position, position, place_of_length_le h]

variable (hsize : byteLength source.toList < offsetLimit)

include hsize

/-- In a text shorter than `offsetLimit`, all line starts are smaller. -/
theorem starts_ofText : (ofText source).starts = 0 :: startsAfter 0 source.toList := by
  have hsame : (startsAfter 0 source.toList).map saturate = startsAfter 0 source.toList := by
    calc
      (startsAfter 0 source.toList).map saturate = (startsAfter 0 source.toList).map id := by
        apply List.map_congr_left
        intro start hstart
        have hbounds := mem_startsAfter_bounds hstart
        exact saturate_of_lt (by omega)
      _ = startsAfter 0 source.toList := List.map_id _
  rw [ofText, hsame]

theorem lineIndex_ofText {xs ys : List Char} (h : source.toList = xs ++ ys) :
    (ofText source).lineIndex (byteLength xs) = (startsAfter 0 xs).length := by
  have hbefore : (startsAfter 0 xs).countP (· ≤ byteLength xs) = (startsAfter 0 xs).length := by
    rw [List.countP_eq_length]
    intro start hstart
    have hbounds := mem_startsAfter_bounds hstart
    simp only [decide_eq_true_eq]
    omega
  have hafter : (startsAfter (byteLength xs) ys).countP (· ≤ byteLength xs) = 0 := by
    rw [List.countP_eq_zero]
    intro start hstart
    have hbounds := mem_startsAfter_bounds hstart
    simp only [decide_eq_true_eq]
    omega
  rw [lineIndex, starts_ofText hsize, h, startsAfter_append, Nat.zero_add, List.countP_cons,
    List.countP_append, hbefore, hafter]
  simp

theorem lineStart_ofText {xs ys : List Char} (h : source.toList = xs ++ ys) {start : Nat}
    (hlast : (0 :: startsAfter 0 xs).getLast? = some start) :
    (ofText source).lineStart (startsAfter 0 xs).length = start := by
  have hget : (0 :: startsAfter 0 (xs ++ ys))[(startsAfter 0 xs).length]? = some start := by
    rw [startsAfter_append, ← List.cons_append,
      List.getElem?_append_left (Nat.lt_succ_self _), ← hlast, List.getLast?_eq_getElem?]
    rfl
  rw [lineStart, starts_ofText hsize, h, hget]
  rfl

/-- Between two characters, the table finds the place behind the characters before. -/
theorem place_eq_behind {xs ys : List Char} (h : source.toList = xs ++ ys) :
    (ofText source).place source (byteLength xs) = Position.behind xs := by
  obtain ⟨front, tail, hxs, hlast, hbehind⟩ := Position.exists_behind_eq xs
  have hstop : min (byteLength xs) (byteLength source.toList) = byteLength xs := by
    rw [h, byteLength_append]
    omega
  have hslice : slice? source.toList (byteLength front) (byteLength xs) = some tail := by
    rw [slice?_eq_some_iff]
    exact ⟨front, ys, by rw [h, hxs], rfl, by rw [hxs]⟩
  rw [place, lineIndex_ofText hsize h, lineStart_ofText hsize h hlast, hstop, hslice, hbehind]
  rfl

/-- Below the largest offset, the position is the place behind the characters before. -/
theorem position_eq_behind
    {xs ys : List Char} (h : source.toList = xs ++ ys) (hroom : byteLength xs + 1 < offsetLimit) :
    (ofText source).position source (byteLength xs) = Position.behind xs := by
  have hlength := length_le_byteLength xs
  obtain ⟨hsum, hline, hcolumn⟩ := Position.line_add_column_behind_le xs
  rw [position, place_eq_behind hsize h]
  exact Position.saturate_of_lt (by omega) (by omega)

theorem position_before_position {a b : Nat}
    (ha : IsInnerBoundary source.toList a) (hb : IsInnerBoundary source.toList b)
    (hlt : a < b) :
    ((ofText source).position source a).Before ((ofText source).position source b) := by
  obtain ⟨⟨xs, ys, hcut, rfl⟩, hroom⟩ := ha
  obtain ⟨⟨xs', ys', hcut', rfl⟩, hroom'⟩ := hb
  rw [position_eq_behind hsize hcut hroom, position_eq_behind hsize hcut' hroom']
  obtain ⟨c, cs, rfl⟩ := exists_append_of_byteLength_lt (hcut.symm.trans hcut') hlt
  exact Position.behind_before_behind_append xs c cs

/-- Positions do not decrease up to the end of the text. -/
theorem position_le_position {a b : Nat}
    (ha : IsBoundary source.toList a) (hb : IsBoundary source.toList b) (hle : a ≤ b) :
    ((ofText source).position source a).le ((ofText source).position source b) = true := by
  rcases Nat.eq_or_lt_of_le hle with rfl | hlt
  · exact Position.le_refl _
  · have hend := hb.le_byteLength
    obtain ⟨xs, ys, hcut, rfl⟩ := ha
    obtain ⟨xs', ys', hcut', rfl⟩ := hb
    rw [position, position, place_eq_behind hsize hcut, place_eq_behind hsize hcut']
    obtain ⟨c, cs, rfl⟩ := exists_append_of_byteLength_lt (hcut.symm.trans hcut') hlt
    obtain ⟨hsum, -, hcolumn⟩ := Position.line_add_column_behind_le xs
    have hlength := length_le_byteLength xs
    exact (Position.behind_before_behind_append xs c cs).saturate_le (by omega) hcolumn
      (Position.line_add_column_behind_le _).2.2

theorem position_le_position_iff {a b : Nat}
    (ha : IsInnerBoundary source.toList a) (hb : IsInnerBoundary source.toList b) :
    ((ofText source).position source a).le ((ofText source).position source b) = true ↔
      a ≤ b := by
  constructor
  · intro hle
    by_contra hlt
    exact Position.le_eq_true_iff.1 hle
      (position_before_position hsize hb ha (Nat.lt_of_not_le hlt))
  · exact position_le_position hsize ha.isBoundary hb.isBoundary

theorem position_inj {a b : Nat}
    (ha : IsInnerBoundary source.toList a) (hb : IsInnerBoundary source.toList b)
    (h : (ofText source).position source a = (ofText source).position source b) : a = b := by
  apply Nat.le_antisymm
  · rw [← position_le_position_iff hsize ha hb, h]
    exact Position.le_refl _
  · rw [← position_le_position_iff hsize hb ha, h]
    exact Position.le_refl _

end LineTable

/-! ## The longest line

The largest offset is left out for a reason: a line can be so long that the column of its end
is cut off. -/

/-- A line of `n` letters. -/
def Text.letters (n : Nat) : String :=
  String.ofList (List.replicate n 'a')

theorem Text.byteLength_replicate_letter (n : Nat) : byteLength (List.replicate n 'a') = n := by
  induction n with
  | zero => rfl
  | succ n ih =>
      rw [List.replicate_succ, byteLength_cons, ih, Nat.add_comm]
      rfl

theorem Text.byteLength_letters (n : Nat) : byteLength (letters n).toList = n := by
  rw [letters, String.toList_ofList, byteLength_replicate_letter]

theorem Position.behind_replicate_letter (n : Nat) :
    behind (List.replicate n 'a') = ⟨1, n + 1⟩ := by
  induction n with
  | zero => rfl
  | succ n ih =>
      rw [List.replicate_succ', behind_concat, ih]
      rfl

theorem LineTable.place_letters {k n : Nat} (hle : k ≤ n) (hn : n < offsetLimit) :
    (ofText (letters n)).place (letters n) k = ⟨1, k + 1⟩ := by
  have hcut : (letters n).toList = List.replicate k 'a' ++ List.replicate (n - k) 'a' := by
    rw [letters, String.toList_ofList, List.replicate_append_replicate, Nat.add_sub_cancel' hle]
  have hplace := place_eq_behind (by rwa [byteLength_letters]) hcut
  rwa [byteLength_replicate_letter, Position.behind_replicate_letter] at hplace

/-- In the longest line, the end has the position of the last letter. -/
theorem LineTable.position_end_of_longest_line :
    let source := letters (offsetLimit - 1)
    (ofText source).position source (offsetLimit - 1) =
      (ofText source).position source (offsetLimit - 2) := by
  intro source
  have hlt : offsetLimit - 1 < offsetLimit := by decide
  rw [position, position, place_letters (Nat.le_refl _) hlt, place_letters (by decide) hlt]
  decide

/-! ## Reports by offset -/

/-- The second list is the first one ordered by the starts of spans, where diagnostics with
the same start stay in the order of the first list. -/
structure SortedByStart (before after : List Diagnostic) : Prop where
  perm : after.Perm before
  ordered : after.Pairwise fun a b => a.span.start ≤ b.span.start
  stable : ∀ offset, after.filter (·.span.start = offset) = before.filter (·.span.start = offset)

/-- Where all spans start between characters, sorting by position sorts by start. -/
theorem StablySorted.sortedByStart
    {source : String} {before after : List Diagnostic}
    (h : StablySorted (Report.positionIn source) before after)
    (hsize : byteLength source.toList < offsetLimit)
    (hstarts : ∀ d ∈ before, IsInnerBoundary source.toList d.span.start) :
    SortedByStart before after := by
  have hafter : ∀ d ∈ after, IsInnerBoundary source.toList d.span.start :=
    fun d hd => hstarts d (h.perm.mem_iff.1 hd)
  refine ⟨h.perm, ?_, ?_⟩
  · refine h.ordered.imp_of_mem ?_
    intro a b ha hb hle
    exact (LineTable.position_le_position_iff hsize (hafter a ha) (hafter b hb)).1 hle
  · intro offset
    by_cases hoffset : IsInnerBoundary source.toList offset
    · have hfilter : ∀ ds : List Diagnostic,
          (∀ d ∈ ds, IsInnerBoundary source.toList d.span.start) →
          ds.filter (·.span.start = offset) =
            ds.filter (Report.positionIn source · =
              (LineTable.ofText source).position source offset) := by
        intro ds hds
        apply List.filter_congr
        intro d hd
        rw [decide_eq_decide]
        constructor
        · rintro rfl
          rfl
        · exact LineTable.position_inj hsize (hds d hd) hoffset
      rw [hfilter after hafter, hfilter before hstarts, h.stable]
    · have hnone : ∀ ds : List Diagnostic,
          (∀ d ∈ ds, IsInnerBoundary source.toList d.span.start) →
          ds.filter (·.span.start = offset) = [] := by
        intro ds hds
        rw [List.filter_eq_nil_iff]
        intro d hd heq
        simp only [decide_eq_true_eq] at heq
        exact hoffset (heq ▸ hds d hd)
      rw [hnone after hafter, hnone before hstarts]

/-- Positions are in the order of offsets, and so are reports.

In a text shorter than `offsetLimit`, line and column increase strictly from each offset
between characters to the next, as long as these lie in front of the end.  The end is no
exception, unless the text could not be longer; then its position may be that of the offset
before, but is no smaller.  All offsets from the end on have the position of the end.  If all errors start at such offsets, a report shows the kept diagnostics in stable
order of their starts, followed by nothing but the notice. -/
theorem positions_ordered_like_offsets
    (source : String) (hsize : byteLength source.toList < offsetLimit) :
    let position := (LineTable.ofText source).position source
    let length := byteLength source.toList
    (∀ a b, IsBoundary source.toList a → IsBoundary source.toList b → a < b →
      b < length ∨ length + 1 < offsetLimit → (position a).Before (position b)) ∧
    (∀ a b, IsBoundary source.toList a → IsBoundary source.toList b → a ≤ b →
      (position a).le (position b) = true) ∧
    (∀ offset, length ≤ offset → position offset = position length) ∧
    (∀ results text config,
      (∀ result ∈ results, ∀ error ∈ Checked.errors result,
        IsBoundary source.toList error.span.start ∧
          (error.span.start < length ∨ length + 1 < offsetLimit)) →
      ∃ sorted notices,
        (Report.collect results text source config).diagnostics = sorted ++ notices ∧
        SortedByStart (config.kept (Report.offered text results)) sorted ∧
        ∀ d ∈ notices, d.code = .limitNotice) := by
  intro position length
  refine ⟨?_, fun a b => LineTable.position_le_position hsize,
    fun offset => LineTable.position_of_length_le, ?_⟩
  · intro a b ha hb hlt hroom
    have hfront : a < length ∨ length + 1 < offsetLimit := hroom.imp_left (Nat.lt_trans hlt)
    exact LineTable.position_before_position hsize (ha.isInnerBoundary hsize hfront)
      (hb.isInnerBoundary hsize hroom) hlt
  · intro results text config hstarts
    refine ⟨_, _, Report.diagnostics_collect text source config results, ?_,
      fun d hd => Report.code_of_mem_notices text source config results hd⟩
    refine (stablySorted_mergeSort (Report.positionIn source) _).sortedByStart hsize ?_
    intro d hd
    have hoffered := (config.kept_sublist (Report.offered text results)).subset hd
    obtain ⟨error, herror, rfl⟩ := List.mem_map.1 hoffered
    obtain ⟨result, hresult, hmem⟩ := List.mem_flatMap.1 herror
    obtain ⟨hstart, hroom⟩ := hstarts result hresult error hmem
    exact hstart.isInnerBoundary hsize hroom

/-- Three errors in the reverse order of the text, which has a character of two bytes. -/
def reversedErrors : List Checked :=
  [⟨.unknown, #[some .int, some .unknown], [⟨⟨1⟩, ⟨7, 12⟩, .unsupportedOperand "not"⟩]⟩,
    ⟨.unknown, #[some .unknown, some .unknown, some .unknown],
      [⟨⟨1⟩, ⟨5, 6⟩, .unknownIdentifier ⟨2⟩⟩, ⟨⟨0⟩, ⟨0, 2⟩, .unknownIdentifier ⟨1⟩⟩]⟩]

theorem reversedErrors_shown_in_order :
    let source := "ö + x\nnot 5\n"
    let position := (LineTable.ofText source).position source
    byteLength source.toList < offsetLimit ∧
      IsBoundary source.toList 5 ∧ IsBoundary source.toList 7 ∧
      (position 5).Before (position 7) ∧ position 20 = position 13 ∧
      ∃ sorted notices,
        (Report.collect reversedErrors (fun _ => "x") source ⟨2, true⟩).diagnostics =
          sorted ++ notices ∧
        SortedByStart
          (QueueConfig.kept ⟨2, true⟩ (Report.offered (fun _ => "x") reversedErrors)) sorted ∧
        ∀ d ∈ notices, d.code = .limitNotice := by
  intro source position
  have hsize : byteLength source.toList < offsetLimit := by decide
  have hfive : IsBoundary source.toList 5 := by decide
  have hseven : IsBoundary source.toList 7 := by decide
  have hlength : byteLength source.toList = 13 := by decide
  have hstarts : ∀ result ∈ reversedErrors, ∀ error ∈ result.errors,
      IsBoundary source.toList error.span.start ∧
        (error.span.start < byteLength source.toList ∨
          byteLength source.toList + 1 < offsetLimit) := by
    decide
  obtain ⟨hbefore, -, hend, hreport⟩ := positions_ordered_like_offsets source hsize
  refine ⟨hsize, hfive, hseven, hbefore 5 7 hfive hseven (by decide) (Or.inl (by decide)), ?_,
    hreport reversedErrors _ _ hstarts⟩
  rw [← hlength]
  exact hend 20 (by decide)

end ExprTyping
