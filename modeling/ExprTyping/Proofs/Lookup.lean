import ExprTyping.Proofs.Line

/-!
# Looking up places and lines

A line table finds the line of an offset by comparing numbers, and the column by counting the
characters of a slice that may not exist.  Here both are compared with the text itself.

The line is one more than the number of line feeds among the bytes in front of the offset,
whether or not the offset lies between two characters.  The table lists where the pieces begin
that the line feeds separate, so line and column lead back to the offset, and the text of a
line is a piece without the carriage returns at its end.

Line and column are cut off at thirty-two bits.  In a text whose length has thirty-two bits this
happens at its end only, and only if the text could not be longer.
-/

namespace ExprTyping
namespace Text

/-! ## Line feeds among the bytes -/

/-- The bytes of a text. -/
def encoded (cs : List Char) : List UInt8 :=
  cs.flatMap String.utf8EncodeChar

theorem toList_toByteArray (s : String) : s.toByteArray.data.toList = encoded s.toList := by
  rw [← String.utf8Encode_toList, List.utf8Encode, List.data_toByteArray]
  rfl

theorem length_encoded (cs : List Char) : (encoded cs).length = byteLength cs := by
  induction cs with
  | nil => rfl
  | cons c cs ih =>
      rw [byteLength_cons, ← ih, encoded, List.flatMap_cons, List.length_append,
        String.length_utf8EncodeChar]
      rfl

theorem lineFeed_ne_ofNat {n : Nat} (hlow : 128 ≤ n) (hhigh : n < 256) :
    (10 : UInt8) ≠ UInt8.ofNat n := by
  intro h
  have hnat : 10 = (UInt8.ofNat n).toNat := congrArg UInt8.toNat h
  rw [UInt8.toNat_ofNat', Nat.mod_eq_of_lt hhigh] at hnat
  omega

/-- The byte of the line feed occurs in no other character: all bytes of a character with
more than one byte are larger. -/
theorem lineFeed_notMem_utf8EncodeChar {c : Char} (h : c ≠ '\n') :
    10 ∉ String.utf8EncodeChar c := by
  have hmod : ∀ n, (10 : UInt8) ≠ UInt8.ofNat (n % 64 + 128) :=
    fun n => lineFeed_ne_ofNat (by omega) (by omega)
  unfold String.utf8EncodeChar
  dsimp only
  split
  · rw [List.mem_singleton]
    intro heq
    have hnat : 10 = (UInt8.ofNat c.val.toNat).toNat := congrArg UInt8.toNat heq
    rw [UInt8.toNat_ofNat', Nat.mod_eq_of_lt (by omega)] at hnat
    exact h (Char.ext (UInt32.toNat_inj.1 hnat.symm))
  · split
    · simp only [List.mem_cons, List.not_mem_nil, or_false, not_or]
      exact ⟨lineFeed_ne_ofNat (by omega) (by omega), hmod _⟩
    · split
      · simp only [List.mem_cons, List.not_mem_nil, or_false, not_or]
        exact ⟨lineFeed_ne_ofNat (by omega) (by omega), hmod _, hmod _⟩
      · simp only [List.mem_cons, List.not_mem_nil, or_false, not_or]
        exact ⟨lineFeed_ne_ofNat (by omega) (by omega), hmod _, hmod _, hmod _⟩

/-- The lines that begin no later than an offset follow the line feeds in front of it. -/
theorem countP_startsAfter (n offset : Nat) (cs : List Char) :
    (startsAfter offset cs).countP (· ≤ n) = ((encoded cs).take (n - offset)).count 10 := by
  induction cs generalizing offset with
  | nil => simp [startsAfter, encoded]
  | cons c cs ih =>
      have hsplit : ((encoded (c :: cs)).take (n - offset)).count 10 =
          ((String.utf8EncodeChar c).take (n - offset)).count 10 +
            ((encoded cs).take (n - (offset + c.utf8Size))).count 10 := by
        rw [encoded, List.flatMap_cons, List.take_append, List.count_append,
          String.length_utf8EncodeChar, Nat.sub_sub]
        rfl
      rw [hsplit, startsAfter, ← ih]
      by_cases hc : c = '\n'
      · subst hc
        have hbyte : String.utf8EncodeChar '\n' = [10] := by decide
        have hsize : '\n'.utf8Size = 1 := rfl
        rw [if_pos rfl, List.countP_cons, hbyte, hsize, Nat.add_comm]
        congr 1
        by_cases hn : offset + 1 ≤ n
        · rw [List.take_of_length_le (by simp; omega)]
          simp [hn]
        · have hnone : n - offset = 0 := by omega
          simp [hn, hnone]
      · have hnone : ((String.utf8EncodeChar c).take (n - offset)).count 10 = 0 :=
          List.count_eq_zero.2 fun hmem =>
            lineFeed_notMem_utf8EncodeChar hc (List.mem_of_mem_take hmem)
        rw [if_neg hc, hnone, Nat.zero_add]

/-! ## The pieces between line feeds -/

/-- Induction over a text from its last line to its first one. -/
@[elab_as_elim]
theorem line_induction {motive : List Char → Prop} (cs : List Char)
    (last : ∀ line, '\n' ∉ line → motive line)
    (next : ∀ line rest, '\n' ∉ line → motive rest → motive (line ++ '\n' :: rest)) :
    motive cs := by
  induction hlength : cs.length using Nat.strongRecOn generalizing cs with
  | ind length ih =>
      obtain ⟨line, rest, rfl, hline, rfl | hrest⟩ := exists_firstBreak cs
      · rw [List.append_nil]
        exact last line hline
      · obtain ⟨rest, rfl⟩ := List.head?_eq_some_iff.1 hrest
        refine next line rest hline (ih rest.length ?_ rest rfl)
        rw [← hlength, List.length_append, List.length_cons]
        omega

theorem length_splitOn (cs : List Char) : (cs.splitOn '\n').length = cs.count '\n' + 1 := by
  induction cs using line_induction with
  | last line hline => simp [List.splitOn_eq_singleton hline, List.count_eq_zero.2 hline]
  | next line rest hline ih =>
      rw [List.splitOn_append_cons_self_of_not_mem hline, List.length_cons, ih, List.count_append,
        List.count_eq_zero.2 hline, List.count_cons_self, Nat.zero_add]

/-- Where a line begins: behind the lines before it and their line feeds. -/
def startOfLine (cs : List Char) (index : Nat) : Nat :=
  byteLength (((cs.splitOn '\n').take index).flatMap (· ++ ['\n']))

/-- Every piece is a line of the text. -/
theorem exists_cutsLine {cs : List Char} {index : Nat} {line : List Char}
    (h : (cs.splitOn '\n')[index]? = some line) :
    ∃ before after, CutsLine cs before line after ∧ before.count '\n' = index ∧
      byteLength before = startOfLine cs index := by
  induction cs using line_induction generalizing index with
  | last only honly =>
      rw [List.splitOn_eq_singleton honly, List.getElem?_singleton] at h
      split at h
      · next hindex =>
          cases h
          subst hindex
          exact ⟨[], [], ⟨by simp, Or.inl rfl, honly, Or.inl rfl⟩, rfl, rfl⟩
      · cases h
  | next first rest hfirst ih =>
      have hlines := List.splitOn_append_cons_self_of_not_mem hfirst rest
      rw [hlines] at h
      cases index with
      | zero =>
          obtain rfl : first = line := Option.some.inj h
          exact ⟨[], '\n' :: rest, ⟨by simp, Or.inl rfl, hfirst, Or.inr rfl⟩, rfl, rfl⟩
      | succ index =>
          obtain ⟨before, after, hcut, hcount, hstart⟩ := ih h
          refine ⟨first ++ '\n' :: before, after, ⟨?_, Or.inr ?_, hcut.unbroken, hcut.stops⟩, ?_, ?_⟩
          · rw [hcut.text_eq]
            simp
          · rw [List.getLast?_append, List.getLast?_cons]
            rcases hcut.starts with rfl | hlast
            · rfl
            · rw [hlast]
              rfl
          · rw [List.count_append, List.count_eq_zero.2 hfirst, List.count_cons_self, hcount,
              Nat.zero_add]
          · rw [startOfLine] at hstart
            rw [startOfLine, hlines, List.take_succ_cons, List.flatMap_cons, List.append_assoc,
              List.singleton_append, byteLength_append, byteLength_append, byteLength_cons,
              byteLength_cons, hstart]

/-- Every line of the text is the piece with its number. -/
theorem CutsLine.getElem?_splitOn {cs before raw after : List Char}
    (h : CutsLine cs before raw after) : (cs.splitOn '\n')[before.count '\n']? = some raw := by
  have hfirst : ((raw ++ after).splitOn '\n')[0]? = some raw := by
    rcases h.stops with rfl | hhead
    · rw [List.append_nil, List.splitOn_eq_singleton h.unbroken]
      rfl
    · obtain ⟨rest, rfl⟩ := List.head?_eq_some_iff.1 hhead
      rw [List.splitOn_append_cons_self_of_not_mem h.unbroken]
      rfl
  rw [h.text_eq, List.append_assoc]
  rcases h.starts with rfl | hlast
  · exact hfirst
  · obtain ⟨front, rfl⟩ := List.getLast?_eq_some_iff.1 hlast
    rw [List.append_assoc, List.singleton_append, List.splitOn_append_cons_self,
      List.count_append, List.count_singleton_self, ← length_splitOn,
      List.getElem?_append_right (Nat.le_refl _), Nat.sub_self]
    exact hfirst

/-! ## What positions and lines should be -/

/-- The characters of a text between two byte offsets. -/
def IsBetween (cs : List Char) (start stop : Nat) (between : List Char) : Prop :=
  ∃ front rest, cs = front ++ between ++ rest ∧ byteLength front = start ∧
    byteLength (front ++ between) = stop

/-- The place that an offset stands for: offsets beyond the end stand for the end. -/
def clamp (cs : List Char) (offset : Nat) : Nat :=
  min offset (byteLength cs)

end Text

open Text

/-- The position of an offset in a text.

The line counts the line feeds among the bytes before the offset.  The column counts the
characters from the start of the line, or is one inside of a character.  Between characters,
line and column lead back to the offset. -/
structure Position.Locates (position : Position) (source : String) (offset : Nat) : Prop where
  line_eq : position.line =
    1 + (source.toByteArray.data.toList.take (clamp source.toList offset)).count 10
  column_eq : IsBoundary source.toList (clamp source.toList offset) →
    ∃ between, IsBetween source.toList (startOfLine source.toList (position.line - 1))
      (clamp source.toList offset) between ∧ position.column = 1 + between.length
  column_inside : ¬IsBoundary source.toList (clamp source.toList offset) → position.column = 1
  offset_eq : IsBoundary source.toList offset →
    ∃ line, (source.toList.splitOn '\n')[position.line - 1]? = some line ∧
      startOfLine source.toList (position.line - 1) + byteLength (line.take (position.column - 1)) =
        offset

/-- There is one position only for each offset. -/
theorem Position.Locates.unique {p q : Position} {source : String} {offset : Nat}
    (hp : p.Locates source offset) (hq : q.Locates source offset) : p = q := by
  have hline : p.line = q.line := hp.line_eq.trans hq.line_eq.symm
  have hcolumn : p.column = q.column := by
    by_cases hplace : IsBoundary source.toList (clamp source.toList offset)
    · obtain ⟨between, hbetween, hpcolumn⟩ := hp.column_eq hplace
      obtain ⟨between', hbetween', hqcolumn⟩ := hq.column_eq hplace
      rw [← hline] at hbetween'
      have hsame : some between = some between' :=
        (slice?_eq_some_iff.2 hbetween).symm.trans (slice?_eq_some_iff.2 hbetween')
      rw [hpcolumn, hqcolumn, Option.some.inj hsame]
    · rw [hp.column_inside hplace, hq.column_inside hplace]
  cases p
  cases q
  exact congrArg₂ Position.mk hline hcolumn

/-- Line and column exceed the place of the offset by at most one. -/
theorem Position.Locates.le_clamp_succ {p : Position} {source : String} {offset : Nat}
    (h : p.Locates source offset) :
    p.line ≤ clamp source.toList offset + 1 ∧ p.column ≤ clamp source.toList offset + 1 := by
  constructor
  · have hcount := List.count_le_length (a := 10)
      (l := source.toByteArray.data.toList.take (clamp source.toList offset))
    have htake := List.length_take_le (clamp source.toList offset) source.toByteArray.data.toList
    rw [h.line_eq]
    omega
  · by_cases hplace : IsBoundary source.toList (clamp source.toList offset)
    · obtain ⟨between, ⟨front, rest, -, -, hstop⟩, hcolumn⟩ := h.column_eq hplace
      have hlength := length_le_byteLength between
      rw [byteLength_append] at hstop
      omega
    · rw [h.column_inside hplace]
      omega

namespace LineTable

variable {source : String}

theorem length_starts : (ofText source).starts.length = 1 + source.toList.count '\n' := by
  rw [ofText, List.length_cons, List.length_map, length_startsAfter, Nat.add_comm]

theorem lineText_of_lt {number : Nat} (h : 1 + source.toList.count '\n' < number) :
    (ofText source).lineText source number = [] := by
  have hbeyond : ¬number - 1 < (ofText source).starts.length := by
    rw [length_starts]
    omega
  exact if_neg hbeyond

theorem place_clamp (offset : Nat) :
    (ofText source).place source offset =
      (ofText source).place source (clamp source.toList offset) := by
  rcases Nat.le_total (byteLength source.toList) offset with hle | hle
  · rw [clamp, Nat.min_eq_right hle, place_of_length_le hle]
  · rw [clamp, Nat.min_eq_left hle]

theorem column_of_not_isBoundary {offset : Nat}
    (h : ¬IsBoundary source.toList (clamp source.toList offset)) :
    ((ofText source).place source offset).column = 1 := by
  have hslice : ∀ start, slice? source.toList start (clamp source.toList offset) = none := by
    intro start
    rw [Option.eq_none_iff_forall_ne_some]
    intro between hbetween
    obtain ⟨front, rest, htext, -, hstop⟩ := slice?_eq_some_iff.1 hbetween
    exact h ⟨front ++ between, rest, htext, hstop⟩
  rw [clamp] at hslice
  simp [place, hslice]

variable (hsize : byteLength source.toList < offsetLimit)

include hsize

theorem lineIndex_eq_count (offset : Nat) :
    (ofText source).lineIndex offset =
      (source.toByteArray.data.toList.take (clamp source.toList offset)).count 10 := by
  have htake : (encoded source.toList).take offset =
      (encoded source.toList).take (clamp source.toList offset) := by
    rw [List.take_eq_take_min, length_encoded, clamp]
  rw [toList_toByteArray, ← htake, lineIndex, starts_ofText hsize, List.countP_cons,
    countP_startsAfter]
  simp

/-- The table knows where every line starts. -/
theorem lineStart_of_cutsLine
    {before raw after : List Char} (h : CutsLine source.toList before raw after) :
    (ofText source).lineStart (before.count '\n') = byteLength before := by
  have hcut : source.toList = before ++ (raw ++ after) := by
    rw [h.text_eq, List.append_assoc]
  rw [← length_startsAfter 0]
  exact lineStart_ofText hsize hcut (getLast?_startsAfter h.starts)

theorem lineStart_eq_startOfLine {index : Nat}
    (h : index < (source.toList.splitOn '\n').length) :
    (ofText source).lineStart index = startOfLine source.toList index := by
  obtain ⟨before, after, hcut, rfl, hstart⟩ := exists_cutsLine (List.getElem?_eq_getElem h)
  rw [lineStart_of_cutsLine hsize hcut, hstart]

/-- The table lists the starts of all lines. -/
theorem starts_eq_map_startOfLine :
    (ofText source).starts =
      (List.range (source.toList.splitOn '\n').length).map (startOfLine source.toList) := by
  have hlength : (ofText source).starts.length = (source.toList.splitOn '\n').length := by
    rw [length_starts, length_splitOn, Nat.add_comm]
  apply List.ext_getElem
  · simp [hlength]
  · intro index hindex _
    have hstart : (ofText source).lineStart index = startOfLine source.toList index :=
      lineStart_eq_startOfLine hsize (hlength ▸ hindex)
    rw [lineStart, List.getElem?_eq_getElem hindex, Option.getD_some] at hstart
    rw [hstart, List.getElem_map, List.getElem_range]

theorem byteLength_before_of_cutsLine
    {before raw after : List Char} (h : CutsLine source.toList before raw after) :
    byteLength before = startOfLine source.toList (before.count '\n') := by
  obtain ⟨hlt, -⟩ := List.getElem?_eq_some_iff.1 h.getElem?_splitOn
  rw [← lineStart_of_cutsLine hsize h, lineStart_eq_startOfLine hsize hlt]

/-- An offset between two characters cuts its line in two parts, and its place counts the
lines before and the characters of the first part. -/
theorem exists_cutsLine_place {offset : Nat} (h : IsBoundary source.toList offset) :
    ∃ before tail more after, CutsLine source.toList before (tail ++ more) after ∧
      byteLength (before ++ tail) = offset ∧
      (ofText source).place source offset = ⟨before.count '\n' + 1, tail.length + 1⟩ := by
  obtain ⟨raw, before, after, hcut, hle, hge⟩ := h.exists_lineAt
  obtain ⟨xs, rest, htext, rfl⟩ := h
  obtain ⟨tail, more, rfl, rfl, -⟩ := hcut.exists_split htext hle hge
  refine ⟨before, tail, more, after, hcut, rfl, ?_⟩
  rw [place_of_cutsLine hsize hcut rfl, length_startsAfter]

theorem locates_place (offset : Nat) :
    ((ofText source).place source offset).Locates source offset where
  line_eq := by
    rw [← lineIndex_eq_count hsize, Nat.add_comm]
    rfl
  column_eq hplace := by
    rw [place_clamp]
    obtain ⟨before, tail, more, after, hcut, hstop, hposition⟩ :=
      exists_cutsLine_place hsize hplace
    rw [hposition, Nat.add_sub_cancel, ← byteLength_before_of_cutsLine hsize hcut]
    refine ⟨tail, ⟨before, more ++ after, ?_, rfl, hstop⟩, Nat.add_comm _ _⟩
    rw [hcut.text_eq]
    simp
  column_inside := column_of_not_isBoundary
  offset_eq hoffset := by
    obtain ⟨before, tail, more, after, hcut, hstop, hposition⟩ :=
      exists_cutsLine_place hsize hoffset
    rw [hposition, Nat.add_sub_cancel, Nat.add_sub_cancel,
      ← byteLength_before_of_cutsLine hsize hcut]
    refine ⟨tail ++ more, hcut.getElem?_splitOn, ?_⟩
    rw [List.take_left, ← hstop, byteLength_append]

theorem locates_position {offset : Nat} (h : clamp source.toList offset + 1 < offsetLimit) :
    ((ofText source).position source offset).Locates source offset := by
  have hplace := locates_place hsize offset
  obtain ⟨hline, hcolumn⟩ := hplace.le_clamp_succ
  rwa [position, Position.saturate_of_lt (by omega) (by omega)]

theorem lineText_of_getElem?
    {index : Nat} {line : List Char} (h : (source.toList.splitOn '\n')[index]? = some line) :
    (ofText source).lineText source (index + 1) = line.rdropWhile (· = '\r') := by
  obtain ⟨before, after, hcut, rfl, -⟩ := exists_cutsLine h
  rw [← length_startsAfter 0]
  exact lineText_of_cutsLine hsize hcut

end LineTable

/-- A line table answers for the text it was made of, if the text is shorter than `offsetLimit`.

For every offset there is a place that `Locates` describes, and the position of the offset is
this place with line and column cut off at thirty-two bits.  Nothing is cut off, and so the
position leads back to the offset, unless the offset stands for the end of a text that could not
be longer.

The table has as many lines as there are pieces between line feeds, each begins where its piece
does, and its text is the piece without the carriage returns at its end.  There is nothing in
all further lines. -/
theorem line_table_answers_for_text
    (source : String) (hsize : byteLength source.toList < offsetLimit) :
    let table := LineTable.ofText source
    let lines := source.toList.splitOn '\n'
    (∀ offset, ∃ place : Position, place.Locates source offset ∧
      table.position source offset = place.saturate) ∧
    (∀ offset, clamp source.toList offset + 1 < offsetLimit →
      (table.position source offset).Locates source offset) ∧
    lines.length = 1 + source.toList.count '\n' ∧
    ['\n'].intercalate lines = source.toList ∧
    table.starts = (List.range lines.length).map (startOfLine source.toList) ∧
    (∀ number, 1 ≤ number → number ≤ 1 + source.toList.count '\n' →
      ∃ line, lines[number - 1]? = some line ∧
        table.lineText source number = line.rdropWhile (· = '\r')) ∧
    (∀ number, 1 + source.toList.count '\n' < number → table.lineText source number = []) := by
  intro table lines
  have hlength : lines.length = 1 + source.toList.count '\n' := by
    rw [length_splitOn, Nat.add_comm]
  refine ⟨fun offset => ⟨_, LineTable.locates_place hsize offset, rfl⟩,
    fun offset => LineTable.locates_position hsize, hlength, List.intercalate_splitOn '\n',
    LineTable.starts_eq_map_startOfLine hsize, ?_, fun _ => LineTable.lineText_of_lt⟩
  intro number hpos hle
  have hline : number - 1 < lines.length := by omega
  have hget := List.getElem?_eq_getElem hline
  have htext := LineTable.lineText_of_getElem? hsize hget
  rw [Nat.sub_add_cancel hpos] at htext
  exact ⟨_, hget, htext⟩

theorem carriageReturns_looked_up :
    let source := "ö = 1\r\r\nx"
    let table := LineTable.ofText source
    byteLength source.toList < offsetLimit ∧
      IsBoundary source.toList 7 ∧ (table.position source 7).Locates source 7 ∧
      ¬IsBoundary source.toList 1 ∧ (table.position source 1).column = 1 ∧
      (table.position source 20).line = 2 ∧
      table.lineText source 1 = "ö = 1".toList ∧ table.lineText source 3 = [] := by
  intro source table
  have hsize : byteLength source.toList < offsetLimit := by decide
  have hinside : ¬IsBoundary source.toList (clamp source.toList 1) := by decide
  have hcount : (source.toByteArray.data.toList.take (clamp source.toList 20)).count 10 = 1 := by
    decide +kernel
  have hfirst : (source.toList.splitOn '\n')[0]? = some "ö = 1\r\r".toList := by decide
  obtain ⟨-, hlocates, -, -, -, hlines, hbeyond⟩ := line_table_answers_for_text source hsize
  refine ⟨hsize, by decide, hlocates 7 (by decide), by decide,
    (hlocates 1 (by decide)).column_inside hinside, ?_, ?_, hbeyond 3 (by decide)⟩
  · rw [(hlocates 20 (by decide)).line_eq, hcount]
  · obtain ⟨line, hline, htext⟩ := hlines 1 (by decide) (by decide)
    obtain rfl : line = "ö = 1\r\r".toList := Option.some.inj (hline.symm.trans hfirst)
    rw [htext]
    decide

/-- At the end of a line that could not be longer the column is cut off.  A table that was not
made of the text does not know its line feeds. -/
theorem longestLine_end_not_located :
    let source := letters (offsetLimit - 1)
    (byteLength source.toList < offsetLimit ∧
      ¬((LineTable.ofText source).position source (offsetLimit - 1)).Locates source
        (offsetLimit - 1)) ∧
    ¬(LineTable.empty.position "a\nb" 2).Locates "a\nb" 2 := by
  intro source
  have hlt : offsetLimit - 1 < offsetLimit := by decide
  have hsize : byteLength source.toList < offsetLimit := by
    rw [byteLength_letters]
    exact hlt
  refine ⟨⟨hsize, ?_⟩, ?_⟩
  · intro hlocates
    have hplace := hlocates.unique (LineTable.locates_place hsize (offsetLimit - 1))
    rw [LineTable.position, LineTable.place_letters (Nat.le_refl _) hlt] at hplace
    exact absurd hplace (by decide)
  · intro hlocates
    have hcount : ("a\nb".toByteArray.data.toList.take (clamp "a\nb".toList 2)).count 10 = 1 := by
      decide +kernel
    have hline := hlocates.line_eq
    rw [hcount] at hline
    exact absurd hline (by decide)

end ExprTyping
