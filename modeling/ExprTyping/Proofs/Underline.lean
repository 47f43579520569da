import ExprTyping.Proofs.Line
import ExprTyping.Proofs.Rendering

/-!
# Carets under the source

If the span of a diagnostic covers a part of the source, the line in which it starts is shown,
and the covered part of this line is underlined in the row below.  Both rows begin with a
margin as wide as the line number.  Columns count characters, as the indentation of the carets
does, so the carets are under the covered characters however many bytes these have.
-/

namespace ExprTyping

open Text

/-! ## Both rows of an excerpt -/

/-- A row that shows the line `raw`, and below it a row that underlines `first`, which stands
in this line at the column of the position. -/
structure Underlines (position : Position) (raw first : List Char) (label : String)
    (sourceRow underlineRow : String) : Prop where
  sourceRow_eq : sourceRow =
    toString position.line ++ " | " ++ String.ofList (raw.rdropWhile (· = '\r'))
  underlineRow_eq : underlineRow =
    fill ' ' (toString position.line).length ++ " | " ++ fill ' ' (position.column - 1) ++
      fill '^' (max 1 first.length) ++ label
  covered_eq : (raw.drop (position.column - 1)).take first.length = first
  /-- The line is taken with its carriage returns here, because `first` may end in some. -/
  aligned : ∀ k < first.length,
    let index := (toString position.line).length + 3 + (position.column - 1) + k
    (toString position.line ++ " | " ++ String.ofList raw).toList[index]? = first[k]? ∧
      underlineRow.toList[index]? = some '^'

theorem Text.getElem?_append_length_add {front rest : List Char} {n : Nat}
    (h : front.length = n) (k : Nat) : (front ++ rest)[n + k]? = rest[k]? := by
  rw [← h, List.getElem?_append_right (Nat.le_add_right _ _), Nat.add_sub_cancel_left]

theorem getElem?_sourceRow (number : String) (raw : List Char) (k : Nat) :
    (number ++ " | " ++ String.ofList raw).toList[number.length + 3 + k]? = raw[k]? := by
  have hmargin : (number ++ " | ").toList.length = number.length + 3 := by
    rw [String.length_toList, String.length_append]
    rfl
  rw [String.toList_append, String.toList_ofList, getElem?_append_length_add hmargin]

theorem getElem?_underlineRow (width indent : Nat) {count k : Nat} (hk : k < count)
    (label : String) :
    (fill ' ' width ++ " | " ++ fill ' ' indent ++ fill '^' count ++ label).toList[
      width + 3 + indent + k]? = some '^' := by
  have hmargin : (fill ' ' width ++ " | " ++ fill ' ' indent).toList.length =
      width + 3 + indent := by
    simp only [fill, String.toList_append, String.toList_ofList, List.length_append,
      List.length_replicate]
    rfl
  have hcount : (fill '^' count).toList = List.replicate count '^' :=
    String.toList_ofList
  rw [String.toList_append, String.toList_append, List.append_assoc, hcount,
    getElem?_append_length_add hmargin, List.getElem?_append_left (by simpa using hk),
    List.getElem?_replicate_of_lt hk]

/-- The rows that are laid out underline what stands at the column. -/
theorem underlines_of_isPrefix {position : Position} {raw first : List Char}
    (h : first <+: raw.drop (position.column - 1)) (label : String) :
    Underlines position raw first label
      (toString position.line ++ " | " ++ String.ofList (raw.rdropWhile (· = '\r')))
      (fill ' ' (toString position.line).length ++ " | " ++ fill ' ' (position.column - 1) ++
        fill '^' (max 1 first.length) ++ label) where
  sourceRow_eq := rfl
  underlineRow_eq := rfl
  covered_eq := (List.prefix_iff_eq_take.1 h).symm
  aligned := by
    intro k hk index
    constructor
    · obtain ⟨rest, hrest⟩ := h
      have hindex : index = (toString position.line).length + 3 + (position.column - 1 + k) :=
        Nat.add_assoc _ _ _
      rw [hindex, getElem?_sourceRow, ← List.getElem?_drop, ← hrest, List.getElem?_append_left hk]
    · exact getElem?_underlineRow _ _ (Nat.lt_of_lt_of_le hk (Nat.le_max_right _ _)) label

/-- The carets stand under the covered text.

Let a diagnostic be shown without colors, together with the source.  If its span covers a
part of the source, let `raw` be the line in which the span starts and `first` the first line
of what it covers.  If the source is shorter than `offsetLimit`, there are a row that shows
`raw` without the carriage returns at its end, and below it a row with a caret for each
character of `first`, but at least one caret.  At the column of the position `raw` reads like
`first`, and every caret has the place in its row that the underlined character has in the row
of `raw`.

If the span covers nothing, it is shown itself, and there is no excerpt. -/
theorem carets_under_covered_text (source : String) (d : Diagnostic) :
    let position := (LineTable.ofText source).position source d.span.start
    let pad := fill ' ' (toString position.line).length
    ∃ text : String,
      (∀ sink : Sink, sink.capacity = none →
        Terminal.emit ⟨false, some source⟩ d sink =
          (.ok (), { sink with written := sink.written ++ text.toUTF8 })) ∧
      (∀ covered, d.span.covered? source = some covered →
        (∃ raw, LineAt source.toList d.span.start raw) ∧ (∃ first, FirstLine covered first) ∧
        (byteLength source.toList < offsetLimit →
          ∀ raw first, LineAt source.toList d.span.start raw → FirstLine covered first →
            ∃ sourceRow underlineRow,
              Underlines position raw first d.spacedLabel sourceRow underlineRow ∧
              text = s!"error[{d.code.text}]: {d.message}\n" ++
                s!"{pad}--> {position.line}:{position.column}\n" ++
                s!"{pad} |\n{sourceRow}\n{underlineRow}\n" ++ d.noteRows pad ++ "\n")) ∧
      (d.span.covered? source = none →
        text = s!"error[{d.code.text}]: {d.message}\n --> {d.span.render}{d.spacedLabel}\n" ++
          d.noteRows " " ++ "\n") := by
  intro position pad
  refine ⟨Piece.renderAll false (d.layout (some source)), ?_, ?_, ?_⟩
  · intro sink hsink
    exact Terminal.put_unlimited ⟨false, some source⟩ _ hsink
  · intro covered hcovered
    have hstart : IsBoundary source.toList d.span.start := by
      obtain ⟨xs, ys, htext, hxs, -⟩ := slice?_eq_some_iff.1 hcovered
      exact ⟨xs, covered ++ ys, by rw [htext, List.append_assoc], hxs⟩
    refine ⟨hstart.exists_lineAt, FirstLine.exists_of_text covered, ?_⟩
    intro hsize raw first hraw hfirst
    obtain ⟨hexcerpt, hprefix⟩ := Excerpt.of?_eq_some hsize hcovered hraw hfirst
    refine ⟨_, _, underlines_of_isPrefix hprefix d.spacedLabel, ?_⟩
    have hbind : (some source).bind (Excerpt.of? · d.span) = some _ := hexcerpt
    rw [d.renderAll_layout_of_some hbind]
    simp [String.append_assoc, position, pad]
  · intro hcovered
    have hexcerpt : Excerpt.of? source d.span = none := by
      rw [Excerpt.of?, hcovered]
      rfl
    exact d.renderAll_layout_of_none hexcerpt

/-- Three lines, of which the second one has a character of two bytes and the beginning of a
call. -/
def brokenLines : String :=
  "a\r\né = f(1,\r\n2)\n"

/-- A diagnostic for a part of the three lines. -/
def mismatchAt (span : Span) : Diagnostic where
  code := .argumentMismatch
  span := span
  message := "mismatch"
  label := "here"
  notes := ["see é"]

/-- The call goes on in the third line, so it is underlined up to the end of the second one.
A span that starts inside a character is shown itself. -/
theorem brokenCall_underlined :
    (mismatchAt ⟨8, 16⟩).span.covered? brokenLines = some "f(1,\r\n2)".toList ∧
      LineAt brokenLines.toList 8 "é = f(1,\r".toList ∧
      FirstLine "f(1,\r\n2)".toList "f(1,".toList ∧
      (mismatchAt ⟨4, 6⟩).span.covered? brokenLines = none ∧
      Terminal.emit ⟨false, some brokenLines⟩ (mismatchAt ⟨8, 16⟩) (Sink.empty none) =
        (.ok (), { Sink.empty none with
          written := String.toUTF8 <|
            "error[E2010]: mismatch\n --> 2:5\n  |\n2 | é = f(1,\n" ++
            "  |     ^^^^ here\n  = note: see é\n\n" }) ∧
      Terminal.emit ⟨false, some brokenLines⟩ (mismatchAt ⟨4, 6⟩) (Sink.empty none) =
        (.ok (), { Sink.empty none with
          written := String.toUTF8 <|
            "error[E2010]: mismatch\n --> 4..6 here\n  = note: see é\n\n" }) := by
  have hcovered : (mismatchAt ⟨8, 16⟩).span.covered? brokenLines = some "f(1,\r\n2)".toList := by
    decide
  have hraw : LineAt brokenLines.toList 8 "é = f(1,\r".toList :=
    ⟨"a\r\n".toList, "\n2)\n".toList,
      ⟨by decide, Or.inr (by decide), by decide, Or.inr (by decide)⟩, by decide, by decide⟩
  have hfirst : FirstLine "f(1,\r\n2)".toList "f(1,".toList :=
    @FirstLine.carriageReturn "f(1,".toList "2)".toList (by decide)
  have hnone : (mismatchAt ⟨4, 6⟩).span.covered? brokenLines = none := by
    decide
  obtain ⟨text, hemit, hexcerpt, -⟩ := carets_under_covered_text brokenLines (mismatchAt ⟨8, 16⟩)
  obtain ⟨-, -, hrows⟩ := hexcerpt _ hcovered
  obtain ⟨sourceRow, underlineRow, hunderlines, htext⟩ := hrows (by decide) _ _ hraw hfirst
  obtain ⟨text', hemit', -, hspan⟩ := carets_under_covered_text brokenLines (mismatchAt ⟨4, 6⟩)
  have hrow : text = "error[E2010]: mismatch\n --> 2:5\n  |\n2 | é = f(1,\n" ++
      "  |     ^^^^ here\n  = note: see é\n\n" := by
    rw [htext, hunderlines.sourceRow_eq, hunderlines.underlineRow_eq]
    decide +kernel
  have hshown : text' = "error[E2010]: mismatch\n --> 4..6 here\n  = note: see é\n\n" := by
    rw [hspan hnone]
    decide +kernel
  refine ⟨hcovered, hraw, hfirst, hnone, ?_, ?_⟩
  · rw [hemit _ rfl, hrow]
    simp [Sink.empty]
  · rw [hemit' _ rfl, hshown]
    simp [Sink.empty]

end ExprTyping
