import ExprTyping.Proofs.Rendering

/-!
# Colors as decoration

Colors are switched by escape sequences.  They are marks of their own in the layout of a report,
and the layout is the same with and without colors.  So a colored report is the plain one with
sequences put between its texts, and deleting the sequences leaves the plain report, provided
that no text has an escape character itself.
-/

namespace ExprTyping

/-! ## Escape sequences -/

namespace Text

/-- The character that begins an escape sequence. -/
def escape : Char := '\x1b'

/-- A text without an escape character. -/
def Plain (s : String) : Prop :=
  escape ∉ s.toList

instance (s : String) : Decidable (Plain s) :=
  inferInstanceAs (Decidable (escape ∉ s.toList))

/-- Deletes escape sequences, each of which goes up to the next `m`.  The flag tells whether one
has begun. -/
def dropEscapes : Bool → List Char → List Char
  | _, [] => []
  | true, c :: cs => dropEscapes (c ≠ 'm') cs
  | false, c :: cs => if c = escape then dropEscapes true cs else c :: dropEscapes false cs

/-- The text without its escape sequences. -/
def withoutEscapes (s : String) : String :=
  String.ofList (dropEscapes false s.toList)

/-- What stands before the first escape character is kept. -/
theorem dropEscapes_append_of_notMem
    {front : List Char} (h : escape ∉ front) (rest : List Char) :
    dropEscapes false (front ++ rest) = front ++ dropEscapes false rest := by
  induction front with
  | nil => rfl
  | cons c front ih =>
      rw [List.mem_cons, not_or] at h
      rw [List.cons_append, dropEscapes, if_neg (Ne.symm h.1), ih h.2, List.cons_append]

/-- A sequence that has begun is deleted up to its `m`. -/
theorem dropEscapes_append_m
    {body : List Char} (h : 'm' ∉ body) (rest : List Char) :
    dropEscapes true (body ++ 'm' :: rest) = dropEscapes false rest := by
  induction body with
  | nil => rfl
  | cons c body ih =>
      rw [List.mem_cons, not_or] at h
      have hinside : decide (c ≠ 'm') = true := decide_eq_true (Ne.symm h.1)
      rw [List.cons_append, dropEscapes, hinside, ih h.2]

@[simp]
theorem plain_append {s t : String} : Plain (s ++ t) ↔ Plain s ∧ Plain t := by
  simp [Plain]

@[simp]
theorem plain_repr (n : Nat) : Plain n.repr := by
  intro hmem
  rw [Nat.repr, String.toList_ofList] at hmem
  have hdigit := Nat.isDigit_of_mem_toDigits (by decide) (by decide) hmem
  exact absurd hdigit (by decide)

theorem plain_fill {c : Char} (hc : c ≠ escape) (count : Nat) : Plain (fill c count) := by
  simp [Plain, fill, hc.symm]

end Text

open Text

/-- Every style is switched to by one escape sequence. -/
theorem Style.exists_sequence_eq (style : Style) :
    ∃ body, style.sequence.toList = escape :: (body ++ ['m']) ∧ 'm' ∉ body := by
  cases style with
  | red => exact ⟨"[1;31".toList, by decide, by decide⟩
  | blue => exact ⟨"[1;34".toList, by decide, by decide⟩
  | bold => exact ⟨"[1".toList, by decide, by decide⟩
  | reset => exact ⟨"[0".toList, by decide, by decide⟩

theorem Style.dropEscapes_sequence_append (style : Style) (rest : List Char) :
    dropEscapes false (style.sequence.toList ++ rest) = dropEscapes false rest := by
  obtain ⟨body, hsequence, hbody⟩ := style.exists_sequence_eq
  rw [hsequence, List.cons_append, dropEscapes, if_pos rfl, List.append_assoc,
    List.singleton_append, dropEscapes_append_m hbody]

namespace Piece

/-- A mark, or a text without an escape character. -/
def Plain : Piece → Prop
  | .text s => Text.Plain s
  | .mark _ => True

/-- Deleting the escape sequences deletes the marks. -/
theorem withoutEscapes_renderAll {pieces : List Piece} (h : ∀ piece ∈ pieces, piece.Plain) :
    withoutEscapes (renderAll true pieces) = renderAll false pieces := by
  have hchars : dropEscapes false (renderAll true pieces).toList =
      (renderAll false pieces).toList := by
    induction pieces with
    | nil => rfl
    | cons piece pieces ih =>
        obtain ⟨hpiece, hpieces⟩ := List.forall_mem_cons.1 h
        rw [renderAll_cons, renderAll_cons, String.toList_append, String.toList_append,
          ← ih hpieces]
        rcases piece with s | style
        · exact dropEscapes_append_of_notMem hpiece _
        · exact style.dropEscapes_sequence_append _
  rw [withoutEscapes, hchars, String.ofList_toList]

end Piece

/-! ## Texts of a report -/

theorem Code.plain_text (code : Code) : Text.Plain code.text := by
  cases code <;> decide

theorem mem_of_mem_trimBreaks {cs : List Char} {c : Char} (h : c ∈ trimBreaks cs) : c ∈ cs := by
  rw [trimBreaks, List.mem_reverse] at h
  exact List.mem_reverse.1 ((List.dropWhile_sublist _).subset h)

/-- A line has only characters of its text. -/
theorem LineTable.mem_of_mem_lineText
    {table : LineTable} {source : String} {line : Nat} {c : Char}
    (h : c ∈ table.lineText source line) : c ∈ source.toList := by
  rw [lineText] at h
  split at h
  · have hslice := mem_of_mem_trimBreaks h
    rcases hcut : slice? source.toList _ _ with _ | middle
    · rw [hcut] at hslice
      exact absurd hslice List.not_mem_nil
    · obtain ⟨front, rest, hsource, -⟩ := slice?_eq_some_iff.1 hcut
      rw [hcut, Option.getD_some] at hslice
      rw [hsource]
      exact List.mem_append_left _ (List.mem_append_right _ hslice)
  · exact absurd h List.not_mem_nil

theorem Excerpt.plain_line
    {source : String} {span : Span} {excerpt : Excerpt} (h : Excerpt.of? source span = some excerpt)
    (hsource : Text.Plain source) : Text.Plain (String.ofList excerpt.line) := by
  obtain ⟨covered, -, hexcerpt⟩ := Option.bind_eq_some_iff.1 h
  obtain rfl := Option.some.inj hexcerpt
  rw [Text.Plain, String.toList_ofList]
  exact fun hmem => hsource (LineTable.mem_of_mem_lineText hmem)

namespace Diagnostic

/-- A diagnostic whose texts have no escape character. -/
structure Plain (d : Diagnostic) : Prop where
  message : Text.Plain d.message
  label : Text.Plain d.label
  notes : ∀ note ∈ d.notes, Text.Plain note

variable {d : Diagnostic} {source : Option String}

theorem plain_headline (h : d.Plain) : ∀ piece ∈ d.headline, piece.Plain := by
  simp +decide [headline, Piece.Plain, h.message, d.code.plain_text]

theorem Plain.spacedLabel (h : d.Plain) : Text.Plain d.spacedLabel := by
  rw [Diagnostic.spacedLabel]
  split
  · decide
  · simp +decide [h.label]

theorem plain_margin (excerpt : Option Excerpt) : Text.Plain (margin excerpt) := by
  rcases excerpt with _ | excerpt
  · decide
  · exact plain_fill (by decide) _

theorem plain_location
    (h : d.Plain) {excerpt : Option Excerpt}
    (hline : ∀ shown ∈ excerpt, Text.Plain (String.ofList shown.line)) :
    ∀ piece ∈ d.location excerpt, piece.Plain := by
  have hlabel := h.spacedLabel
  have hspaces : ∀ count, Text.Plain (fill ' ' count) := plain_fill (by decide)
  have hcarets : ∀ count, Text.Plain (fill '^' count) := plain_fill (by decide)
  rcases excerpt with _ | excerpt
  · simp +decide [location, Piece.Plain, Span.render, hlabel]
  · have hmargin := plain_margin (some excerpt)
    have htext := hline excerpt rfl
    simp +decide [location, Piece.Plain, hlabel, hmargin, htext, hspaces, hcarets]

theorem plain_noteLine {pad note : String} (hpad : Text.Plain pad) (hnote : Text.Plain note) :
    ∀ piece ∈ noteLine pad note, piece.Plain := by
  simp +decide [noteLine, Piece.Plain, hpad, hnote]

/-- Without escape characters in the diagnostic and in the source, the layout has none. -/
theorem plain_layout (h : d.Plain) (hsource : ∀ text ∈ source, Text.Plain text) :
    ∀ piece ∈ d.layout source, piece.Plain := by
  have hline : ∀ excerpt ∈ source.bind (Excerpt.of? · d.span),
      Text.Plain (String.ofList excerpt.line) := by
    intro excerpt hexcerpt
    obtain ⟨text, htext, hfound⟩ := Option.bind_eq_some_iff.1 hexcerpt
    exact Excerpt.plain_line hfound (hsource text htext)
  intro piece hpiece
  simp only [layout, List.mem_append, List.mem_flatMap, List.mem_singleton] at hpiece
  rcases hpiece with ((hpiece | hpiece) | ⟨note, hnote, hpiece⟩) | rfl
  · exact plain_headline h piece hpiece
  · exact plain_location h hline piece hpiece
  · exact plain_noteLine (plain_margin _) (h.notes note hnote) piece hpiece
  · exact (by decide : Text.Plain "\n")

end Diagnostic

theorem plain_summaryLayout (count : Nat) : ∀ piece ∈ summaryLayout count, piece.Plain := by
  have hending : Text.Plain (Diagnostic.pluralEnding count) := by
    rw [Diagnostic.pluralEnding]
    split
    · decide
    · decide
  rw [summaryLayout]
  split
  · simp +decide [Piece.Plain, hending]
  · simp

theorem Report.plain_layout
    {report : Report} {source : Option String} (hreport : ∀ d ∈ report.diagnostics, d.Plain)
    (hsource : ∀ text ∈ source, Text.Plain text) :
    ∀ piece ∈ report.layout source, piece.Plain := by
  intro piece hpiece
  rw [layout, List.mem_append, List.mem_flatMap] at hpiece
  rcases hpiece with ⟨d, hd, hpiece⟩ | hpiece
  · exact Diagnostic.plain_layout (hreport d hd) hsource piece hpiece
  · exact plain_summaryLayout _ piece hpiece

/-- Colors only decorate a report.

Let no message, label or note of the diagnostics have an escape character, and neither the
source, if there is one.  Then the report is shown both with and without colors, and deleting
every escape sequence from the colored output, up to and including its `m`, leaves exactly the
plain output. -/
theorem colors_only_decorate
    (report : Report) (source : Option String) (hreport : ∀ d ∈ report.diagnostics, d.Plain)
    (hsource : ∀ text ∈ source, Text.Plain text) :
    ∃ colored plain : String,
      (∀ sink : Sink, sink.capacity = none →
        report.emit ⟨true, source⟩ sink =
          (.ok (), { sink with
            written := sink.written ++ colored.toUTF8
            flushes := sink.flushes + 1 })) ∧
      (∀ sink : Sink, sink.capacity = none →
        report.emit ⟨false, source⟩ sink =
          (.ok (), { sink with
            written := sink.written ++ plain.toUTF8
            flushes := sink.flushes + 1 })) ∧
      withoutEscapes colored = plain :=
  ⟨_, _, fun _ h => report.emit_unlimited ⟨true, source⟩ h,
    fun _ h => report.emit_unlimited ⟨false, source⟩ h,
    Piece.withoutEscapes_renderAll (Report.plain_layout hreport hsource)⟩

/-- A report on the call `f(1)` in a source whose texts have an `m` and a bracket. -/
def callReport : Report where
  diagnostics := [⟨.argumentMismatch, ⟨4, 8⟩, "mismatch", "found [m]", ["expected: ()"]⟩]
  dropped := 0
  errorCount := 1
  guarantee := some .errorFound

/-- The report as it is shown with colors. -/
def coloredCall : String :=
  "\x1b[1;31merror[E2010]\x1b[0m\x1b[1m: mismatch\x1b[0m\n" ++
    " \x1b[1;34m-->\x1b[0m 1:5\n  \x1b[1;34m|\x1b[0m\n" ++
    "\x1b[1;34m1 |\x1b[0m m = f(1)\n" ++
    "  \x1b[1;34m|\x1b[0m     \x1b[1;31m^^^^ found [m]\x1b[0m\n" ++
    "  \x1b[1;34m=\x1b[0m \x1b[1mnote\x1b[0m: expected: ()\n\n" ++
    "\x1b[1;31merror\x1b[0m\x1b[1m: checking failed with 1 error\x1b[0m\n"

/-- The report as it is shown without colors. -/
def plainCall : String :=
  "error[E2010]: mismatch\n --> 1:5\n  |\n1 | m = f(1)\n" ++
    "  |     ^^^^ found [m]\n  = note: expected: ()\n\n" ++
    "error: checking failed with 1 error\n"

theorem callReport_decorated :
    (∀ d ∈ callReport.diagnostics, d.Plain) ∧ Text.Plain "m = f(1)" ∧
      (callReport.emit ⟨true, some "m = f(1)"⟩ (Sink.empty none)).2.written = coloredCall.toUTF8 ∧
      (callReport.emit ⟨false, some "m = f(1)"⟩ (Sink.empty none)).2.written = plainCall.toUTF8 ∧
      withoutEscapes coloredCall = plainCall := by
  have hreport : ∀ d ∈ callReport.diagnostics, d.Plain := by
    intro d hd
    obtain rfl := List.mem_singleton.1 hd
    exact ⟨by decide, by decide, by decide⟩
  have hsource : Text.Plain "m = f(1)" := by decide
  have hcolored : (callReport.emit ⟨true, some "m = f(1)"⟩ (Sink.empty none)).2.written =
      coloredCall.toUTF8 := by
    have htext : Piece.renderAll true (callReport.layout (some "m = f(1)")) = coloredCall := by
      decide +kernel
    rw [callReport.emit_unlimited _ rfl, htext]
    simp [Sink.empty]
  have hplain : (callReport.emit ⟨false, some "m = f(1)"⟩ (Sink.empty none)).2.written =
      plainCall.toUTF8 := by
    have htext : Piece.renderAll false (callReport.layout (some "m = f(1)")) = plainCall := by
      decide +kernel
    rw [callReport.emit_unlimited _ rfl, htext]
    simp [Sink.empty]
  refine ⟨hreport, hsource, hcolored, hplain, ?_⟩
  obtain ⟨colored, plain, hemit, hemit', hstrip⟩ :=
    colors_only_decorate callReport (some "m = f(1)") hreport (by rintro text ⟨rfl⟩; exact hsource)
  rw [hemit _ rfl] at hcolored
  rw [hemit' _ rfl] at hplain
  obtain rfl : colored = coloredCall := by simpa [Sink.empty, String.toByteArray_inj] using hcolored
  obtain rfl : plain = plainCall := by simpa [Sink.empty, String.toByteArray_inj] using hplain
  exact hstrip

end ExprTyping
