import ExprTyping.Report

/-!
# Rendered diagnostics

A terminal writes a layout piece by piece.  Where nothing limits the sink, this amounts to
writing one text, and without colors the text of a diagnostic can be given row by row.
-/

namespace ExprTyping

open Text

@[simp]
theorem Text.toString_self (s : String) : toString s = s :=
  rfl

/-! ## Written pieces -/

namespace Piece

/-- The written form of pieces one after the other. -/
def renderAll (colors : Bool) (pieces : List Piece) : String :=
  String.join (pieces.map (·.render colors))

@[simp]
theorem renderAll_nil (colors : Bool) : renderAll colors [] = "" :=
  rfl

@[simp]
theorem renderAll_cons (colors : Bool) (piece : Piece) (pieces : List Piece) :
    renderAll colors (piece :: pieces) = piece.render colors ++ renderAll colors pieces := by
  simp [renderAll]

@[simp]
theorem renderAll_append (colors : Bool) (pieces others : List Piece) :
    renderAll colors (pieces ++ others) = renderAll colors pieces ++ renderAll colors others := by
  simp [renderAll]

theorem renderAll_flatMap {α : Type} (colors : Bool) (f : α → List Piece) (xs : List α) :
    renderAll colors (xs.flatMap f) = String.join (xs.map fun x => renderAll colors (f x)) := by
  induction xs with
  | nil => rfl
  | cons x xs ih =>
      rw [List.flatMap_cons, renderAll_append, ih, List.map_cons, String.join_cons]

end Piece

/-! ## Writing without a limit -/

/-- After a success, writing goes on with the changed sink. -/
theorem Writing.bind_of_ok {α β : Type} {first : Writing α} {next : α → Writing β}
    {sink middle : Sink} {a : α} (h : first sink = (.ok a, middle)) :
    (first >>= next) sink = next a middle := by
  change ExceptT.bindCont next (first sink).1 (first sink).2 = _
  rw [h]
  rfl

/-- A sink without a limit takes all pieces. -/
theorem Terminal.put_unlimited (terminal : Terminal) (pieces : List Piece)
    {sink : Sink} (h : sink.capacity = none) :
    terminal.put pieces sink =
      (.ok (), { sink with
        written := sink.written ++ (Piece.renderAll terminal.colors pieces).toUTF8 }) := by
  induction pieces generalizing sink with
  | nil =>
      have hwritten : sink.written ++ "".toUTF8 = sink.written := by simp
      rw [Piece.renderAll_nil, hwritten]
      rfl
  | cons piece pieces ih =>
      let middle : Sink :=
        { sink with written := sink.written ++ (piece.render terminal.colors).toUTF8 }
      have hfirst : terminal.put (piece :: pieces) sink = terminal.put pieces middle :=
        Writing.bind_of_ok (Sink.write_unlimited h _)
      have hrest := ih (show middle.capacity = none from h)
      rw [hfirst, hrest, Piece.renderAll_cons]
      simp [middle, ByteArray.append_assoc]

/-! ## Reports -/

theorem Terminal.put_append (terminal : Terminal) (pieces others : List Piece) :
    terminal.put (pieces ++ others) = terminal.put pieces >>= fun _ => terminal.put others :=
  List.forM_append

/-- Showing diagnostics writes their layouts one after the other. -/
theorem Terminal.emitAll_eq_put (terminal : Terminal) (ds : List Diagnostic) :
    terminal.emitAll ds = terminal.put (ds.flatMap (Diagnostic.layout terminal.source)) := by
  induction ds with
  | nil => rfl
  | cons d ds ih =>
      rw [List.flatMap_cons, Terminal.put_append, ← ih]
      rfl

/-- The layout of all diagnostics and of the closing line. -/
def Report.layout (source : Option String) (report : Report) : List Piece :=
  report.diagnostics.flatMap (Diagnostic.layout source) ++ summaryLayout report.errorCount

theorem Report.emit_eq_put (terminal : Terminal) (report : Report) :
    report.emit terminal =
      terminal.put (report.layout terminal.source) >>= fun _ => Sink.flush := by
  rw [Report.emit, Terminal.emitAll_eq_put, Report.layout, Terminal.put_append, bind_assoc]
  rfl

theorem Report.emit_unlimited (terminal : Terminal) (report : Report)
    {sink : Sink} (h : sink.capacity = none) :
    report.emit terminal sink =
      (.ok (), { sink with
        written := sink.written ++
          (Piece.renderAll terminal.colors (report.layout terminal.source)).toUTF8
        flushes := sink.flushes + 1 }) := by
  rw [emit_eq_put]
  exact Writing.bind_of_ok (terminal.put_unlimited _ h)

/-! ## Plain text -/

namespace Diagnostic

/-- The rows of the notes without colors. -/
def noteRows (d : Diagnostic) (pad : String) : String :=
  String.join (d.notes.map fun note => s!"{pad} = note: {note}\n")

theorem renderAll_notes (d : Diagnostic) (pad : String) :
    Piece.renderAll false (d.notes.flatMap (noteLine pad)) = d.noteRows pad := by
  rw [Piece.renderAll_flatMap, noteRows]
  congr 2
  funext note
  rw [← String.toList_inj]
  simp [noteLine, Piece.render]

/-- Without an excerpt the span is shown itself. -/
theorem renderAll_layout_of_none (d : Diagnostic) {source : Option String}
    (h : source.bind (Excerpt.of? · d.span) = none) :
    Piece.renderAll false (d.layout source) =
      s!"error[{d.code.text}]: {d.message}\n --> {d.span.render}{d.spacedLabel}\n" ++
        d.noteRows " " ++ "\n" := by
  rw [layout, h]
  simp only [Piece.renderAll_append, margin, renderAll_notes]
  -- Pieces and rows cut the same text at different places, so their characters are compared.
  rw [← String.toList_inj]
  simp [headline, location, Piece.render]

/-- An excerpt makes a row for the line and a row for the carets. -/
theorem renderAll_layout_of_some (d : Diagnostic) {source : Option String} {excerpt : Excerpt}
    (h : source.bind (Excerpt.of? · d.span) = some excerpt) :
    let position := excerpt.position
    let pad := fill ' ' (toString position.line).length
    Piece.renderAll false (d.layout source) =
      s!"error[{d.code.text}]: {d.message}\n{pad}--> {position.line}:{position.column}\n" ++
        s!"{pad} |\n" ++ toString position.line ++ " | " ++ String.ofList excerpt.line ++ "\n" ++
        pad ++ " | " ++ fill ' ' (position.column - 1) ++ fill '^' excerpt.width ++
        d.spacedLabel ++ "\n" ++ d.noteRows pad ++ "\n" := by
  intro position pad
  rw [layout, h]
  simp only [Piece.renderAll_append, margin, renderAll_notes]
  rw [← String.toList_inj]
  simp [headline, location, Piece.render, margin, position, pad]

end Diagnostic

end ExprTyping
