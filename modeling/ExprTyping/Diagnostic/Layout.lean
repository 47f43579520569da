import ExprTyping.Diagnostic
import ExprTyping.Text.Lines

/-!
# Layout of diagnostics

A diagnostic is laid out as a list of pieces, which are either text or marks of
style.  Only the rendering of a mark depends on whether colors are used, so the
layout is the same with and without them.

With the source at hand, the line that a span starts on is shown and the part of
it that the span covers is underlined; otherwise the span itself is shown.
-/

namespace ExprTyping

/-- A mark of style. -/
inductive Style where
  | red
  | blue
  | bold
  | reset
deriving DecidableEq, Repr

/-- The escape sequence that switches to a style. -/
def Style.sequence : Style → String
  | .red => "\x1b[1;31m"
  | .blue => "\x1b[1;34m"
  | .bold => "\x1b[1m"
  | .reset => "\x1b[0m"

/-- A part of the output. -/
inductive Piece where
  | text (s : String)
  | mark (style : Style)
deriving DecidableEq, Repr

/-- The written form of a piece; without colors a style is written as nothing. -/
def Piece.render (colors : Bool) : Piece → String
  | .text s => s
  | .mark style => if colors then style.sequence else ""

/-- The part of the source that a diagnostic shows. -/
structure Excerpt where
  position : Position
  /-- The text of the line. -/
  line : List Char
  /-- How many characters are underlined. -/
  width : Nat
deriving DecidableEq, Repr

namespace Excerpt

/-- The first line of a text without its line break.  A carriage return belongs
to the break only directly before a line feed. -/
def firstLine (cs : List Char) : List Char :=
  match cs.span (· ≠ '\n') with
  | (line, []) => line
  | (line, _ :: _) => if line.getLast? = some '\r' then line.dropLast else line

/-- The excerpt for a span, if the span covers a part of the source. -/
def of? (source : String) (span : Span) : Option Excerpt := do
  let covered ← span.covered? source
  let table := LineTable.ofText source
  let position := table.position source span.start
  return {
    position
    line := table.lineText source position.line
    width := max 1 (firstLine covered).length }

end Excerpt

/-- A text of one repeated character. -/
def Text.fill (c : Char) (count : Nat) : String :=
  String.ofList (List.replicate count c)

namespace Diagnostic

/-- The line with code and message. -/
def headline (d : Diagnostic) : List Piece :=
  [.mark .red, .text s!"error[{d.code.text}]", .mark .reset,
    .mark .bold, .text s!": {d.message}", .mark .reset, .text "\n"]

/-- The label with a space before it, unless it is empty. -/
def spacedLabel (d : Diagnostic) : String :=
  if d.label.isEmpty then "" else " " ++ d.label

/-- The margin left of the notes: as wide as the line number, or one column if
no line is shown. -/
def margin : Option Excerpt → String
  | some excerpt => Text.fill ' ' (toString excerpt.position.line).length
  | none => " "

/-- The lines that show where the error is. -/
def location (d : Diagnostic) : Option Excerpt → List Piece
  | some excerpt =>
    let number := toString excerpt.position.line
    let pad := margin (some excerpt)
    let indent := Text.fill ' ' (excerpt.position.column - 1)
    let carets := Text.fill '^' excerpt.width
    [.text pad, .mark .blue, .text "-->", .mark .reset,
      .text s!" {excerpt.position.line}:{excerpt.position.column}\n",
      .text s!"{pad} ", .mark .blue, .text "|", .mark .reset, .text "\n",
      .mark .blue, .text s!"{number} |", .mark .reset,
      .text s!" {String.ofList excerpt.line}\n",
      .text s!"{pad} ", .mark .blue, .text "|", .mark .reset,
      .text s!" {indent}",
      .mark .red, .text s!"{carets}{d.spacedLabel}", .mark .reset,
      .text "\n"]
  | none =>
    [.text " ", .mark .blue, .text "-->", .mark .reset,
      .text s!" {d.span.render}{d.spacedLabel}\n"]

/-- The line with a note. -/
def noteLine (pad note : String) : List Piece :=
  [.text s!"{pad} ", .mark .blue, .text "=", .mark .reset, .text " ",
    .mark .bold, .text "note", .mark .reset, .text s!": {note}\n"]

/-- The whole diagnostic, followed by an empty line. -/
def layout (source : Option String) (d : Diagnostic) : List Piece :=
  let excerpt := source.bind (Excerpt.of? · d.span)
  d.headline ++ d.location excerpt ++ d.notes.flatMap (noteLine (margin excerpt)) ++
    [.text "\n"]

end Diagnostic

/-- The closing line, which is left out when there are no errors. -/
def summaryLayout (count : Nat) : List Piece :=
  if 0 < count then
    [.mark .red, .text "error", .mark .reset, .mark .bold,
      .text s!": checking failed with {count} error{Diagnostic.pluralEnding count}",
      .mark .reset, .text "\n"]
  else
    []

end ExprTyping
