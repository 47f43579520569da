import ExprTyping.Diagnostic.Layout
import ExprTyping.Sink

/-!
# Terminals

A terminal writes the layout of diagnostics to a sink, with or without colors.
-/

namespace ExprTyping

/-- When colors are used. -/
inductive ColorMode where
  | auto
  | always
  | never
deriving DecidableEq, Repr

namespace ColorMode

def all : List ColorMode := [.auto, .always, .never]

/-- Colors are used on request, and by default on an interactive terminal. -/
def usesColors (mode : ColorMode) (interactive : Bool) : Bool :=
  match mode with
  | .auto => interactive
  | .always => true
  | .never => false

def dump : ColorMode → String
  | .auto => "Auto"
  | .always => "Always"
  | .never => "Never"

end ColorMode

/-- How diagnostics are shown. -/
structure Terminal where
  colors : Bool
  /-- The text that the spans of the diagnostics point into. -/
  source : Option String
deriving DecidableEq, Repr

/-- What a terminal can be asked to show. -/
inductive Command where
  | emit (d : Diagnostic)
  | emitAll (ds : List Diagnostic)
  | finish (count : Nat)
deriving DecidableEq, Repr

namespace Terminal

/-- Writes pieces one after the other. -/
def put (terminal : Terminal) (pieces : List Piece) : Writing Unit :=
  pieces.forM fun piece => Sink.write (piece.render terminal.colors)

/-- Shows a diagnostic. -/
def emit (terminal : Terminal) (d : Diagnostic) : Writing Unit :=
  terminal.put (d.layout terminal.source)

/-- Shows diagnostics up to the first that cannot be written. -/
def emitAll (terminal : Terminal) (ds : List Diagnostic) : Writing Unit :=
  ds.forM terminal.emit

/-- Shows the closing line and flushes. -/
def finish (terminal : Terminal) (count : Nat) : Writing Unit := do
  terminal.put (summaryLayout count)
  Sink.flush

def perform (terminal : Terminal) : Command → Writing Unit
  | .emit d => terminal.emit d
  | .emitAll ds => terminal.emitAll ds
  | .finish count => terminal.finish count

end Terminal
end ExprTyping
