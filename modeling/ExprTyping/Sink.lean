/-!
# Writing to a sink

A sink takes bytes, possibly no more than a fixed number of them.  A write that
does not fit fills the sink and fails, and what was to be written after it is
not attempted.
-/

namespace ExprTyping

/-- Why writing failed. -/
inductive WriteError where
  | sinkFull
deriving DecidableEq, Repr

def WriteError.message : WriteError → String
  | .sinkFull => "failed to write whole buffer"

/-- What has been written, and how much more there is room for. -/
structure Sink where
  /-- The number of bytes that fit; without one there is no limit. -/
  capacity : Option Nat
  written : ByteArray
  flushes : Nat

/-- Writing changes a sink even when it fails. -/
abbrev Writing : Type → Type :=
  ExceptT WriteError (StateM Sink)

namespace Sink

/-- The sink that nothing has been written to. -/
def empty (capacity : Option Nat) : Sink where
  capacity := capacity
  written := ByteArray.empty
  flushes := 0

/-- Whether so many more bytes fit. -/
def fits (sink : Sink) (count : Nat) : Bool :=
  match sink.capacity with
  | none => true
  | some capacity => sink.written.size + count ≤ capacity

/-- The bytes that still fit into the sink. -/
def cut (sink : Sink) (bytes : ByteArray) : ByteArray :=
  match sink.capacity with
  | none => bytes
  | some capacity => bytes.extract 0 (capacity - sink.written.size)

/-- Writes a text, or as much of it as fits. -/
def write (s : String) : Writing Unit :=
  fun sink =>
    let bytes := s.toUTF8
    if bytes.isEmpty || sink.fits bytes.size then
      (.ok (), { sink with written := sink.written ++ bytes })
    else
      (.error .sinkFull, { sink with written := sink.written ++ sink.cut bytes })

/-- A sink without a limit takes every text whole. -/
theorem write_unlimited {sink : Sink} (h : sink.capacity = none) (s : String) :
    write s sink = (.ok (), { sink with written := sink.written ++ s.toUTF8 }) := by
  simp [write, fits, h]

/-- Passes on what has been written. -/
def flush : Writing Unit :=
  fun sink => (.ok (), { sink with flushes := sink.flushes + 1 })

end Sink

end ExprTyping
