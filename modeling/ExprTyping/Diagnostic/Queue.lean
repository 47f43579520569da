import ExprTyping.Diagnostic
import ExprTyping.Text.Lines

/-!
# Queue of diagnostics

A queue keeps the diagnostics that are to be shown.  It can refuse those that
repeat a queued one, and it can keep a limited number only, counting the others.
-/

namespace ExprTyping

/-- The certainty that an error has been found. -/
inductive Guarantee where
  | errorFound
deriving DecidableEq, Repr

namespace Guarantee

/-- There is a guarantee as soon as one error has been counted. -/
def ofCount : Nat → Option Guarantee
  | 0 => none
  | _ + 1 => some .errorFound

def text : Guarantee → String
  | .errorFound => "error(s) emitted"

end Guarantee

/-- What a queue keeps. -/
structure QueueConfig where
  /-- The largest number of diagnostics that are kept; zero sets no limit. -/
  limit : Nat
  /-- Whether repeats of a queued diagnostic are refused. -/
  dedup : Bool
deriving DecidableEq, Repr

namespace QueueConfig

/-- Ten diagnostics and no repeats. -/
def standard : QueueConfig := ⟨10, true⟩

/-- Everything, repeats included. -/
def unlimited : QueueConfig := ⟨0, false⟩

/-- Whether nothing more can be kept beside `count` diagnostics. -/
def isFull (config : QueueConfig) (count : Nat) : Bool :=
  0 < config.limit && config.limit ≤ count

end QueueConfig

/-- Diagnostics in the order of their arrival, with the positions they are
reported at. -/
structure Queue where
  config : QueueConfig
  entries : Array (Position × Diagnostic)
  /-- How many diagnostics the limit has refused. -/
  dropped : Nat
deriving DecidableEq, Repr

namespace Queue

/-- The queue without diagnostics. -/
def empty (config : QueueConfig) : Queue :=
  ⟨config, #[], 0⟩

def size (queue : Queue) : Nat :=
  queue.entries.size

/-- Whether a diagnostic repeats a queued one. -/
def repeats (queue : Queue) (d : Diagnostic) : Bool :=
  queue.entries.any fun entry => entry.2.sameReport d

/-- Offers a diagnostic to the queue.  There is a guarantee when it is kept.  A
refused repeat is not counted as dropped. -/
def add (queue : Queue) (d : Diagnostic) (position : Position) : Option Guarantee × Queue :=
  if queue.config.dedup && queue.repeats d then
    (none, queue)
  else if queue.config.isFull queue.size then
    (none, { queue with dropped := queue.dropped + 1 })
  else
    (some .errorFound, { queue with entries := queue.entries.push (position, d) })

/-- A guarantee if anything is queued. -/
def guarantee (queue : Queue) : Option Guarantee :=
  Guarantee.ofCount queue.size

/-- The notice about dropped diagnostics, if there are any. -/
def notice? (queue : Queue) (span : Span) : Option Diagnostic :=
  if 0 < queue.dropped then
    some
      { code := .limitNotice
        span
        message := s!"{queue.dropped} more error{Diagnostic.pluralEnding queue.dropped} not shown"
        notes := [s!"error limit is {queue.config.limit}"] }
  else
    none

/-- The queued diagnostics by position; those at one position stay in the order
of their arrival. -/
def sorted (queue : Queue) : List Diagnostic :=
  (queue.entries.toList.mergeSort fun a b => a.1.le b.1).map Prod.snd

end Queue
end ExprTyping
