import ExprTyping.Checker
import ExprTyping.Diagnostic.Queue
import ExprTyping.Terminal

/-!
# Reports

A report gathers the errors of checked expressions, in order, through one queue.
It can be shown on a terminal.
-/

namespace ExprTyping

/-- What is shown for checked expressions. -/
structure Report where
  /-- The kept diagnostics by position, and the notice about dropped ones. -/
  diagnostics : List Diagnostic
  dropped : Nat
  /-- The number of errors, shown or dropped. -/
  errorCount : Nat
  guarantee : Option Guarantee
deriving DecidableEq, Repr

namespace Report

/-- A queue, the span of the error seen last, and the log of refusals. -/
structure Progress where
  queue : Queue
  lastSpan : Span
  log : Array LogEntry

/-- Offers the diagnostic of an error to the queue. -/
def offer (text : Name → String) (source : String) (table : LineTable)
    (progress : Progress) (error : TypeError) : Progress :=
  let position := table.position source error.span.start
  let (kept, queue) := progress.queue.add (error.diagnostic text) position
  { queue
    lastSpan := error.span
    log :=
      if kept.isSome then progress.log
      else progress.log.push (.notKept error.code error.span) }

/-- The progress after all errors. -/
def gather (text : Name → String) (source : String) (config : QueueConfig)
    (errors : List TypeError) : Progress :=
  let table := LineTable.ofText source
  errors.foldl (offer text source table) ⟨Queue.empty config, Span.zero, #[]⟩

/-- The report of a queue, with the notice at the given span. -/
def ofQueue (queue : Queue) (span : Span) : Report where
  diagnostics := queue.sorted ++ (queue.notice? span).toList
  dropped := queue.dropped
  errorCount := queue.size + queue.dropped
  guarantee := queue.guarantee

/-- The report on a list of results, and the log of refused diagnostics. -/
def collectLogged (results : List Checked) (text : Name → String) (source : String)
    (config : QueueConfig) : Report × List LogEntry :=
  let progress := gather text source config (results.flatMap Checked.errors)
  (ofQueue progress.queue progress.lastSpan, progress.log.toList)

/-- The report on a list of results. -/
def collect (results : List Checked) (text : Name → String) (source : String)
    (config : QueueConfig) : Report :=
  (collectLogged results text source config).1

/-- Shows all diagnostics and the closing line. -/
def emit (terminal : Terminal) (report : Report) : Writing Unit := do
  terminal.emitAll report.diagnostics
  terminal.finish report.errorCount

end Report
end ExprTyping
