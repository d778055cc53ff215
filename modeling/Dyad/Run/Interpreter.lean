import Dyad.Run.Execution

/-!
Whole runs of the interpreter. Every run starts from the fresh state and flushes its output if it
ends normally; only such runs count in the statistics.
-/

namespace Dyad

/-- Totals over the runs that ended normally. -/
structure RunStats where
  runs : Nat := 0
  executed : Nat := 0
  deriving DecidableEq, Repr

/-- An interpreter of one list of words, with its statistics. -/
structure Interpreter where
  words : Array UInt32
  trace : Bool := false
  stats : RunStats := {}

namespace Interpreter

/-- What a run leaves behind. -/
structure Report where
  /-- The state reached; after a failure, the state in which the last step failed. -/
  state : State
  fault : Option Fault
  sink : Sink
  /-- All events, oldest first. -/
  events : List Event

/-- The end of a run: a normal end flushes, counts the run and reports it; a failed one, or one
whose flush fails, counts nothing. -/
def finish (m : Interpreter) (x : Execution) : Option Fault → Report × Interpreter
  | some cause => (⟨x.state, some cause, x.sink, x.events.reverse⟩, m)
  | none =>
    match x.sink.flush with
    | (sink, some reason) => (⟨x.state, some (.output reason), sink, x.events.reverse⟩, m)
    | (sink, none) =>
      (⟨x.state, none, sink, (.runFinished x.executed :: x.events).reverse⟩,
        { m with stats := ⟨m.stats.runs + 1, m.stats.executed + x.executed⟩ })

/-- Runs from the fresh state, for at most `fuel` steps. No answer means that the run has not
ended by then. -/
def run (m : Interpreter) (fuel : Nat) (sink : Sink) : Option (Report × Interpreter) :=
  match Execution.runFor m.words m.trace fuel { sink } with
  | (_, .advanced) => none
  | (x, .halted) => some (m.finish x none)
  | (x, .failed cause) => some (m.finish x (some cause))

end Interpreter

end Dyad
