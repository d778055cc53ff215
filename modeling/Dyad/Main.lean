import Dyad.Cli.Report

/-! The command: reads arguments, environment and settings file, and prints the report of what was
asked for. -/

namespace Dyad.Cli

/-- The settings file in the working directory, if there is one. -/
def readSettings : IO (Option String) := do
  try return some (← IO.FS.readFile ".env") catch _ => return none

/-- The words of a text that may be names of variables. -/
def namesIn (text : String) : List String :=
  let words (inName : Char → Bool) : List (List Char) :=
    Environment.splitLines [] (text.toList.map fun c => if inName c then c else '\n')
  (words Environment.isKeyChar ++ words isAlphanumeric).map String.ofList

/-- Those variables of the process that the command or its settings file mentions. -/
def readEnvironment (file : Option String) : IO Environment := do
  let names := ["TOYVM_TRACE", "TOYVM_CACHED_CELLS", "RUST_LOG"] ++ namesIn (file.getD "")
  let entries ← names.filterMapM fun name => do
    return (← IO.getEnv name).map fun value => (name, value)
  return ⟨entries⟩

/-- Measures by the clock. -/
def clock : Stopwatch IO where
  time work := do
    let start ← IO.monoNanosNow
    let result ← IO.lazyPure work
    let stop ← IO.monoNanosNow
    return (result, ⟨some (stop - start)⟩)

/-- Prints a report: the log and errors on standard error, all else on standard output. -/
def printReport (filter : Filter) (r : Report) : IO Unit := do
  for line in r.logLines filter do IO.eprintln line
  for line in r.stdout do IO.println line
  for line in r.stderr do IO.eprintln line

end Dyad.Cli

open Dyad Dyad.Cli

def main (args : List String) : IO UInt32 := do
  match parse args with
  | none =>
    for line in helpLines do IO.eprintln line
    return 2
  | some command =>
    let file ← readSettings
    let env ← readEnvironment file
    let r ← report clock Environment.load env file command
    printReport (filterOf Environment.load env file command) r
    return r.exit.toUInt32
