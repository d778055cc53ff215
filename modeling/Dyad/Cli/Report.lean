import Dyad.Cli.Arguments
import Dyad.Cli.Log
import Dyad.Native.Compiler
import Dyad.Run.Interpreter
import Dyad.Sample.Fibonacci
import Dyad.Settings.Basic

/-!
What the command line prints. A run goes through up to three sections, one for each engine: the
interpreter, compiled code, and the plain loop. Each section shows its result and then the time it
took; the first section that fails ends the run. How time is taken and how a settings file is read
is left open.
-/

namespace Dyad.Cli

/-- The outcome of a command: exit status, lines on standard output, log records before any
filter, and lines on standard error. -/
structure Report where
  exit : UInt8 := 0
  stdout : List String := []
  log : List Record := []
  stderr : List String := []
  deriving DecidableEq, Repr

namespace Report

/-- One report after another. -/
def append (r s : Report) : Report :=
  ⟨s.exit, r.stdout ++ s.stdout, r.log ++ s.log, r.stderr ++ s.stderr⟩

def failure (message : String) : Report := { exit := 1, stderr := ["error: " ++ message] }

/-- A failure while doing something, which is named first. -/
def failureWhile (doing message : String) : Report := failure (doing ++ ": " ++ message)

/-- The log records that a filter lets through, as lines. -/
def logLines (r : Report) (f : Filter) : List String := (r.log.filter f.shows).map Record.text

end Report

/-- The line that closes a section. -/
def timeLine (label : String) (elapsed : Elapsed) : String :=
  String.ofList (label.toList.rightpad 8 ' ') ++ " " ++ elapsed.microseconds ++ "us"

/-- More steps than any run of the sample program takes. -/
def fuel : Nat := 0x100000000

/-- The lines of a text in which every line ends with a newline. -/
def textLines (text : String) : List String :=
  ((Environment.splitLines [] text.toList).dropLast).map String.ofList

/-- What an engine printed and reported, its failure if there is one, and else its time. -/
def engineReport (doing label : String) (elapsed : Elapsed) (printed : Sink)
    (events : List Event) : Option Fault → Report
  | some cause =>
    (Report.mk 0 (textLines printed.text) (events.map (Record.ofEvent elapsed)) []).append
      (Report.failureWhile doing cause.message)
  | none =>
    { stdout := textLines printed.text ++ [timeLine label elapsed]
      log := events.map (Record.ofEvent elapsed) }

def unfinished : Report := Report.failure "the run has not ended"

/-- The interpreter's section. -/
def interpretSection {m : Type → Type} [Monad m] (watch : Stopwatch m) (p : Program)
    (settings : Settings) : m Report := do
  let (result, elapsed) ← watch.time fun _ =>
    Interpreter.run { words := p.words, trace := settings.trace } fuel {}
  match result with
  | none => return unfinished
  | some (r, _) => return engineReport "interpreting" "vm" elapsed r.sink r.events r.fault

/-- The section of compiled code. -/
def jitSection {m : Type → Type} [Monad m] (watch : Stopwatch m) (p : Program)
    (settings : Settings) : m Report := do
  match Compiler.new? settings.cachedCells with
  | .error cause => return Report.failure cause.message
  | .ok compiler =>
    let (compiled, elapsed) ← watch.time fun _ => compiler.compile p
    match compiled with
    | .error cause => return Report.failureWhile "compiling" cause.message
    | .ok (routine, _) =>
      let compiledReport : Report :=
        { log := [Record.ofEvent elapsed (Compiler.compiledEvent routine),
            Record.routineCompiled routine.stats.codeSize routine.cachedCells elapsed] }
      let (result, elapsed) ← watch.time fun _ => routine.invoke fuel {}
      match result with
      | none => return compiledReport.append unfinished
      | some (r, _) =>
        return compiledReport.append
          (engineReport "running compiled routine" "jit" elapsed r.sink r.events r.fault)

/-- The plain loop's section. -/
def nativeSection {m : Type → Type} [Monad m] (watch : Stopwatch m) (terms : UInt32) :
    m Report := do
  let (v, elapsed) ← watch.time fun _ => Fibonacci.value terms
  return { stdout :=
    ["c=" ++ String.ofList (Numeral.signed (signedWord v)) ++
      "(0x" ++ String.ofList (Numeral.hex 8 v.toNat) ++ ")",
      timeLine "native" elapsed] }

/-- Goes on with a section, if it is included, after a report without failure. -/
def andThen {m : Type → Type} [Monad m] (r : Report) (included : Bool) (next : Unit → m Report) :
    m Report := do
  if r.exit = 0 ∧ included then return r.append (← next ()) else return r

/-- All sections that the mode includes, in order. -/
def runReport {m : Type → Type} [Monad m] (watch : Stopwatch m) (o : RunOptions)
    (settings : Settings) : m Report := do
  match Fibonacci.program o.terms with
  | .error cause => return Report.failureWhile "building the Fibonacci program" cause.message
  | .ok p =>
    let r : Report := { log := [Record.programBuilt o.terms.toNat p.size] }
    let r ← andThen r (o.mode.includes .interp) fun _ => interpretSection watch p settings
    let r ← andThen r (o.mode.includes .jit) fun _ => jitSection watch p settings
    andThen r (o.mode.includes .native) fun _ => nativeSection watch o.terms

/-- The listing of the sample program. -/
def disReport (terms : UInt32) : Report :=
  match Fibonacci.program terms with
  | .error cause => Report.failureWhile "building the Fibonacci program" cause.message
  | .ok p => { stdout := textLines p.listing }

/-- The settings of a run: options win over the environment. -/
def runSettings (o : RunOptions) (env : Environment) : Settings :=
  let settings := Settings.ofEnvironment env
  { trace := o.trace || settings.trace
    cachedCells := o.cachedCells.getD settings.cachedCells }

/-- The environment with what the settings file adds, if there is one. How a file is read is left
open: `load` adds what its text sets. -/
def fullEnvironment (load : Environment → String → Environment) (env : Environment)
    (file : Option String) : Environment :=
  match file with
  | none => env
  | some text => load env text

/-- The log filter of a command. An explicit request to trace is known before the settings file is
read, so the file then has no say in the filter. -/
def filterOf (load : Environment → String → Environment) (env : Environment)
    (file : Option String) : Command → Filter
  | .run { trace := true, .. } => Filter.ofEnvironment env true
  | _ =>
    let env := fullEnvironment load env file
    Filter.ofEnvironment env (Settings.ofEnvironment env).trace

def versionLine : String := "toyvm 2026.1.16"

def helpLines : List String :=
  ["Usage: toyvm run [-n N] [-m interp|jit|native|all] [-c K] [--trace]",
    "       toyvm dis [-n N]"]

/-- The report of a command. -/
def report {m : Type → Type} [Monad m] (watch : Stopwatch m)
    (load : Environment → String → Environment) (env : Environment) (file : Option String) :
    Command → m Report
  | .version => return { stdout := [versionLine] }
  | .help => return { stdout := helpLines }
  | .dis terms => return disReport terms
  | .run o => runReport watch o (runSettings o (fullEnvironment load env file))

end Dyad.Cli
