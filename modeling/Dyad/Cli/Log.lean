import Dyad.Cli.Elapsed
import Dyad.Run.Fault
import Dyad.Settings.Environment

/-!
The log: records with a level and an origin, and the filter that decides which of them are shown.
-/

namespace Dyad.Cli

inductive Level where
  | trace
  | debug
  | info
  | warn
  | error
  deriving DecidableEq, Repr

namespace Level

def rank : Level → Nat
  | trace => 0
  | debug => 1
  | info => 2
  | warn => 3
  | error => 4

def name : Level → String
  | trace => "TRACE"
  | debug => "DEBUG"
  | info => "INFO"
  | warn => "WARN"
  | error => "ERROR"

end Level

/-- Where a record comes from. -/
inductive Origin where
  | command
  | interpreter
  | compiler
  deriving DecidableEq, Repr

namespace Origin

def name : Origin → String
  | command => "toyvm"
  | interpreter => "toyvm_core::vm::interpreter"
  | compiler => "toyvm_core::vm::jit"

/-- Whether the record comes from the machine and not from the command line. -/
def isCore : Origin → Bool
  | command => false
  | interpreter | compiler => true

end Origin

structure Record where
  level : Level
  origin : Origin
  message : String
  deriving DecidableEq, Repr

namespace Record

def text (r : Record) : String := r.level.name ++ " " ++ r.origin.name ++ ": " ++ r.message

private def number (n : Nat) : String := String.ofList (Numeral.decimal n)

/-- The record of an event; `elapsed` is the time that the reported work took. -/
def ofEvent (elapsed : Elapsed) : Event → Record
  | .trace pc a b mem0 mem1 mem2 instruction =>
    ⟨.trace, .interpreter, "pc=" ++ number pc ++ " a=" ++ number a.toNat ++
      " b=" ++ number b.toNat ++ " mem0=" ++ number mem0.toNat ++ " mem1=" ++ number mem1.toNat ++
      " mem2=" ++ number mem2.toNat ++ " instr=" ++ instruction.text⟩
  | .runFinished executed =>
    ⟨.debug, .interpreter, "interpreter run finished executed=" ++ number executed ++
      " elapsed_us=" ++ elapsed.wholeMicroseconds⟩
  | .compiled instructions codeSize cachedCells =>
    ⟨.debug, .compiler, "compiled native routine instructions=" ++ number instructions ++
      " code_size=" ++ number codeSize ++ " cached_cells=" ++ number cachedCells ++
      " compile_us=" ++ elapsed.wholeMicroseconds⟩
  | .leftProgram pc target =>
    ⟨.warn, .compiler, "native routine left the program pc=" ++ number pc ++
      " target=" ++ String.ofList (Numeral.signed target)⟩

def programBuilt (terms instructions : Nat) : Record :=
  ⟨.info, .command, "program built terms=" ++ number terms ++
    " instructions=" ++ number instructions⟩

def routineCompiled (codeSize cachedCells : Nat) (elapsed : Elapsed) : Record :=
  ⟨.info, .command, "routine compiled code_size=" ++ number codeSize ++
    " compile_ms=" ++ elapsed.milliseconds ++ " cached_cells=" ++ number cachedCells⟩

end Record

/-- Which records are shown. -/
structure Filter where
  /-- The lowest level shown; none is shown without one. -/
  least : Option Level := some .info
  /-- Whether everything that comes from the machine is shown. -/
  wholeCore : Bool := false
  deriving DecidableEq, Repr

namespace Filter

/-- A level by its number, the larger the more is shown; 0 shows nothing. -/
def ofNumber? : Nat → Option (Option Level)
  | 0 => some none
  | 1 => some (some .error)
  | 2 => some (some .warn)
  | 3 => some (some .info)
  | 4 => some (some .debug)
  | 5 => some (some .trace)
  | _ => none

/-- A level by its name in any case, or `off`. The empty text means errors only. -/
def ofName? (text : String) : Option (Option Level) :=
  match String.ofList (text.toList.map Char.toLower) with
  | "off" => some none
  | "error" | "" => some (some .error)
  | "warn" => some (some .warn)
  | "info" => some (some .info)
  | "debug" => some (some .debug)
  | "trace" => some (some .trace)
  | _ => none

/-- The lowest level that a text asks for, by a number, which may have leading zeros, or a name. -/
def least? (text : String) : Option (Option Level) :=
  match Numeral.parseDigits? text.toList with
  | some n => ofNumber? n
  | none => ofName? text

/-- The filter that the environment asks for. -/
def ofEnvironment (env : Environment) (trace : Bool) : Filter where
  least := ((env.get? "RUST_LOG").bind least?).getD (some .info)
  wholeCore := trace

def shows (f : Filter) (r : Record) : Bool :=
  (f.wholeCore && r.origin.isCore) ||
    match f.least with
    | none => false
    | some least => least.rank ≤ r.level.rank

end Filter

end Dyad.Cli
