import Dyad.Native.Compiler
import Dyad.Settings.Environment
import Dyad.Text.Numeral

/-! Settings, as the environment gives them. A variable that is unset or cannot be read leaves the
default. -/

namespace Dyad

structure Settings where
  /-- Report every interpreted instruction. -/
  trace : Bool := false
  /-- Memory cells kept in host registers by compiled code. -/
  cachedCells : Nat := defaultCachedCells
  deriving DecidableEq, Repr

namespace Settings

/-- The number of cached cells that a variable's value gives. -/
def cachedCellsOf (value : Option String) : Nat :=
  (value.bind fun v => Numeral.parseWord64? v.toList).getD defaultCachedCells

/-- Whether a text means yes: `1`, `true`, `yes` or `on` in any case, between blanks. -/
def isAffirmative (text : String) : Bool :=
  ["1", "true", "yes", "on"].contains (String.ofList ((trim text.toList).map Char.toLower))

def traceOf (value : Option String) : Bool := (value.map isAffirmative).getD false

def ofEnvironment (env : Environment) : Settings where
  trace := traceOf (env.get? "TOYVM_TRACE")
  cachedCells := cachedCellsOf (env.get? "TOYVM_CACHED_CELLS")

/-- The settings with their fields named. -/
def describe (s : Settings) : String :=
  "VmConfig \x7b trace_execution: " ++ (if s.trace then "true" else "false") ++
    ", cached_cells: " ++ String.ofList (Numeral.decimal s.cachedCells) ++ " \x7d"

/-- The part of the settings that a compiler uses, with its field named. -/
def describeCompiler (s : Settings) : String :=
  "JitConfig \x7b cached_cells: " ++ String.ofList (Numeral.decimal s.cachedCells) ++ " \x7d"

end Settings

end Dyad
