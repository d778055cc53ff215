import Dyad.Text.Numeral

/-!
Command lines. Arguments are read from left to right: a subcommand, then its options, each at most
once, with the value in the same argument (`-n7`, `-n=7`, `--terms=7`) or in the next one. A value
in an argument of its own does not start with a hyphen.
-/

namespace Dyad.Cli

/-- Which engines run. -/
inductive Mode where
  | interp
  | jit
  | native
  | all
  deriving DecidableEq, Repr

namespace Mode

def ofString? : String → Option Mode
  | "interp" => some interp
  | "jit" => some jit
  | "native" => some native
  | "all" => some all
  | _ => none

/-- Whether `m` runs the engine of mode `engine`. -/
def includes (m engine : Mode) : Bool := m = all ∨ m = engine

end Mode

/-- The options of a run. -/
structure RunOptions where
  terms : UInt32 := 10000
  mode : Mode := .all
  cachedCells : Option Nat := none
  trace : Bool := false
  deriving DecidableEq, Repr

inductive Command where
  | version
  | help
  | run (options : RunOptions)
  | dis (terms : UInt32)
  deriving DecidableEq, Repr

/-! ### Options -/

/-- The names of options. -/
inductive Flag where
  | terms
  | mode
  | cachedCells
  | trace
  | help
  deriving DecidableEq, Repr

namespace Flag

def ofShort? : Char → Option Flag
  | 'n' => some terms
  | 'm' => some mode
  | 'c' => some cachedCells
  | 'h' => some help
  | _ => none

def ofLong? : String → Option Flag
  | "terms" => some terms
  | "mode" => some mode
  | "cached-cells" => some cachedCells
  | "trace" => some trace
  | "help" => some help
  | _ => none

end Flag

/-- The values given so far. -/
structure Given where
  terms : Option UInt32 := none
  mode : Option Mode := none
  cachedCells : Option Nat := none
  trace : Bool := false
  deriving DecidableEq, Repr

/-- A number of loop rounds, from 1 to 65535. -/
def terms? (text : String) : Option UInt32 := do
  let i ← Numeral.parseInt64? text.toList
  if 1 ≤ i ∧ i ≤ 65535 then some (UInt32.ofNat i.toNat) else none

namespace Given

/-- Records the value of an option, which must not have one yet. -/
def set (g : Given) (o : Flag) (value : String) : Option Given :=
  match o with
  | .terms =>
    if g.terms.isSome then none else (terms? value).map fun v => { g with terms := some v }
  | .mode =>
    if g.mode.isSome then none else (Mode.ofString? value).map fun v => { g with mode := some v }
  | .cachedCells =>
    if g.cachedCells.isSome then none
    else (Numeral.parseWord64? value.toList).map fun v => { g with cachedCells := some v }
  | .trace | .help => none

end Given

/-- How reading the options ends. -/
inductive Parsed where
  | refused
  | help
  | given (g : Given)
  deriving DecidableEq, Repr

/-- An argument of the form `-…` or `--…` that is not a lone hyphen. -/
def isOptionLike (s : String) : Bool :=
  match s.toList with
  | '-' :: _ :: _ => true
  | _ => false

/-- Splits off what follows the first equals sign. -/
def splitEquals (cs : List Char) : List Char × Option (List Char) :=
  match cs.dropWhile (· != '=') with
  | [] => (cs, none)
  | _ :: value => (cs.takeWhile (· != '='), some value)

/-- An argument, taken apart. -/
inductive Argument where
  | option (o : Flag) (value : Option String)
  | separator
  /-- something that stands for itself, or an unknown option -/
  | other
  deriving DecidableEq, Repr

def Argument.ofString (s : String) : Argument :=
  match s.toList with
  | ['-', '-'] => .separator
  | '-' :: '-' :: long =>
    match splitEquals long with
    | (name, value) =>
      match Flag.ofLong? (String.ofList name) with
      | some o => .option o (value.map String.ofList)
      | none => .other
  | '-' :: short :: rest =>
    match Flag.ofShort? short with
    | none => .other
    | some o =>
      match rest with
      | [] => .option o none
      | '=' :: value => .option o (some (String.ofList value))
      | value => .option o (some (String.ofList value))
  | _ => .other

/-- Reads the options of a subcommand that knows those for which `known` holds. An option whose
value is still to come is `pending`. -/
def parseOptions (known : Flag → Bool) : (pending : Option Flag) → Given → List String → Parsed
  | none, g, [] => .given g
  | some _, _, [] => .refused
  | some o, g, s :: rest =>
    if isOptionLike s then .refused
    else
      match g.set o s with
      | some g => parseOptions known none g rest
      | none => .refused
  | none, g, s :: rest =>
    match Argument.ofString s with
    | .other => .refused
    | .separator => if rest = [] then .given g else .refused
    | .option o value =>
      if !known o then .refused
      else
        match o, value with
        | .help, some _ => if s.startsWith "--" then .refused else .help
        | .help, none => .help
        | .trace, some _ => .refused
        | .trace, none =>
          if g.trace then .refused else parseOptions known none { g with trace := true } rest
        | o, none => parseOptions known (some o) g rest
        | o, some v =>
          match g.set o v with
          | some g => parseOptions known none g rest
          | none => .refused

/-- Options of `dis`. -/
def knownToDis : Flag → Bool
  | .terms | .help => true
  | _ => false

/-- Reads a whole command line. No answer means that it is refused. -/
def parse : List String → Option Command
  | [] => none
  | "run" :: args =>
    match parseOptions (fun _ => true) none {} args with
    | .refused => none
    | .help => some .help
    | .given g =>
      some (.run ⟨g.terms.getD 10000, g.mode.getD .all, g.cachedCells, g.trace⟩)
  | "dis" :: args =>
    match parseOptions knownToDis none {} args with
    | .refused => none
    | .help => some .help
    | .given g => some (.dis (g.terms.getD 10000))
  | "help" :: topics =>
    if topics = [] ∨ topics = ["run"] ∨ topics = ["dis"] ∨ topics = ["help"] then some .help
    else none
  | "--version" :: _ => some .version
  | "--help" :: _ => some .help
  | s :: _ =>
    match s.toList with
    | '-' :: 'V' :: _ => some .version
    | '-' :: 'h' :: _ => some .help
    | _ => none

end Dyad.Cli
