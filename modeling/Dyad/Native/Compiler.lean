import Dyad.Code.Program
import Dyad.Native.Routine

/-!
Compilers from programs to routines. A compiler is made for a number of cached cells and keeps
count of its work; a program with a word that is not an instruction is refused and counts for
nothing.
-/

namespace Dyad

/-- The number of cached cells where none is given. -/
def defaultCachedCells : Nat := 3

structure Compiler where
  cachedCells : Nat
  stats : CompileStats := {}
  deriving DecidableEq, Repr

namespace Compiler

def new? (cachedCells : Nat) : Except CodegenError Compiler :=
  if maxCachedCells < cachedCells then .error (.tooManyCachedCells cachedCells maxCachedCells)
  else .ok { cachedCells }

/-- The compiler for the default number of cached cells. -/
def standard : Compiler := { cachedCells := defaultCachedCells }

/-- Decodes all words, or reports the first that is not an instruction. -/
def decodeAll (words : Array UInt32) : Except CodegenError (List Instruction) :=
  go 0 [] words.toList
where
  go (pc : Nat) (acc : List Instruction) : List UInt32 → Except CodegenError (List Instruction)
    | [] => .ok acc.reverse
    | word :: words =>
      match Instruction.decode word with
      | .ok i => go (pc + 1) (i :: acc) words
      | .error _ => .error (.invalidInstruction pc word)

/-- Compiles a program. -/
def compile (c : Compiler) (p : Program) : Except CodegenError (Routine × Compiler) := do
  let instructions ← decodeAll p.words
  let code := X64.codegen.assemble Native.runLayout c.cachedCells instructions
  let stats : CompileStats :=
    { c.stats with
      compileCount := c.stats.compileCount + 1
      codeSize := code.length
      instructionCount := instructions.length }
  return ({ code, cachedCells := c.cachedCells, stats := { stats with execCount := 0 } },
    { c with stats })

/-- What is reported of a compilation. -/
def compiledEvent (r : Routine) : Event :=
  .compiled r.stats.instructionCount r.stats.codeSize r.cachedCells

/-- What compiling and running at once leaves behind. -/
structure Completion where
  /-- The routine, kept only if its invocation succeeded. -/
  result : Except ExecutionError Routine
  compiler : Compiler
  sink : Sink
  /-- What was reported, in order. -/
  events : List Event

/-- Compiles a program and invokes it once. -/
def compileAndExecute (c : Compiler) (p : Program) (fuel : Nat) (sink : Sink) :
    Option Completion :=
  match c.compile p with
  | .error cause => some ⟨.error (.codegen cause), c, sink, []⟩
  | .ok (routine, c) =>
    match routine.invoke fuel sink with
    | none => none
    | some (report, routine) =>
      let events := compiledEvent routine :: report.events
      match report.fault with
      | some cause => some ⟨.error (.fault cause), c, report.sink, events⟩
      | none =>
        some ⟨.ok routine, { c with stats := { c.stats with execCount := c.stats.execCount + 1 } },
          report.sink, events⟩

end Compiler

end Dyad
