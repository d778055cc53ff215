import Dyad.Code.Instruction

/-!
What comes of a run besides its output: how it fails, and how code generation fails; and what the
machine reports about its work, apart from what programs print.
-/

namespace Dyad

/-- Why a run ended early. -/
inductive Fault where
  /-- The run arrived at a word that is not an instruction. -/
  | undecodable (cause : DecodeError)
  /-- A taken branch at `pc` led outside `0 ..= size`. -/
  | jumpOutOfRange (pc : Nat) (target : Int) (size : Nat)
  /-- The device refused a line, or refused to flush. -/
  | output (reason : String)
  deriving DecidableEq, Repr

namespace Fault

def message : Fault → String
  | undecodable cause => cause.message
  | jumpOutOfRange pc target size =>
    "jump at pc " ++ String.ofList (Numeral.decimal pc) ++ " targets " ++
      String.ofList (Numeral.signed target) ++ ", outside 0..=" ++
      String.ofList (Numeral.decimal size)
  | output reason => "output error: " ++ reason

end Fault

/-- Why no native code is generated. -/
inductive CodegenError where
  | invalidInstruction (pc : Nat) (word : UInt32)
  | tooManyCachedCells (requested max : Nat)
  deriving DecidableEq, Repr

namespace CodegenError

def message : CodegenError → String
  | invalidInstruction pc word =>
    "cannot compile word 0x" ++ String.ofList (Numeral.hexUpper 8 word.toNat) ++ " at pc " ++
      String.ofList (Numeral.decimal pc)
  | tooManyCachedCells requested max =>
    String.ofList (Numeral.decimal requested) ++
      " cached cells requested, the backend supports at most " ++
      String.ofList (Numeral.decimal max)

end CodegenError

/-- Why compiling a program and running it fails. -/
inductive ExecutionError where
  | codegen (cause : CodegenError)
  | fault (cause : Fault)
  deriving DecidableEq, Repr

namespace ExecutionError

def message : ExecutionError → String
  | codegen cause => cause.message
  | fault cause => cause.message

end ExecutionError

inductive Event where
  /-- The interpreter is about to execute an instruction in this state. -/
  | trace (pc : Nat) (a b mem0 mem1 mem2 : UInt32) (instruction : Instruction)
  /-- The interpreter has ended a run normally. -/
  | runFinished (executed : Nat)
  /-- A program has been compiled. -/
  | compiled (instructions codeSize cachedCells : Nat)
  /-- A compiled routine has taken a branch out of the program. -/
  | leftProgram (pc : Nat) (target : Int)
  deriving DecidableEq, Repr

end Dyad
