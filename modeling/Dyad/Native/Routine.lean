import Dyad.Machine.State
import Dyad.Native.X64.Codegen
import Dyad.Native.X64.Machine
import Dyad.Output.Printer
import Dyad.Run.Fault

/-!
Compiled programs. A routine owns its code, its memory array and its frame; every invocation zeroes
the latter two, runs the code, and reads the result back from them.
-/

namespace Dyad

/-- Counters of a compiler, and of a routine from its making on. Sizes are those of the last
compiled program. -/
structure CompileStats where
  compileCount : Nat := 0
  codeSize : Nat := 0
  instructionCount : Nat := 0
  execCount : Nat := 0
  deriving DecidableEq, Repr

namespace Native

/-! ### Where a routine runs -/

/-- The addresses at which compiled routines keep their data. -/
def runLayout : Layout where
  memory := 0x10000000
  frame := 0x20000000
  print := 0x30000000

/-- The stack pointer at entry, where the return address is. -/
def entryStack : UInt64 := 0x4ffffff8

def returnAddress : UInt64 := 0x60000000

/-- The surroundings in which compiled routines run. What calls leave behind is of no
consequence. -/
def runHost : X64.Host where
  codeBase := 0x50000000
  print := runLayout.print
  leaves _ _ := 0xa5a5a5a5a5a5a5a5
  leavesZero n := n % 2 = 0

/-- The machine as a call of a routine finds it, with a return address on the stack. What is left
in the memory array is of no consequence. -/
def idle : X64.Cpu where
  regs := RegFile.ofFn fun r => if r = .rsp then entryStack else 0
  special := {}
  ram := (Ram.filled runLayout.memory Layout.memoryBytes 0xa5).store64 entryStack returnAddress

/-- The machine when the code is entered, if it has been found like this: memory array and frame
are cleared. -/
def enter (L : Layout) (found : X64.Cpu) : X64.Cpu :=
  { found with ip := 0, calls := #[], ram := L.clear found.ram }

/-- The machine when a compiled routine is entered. -/
def entry : X64.Cpu := enter runLayout idle

/-! ### What a run leaves in memory -/

def readCells (ram : Ram) (base : UInt64) : Memory :=
  ⟨Vector.ofFn fun i => ram.load32 (base + 4 * i.val.toUInt64)⟩

/-- The part of the frame that a routine fills in. -/
structure Frame where
  registers : Registers := {}
  /-- One more than the index of a branch that left the program, or zero. -/
  faultPc : UInt32 := 0
  faultTarget : UInt32 := 0
  deriving DecidableEq, Repr

def readFrame (ram : Ram) (base : UInt64) : Frame where
  registers := ⟨ram.load32 (base + Layout.frameA.toUInt64),
    ram.load32 (base + Layout.frameB.toUInt64)⟩
  faultPc := ram.load32 (base + Layout.frameFaultPc.toUInt64)
  faultTarget := ram.load32 (base + Layout.frameFaultTarget.toUInt64)

end Native

structure Routine where
  code : List UInt8
  cachedCells : Nat
  stats : CompileStats
  /-- Registers at the end of the last invocation. -/
  registers : Registers := {}
  /-- Memory at the end of the last invocation, cached cells included. -/
  memory : Memory := Memory.zero

namespace Routine

open Native

instance : Inhabited Routine := ⟨{ code := [], cachedCells := 0, stats := {} }⟩

/-- The final state in the interpreter's form. -/
def state (r : Routine) : State := ⟨r.registers, r.stats.instructionCount, r.memory⟩

/-- What an invocation leaves behind, apart from the routine itself. -/
structure Report where
  fault : Option Fault
  sink : Sink
  events : List Event

/-- The branch out of a program of `size` instructions that the frame records, if any. -/
def recordedJump (f : Frame) : Option (Nat × Int) :=
  if f.faultPc = 0 then none else some (f.faultPc.toNat - 1, signedWord f.faultTarget)

/-- The end of an invocation: output errors come before the branch that left the program. -/
def conclude (size : Nat) (f : Frame) (printer : Printer) : Report :=
  match printer.finish with
  | (sink, some cause) => ⟨some cause, sink, []⟩
  | (sink, none) =>
    match recordedJump f with
    | none => ⟨none, sink, []⟩
    | some (pc, target) =>
      ⟨some (.jumpOutOfRange pc target size), sink, [.leftProgram pc target]⟩

/-- Runs the code from `entry`, for at most `fuel` steps of the host. No answer means that it has
not returned by then. -/
def invokeAt (r : Routine) (L : Layout) (host : X64.Host) (entry : X64.Cpu) (fuel : Nat)
    (sink : Sink) : Option (Report × Routine) :=
  match runFor (step (X64.exec host) (Image.ofBytes r.code)) fuel entry with
  | (cpu, .returned _) =>
    let frame := readFrame cpu.ram L.frame
    let printer := Printer.printAll { sink } (cpu.calls.toList.map Call.print)
    some (conclude r.stats.instructionCount frame printer,
      { r with
        stats := { r.stats with execCount := r.stats.execCount + 1 }
        registers := frame.registers
        memory := readCells cpu.ram L.memory })
  | _ => none

/-- Clears the data of a routine and runs its code, on a machine found in any condition. -/
def invokeOn (r : Routine) (L : Layout) (host : X64.Host) (found : X64.Cpu) (fuel : Nat)
    (sink : Sink) : Option (Report × Routine) :=
  r.invokeAt L host (enter L found) fuel sink

/-- Runs the code where compiled routines run. -/
def invoke (r : Routine) (fuel : Nat) (sink : Sink) : Option (Report × Routine) :=
  r.invokeOn runLayout runHost idle fuel sink

/-- The routine with its fields named; the compile time is left blank. -/
def describe (r : Routine) : String :=
  let number (n : Nat) := String.ofList (Numeral.decimal n)
  "NativeRoutine \x7b code_size: " ++ number r.stats.codeSize ++ ", cached_cells: " ++
    number r.cachedCells ++ ", stats: JitStats \x7b compile_time_ms: _, compile_count: " ++
    number r.stats.compileCount ++ ", code_size: " ++ number r.stats.codeSize ++
    ", instruction_count: " ++ number r.stats.instructionCount ++ ", exec_count: " ++
    number r.stats.execCount ++ " \x7d \x7d"

end Routine

end Dyad
