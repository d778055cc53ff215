import Dyad.Machine.State
import Dyad.Output.Printer
import Dyad.Run.Fault

/-!
Interpretation, step by step. A step decodes one word; arithmetic wraps modulo `2 ^ 32`; a branch
that lands exactly on the number of words ends the run, and one that lands anywhere else outside is
a fault. A step that fails leaves the state as it was.
-/

namespace Dyad

namespace State

/-- The effect of an instruction on registers and memory. -/
def update (s : State) (i : Instruction) : State :=
  let r := i.register
  match i.opcode with
  | .loadImmediate => s.setRegister r i.immediate.toUInt32
  | .loadMemory => s.setRegister r (s.memory.get i.immediate)
  | .storeMemory => s.setMemory i.immediate (s.register r)
  | .addMemory => s.setRegister r (s.register r + s.memory.get i.immediate)
  | .addImmediate => s.setRegister r (s.register r + i.immediate.toUInt32)
  | .subtractMemory => s.setRegister r (s.register r - s.memory.get i.immediate)
  | .subtractImmediate => s.setRegister r (s.register r - i.immediate.toUInt32)
  | .print | .jumpIfNonZero => s

/-- Moves on to the next word. -/
def next (s : State) : State := { s with pc := s.pc + 1 }

/-- What tracing shows before `i` is executed. -/
def observe (s : State) (i : Instruction) : Event :=
  .trace s.pc s.registers.a s.registers.b (s.memory.get 0) (s.memory.get 1) (s.memory.get 2) i

end State

/-- A run in progress. -/
structure Execution where
  state : State := State.fresh
  sink : Sink := {}
  /-- Steps completed. -/
  executed : Nat := 0
  /-- Trace events, newest first. -/
  events : List Event := []

namespace Execution

instance : Inhabited Execution := ⟨{}⟩

/-- How a step turns out. -/
inductive Outcome where
  | advanced
  | halted
  | failed (cause : Fault)
  deriving DecidableEq, Repr

/-- Whether a taken branch may continue at `target`. -/
def InRange (target : Int) (size : Nat) : Prop := 0 ≤ target ∧ target ≤ size

instance (target : Int) (size : Nat) : Decidable (InRange target size) :=
  inferInstanceAs (Decidable (_ ∧ _))

/-- Completes a step that changes the state by `f`. -/
@[inline] def complete (f : State → State) (x : Execution) : Execution × Outcome :=
  ({ x with state := f x.state, executed := x.executed + 1 }, .advanced)

/-- Offers the line of register `r` to the sink. -/
def print (r : Register) : Execution → Execution × Outcome
  | ⟨state, sink, executed, events⟩ =>
    match sink.write (Print.line ⟨r, state.register r⟩) with
    | (sink, none) => complete State.next ⟨state, sink, executed, events⟩
    | (sink, some reason) => (⟨state, sink, executed, events⟩, .failed (.output reason))

/-- Continues at `target` in a program of `size` words. -/
def jump (size : Nat) (target : Int) (x : Execution) : Execution × Outcome :=
  if InRange target size then x.complete fun s => { s with pc := target.toNat }
  else (x, .failed (.jumpOutOfRange x.state.pc target size))

/-- Executes a decoded instruction of a program of `size` words. -/
def perform (size : Nat) (i : Instruction) (x : Execution) : Execution × Outcome :=
  match i.opcode with
  | .print => x.print i.register
  | .jumpIfNonZero =>
    if x.state.register i.register = 0 then x.complete State.next
    else x.jump size (i.branchTarget x.state.pc)
  | _ => x.complete fun s => (s.update i).next

/-- Executes the instruction at the pc. At or beyond the end nothing happens. -/
def step (words : Array UInt32) (trace : Bool) (x : Execution) : Execution × Outcome :=
  if h : x.state.pc < words.size then
    match Instruction.decode words[x.state.pc] with
    | .error cause => (x, .failed (.undecodable cause))
    | .ok i =>
      if trace then perform words.size i { x with events := x.state.observe i :: x.events }
      else perform words.size i x
  else (x, .halted)

/-- Takes steps until one does not advance, at most `limit` of them. The outcome is `advanced`
exactly if the limit ended the run. -/
def runFor (words : Array UInt32) (trace : Bool) : (limit : Nat) → Execution → Execution × Outcome
  | 0, x => (x, .advanced)
  | limit + 1, x =>
    match step words trace x with
    | (x, .advanced) => runFor words trace limit x
    | (x, outcome) => (x, outcome)

end Execution

end Dyad
