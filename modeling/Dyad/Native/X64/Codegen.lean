import Dyad.Native.Generator
import Dyad.Native.X64.Instr

/-!
x86-64 code for a program. Registers A and B live in r12 and r13, cells 0, 1 and 2 in r14, r15 and
rbx if cached, and rbp holds the address of the cells. All of them survive a call; rax is scratch.
-/

namespace Dyad.X64

open Native (Op Homes Generator)

namespace Codegen

open Reg

/-- Where the program's registers and the cached cells live. -/
def homes : Homes Reg where
  register
    | .a => r12
    | .b => r13
  cell
    | 0 => r14
    | 1 => r15
    | _ => rbx
  register_inj := by
    intro r s
    cases r <;> cases s <;> decide
  cell_inj := by
    intro m n hm hn
    rw [maxCachedCells] at hm hn
    rcases m with _ | _ | _ | m <;> rcases n with _ | _ | _ | n <;> first | decide | omega
  register_ne_cell := by
    intro r n
    rcases n with _ | _ | n <;> cases r <;> nofun

/-- The displacement of cell `index`. -/
def cellDisp (index : UInt16) : UInt32 := 4 * index.toUInt32

def prologue (L : Layout) : List (Op Instr Cond) :=
  [.instr (.push rbx), .instr (.push rbp), .instr (.push r12), .instr (.push r13),
    .instr (.push r14), .instr (.push r15),
    -- six pushes leave the stack eight bytes off a multiple of sixteen
    .instr (.adjust .sub rsp 8),
    .instr (.xor r12 r12), .instr (.xor r13 r13), .instr (.xor r14 r14), .instr (.xor r15 r15),
    .instr (.xor rbx rbx), .instr (.movAddress rbp L.memory)]

/-- The code for instruction `i` at index `pc` of a program of `size` instructions. -/
def block (L : Layout) (cached size pc : Nat) (i : Instruction) : List (Op Instr Cond) :=
  let r := homes.register i.register
  match i.opcode with
  | .loadImmediate => [.instr (.movImm r i.immediate.toUInt32)]
  | .addImmediate => [.instr (.aluImm .add r i.immediate.toUInt32)]
  | .subtractImmediate => [.instr (.aluImm .sub r i.immediate.toUInt32)]
  | .loadMemory =>
    match homes.cell? cached i.immediate with
    | some c => [.instr (.mov r c)]
    | none => [.instr (.load r rbp (cellDisp i.immediate))]
  | .storeMemory =>
    match homes.cell? cached i.immediate with
    | some c => [.instr (.mov c r)]
    | none => [.instr (.store rbp (cellDisp i.immediate) r)]
  | .addMemory =>
    match homes.cell? cached i.immediate with
    | some c => [.instr (.alu .add r c)]
    | none => [.instr (.aluMem .add r rbp (cellDisp i.immediate))]
  | .subtractMemory =>
    match homes.cell? cached i.immediate with
    | some c => [.instr (.alu .sub r c)]
    | none => [.instr (.aluMem .sub r rbp (cellDisp i.immediate))]
  | .print =>
    [.instr (.movAddress rdi L.frame), .instr (.movImm rsi (UInt32.ofNat i.register.index)),
      .instr (.mov rdx r), .instr (.movAddress rax L.print), .instr (.call rax)]
  | .jumpIfNonZero =>
    match Native.branchLabel? i pc size with
    | some target => [.instr (.test r r), .branch .nonZero target]
    | none =>
      -- a taken branch leaves the program: record it and go to the end
      [.instr (.test r r), .branch .zero (pc + 1),
        .instr (.movAddress rax L.frame),
        .instr (.storeImm rax Layout.frameFaultPc (Native.wordOfInt (pc + 1))),
        .instr (.storeImm rax Layout.frameFaultTarget (Native.wordOfInt (i.branchTarget pc))),
        .branch .always size]

theorem block_ne_nil (L : Layout) (cached size pc : Nat) (i : Instruction) :
    block L cached size pc i ≠ [] := by
  unfold block
  cases i.opcode with
  | loadImmediate | addImmediate | subtractImmediate | print => exact List.cons_ne_nil _ _
  | loadMemory | storeMemory =>
    cases homes.cell? cached i.immediate <;> exact List.cons_ne_nil _ _
  | addMemory | subtractMemory =>
    cases homes.cell? cached i.immediate <;> exact List.cons_ne_nil _ _
  | jumpIfNonZero => cases Native.branchLabel? i pc size <;> exact List.cons_ne_nil _ _

/-- Copies the cached cells to memory. -/
def writeBack (cached : Nat) : List (Op Instr Cond) :=
  (List.range (min cached maxCachedCells)).map fun cell =>
    .instr (.store rbp (4 * UInt32.ofNat cell) (homes.cell cell))

def epilogue (L : Layout) (cached : Nat) : List (Op Instr Cond) :=
  [.instr (.movAddress rax L.frame), .instr (.store rax Layout.frameA r12),
    .instr (.store rax Layout.frameB r13)] ++
  writeBack cached ++
  [.instr (.adjust .add rsp 8), .instr (.pop r15), .instr (.pop r14), .instr (.pop r13),
    .instr (.pop r12), .instr (.pop rbp), .instr (.pop rbx), .instr .ret]

/-- The number of bytes of a branch. -/
def branchSize : Cond → Nat
  | .always => 5
  | .zero | .nonZero => 6

/-- A branch whose distance counts from its end. -/
def branch (cond : Cond) (position target : Nat) : Instr :=
  .jump cond (Native.wordOfInt (target - (position + branchSize cond)))

end Codegen

def codegen : Generator Instr Cond where
  branchSize := Codegen.branchSize
  branch := Codegen.branch
  size_branch cond _ _ := by cases cond <;> rfl
  prologue := Codegen.prologue
  block := Codegen.block
  block_ne_nil := Codegen.block_ne_nil
  epilogue := Codegen.epilogue

end Dyad.X64
