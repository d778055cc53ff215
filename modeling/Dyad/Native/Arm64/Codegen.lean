import Dyad.Native.Arm64.Instr
import Dyad.Native.Generator

/-!
ARM64 code for a program. Registers A and B live in x19 and x20, cells 0, 1 and 2 in x21, x22 and
x23 if cached; x24 holds the address of the cells and x25 that of the frame. All of them survive a
call; x9 is scratch and x16 holds the address of the print function.
-/

namespace Dyad.Arm64

open Native (Alu Op Homes Generator)

/-- The branches of blocks. -/
inductive Branch where
  | always
  | ifZero (r : Reg)
  deriving DecidableEq, Repr

namespace Codegen

open Reg Quarter

/-- Where the program's registers and the cached cells live. -/
def homes : Homes Reg where
  register
    | .a => x19
    | .b => x20
  cell
    | 0 => x21
    | 1 => x22
    | _ => x23
  register_inj := by
    intro r s
    cases r <;> cases s <;> decide
  cell_inj := by
    intro m n hm hn
    rw [maxCachedCells] at hm hn
    rcases m with _ | _ | _ | m <;> rcases n with _ | _ | _ | n <;> first | decide | omega
  register_ne_cell := by
    intro r n
    rcases n with _ | _ | n <;> cases r <;> nofun

def memoryBase : Reg := x24

def frameBase : Reg := x25

def scratch : Reg := x9

def callee : Reg := x16

/-- Loads a 64-bit constant, sixteen bits at a time. -/
def loadAddress (dst : Reg) (v : UInt64) : List (Op Instr Branch) :=
  [.instr (.movz true dst v.toUInt16 q0), .instr (.movk true dst (v >>> 16).toUInt16 q1),
    .instr (.movk true dst (v >>> 32).toUInt16 q2), .instr (.movk true dst (v >>> 48).toUInt16 q3)]

/-- Loads a 32-bit constant, sixteen bits at a time. -/
def loadWord (dst : Reg) (v : UInt32) : List (Op Instr Branch) :=
  [.instr (.movz false dst v.toUInt16 q0), .instr (.movk false dst (v >>> 16).toUInt16 q1)]

/-- Stores a register at a byte offset that is a multiple of four. -/
def storeAt (src base : Reg) (offset : UInt32) : Op Instr Branch :=
  .instr (.store src base (BitVec.ofNat 12 (offset.toNat / 4)))

def prologue (L : Layout) : List (Op Instr Branch) :=
  [.instr (.pushPair x29 x30), .instr (.moveFromSp x29), .instr (.pushPair x19 x20),
    .instr (.pushPair x21 x22), .instr (.pushPair x23 x24), .instr (.pushPair x25 x26),
    .instr (.movz false x19 0 q0), .instr (.movz false x20 0 q0), .instr (.movz false x21 0 q0),
    .instr (.movz false x22 0 q0), .instr (.movz false x23 0 q0)] ++
  loadAddress memoryBase L.memory ++ loadAddress frameBase L.frame

/-- An operation of register `r` with a cell. -/
def aluCell (cached : Nat) (op : Alu) (r : Reg) (index : UInt16) : List (Op Instr Branch) :=
  match homes.cell? cached index with
  | some c => [.instr (.alu op r r c)]
  | none =>
    [.instr (.movz true scratch index q0), .instr (.loadScaled scratch memoryBase scratch),
      .instr (.alu op r r scratch)]

/-- The code for instruction `i` at index `pc` of a program of `size` instructions. -/
def block (L : Layout) (cached size pc : Nat) (i : Instruction) : List (Op Instr Branch) :=
  let r := homes.register i.register
  match i.opcode with
  | .loadImmediate => [.instr (.movz false r i.immediate q0)]
  | .addImmediate =>
    [.instr (.movz false scratch i.immediate q0), .instr (.alu .add r r scratch)]
  | .subtractImmediate =>
    [.instr (.movz false scratch i.immediate q0), .instr (.alu .sub r r scratch)]
  | .loadMemory =>
    match homes.cell? cached i.immediate with
    | some c => [.instr (.mov false r c)]
    | none =>
      [.instr (.movz true scratch i.immediate q0), .instr (.loadScaled r memoryBase scratch)]
  | .storeMemory =>
    match homes.cell? cached i.immediate with
    | some c => [.instr (.mov false c r)]
    | none =>
      [.instr (.movz true scratch i.immediate q0), .instr (.storeScaled r memoryBase scratch)]
  | .addMemory => aluCell cached .add r i.immediate
  | .subtractMemory => aluCell cached .sub r i.immediate
  | .print =>
    [.instr (.mov true x0 frameBase), .instr (.movz false x1 (UInt16.ofNat i.register.index) q0),
      .instr (.mov false x2 r)] ++
    loadAddress callee L.print ++ [.instr (.call callee)]
  | .jumpIfNonZero =>
    match Native.branchLabel? i pc size with
    | some target => [.branch (.ifZero r) (pc + 1), .branch .always target]
    | none =>
      -- a taken branch leaves the program: record it and go to the end
      [.branch (.ifZero r) (pc + 1)] ++
      loadWord scratch (Native.wordOfInt (pc + 1)) ++
      [storeAt scratch frameBase Layout.frameFaultPc] ++
      loadWord scratch (Native.wordOfInt (i.branchTarget pc)) ++
      [storeAt scratch frameBase Layout.frameFaultTarget, .branch .always size]

theorem block_ne_nil (L : Layout) (cached size pc : Nat) (i : Instruction) :
    block L cached size pc i ≠ [] := by
  unfold block
  cases i.opcode with
  | loadImmediate | addImmediate | subtractImmediate | print => exact List.cons_ne_nil _ _
  | loadMemory | storeMemory =>
    cases homes.cell? cached i.immediate <;> exact List.cons_ne_nil _ _
  | addMemory | subtractMemory =>
    unfold aluCell
    cases homes.cell? cached i.immediate <;> exact List.cons_ne_nil _ _
  | jumpIfNonZero => cases Native.branchLabel? i pc size <;> exact List.cons_ne_nil _ _

/-- Copies the cached cells to memory. -/
def writeBack (cached : Nat) : List (Op Instr Branch) :=
  (List.range (min cached maxCachedCells)).map fun cell =>
    storeAt (homes.cell cell) memoryBase (4 * UInt32.ofNat cell)

def epilogue (_ : Layout) (cached : Nat) : List (Op Instr Branch) :=
  [storeAt x19 frameBase Layout.frameA, storeAt x20 frameBase Layout.frameB] ++
  writeBack cached ++
  [.instr (.popPair x25 x26), .instr (.popPair x23 x24), .instr (.popPair x21 x22),
    .instr (.popPair x19 x20), .instr (.popPair x29 x30), .instr .ret]

/-- A branch whose distance counts instructions from its start. -/
def branch (b : Branch) (position target : Nat) : Instr :=
  match b with
  | .always => .branch (BitVec.ofInt 26 (((target : Int) - position) / 4))
  | .ifZero r => .branchIfZero r (BitVec.ofInt 19 (((target : Int) - position) / 4))

end Codegen

def codegen : Generator Instr Branch where
  branchSize _ := 4
  branch := Codegen.branch
  size_branch _ _ _ := rfl
  prologue := Codegen.prologue
  block := Codegen.block
  block_ne_nil := Codegen.block_ne_nil
  epilogue := Codegen.epilogue

end Dyad.Arm64
