/-! The nine operations of the machine, their byte codes and their mnemonics. -/

namespace Dyad

/-- How an operation reads the immediate field of its word. -/
inductive OperandKind where
  /-- an unsigned constant -/
  | immediate
  /-- the index of a memory cell -/
  | memory
  /-- a signed displacement -/
  | branch
  /-- not at all -/
  | none
  deriving DecidableEq, Repr

namespace OperandKind

def name : OperandKind → String
  | immediate => "Immediate"
  | memory => "Memory"
  | branch => "Branch"
  | none => "None"

end OperandKind

inductive Opcode where
  | loadMemory
  | loadImmediate
  | storeMemory
  | addMemory
  | addImmediate
  | subtractMemory
  | subtractImmediate
  | print
  | jumpIfNonZero
  deriving DecidableEq, Repr

namespace Opcode

/-- All operations, by byte code. -/
def all : List Opcode :=
  [loadMemory, loadImmediate, storeMemory, addMemory, addImmediate, subtractMemory,
    subtractImmediate, print, jumpIfNonZero]

def byte : Opcode → UInt8
  | loadMemory => 0
  | loadImmediate => 1
  | storeMemory => 2
  | addMemory => 3
  | addImmediate => 4
  | subtractMemory => 5
  | subtractImmediate => 6
  | print => 7
  | jumpIfNonZero => 8

def ofByte? : UInt8 → Option Opcode
  | 0 => some loadMemory
  | 1 => some loadImmediate
  | 2 => some storeMemory
  | 3 => some addMemory
  | 4 => some addImmediate
  | 5 => some subtractMemory
  | 6 => some subtractImmediate
  | 7 => some print
  | 8 => some jumpIfNonZero
  | _ => none

def operandKind : Opcode → OperandKind
  | loadImmediate | addImmediate | subtractImmediate => .immediate
  | loadMemory | storeMemory | addMemory | subtractMemory => .memory
  | jumpIfNonZero => .branch
  | print => .none

def mnemonic : Opcode → String
  | loadMemory => "vld"
  | loadImmediate => "vldi"
  | storeMemory => "vst"
  | addMemory => "vadd"
  | addImmediate => "vaddi"
  | subtractMemory => "vsub"
  | subtractImmediate => "vsubi"
  | print => "vput"
  | jumpIfNonZero => "vjnz"

/-- The spelled-out name. -/
def name : Opcode → String
  | loadMemory => "LoadMemory"
  | loadImmediate => "LoadImmediate"
  | storeMemory => "StoreMemory"
  | addMemory => "AddMemory"
  | addImmediate => "AddImmediate"
  | subtractMemory => "SubtractMemory"
  | subtractImmediate => "SubtractImmediate"
  | print => "Print"
  | jumpIfNonZero => "JumpIfNonZero"

@[simp] theorem ofByte?_byte (op : Opcode) : ofByte? op.byte = some op := by
  cases op <;> rfl

theorem ofByte?_eq_some {b : UInt8} {op : Opcode} (h : ofByte? b = some op) : op.byte = b := by
  unfold ofByte? at h
  split at h <;> cases h <;> rfl

end Opcode

end Dyad
