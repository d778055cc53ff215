import Dyad.Native.Machine

/-!
The general registers of the ARM64, which the stack pointer is not among, and the instructions that
routines are made of, with their encodings as 32-bit words. Words are built and taken apart
arithmetically: each field has a place value and a range.
-/

namespace Dyad.Arm64

open Native (Alu)

inductive Reg where
  | x0 | x1 | x2 | x3 | x4 | x5 | x6 | x7 | x8 | x9 | x10
  | x11 | x12 | x13 | x14 | x15 | x16 | x17 | x18 | x19 | x20 | x21
  | x22 | x23 | x24 | x25 | x26 | x27 | x28 | x29 | x30
  deriving DecidableEq, Repr

namespace Reg

def index : Reg → Fin 31
  | x0 => 0 | x1 => 1 | x2 => 2 | x3 => 3 | x4 => 4 | x5 => 5 | x6 => 6 | x7 => 7
  | x8 => 8 | x9 => 9 | x10 => 10 | x11 => 11 | x12 => 12 | x13 => 13 | x14 => 14 | x15 => 15
  | x16 => 16 | x17 => 17 | x18 => 18 | x19 => 19 | x20 => 20 | x21 => 21 | x22 => 22 | x23 => 23
  | x24 => 24 | x25 => 25 | x26 => 26 | x27 => 27 | x28 => 28 | x29 => 29 | x30 => 30

/-- All registers, by index. -/
def all : Vector Reg 31 :=
  #v[x0, x1, x2, x3, x4, x5, x6, x7, x8, x9, x10, x11, x12, x13, x14, x15,
    x16, x17, x18, x19, x20, x21, x22, x23, x24, x25, x26, x27, x28, x29, x30]

def ofIndex (i : Fin 31) : Reg := all[i]

/-- The register of a field of an instruction; 31 does not name one. -/
def ofNat? (n : Nat) : Option Reg := if h : n < 31 then some (ofIndex ⟨n, h⟩) else none

@[simp] theorem ofIndex_index (r : Reg) : ofIndex r.index = r := by
  cases r <;> rfl

@[simp] theorem ofNat?_index (r : Reg) : ofNat? r.index.val = some r := by
  cases r <;> rfl

/-- The registers that a called function may change, the link register included. -/
def callerSaved : List Reg :=
  [x0, x1, x2, x3, x4, x5, x6, x7, x8, x9, x10, x11, x12, x13, x14, x15, x16, x17, x18, x30]

end Reg

instance : Native.RegisterSet Reg where
  count := 31
  index := Reg.index
  ofIndex := Reg.ofIndex
  ofIndex_index := Reg.ofIndex_index

/-! ### Instructions -/

/-- One of the four 16-bit fields of a register, the lowest first. -/
inductive Quarter where
  | q0
  | q1
  | q2
  | q3
  deriving DecidableEq, Repr

namespace Quarter

def index : Quarter → Nat
  | q0 => 0
  | q1 => 1
  | q2 => 2
  | q3 => 3

/-- The field of an index, which counts modulo four. -/
def ofIndex (n : Nat) : Quarter :=
  match n % 4 with
  | 0 => q0
  | 1 => q1
  | 2 => q2
  | _ => q3

end Quarter

/-- Operations work on 32 bits unless said otherwise. Branch distances count instructions from the
branch itself. -/
inductive Instr where
  /-- lower the stack pointer by 16 and store two whole registers there -/
  | pushPair (first second : Reg)
  /-- load two whole registers from the stack and raise the stack pointer by 16 -/
  | popPair (first second : Reg)
  /-- copy the whole stack pointer -/
  | moveFromSp (dst : Reg)
  /-- clear the register, then fill one of its fields -/
  | movz (wide : Bool) (dst : Reg) (imm : UInt16) (field : Quarter)
  /-- fill one of the fields and keep the others -/
  | movk (wide : Bool) (dst : Reg) (imm : UInt16) (field : Quarter)
  | mov (wide : Bool) (dst src : Reg)
  | alu (op : Alu) (dst left right : Reg)
  /-- load from `base + 4 * index` -/
  | loadScaled (dst base index : Reg)
  /-- store to `base + 4 * index` -/
  | storeScaled (src base index : Reg)
  /-- store to `base + 4 * offset` -/
  | store (src base : Reg) (offset : BitVec 12)
  | branchIfZero (r : Reg) (distance : BitVec 19)
  | branch (distance : BitVec 26)
  | call (r : Reg)
  | ret
  deriving DecidableEq, Repr

/-- Where the 64-bit form of an instruction differs from its 32-bit form. -/
def wideBit (wide : Bool) : Nat := if wide then 0x80000000 else 0

/-- The word of an operation apart from its registers. -/
def aluBase : Alu → Nat
  | .add => 0x0b000000
  | .sub => 0x4b000000

namespace Instr

/-! ### Encoding -/

/-- The sum of up to three register fields. -/
def fields (low middle high : Nat) : Nat := high * 0x10000 + middle * 0x20 + low

/-- The encoded word as a number. -/
def encodeNat : Instr → Nat
  | pushPair first second => 0xa9bf03e0 + second.index.val * 0x400 + first.index.val
  | popPair first second => 0xa8c103e0 + second.index.val * 0x400 + first.index.val
  | moveFromSp dst => 0x910003e0 + dst.index.val
  | movz wide dst imm field =>
    0x52800000 + wideBit wide + field.index * 0x200000 + imm.toNat * 0x20 + dst.index.val
  | movk wide dst imm field =>
    0x72800000 + wideBit wide + field.index * 0x200000 + imm.toNat * 0x20 + dst.index.val
  | mov wide dst src => 0x2a0003e0 + wideBit wide + src.index.val * 0x10000 + dst.index.val
  | alu op dst left right => aluBase op + fields dst.index.val left.index.val right.index.val
  | loadScaled dst base index => 0xb8607800 + fields dst.index.val base.index.val index.index.val
  | storeScaled src base index => 0xb8207800 + fields src.index.val base.index.val index.index.val
  | store src base offset =>
    0xb9000000 + offset.toNat * 0x400 + base.index.val * 0x20 + src.index.val
  | branchIfZero r distance => 0x34000000 + distance.toNat * 0x20 + r.index.val
  | branch distance => 0x14000000 + distance.toNat
  | call r => 0xd63f0000 + r.index.val * 0x20
  | ret => 0xd65f03c0

/-- The encoded word. -/
def encode (i : Instr) : UInt32 := UInt32.ofNat i.encodeNat

/-- The bytes of an instruction. -/
def bytes (i : Instr) : List UInt8 := LittleEndian.bytes32 i.encode

/-! ### Decoding -/

/-- A number with everything below `unit` cleared. -/
def upper (n unit : Nat) : Nat := n / unit * unit

/-- Register fields by place value. -/
def reg? (n unit : Nat) : Option Reg := Reg.ofNat? (n / unit % 32)

/-- Moves of a 16-bit constant into a field. -/
def decodeMove (n : Nat) : Option Instr := do
  let dst ← reg? n 1
  let imm := UInt16.ofNat (n / 0x20)
  let field := Quarter.ofIndex (n / 0x200000)
  if upper n 0x800000 = 0x52800000 then return movz false dst imm field
  else if upper n 0x800000 = 0xd2800000 then return movz true dst imm field
  else if upper n 0x800000 = 0x72800000 then return movk false dst imm field
  else if upper n 0x800000 = 0xf2800000 then return movk true dst imm field
  else none

/-- Forms whose second field is 31, which stands for the stack pointer or for zero. -/
def decodeFixed (n : Nat) : Option Instr := do
  let low ← reg? n 1
  if upper n 0x8000 = 0xa9bf0000 then return pushPair low (← reg? n 0x400)
  else if upper n 0x8000 = 0xa8c10000 then return popPair low (← reg? n 0x400)
  else if upper n 0x20 = 0x910003e0 then return moveFromSp low
  else if upper n 0x200000 + n % 0x10000 / 0x20 * 0x20 = 0x2a0003e0 then
    return mov false low (← reg? n 0x10000)
  else if upper n 0x200000 + n % 0x10000 / 0x20 * 0x20 = 0xaa0003e0 then
    return mov true low (← reg? n 0x10000)
  else none

/-- Forms with two or three register fields. -/
def decodeRegs (n : Nat) : Option Instr := do
  let low ← reg? n 1
  let middle ← reg? n 0x20
  if upper n 0x400000 = 0xb9000000 then
    return store low middle (BitVec.ofNat 12 (n / 0x400))
  else
    let high ← reg? n 0x10000
    let rest := upper n 0x200000 + n % 0x10000 / 0x400 * 0x400
    if rest = 0x0b000000 then return alu .add low middle high
    else if rest = 0x4b000000 then return alu .sub low middle high
    else if rest = 0xb8607800 then return loadScaled low middle high
    else if rest = 0xb8207800 then return storeScaled low middle high
    else none

/-- Decodes a word given as a number. -/
def decodeNat (n : Nat) : Option Instr :=
  if n = 0xd65f03c0 then some ret
  else if upper n 0x4000000 = 0x14000000 then some (branch (BitVec.ofNat 26 n))
  else if upper n 0x1000000 = 0x34000000 then
    (reg? n 1).map fun r => branchIfZero r (BitVec.ofNat 19 (n / 0x20))
  else if upper n 0x400 + n % 0x20 = 0xd63f0000 then (reg? n 0x20).map call
  else if n / 0x800000 % 0x40 = 0x25 then decodeMove n
  else if n / 0x20 % 0x20 = 31 then decodeFixed n
  else decodeRegs n

def decode (w : UInt32) : Option Instr := decodeNat w.toNat

/-- The instruction whose bytes stand at the front. -/
def fetch : List UInt8 → Option (Instr × Nat)
  | b₀ :: b₁ :: b₂ :: b₃ :: _ => (decode (LittleEndian.word32 b₀ b₁ b₂ b₃)).map (·, 4)
  | _ => none

end Instr

instance : Native.InstructionSet Instr where
  encode := Instr.bytes
  decode := Instr.fetch
  encode_ne_nil _ := List.cons_ne_nil _ _

end Dyad.Arm64
