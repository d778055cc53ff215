import Dyad.Native.Machine

/-!
The sixteen general registers of the x86-64 and the instructions that routines are made of, with
their byte encodings. Immediates, displacements and branch distances always take their long form.
`decode` reads one instruction off the front of a byte stream and also says how many bytes it took.
-/

namespace Dyad.X64

open Native (Alu)

inductive Reg where
  | rax | rcx | rdx | rbx | rsp | rbp | rsi | rdi
  | r8 | r9 | r10 | r11 | r12 | r13 | r14 | r15
  deriving DecidableEq, Repr

namespace Reg

def index : Reg → Fin 16
  | rax => 0 | rcx => 1 | rdx => 2 | rbx => 3 | rsp => 4 | rbp => 5 | rsi => 6 | rdi => 7
  | r8 => 8 | r9 => 9 | r10 => 10 | r11 => 11 | r12 => 12 | r13 => 13 | r14 => 14 | r15 => 15

/-- All registers, by index. -/
def all : Vector Reg 16 :=
  #v[rax, rcx, rdx, rbx, rsp, rbp, rsi, rdi, r8, r9, r10, r11, r12, r13, r14, r15]

def ofIndex (i : Fin 16) : Reg := all[i]

/-- The three bits that stand in an instruction. -/
def low (r : Reg) : UInt8 := UInt8.ofNat (r.index.val % 8)

/-- The fourth bit, which stands in the extension byte. -/
def high (r : Reg) : Bool := 8 ≤ r.index.val

/-- The register of a fourth bit and the low three bits of a byte. -/
def ofBits (high : Bool) (low : UInt8) : Reg :=
  ofIndex (Fin.ofNat 16 ((if high then 8 else 0) + low.toNat % 8))

@[simp] theorem ofIndex_index (r : Reg) : ofIndex r.index = r := by
  cases r <;> rfl

@[simp] theorem ofBits_high_low (r : Reg) : ofBits r.high r.low = r := by
  cases r <;> rfl

/-- The registers that a called function may change. -/
def callerSaved : List Reg := [rax, rcx, rdx, rsi, rdi, r8, r9, r10, r11]

end Reg

instance : Native.RegisterSet Reg where
  count := 16
  index := Reg.index
  ofIndex := Reg.ofIndex
  ofIndex_index := Reg.ofIndex_index

/-! ### Instructions -/

inductive Cond where
  | always
  | zero
  | nonZero
  deriving DecidableEq, Repr

/-- Operations work on 32 bits unless said otherwise. A memory operand is a base register and a
signed displacement. -/
inductive Instr where
  /-- works on 64 bits -/
  | push (r : Reg)
  /-- works on 64 bits -/
  | pop (r : Reg)
  /-- works on 64 bits, with a signed constant -/
  | adjust (op : Alu) (r : Reg) (imm : UInt8)
  | xor (dst src : Reg)
  /-- works on 64 bits -/
  | movAddress (dst : Reg) (imm : UInt64)
  | movImm (dst : Reg) (imm : UInt32)
  | mov (dst src : Reg)
  | load (dst base : Reg) (disp : UInt32)
  | store (base : Reg) (disp : UInt32) (src : Reg)
  | storeImm (base : Reg) (disp : UInt32) (imm : UInt32)
  | aluImm (op : Alu) (dst : Reg) (imm : UInt32)
  | alu (op : Alu) (dst src : Reg)
  | aluMem (op : Alu) (dst base : Reg) (disp : UInt32)
  | test (left right : Reg)
  /-- The distance counts from the end of the instruction. -/
  | jump (cond : Cond) (rel : UInt32)
  | call (r : Reg)
  | ret
  deriving DecidableEq, Repr

/-! ### Encoding -/

def bit (b : Bool) (weight : UInt8) : UInt8 := if b then weight else 0

/-- The extension byte: operand width, and the fourth bits of the two register fields. -/
def rexByte (wide field rm : Bool) : UInt8 := 0x40 + bit wide 8 + bit field 4 + bit rm 1

/-- The extension byte where one of the fourth bits is set. -/
def rexIfNeeded (field rm : Bool) : List UInt8 :=
  if field || rm then [rexByte false field rm] else []

/-- The operand byte: addressing mode, register field, and base or second register. -/
def operandByte (mode field rm : UInt8) : UInt8 := mode * 64 + field * 8 + rm

/-- The register field that selects the operation where it has no opcode of its own. -/
def digit : Alu → UInt8
  | .add => 0
  | .sub => 5

def regOpcode : Alu → UInt8
  | .add => 0x01
  | .sub => 0x29

def memOpcode : Alu → UInt8
  | .add => 0x03
  | .sub => 0x2b

namespace Instr

/-- The form with two registers. -/
def encodeRegs (opcode : UInt8) (field rm : Reg) : List UInt8 :=
  rexIfNeeded field.high rm.high ++ [opcode, operandByte 3 field.low rm.low]

/-- The form with a register and a memory operand. It always carries the extension byte. -/
def encodeMem (opcode : UInt8) (field base : Reg) (disp : UInt32) : List UInt8 :=
  [rexByte false field.high base.high, opcode, operandByte 2 field.low base.low] ++
    LittleEndian.bytes32 disp

def encode : Instr → List UInt8
  | push r => rexIfNeeded false r.high ++ [0x50 + r.low]
  | pop r => rexIfNeeded false r.high ++ [0x58 + r.low]
  | adjust op r imm => [rexByte true false r.high, 0x83, operandByte 3 (digit op) r.low, imm]
  | xor dst src => encodeRegs 0x31 src dst
  | movAddress dst imm =>
    [rexByte true false dst.high, 0xb8 + dst.low] ++ LittleEndian.bytes64 imm
  | movImm dst imm =>
    rexIfNeeded false dst.high ++ [0xb8 + dst.low] ++ LittleEndian.bytes32 imm
  | mov dst src => encodeRegs 0x89 src dst
  | load dst base disp => encodeMem 0x8b dst base disp
  | store base disp src => encodeMem 0x89 src base disp
  | storeImm base disp imm =>
    rexIfNeeded false base.high ++ [0xc7, operandByte 2 0 base.low] ++
      LittleEndian.bytes32 disp ++ LittleEndian.bytes32 imm
  | aluImm op dst imm =>
    rexIfNeeded false dst.high ++ [0x81, operandByte 3 (digit op) dst.low] ++
      LittleEndian.bytes32 imm
  | alu op dst src => encodeRegs (regOpcode op) src dst
  | aluMem op dst base disp => encodeMem (memOpcode op) dst base disp
  | test left right => encodeRegs 0x85 right left
  | jump .always rel => 0xe9 :: LittleEndian.bytes32 rel
  | jump .zero rel => 0x0f :: 0x84 :: LittleEndian.bytes32 rel
  | jump .nonZero rel => 0x0f :: 0x85 :: LittleEndian.bytes32 rel
  | call r => rexIfNeeded false r.high ++ [0xff, operandByte 3 2 r.low]
  | ret => [0xc3]

/-! ### Decoding -/

/-- The fields of an extension byte. -/
structure Rex where
  wide : Bool := false
  field : Bool := false
  rm : Bool := false
  deriving DecidableEq, Repr

def imm32? : List UInt8 → Option UInt32
  | b₀ :: b₁ :: b₂ :: b₃ :: _ => some (LittleEndian.word32 b₀ b₁ b₂ b₃)
  | _ => none

def imm64? : List UInt8 → Option UInt64
  | b₀ :: b₁ :: b₂ :: b₃ :: b₄ :: b₅ :: b₆ :: b₇ :: _ =>
    some (LittleEndian.word64 b₀ b₁ b₂ b₃ b₄ b₅ b₆ b₇)
  | _ => none

/-- The operation that a register field selects. -/
def alu? : UInt8 → Option Alu
  | 0 => some .add
  | 5 => some .sub
  | _ => none

/-- Instructions whose operand byte names two registers, or one and a selector. -/
def decodeRegs (rex : Rex) (opcode field low : UInt8) (rest : List UInt8) :
    Option (Instr × Nat) :=
  let reg := Reg.ofBits rex.field field
  let rm := Reg.ofBits rex.rm low
  if rex.wide then
    if opcode = 0x83 then
      match alu? field, rest with
      | some op, imm :: _ => some (adjust op rm imm, 3)
      | _, _ => none
    else none
  else
    match opcode with
    | 0x31 => some (xor rm reg, 2)
    | 0x89 => some (mov rm reg, 2)
    | 0x01 => some (alu .add rm reg, 2)
    | 0x29 => some (alu .sub rm reg, 2)
    | 0x85 => some (test rm reg, 2)
    | 0x81 => do
      let op ← alu? field
      let imm ← imm32? rest
      return (aluImm op rm imm, 6)
    | 0xff => if field = 2 then some (call rm, 2) else none
    | _ => none

/-- Instructions whose operand byte names a base register, followed by a displacement. -/
def decodeMem (rex : Rex) (opcode field low : UInt8) (rest : List UInt8) :
    Option (Instr × Nat) :=
  let reg := Reg.ofBits rex.field field
  let base := Reg.ofBits rex.rm low
  if rex.wide ∨ low = 4 then none
  else do
    let disp ← imm32? rest
    match opcode with
    | 0x8b => return (load reg base disp, 6)
    | 0x89 => return (store base disp reg, 6)
    | 0x03 => return (aluMem .add reg base disp, 6)
    | 0x2b => return (aluMem .sub reg base disp, 6)
    | 0xc7 =>
      if field = 0 then
        let imm ← imm32? (rest.drop 4)
        return (storeImm base disp imm, 10)
      else none
    | _ => none

/-- Instructions with an operand byte. -/
def decodeOperand (rex : Rex) (opcode : UInt8) : List UInt8 → Option (Instr × Nat)
  | [] => none
  | m :: rest =>
    if m / 64 = 3 then decodeRegs rex opcode (m / 8 % 8) (m % 8) rest
    else if m / 64 = 2 then decodeMem rex opcode (m / 8 % 8) (m % 8) rest
    else none

/-- What follows the extension byte, if there is one. -/
def decodeBody (rex : Rex) : List UInt8 → Option (Instr × Nat)
  | [] => none
  | opcode :: rest =>
    if opcode / 8 = 0x50 / 8 then some (push (Reg.ofBits rex.rm (opcode % 8)), 1)
    else if opcode / 8 = 0x58 / 8 then some (pop (Reg.ofBits rex.rm (opcode % 8)), 1)
    else if opcode / 8 = 0xb8 / 8 then
      if rex.wide then
        (imm64? rest).map fun imm => (movAddress (Reg.ofBits rex.rm (opcode % 8)) imm, 9)
      else (imm32? rest).map fun imm => (movImm (Reg.ofBits rex.rm (opcode % 8)) imm, 5)
    else
      match opcode with
      | 0xc3 => some (ret, 1)
      | 0xe9 => (imm32? rest).map fun rel => (jump .always rel, 5)
      | 0x0f =>
        match rest with
        | 0x84 :: rest => (imm32? rest).map fun rel => (jump .zero rel, 6)
        | 0x85 :: rest => (imm32? rest).map fun rel => (jump .nonZero rel, 6)
        | _ => none
      | _ => decodeOperand rex opcode rest

/-- The instruction at the front, and the number of bytes it takes. -/
def decode : List UInt8 → Option (Instr × Nat)
  | [] => none
  | b :: rest =>
    if b / 16 = 4 then
      (decodeBody ⟨b / 8 % 2 = 1, b / 4 % 2 = 1, b % 2 = 1⟩ rest).map fun (i, n) => (i, n + 1)
    else decodeBody {} (b :: rest)

theorem encode_ne_nil (i : Instr) : i.encode ≠ [] := by
  cases i with
  | jump cond rel => cases cond <;> nofun
  | _ => simp [encode, encodeRegs, encodeMem]

end Instr

instance : Native.InstructionSet Instr where
  encode := Instr.encode
  decode := Instr.decode
  encode_ne_nil := Instr.encode_ne_nil

end Dyad.X64
