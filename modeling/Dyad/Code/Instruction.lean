import Dyad.Code.Opcode
import Dyad.Text.Numeral

/-!
Registers and instruction words. A word holds an opcode byte, a register byte and a 16-bit
immediate, from the most significant end down. Decoding looks at the opcode first, so a word with
two bad bytes is reported for its opcode.
-/

namespace Dyad

/-- The two registers. -/
inductive Register where
  | a
  | b
  deriving DecidableEq, Repr

namespace Register

/-- Both registers, by index. -/
def all : List Register := [a, b]

def index : Register → Nat
  | a => 0
  | b => 1

def byte : Register → UInt8
  | a => 0
  | b => 1

def ofByte? : UInt8 → Option Register
  | 0 => some a
  | 1 => some b
  | _ => none

/-- The letter that stands for the register in every text. -/
def letter : Register → Char
  | a => 'A'
  | b => 'B'

@[simp] theorem ofByte?_byte (r : Register) : ofByte? r.byte = some r := by
  cases r <;> rfl

theorem ofByte?_eq_some {b : UInt8} {r : Register} (h : ofByte? b = some r) : r.byte = b := by
  unfold ofByte? at h
  split at h <;> cases h <;> rfl

end Register

/-- Why a word is not an instruction. -/
inductive DecodeError where
  | invalidOpcode (word : UInt32) (opcode : UInt8)
  | invalidRegister (word : UInt32) (register : UInt8)
  deriving DecidableEq, Repr

namespace DecodeError

def message : DecodeError → String
  | invalidOpcode word opcode =>
    "invalid opcode 0x" ++ String.ofList (Numeral.hexUpper 2 opcode.toNat) ++
      " in word 0x" ++ String.ofList (Numeral.hexUpper 8 word.toNat)
  | invalidRegister word register =>
    "invalid register " ++ String.ofList (Numeral.decimal register.toNat) ++
      " in word 0x" ++ String.ofList (Numeral.hexUpper 8 word.toNat)

/-- The error with its fields named, in decimal. -/
def describe : DecodeError → String
  | invalidOpcode word opcode =>
    "InvalidOpcode \x7b word: " ++ String.ofList (Numeral.decimal word.toNat) ++
      ", opcode: " ++ String.ofList (Numeral.decimal opcode.toNat) ++ " \x7d"
  | invalidRegister word register =>
    "InvalidRegister \x7b word: " ++ String.ofList (Numeral.decimal word.toNat) ++
      ", register: " ++ String.ofList (Numeral.decimal register.toNat) ++ " \x7d"

end DecodeError

structure Instruction where
  opcode : Opcode
  register : Register
  /-- The raw 16-bit field. Only a branch reads it as signed. -/
  immediate : UInt16
  deriving DecidableEq, Repr

namespace Instruction

def encode (i : Instruction) : UInt32 :=
  i.opcode.byte.toUInt32 * 0x1000000 + i.register.byte.toUInt32 * 0x10000 + i.immediate.toUInt32

/-- The byte of a word that holds the opcode. -/
def opcodeByte (word : UInt32) : UInt8 := (word >>> 24).toUInt8

/-- The byte of a word that holds the register. -/
def registerByte (word : UInt32) : UInt8 := (word >>> 16).toUInt8

def decode (word : UInt32) : Except DecodeError Instruction :=
  match Opcode.ofByte? (opcodeByte word) with
  | none => .error (.invalidOpcode word (opcodeByte word))
  | some opcode =>
    match Register.ofByte? (registerByte word) with
    | none => .error (.invalidRegister word (registerByte word))
    | some register => .ok ⟨opcode, register, word.toUInt16⟩

/-- The immediate read as a signed displacement. -/
def branchOffset (i : Instruction) : Int :=
  if i.immediate.toNat < 0x8000 then i.immediate.toNat else (i.immediate.toNat : Int) - 0x10000

/-- The index at which a taken branch at `pc` continues. It may lie outside the program. -/
def branchTarget (i : Instruction) (pc : Nat) : Int := pc + 1 + i.branchOffset

/-- Assembly text: mnemonic, register, and the operand in the form of its kind. -/
def chars (i : Instruction) : List Char :=
  i.opcode.mnemonic.toList ++ ' ' :: i.register.letter ::
    match i.opcode.operandKind with
    | .immediate => ',' :: ' ' :: Numeral.decimal i.immediate.toNat
    | .memory => ',' :: ' ' :: '[' :: Numeral.decimal i.immediate.toNat ++ [']']
    | .branch => ',' :: ' ' :: Numeral.signed i.branchOffset
    | .none => []

def text (i : Instruction) : String := String.ofList i.chars

/-- The instruction with its fields named. -/
def describe (i : Instruction) : String :=
  "Instruction \x7b opcode: " ++ i.opcode.name ++ ", register: " ++
    String.singleton i.register.letter ++ ", immediate: " ++
    String.ofList (Numeral.decimal i.immediate.toNat) ++ " \x7d"

/-! ### Round trip -/

theorem toNat_encode (i : Instruction) :
    i.encode.toNat =
      i.opcode.byte.toNat * 0x1000000 + i.register.byte.toNat * 0x10000 + i.immediate.toNat := by
  have ho : i.opcode.byte.toNat ≤ 8 := by cases i.opcode <;> decide
  have hr : i.register.byte.toNat ≤ 1 := by cases i.register <;> decide
  have hi := i.immediate.toNat_lt
  simp only [encode, UInt32.toNat_add, UInt32.toNat_mul, UInt8.toNat_toUInt32,
    UInt16.toNat_toUInt32, UInt32.reduceToNat]
  omega

@[simp] theorem opcodeByte_encode (i : Instruction) : opcodeByte i.encode = i.opcode.byte := by
  have ho : i.opcode.byte.toNat ≤ 8 := by cases i.opcode <;> decide
  have hr : i.register.byte.toNat ≤ 1 := by cases i.register <;> decide
  have hi := i.immediate.toNat_lt
  apply UInt8.toNat_inj.mp
  simp only [opcodeByte, UInt32.toNat_toUInt8, UInt32.toNat_shiftRight, toNat_encode,
    UInt32.reduceToNat, Nat.reduceMod, Nat.shiftRight_eq_div_pow]
  omega

@[simp] theorem registerByte_encode (i : Instruction) :
    registerByte i.encode = i.register.byte := by
  have ho : i.opcode.byte.toNat ≤ 8 := by cases i.opcode <;> decide
  have hr : i.register.byte.toNat ≤ 1 := by cases i.register <;> decide
  have hi := i.immediate.toNat_lt
  apply UInt8.toNat_inj.mp
  simp only [registerByte, UInt32.toNat_toUInt8, UInt32.toNat_shiftRight, toNat_encode,
    UInt32.reduceToNat, Nat.reduceMod, Nat.shiftRight_eq_div_pow]
  omega

@[simp] theorem toUInt16_encode (i : Instruction) : i.encode.toUInt16 = i.immediate := by
  have hi := i.immediate.toNat_lt
  apply UInt16.toNat_inj.mp
  simp only [UInt32.toNat_toUInt16, toNat_encode]
  omega

theorem decode_eq_ok {w : UInt32} {op : Opcode} {r : Register} (ho : opcodeByte w = op.byte)
    (hr : registerByte w = r.byte) : decode w = .ok ⟨op, r, w.toUInt16⟩ := by
  simp [decode, ho, hr]

@[simp] theorem decode_encode (i : Instruction) : decode i.encode = .ok i := by
  rw [decode_eq_ok (opcodeByte_encode i) (registerByte_encode i), toUInt16_encode]

end Instruction

end Dyad
