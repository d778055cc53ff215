import Dyad.Native.X64.Instr
import Dyad.Proofs.Native.Stepping

/-!
The x86-64 encoding can be read back: an instruction is decoded from the front of whatever follows
it, with its own length (`Instr.readable`).
-/

namespace Dyad.X64

open Native (Alu Readable)

theorem Reg.low_lt (r : Reg) : r.low.toNat < 8 := by
  cases r <;> decide

theorem digit_lt (op : Alu) : (digit op).toNat < 8 := by
  cases op <;> decide

namespace Instr

/-! ### Fields of the bytes -/

section

variable {mode field rm : UInt8}

theorem toNat_operandByte (hm : mode.toNat < 4) (hf : field.toNat < 8) (hr : rm.toNat < 8) :
    (operandByte mode field rm).toNat = mode.toNat * 64 + field.toNat * 8 + rm.toNat := by
  simp only [operandByte, UInt8.toNat_add, UInt8.toNat_mul, UInt8.reduceToNat]
  omega

theorem operandByte_mode (hm : mode.toNat < 4) (hf : field.toNat < 8) (hr : rm.toNat < 8) :
    operandByte mode field rm / 64 = mode := by
  apply UInt8.toNat_inj.mp
  simp only [UInt8.toNat_div, toNat_operandByte hm hf hr, UInt8.reduceToNat]
  omega

theorem operandByte_field (hm : mode.toNat < 4) (hf : field.toNat < 8) (hr : rm.toNat < 8) :
    operandByte mode field rm / 8 % 8 = field := by
  apply UInt8.toNat_inj.mp
  simp only [UInt8.toNat_mod, UInt8.toNat_div, toNat_operandByte hm hf hr, UInt8.reduceToNat]
  omega

theorem operandByte_rm (hm : mode.toNat < 4) (hf : field.toNat < 8) (hr : rm.toNat < 8) :
    operandByte mode field rm % 8 = rm := by
  apply UInt8.toNat_inj.mp
  simp only [UInt8.toNat_mod, toNat_operandByte hm hf hr, UInt8.reduceToNat]
  omega

end

theorem decodeOperand_regs (rex : Rex) (opcode : UInt8) {field rm : UInt8} (hf : field.toNat < 8)
    (hr : rm.toNat < 8) (rest : List UInt8) :
    decodeOperand rex opcode (operandByte 3 field rm :: rest) =
      decodeRegs rex opcode field rm rest := by
  rw [decodeOperand, operandByte_mode (by decide) hf hr, if_pos rfl,
    operandByte_field (by decide) hf hr, operandByte_rm (by decide) hf hr]

theorem decodeOperand_mem (rex : Rex) (opcode : UInt8) {field rm : UInt8} (hf : field.toNat < 8)
    (hr : rm.toNat < 8) (rest : List UInt8) :
    decodeOperand rex opcode (operandByte 2 field rm :: rest) =
      decodeMem rex opcode field rm rest := by
  rw [decodeOperand, operandByte_mode (by decide) hf hr, if_neg (by decide), if_pos rfl,
    operandByte_field (by decide) hf hr, operandByte_rm (by decide) hf hr]

@[simp] theorem imm32?_bytes32 (w : UInt32) (rest : List UInt8) :
    imm32? (LittleEndian.bytes32 w ++ rest) = some w := by
  simp [imm32?, LittleEndian.bytes32, LittleEndian.word32_bytes32]

@[simp] theorem imm64?_bytes64 (w : UInt64) (rest : List UInt8) :
    imm64? (LittleEndian.bytes64 w ++ rest) = some w := by
  simp [imm64?, LittleEndian.bytes64, LittleEndian.word64_bytes64]

theorem length_bytes32 (w : UInt32) : (LittleEndian.bytes32 w).length = 4 := rfl

@[simp] theorem alu?_digit (op : Alu) : alu? (digit op) = some op := by
  cases op <;> rfl

theorem decode_rexByte (wide field rm : Bool) (rest : List UInt8) :
    decode (rexByte wide field rm :: rest) =
      (decodeBody ⟨wide, field, rm⟩ rest).map fun (i, n) => (i, n + 1) := by
  cases wide <;> cases field <;> cases rm <;> rfl

/-- The extension byte is left out exactly where it says nothing. -/
theorem decode_rexIfNeeded (field rm : Bool) {b : UInt8} (hb : b / 16 ≠ 4) (rest : List UInt8) :
    decode (rexIfNeeded field rm ++ b :: rest) =
      (decodeBody ⟨false, field, rm⟩ (b :: rest)).map fun (i, n) =>
        (i, n + (rexIfNeeded field rm).length) := by
  cases h : field || rm with
  | true =>
    rw [rexIfNeeded, if_pos h]
    exact decode_rexByte false field rm (b :: rest)
  | false =>
    obtain ⟨rfl, rfl⟩ := Bool.or_eq_false_iff.mp h
    rw [rexIfNeeded, if_neg (by decide)]
    simp [decode, hb]

/-! ### The round trip -/

/-- Base registers whose operand byte would announce one more byte are left out. -/
def Encodable : Instr → Prop
  | load _ base _ | store base _ _ | storeImm base _ _ | aluMem _ _ base _ => base.low ≠ 4
  | _ => True

instance (i : Instr) : Decidable i.Encodable := by
  unfold Encodable
  split <;> infer_instance

section

variable {i : Instr} {opcode : UInt8} {field rm base dst : Reg} {disp : UInt32}
  {rest : List UInt8}

theorem decode_encodeRegs (hi : i.encode = encodeRegs opcode field rm) (hrex : opcode / 16 ≠ 4)
    (hbody : ∀ rex m r, decodeBody rex (opcode :: m :: r) = decodeOperand rex opcode (m :: r))
    (hregs : decodeRegs ⟨false, field.high, rm.high⟩ opcode field.low rm.low rest = some (i, 2)) :
    decode (i.encode ++ rest) = some (i, i.encode.length) := by
  rw [hi, encodeRegs, List.append_assoc]
  simp only [List.cons_append, List.nil_append, List.length_append, List.length_cons,
    List.length_nil]
  rw [decode_rexIfNeeded _ _ hrex, hbody, decodeOperand_regs _ _ field.low_lt rm.low_lt, hregs,
    Option.map_some, Nat.add_comm]

theorem decode_encodeMem (hi : i.encode = encodeMem opcode field base disp)
    (hbody : ∀ rex m r, decodeBody rex (opcode :: m :: r) = decodeOperand rex opcode (m :: r))
    (hmem : decodeMem ⟨false, field.high, base.high⟩ opcode field.low base.low
      (LittleEndian.bytes32 disp ++ rest) = some (i, 6)) :
    decode (i.encode ++ rest) = some (i, i.encode.length) := by
  rw [hi, encodeMem]
  simp only [List.cons_append, List.nil_append]
  rw [decode_rexByte, hbody, decodeOperand_mem _ _ field.low_lt base.low_lt, hmem]
  rfl

end

theorem decodeBody_mov (rex : Rex) (dst : Reg) (rest : List UInt8) :
    decodeBody rex ((0xb8 + dst.low) :: rest) =
      if rex.wide then
        (imm64? rest).map fun imm => (movAddress (Reg.ofBits rex.rm dst.low) imm, 9)
      else (imm32? rest).map fun imm => (movImm (Reg.ofBits rex.rm dst.low) imm, 5) := by
  cases dst <;> rfl

theorem decode_movAddress (dst : Reg) (imm : UInt64) (rest : List UInt8) :
    decode ((movAddress dst imm).encode ++ rest) =
      some (movAddress dst imm, (movAddress dst imm).encode.length) := by
  simp only [encode, List.cons_append, List.nil_append]
  rw [decode_rexByte, decodeBody_mov, if_pos rfl, imm64?_bytes64]
  simp only [Option.map_some, Reg.ofBits_high_low]
  rfl

theorem decode_movImm (dst : Reg) (imm : UInt32) (rest : List UInt8) :
    decode ((movImm dst imm).encode ++ rest) =
      some (movImm dst imm, (movImm dst imm).encode.length) := by
  have hrex : (0xb8 + dst.low) / 16 ≠ 4 := by cases dst <;> decide
  simp only [encode, List.cons_append, List.nil_append, List.append_assoc]
  rw [decode_rexIfNeeded _ _ hrex, decodeBody_mov, if_neg Bool.false_ne_true, imm32?_bytes32]
  simp only [Option.map_some, Reg.ofBits_high_low, List.length_append]
  rw [Nat.add_comm]
  rfl

theorem decode_storeImm {base : Reg} (disp imm : UInt32) (hbase : base.low ≠ 4)
    (rest : List UInt8) :
    decode ((storeImm base disp imm).encode ++ rest) =
      some (storeImm base disp imm, (storeImm base disp imm).encode.length) := by
  have hdrop : (LittleEndian.bytes32 disp ++ (LittleEndian.bytes32 imm ++ rest)).drop 4 =
      LittleEndian.bytes32 imm ++ rest := rfl
  have hmem : decodeMem ⟨false, false, base.high⟩ 0xc7 0 base.low
      (LittleEndian.bytes32 disp ++ (LittleEndian.bytes32 imm ++ rest)) =
        some (storeImm base disp imm, 10) := by
    simp [decodeMem, hbase, hdrop]
  simp only [encode, List.cons_append, List.nil_append, List.append_assoc]
  rw [decode_rexIfNeeded _ _ (by decide)]
  have hbody : decodeBody ⟨false, false, base.high⟩ (0xc7 :: operandByte 2 0 base.low ::
      (LittleEndian.bytes32 disp ++ (LittleEndian.bytes32 imm ++ rest))) =
        some (storeImm base disp imm, 10) :=
    (decodeOperand_mem _ _ (by decide) base.low_lt _).trans hmem
  simp only [hbody, Option.map_some, Option.some.injEq, Prod.mk.injEq, true_and,
    List.length_append, List.length_cons, length_bytes32]
  omega

theorem decode_aluImm (op : Alu) (dst : Reg) (imm : UInt32) (rest : List UInt8) :
    decode ((aluImm op dst imm).encode ++ rest) =
      some (aluImm op dst imm, (aluImm op dst imm).encode.length) := by
  have hregs : decodeRegs ⟨false, false, dst.high⟩ 0x81 (digit op) dst.low
      (LittleEndian.bytes32 imm ++ rest) = some (aluImm op dst imm, 6) := by
    simp [decodeRegs]
  have hbody : decodeBody ⟨false, false, dst.high⟩ (0x81 :: operandByte 3 (digit op) dst.low ::
      (LittleEndian.bytes32 imm ++ rest)) = some (aluImm op dst imm, 6) :=
    (decodeOperand_regs _ _ (digit_lt op) dst.low_lt _).trans hregs
  simp only [encode, List.cons_append, List.nil_append, List.append_assoc]
  rw [decode_rexIfNeeded _ _ (by decide)]
  simp only [hbody, Option.map_some, Option.some.injEq, Prod.mk.injEq, true_and,
    List.length_append, List.length_cons, length_bytes32]
  omega

/-- An instruction is read off the front of whatever follows it. -/
theorem decode_encode {i : Instr} (h : i.Encodable) (rest : List UInt8) :
    decode (i.encode ++ rest) = some (i, i.encode.length) := by
  cases i with
  | push r => cases r <;> rfl
  | pop r => cases r <;> rfl
  | adjust op r imm => cases op <;> cases r <;> rfl
  | xor | mov | test =>
    exact decode_encodeRegs rfl (by decide) (fun _ _ _ => rfl) (by simp [decodeRegs])
  | alu op dst src =>
    cases op with
    | add | sub =>
      exact decode_encodeRegs rfl (by decide) (fun _ _ _ => rfl)
        (by simp [decodeRegs, regOpcode])
  | load | store =>
    exact decode_encodeMem rfl (fun _ _ _ => rfl) (by simpa [decodeMem, Encodable] using h)
  | aluMem op dst base disp =>
    cases op with
    | add | sub =>
      exact decode_encodeMem rfl (fun _ _ _ => rfl)
        (by simpa [decodeMem, memOpcode, Encodable] using h)
  | movAddress dst imm => exact decode_movAddress dst imm rest
  | movImm dst imm => exact decode_movImm dst imm rest
  | storeImm base disp imm => exact decode_storeImm disp imm h rest
  | aluImm op dst imm => exact decode_aluImm op dst imm rest
  | jump cond rel =>
    cases cond <;> simp [encode, decode, decodeBody, LittleEndian.bytes32]
    all_goals exact imm32?_bytes32 rel rest
  | call r => cases r <;> rfl
  | ret => rfl

theorem readable {i : Instr} (h : i.Encodable) : Readable i := decode_encode h

theorem length_rexIfNeeded (field rm : Bool) : (rexIfNeeded field rm).length ≤ 1 := by
  unfold rexIfNeeded
  split
  · exact Nat.le_refl 1
  · exact Nat.zero_le 1

/-- No instruction is longer than two constants and three bytes in front of them. -/
theorem size_le (i : Instr) : Native.size i ≤ 11 := by
  change i.encode.length ≤ 11
  cases i with
  | push r | pop r | call r | movImm r _ | storeImm r _ _ | aluImm _ r _ =>
    have := length_rexIfNeeded false r.high
    simp only [encode, List.length_append, List.length_cons, List.length_nil, length_bytes32]
    omega
  | xor r r' | mov r r' | alu _ r r' | test r r' =>
    have := length_rexIfNeeded r'.high r.high
    simp only [encode, encodeRegs, List.length_append, List.length_cons, List.length_nil]
    omega
  | jump cond _ => cases cond <;> exact Nat.le_of_ble_eq_true rfl
  | _ => exact Nat.le_of_ble_eq_true rfl

end Instr

end Dyad.X64
