import Dyad.Native.Arm64.Instr
import Dyad.Proofs.Native.Stepping

/-!
The ARM64 encoding can be read back: every instruction is decoded from its own word
(`decode_encode`), so it is read off its own four bytes whatever follows them (`readable`).
-/

namespace Dyad.Arm64

open Native (Alu Readable)

namespace Instr

theorem reg?_eq_some {n unit : Nat} {r : Reg} (h : n / unit % 32 = r.index.val) :
    reg? n unit = some r := by
  rw [reg?, h, Reg.ofNat?_index]

/-! ### Which form a word has -/

section

variable {n : Nat}

/-- The forms that are told apart by their high bits. -/
theorem decodeNat_of_move (h : n / 0x800000 % 0x40 = 0x25) : decodeNat n = decodeMove n := by
  unfold decodeNat upper
  rw [if_neg (by omega), if_neg (by omega), if_neg (by omega), if_neg (by omega), if_pos h]

theorem decodeNat_of_other (h : n / 0x800000 % 0x40 ≠ 0x25) (htop : n / 0x4000000 ≠ 5)
    (hcbz : n / 0x1000000 ≠ 0x34) (hcall : n / 0x1000000 ≠ 0xd6) :
    decodeNat n = if n / 0x20 % 0x20 = 31 then decodeFixed n else decodeRegs n := by
  unfold decodeNat upper
  rw [if_neg (by omega), if_neg (by omega), if_neg (by omega), if_neg (by omega), if_neg h]

end

theorem ofIndex_of_mod {n : Nat} {q : Quarter} (h : n % 4 = q.index) : Quarter.ofIndex n = q := by
  unfold Quarter.ofIndex
  rw [h]
  cases q <;> rfl

theorem wideBit_false : wideBit false = 0 := rfl

theorem wideBit_true : wideBit true = 0x80000000 := rfl

section

variable {n : Nat} {wide : Bool} {dst : Reg} {imm : UInt16} {field : Quarter}

theorem decodeMove_movz (hdst : n / 1 % 32 = dst.index.val)
    (himm : UInt16.ofNat (n / 0x20) = imm) (hfield : Quarter.ofIndex (n / 0x200000) = field)
    (h : upper n 0x800000 = 0x52800000 + wideBit wide) :
    decodeMove n = some (movz wide dst imm field) := by
  unfold decodeMove
  rw [reg?_eq_some hdst, Option.bind_eq_bind, Option.bind_some, himm, hfield]
  cases wide with
  | false =>
    rw [wideBit_false] at h
    rw [if_pos h]
    rfl
  | true =>
    rw [wideBit_true] at h
    rw [if_neg (by omega), if_pos h]
    rfl

theorem decodeMove_movk (hdst : n / 1 % 32 = dst.index.val)
    (himm : UInt16.ofNat (n / 0x20) = imm) (hfield : Quarter.ofIndex (n / 0x200000) = field)
    (h : upper n 0x800000 = 0x72800000 + wideBit wide) :
    decodeMove n = some (movk wide dst imm field) := by
  unfold decodeMove
  rw [reg?_eq_some hdst, Option.bind_eq_bind, Option.bind_some, himm, hfield]
  cases wide with
  | false =>
    rw [wideBit_false] at h
    rw [if_neg (by omega), if_neg (by omega), if_pos h]
    rfl
  | true =>
    rw [wideBit_true] at h
    rw [if_neg (by omega), if_neg (by omega), if_neg (by omega), if_pos h]
    rfl

end

/-- The fields of a word that moves a constant. -/
theorem move_fields {base : Nat} (hbase : base % 0x800000 = 0) (dst : Reg) (imm : UInt16)
    (field : Quarter) :
    let n := base + field.index * 0x200000 + imm.toNat * 0x20 + dst.index.val
    n / 1 % 32 = dst.index.val ∧ UInt16.ofNat (n / 0x20) = imm ∧
      Quarter.ofIndex (n / 0x200000) = field ∧ upper n 0x800000 = base := by
  have hdst := dst.index.isLt
  have himm := imm.toNat_lt
  have hfield : field.index < 4 := by cases field <;> decide
  refine ⟨by omega, ?_, ofIndex_of_mod (by omega), by unfold upper; omega⟩
  apply UInt16.toNat_inj.mp
  rw [UInt16.toNat_ofNat']
  omega

theorem decodeNat_movz (wide : Bool) (dst : Reg) (imm : UInt16) (field : Quarter) :
    decodeNat (movz wide dst imm field).encodeNat = some (movz wide dst imm field) := by
  have hbase : (0x52800000 + wideBit wide) % 0x800000 = 0 := by cases wide <;> decide
  obtain ⟨hdst, himm, hfield, hupper⟩ := move_fields hbase dst imm field
  have hmove : (movz wide dst imm field).encodeNat / 0x800000 % 0x40 = 0x25 := by
    have h : (0x52800000 + wideBit wide) / 0x800000 % 0x40 = 0x25 := by cases wide <;> decide
    unfold upper at hupper
    simp only [encodeNat]
    omega
  rw [decodeNat_of_move hmove]
  exact decodeMove_movz hdst himm hfield hupper

theorem decodeNat_movk (wide : Bool) (dst : Reg) (imm : UInt16) (field : Quarter) :
    decodeNat (movk wide dst imm field).encodeNat = some (movk wide dst imm field) := by
  have hbase : (0x72800000 + wideBit wide) % 0x800000 = 0 := by cases wide <;> decide
  obtain ⟨hdst, himm, hfield, hupper⟩ := move_fields hbase dst imm field
  have hmove : (movk wide dst imm field).encodeNat / 0x800000 % 0x40 = 0x25 := by
    have h : (0x72800000 + wideBit wide) / 0x800000 % 0x40 = 0x25 := by cases wide <;> decide
    unfold upper at hupper
    simp only [encodeNat]
    omega
  rw [decodeNat_of_move hmove]
  exact decodeMove_movk hdst himm hfield hupper

theorem decodeNat_pair (first second : Reg) :
    decodeNat (pushPair first second).encodeNat = some (pushPair first second) ∧
      decodeNat (popPair first second).encodeNat = some (popPair first second) := by
  have hfirst := first.index.isLt
  have hsecond := second.index.isLt
  simp only [encodeNat]
  constructor
  · rw [decodeNat_of_other (by omega) (by omega) (by omega) (by omega), if_pos (by omega)]
    unfold decodeFixed upper
    rw [reg?_eq_some (r := first) (by omega), Option.bind_eq_bind, Option.bind_some,
      if_pos (by omega), reg?_eq_some (r := second) (by omega)]
    rfl
  · rw [decodeNat_of_other (by omega) (by omega) (by omega) (by omega), if_pos (by omega)]
    unfold decodeFixed upper
    rw [reg?_eq_some (r := first) (by omega), Option.bind_eq_bind, Option.bind_some,
      if_neg (by omega), if_pos (by omega), reg?_eq_some (r := second) (by omega)]
    rfl

theorem decodeNat_moveFromSp (dst : Reg) :
    decodeNat (moveFromSp dst).encodeNat = some (moveFromSp dst) := by
  have hdst := dst.index.isLt
  simp only [encodeNat]
  rw [decodeNat_of_other (by omega) (by omega) (by omega) (by omega), if_pos (by omega)]
  unfold decodeFixed upper
  rw [reg?_eq_some (r := dst) (by omega), Option.bind_eq_bind, Option.bind_some,
    if_neg (by omega), if_neg (by omega), if_pos (by omega)]
  rfl

theorem decodeNat_mov (wide : Bool) (dst src : Reg) :
    decodeNat (mov wide dst src).encodeNat = some (mov wide dst src) := by
  have hdst := dst.index.isLt
  have hsrc := src.index.isLt
  cases wide with
  | false =>
    simp only [encodeNat, wideBit_false]
    rw [decodeNat_of_other (by omega) (by omega) (by omega) (by omega), if_pos (by omega)]
    unfold decodeFixed upper
    rw [reg?_eq_some (r := dst) (by omega), Option.bind_eq_bind, Option.bind_some,
      if_neg (by omega), if_neg (by omega), if_neg (by omega), if_pos (by omega),
      reg?_eq_some (r := src) (by omega)]
    rfl
  | true =>
    simp only [encodeNat, wideBit_true]
    rw [decodeNat_of_other (by omega) (by omega) (by omega) (by omega), if_pos (by omega)]
    unfold decodeFixed upper
    rw [reg?_eq_some (r := dst) (by omega), Option.bind_eq_bind, Option.bind_some,
      if_neg (by omega), if_neg (by omega), if_neg (by omega), if_neg (by omega),
      if_pos (by omega), reg?_eq_some (r := src) (by omega)]
    rfl

/-- Forms with three register fields differ in the rest of the word: `q` stands above the fields
and `p` between them. -/
theorem decodeNat_regs {base q p : Nat} (hbase : base = q * 0x200000 + p * 0x400) (hp : p < 64)
    (hmove : q / 4 % 0x40 ≠ 0x25) (hbranch : q / 0x20 ≠ 5) (hcbz : q / 8 ≠ 0x34)
    (hcall : q / 8 ≠ 0xd6) (hstore : q / 2 ≠ 0x2e4) (low middle high : Reg) :
    decodeNat (base + fields low.index.val middle.index.val high.index.val) =
      if base = 0x0b000000 then some (alu .add low middle high)
      else if base = 0x4b000000 then some (alu .sub low middle high)
      else if base = 0xb8607800 then some (loadScaled low middle high)
      else if base = 0xb8207800 then some (storeScaled low middle high)
      else none := by
  have hl := low.index.isLt
  have hm := middle.index.isLt
  have hh := high.index.isLt
  unfold fields
  generalize hn : base + (high.index.val * 0x10000 + middle.index.val * 0x20 + low.index.val) = n
  have hq : n / 0x200000 = q := by omega
  have hmid : n % 0x10000 / 0x400 = p := by omega
  have hrest : n / 0x200000 * 0x200000 + n % 0x10000 / 0x400 * 0x400 = base := by
    rw [hq, hmid, hbase]
  rw [decodeNat_of_other (by omega) (by omega) (by omega) (by omega), if_neg (by omega)]
  unfold decodeRegs upper
  rw [reg?_eq_some (r := low) (by omega), Option.bind_eq_bind, Option.bind_some,
    reg?_eq_some (r := middle) (by omega), Option.bind_some, if_neg (by omega),
    reg?_eq_some (r := high) (by omega), Option.bind_some, hrest]
  rfl

theorem decodeNat_alu (op : Alu) (dst left right : Reg) :
    decodeNat (alu op dst left right).encodeNat = some (alu op dst left right) := by
  cases op with
  | add =>
    exact decodeNat_regs (q := 0x58) (p := 0) rfl (by decide) (by decide) (by decide) (by decide)
      (by decide) (by decide) dst left right
  | sub =>
    exact decodeNat_regs (q := 0x258) (p := 0) rfl (by decide) (by decide) (by decide) (by decide)
      (by decide) (by decide) dst left right

theorem decodeNat_scaled (r base index : Reg) :
    decodeNat (loadScaled r base index).encodeNat = some (loadScaled r base index) ∧
      decodeNat (storeScaled r base index).encodeNat = some (storeScaled r base index) := by
  constructor
  · exact decodeNat_regs (q := 0x5c3) (p := 0x1e) rfl (by decide) (by decide) (by decide)
      (by decide) (by decide) (by decide) r base index
  · exact decodeNat_regs (q := 0x5c1) (p := 0x1e) rfl (by decide) (by decide) (by decide)
      (by decide) (by decide) (by decide) r base index

theorem decodeNat_store (src base : Reg) (offset : BitVec 12) :
    decodeNat (store src base offset).encodeNat = some (store src base offset) := by
  have hsrc := src.index.isLt
  have hbase := base.index.isLt
  have hoffset := offset.isLt
  simp only [encodeNat]
  rw [decodeNat_of_other (by omega) (by omega) (by omega) (by omega), if_neg (by omega)]
  unfold decodeRegs upper
  rw [reg?_eq_some (r := src) (by omega), Option.bind_eq_bind, Option.bind_some,
    reg?_eq_some (r := base) (by omega), Option.bind_some, if_pos (by omega)]
  refine congrArg (fun o => some (store src base o)) (BitVec.eq_of_toNat_eq ?_)
  rw [BitVec.toNat_ofNat]
  omega

theorem decodeNat_branches (r : Reg) (near : BitVec 19) (far : BitVec 26) :
    decodeNat (branchIfZero r near).encodeNat = some (branchIfZero r near) ∧
      decodeNat (branch far).encodeNat = some (branch far) ∧
      decodeNat (call r).encodeNat = some (call r) := by
  have hr := r.index.isLt
  have hnear := near.isLt
  have hfar := far.isLt
  simp only [encodeNat]
  refine ⟨?_, ?_, ?_⟩
  · unfold decodeNat upper
    rw [if_neg (by omega), if_neg (by omega), if_pos (by omega), reg?_eq_some (r := r) (by omega)]
    refine congrArg (fun d => some (branchIfZero r d)) (BitVec.eq_of_toNat_eq ?_)
    rw [BitVec.toNat_ofNat]
    omega
  · unfold decodeNat upper
    rw [if_neg (by omega), if_pos (by omega)]
    refine congrArg (fun d => some (branch d)) (BitVec.eq_of_toNat_eq ?_)
    rw [BitVec.toNat_ofNat]
    omega
  · unfold decodeNat upper
    rw [if_neg (by omega), if_neg (by omega), if_neg (by omega), if_pos (by omega),
      reg?_eq_some (r := r) (by omega)]
    rfl

theorem decodeNat_encodeNat (i : Instr) : decodeNat i.encodeNat = some i := by
  cases i with
  | pushPair first second => exact (decodeNat_pair first second).1
  | popPair first second => exact (decodeNat_pair first second).2
  | moveFromSp dst => exact decodeNat_moveFromSp dst
  | movz wide dst imm field => exact decodeNat_movz wide dst imm field
  | movk wide dst imm field => exact decodeNat_movk wide dst imm field
  | mov wide dst src => exact decodeNat_mov wide dst src
  | alu op dst left right => exact decodeNat_alu op dst left right
  | loadScaled dst base index => exact (decodeNat_scaled dst base index).1
  | storeScaled src base index => exact (decodeNat_scaled src base index).2
  | store src base offset => exact decodeNat_store src base offset
  | branchIfZero r distance => exact (decodeNat_branches r distance 0).1
  | branch distance => exact (decodeNat_branches .x0 0 distance).2.1
  | call r => exact (decodeNat_branches r 0 0).2.2
  | ret => rfl

theorem encodeNat_lt (i : Instr) : i.encodeNat < 0x100000000 := by
  have hwide : ∀ wide, wideBit wide ≤ 0x80000000 := by decide
  have hreg := fun r : Reg => r.index.isLt
  cases i with
  | pushPair first second | popPair first second =>
    have := hreg first
    have := hreg second
    simp only [encodeNat]
    omega
  | moveFromSp r | call r =>
    have := hreg r
    simp only [encodeNat]
    omega
  | movz wide dst imm field | movk wide dst imm field =>
    have := hreg dst
    have := hwide wide
    have := imm.toNat_lt
    have hfield : field.index < 4 := by cases field <;> decide
    simp only [encodeNat]
    omega
  | mov wide dst src =>
    have := hreg dst
    have := hreg src
    have := hwide wide
    simp only [encodeNat]
    omega
  | alu op a b c =>
    have := hreg a
    have := hreg b
    have := hreg c
    have hop : aluBase op ≤ 0x4b000000 := by cases op <;> decide
    simp only [encodeNat, fields]
    omega
  | loadScaled a b c | storeScaled a b c =>
    have := hreg a
    have := hreg b
    have := hreg c
    simp only [encodeNat, fields]
    omega
  | store src base offset =>
    have := hreg src
    have := hreg base
    have := offset.isLt
    simp only [encodeNat]
    omega
  | branchIfZero r distance =>
    have := hreg r
    have := distance.isLt
    simp only [encodeNat]
    omega
  | branch distance =>
    have := distance.isLt
    simp only [encodeNat]
    omega
  | ret => decide

/-- Every instruction is decoded from its own word. -/
theorem decode_encode (i : Instr) : decode i.encode = some i := by
  rw [decode, encode, UInt32.toNat_ofNat_of_lt' (encodeNat_lt i), decodeNat_encodeNat]

/-- Every instruction is read off its own bytes. -/
theorem readable (i : Instr) : Readable i := by
  intro rest
  change fetch (LittleEndian.bytes32 i.encode ++ rest) = some (i, 4)
  rw [LittleEndian.bytes32]
  simp only [List.cons_append, fetch, LittleEndian.word32_bytes32, decode_encode, Option.map_some]

end Instr

end Dyad.Arm64
