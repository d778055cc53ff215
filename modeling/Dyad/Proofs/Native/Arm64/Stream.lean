import Dyad.Native.Arm64.Machine
import Dyad.Proofs.Native.Arm64.Placement

/-!
The words of an ARM64 routine, read back. Four bytes at a time they decode to a prologue, one block
for each instruction and an epilogue (`words_assemble`). What these have to be is written out here
register by register and field by field: the groups of moves that build a constant load just that
constant (`Loads`), and the signed field of a branch, counted in words from the branch itself, leads
to the block it should.
-/

namespace Dyad.Arm64

open Native (Parts Runs wordOfInt)
open Reg

/-! ### Constants -/

/-- Filling a field adds it to what is below it. -/
theorem toNat_setField (field : Quarter) {w : UInt64} (h : w.toNat < field.unit.toNat)
    (imm : UInt16) :
    (setField w field imm).toNat = w.toNat + imm.toNat * field.unit.toNat := by
  have himm := imm.toNat_lt
  cases field <;>
    simp only [setField, Quarter.unit, UInt64.toNat_add, UInt64.toNat_sub, UInt64.toNat_mul,
      UInt64.toNat_div, UInt64.toNat_mod, UInt16.toNat_toUInt64, UInt64.reduceToNat] at h ⊢ <;>
    omega

theorem setField_quarters (v : UInt64) :
    setField (setField (setField (setField 0 .q0 v.toUInt16) .q1 (v >>> 16).toUInt16) .q2
      (v >>> 32).toUInt16) .q3 (v >>> 48).toUInt16 = v := by
  have hv := v.toNat_lt
  have hq₀ := v.toUInt16.toNat_lt
  have hq₁ := (v >>> 16).toUInt16.toNat_lt
  have hq₂ := (v >>> 32).toUInt16.toNat_lt
  have h₀ := toNat_setField .q0 (w := 0) (by decide) v.toUInt16
  generalize setField 0 .q0 v.toUInt16 = w₀ at h₀ ⊢
  simp only [Quarter.unit, UInt64.reduceToNat] at h₀
  have h₁ := toNat_setField .q1 (w := w₀) (by simp only [Quarter.unit, UInt64.reduceToNat]; omega)
    (v >>> 16).toUInt16
  generalize setField w₀ .q1 (v >>> 16).toUInt16 = w₁ at h₁ ⊢
  simp only [Quarter.unit, UInt64.reduceToNat] at h₁
  have h₂ := toNat_setField .q2 (w := w₁) (by simp only [Quarter.unit, UInt64.reduceToNat]; omega)
    (v >>> 32).toUInt16
  generalize setField w₁ .q2 (v >>> 32).toUInt16 = w₂ at h₂ ⊢
  simp only [Quarter.unit, UInt64.reduceToNat] at h₂
  apply UInt64.toNat_inj.mp
  rw [toNat_setField .q3 (by simp only [Quarter.unit, UInt64.reduceToNat]; omega), h₂, h₁, h₀]
  simp only [Quarter.unit, UInt64.toNat_toUInt16, UInt64.toNat_shiftRight,
    Nat.shiftRight_eq_div_pow, UInt64.reduceToNat, Nat.reduceMod]
  omega

theorem setField_halves (rs : Native.RegFile Reg) (dst : Reg) (v : UInt32) :
    (setField ((rs.set32 dst (setField 0 .q0 v.toUInt16).toUInt32).get dst) .q1
      (v >>> 16).toUInt16).toUInt32 = v := by
  have hv := v.toNat_lt
  have hq₀ := v.toUInt16.toNat_lt
  have h₀ := toNat_setField .q0 (w := 0) (by decide) v.toUInt16
  have hlow : (setField 0 .q0 v.toUInt16).toUInt32.toUInt64.toNat = v.toUInt16.toNat := by
    simp only [Quarter.unit, UInt64.reduceToNat] at h₀
    rw [UInt32.toNat_toUInt64, UInt64.toNat_toUInt32, h₀]
    omega
  rw [Native.RegFile.set32, Native.RegFile.get_set_self]
  apply UInt32.toNat_inj.mp
  rw [UInt64.toNat_toUInt32, toNat_setField .q1 (by rw [hlow]; exact hq₀), hlow]
  simp only [Quarter.unit, UInt32.toNat_toUInt16, UInt32.toNat_shiftRight,
    Nat.shiftRight_eq_div_pow, UInt32.reduceToNat, UInt64.reduceToNat, Nat.reduceMod]
  omega

theorem setField_zero (imm : UInt16) : setField 0 .q0 imm = imm.toUInt64 := by
  apply UInt64.toNat_inj.mp
  rw [toNat_setField .q0 (by decide), UInt16.toNat_toUInt64]
  simp only [Quarter.unit, UInt64.reduceToNat]
  omega

/-- The instruction fills a field of `dst`. -/
def Instr.Fills (dst : Reg) (i : Instr) : Prop :=
  ∃ wide imm field, i = .movz wide dst imm field ∨ i = .movk wide dst imm field

/-- The instructions fill fields of `dst` one after another, and leave `v` there and everything else
as it was. -/
def Loads (dst : Reg) (v : UInt64) (is : List Instr) : Prop :=
  ∀ (host : Host) (c : Cpu), Runs (exec host) (fun _ i => i.Fills dst) c is
    { c with regs := c.regs.set dst v, ip := c.ip + 4 * is.length }

theorem fills_movz (wide : Bool) (dst : Reg) (imm : UInt16) (field : Quarter) :
    Instr.Fills dst (.movz wide dst imm field) := ⟨wide, imm, field, .inl rfl⟩

theorem fills_movk (wide : Bool) (dst : Reg) (imm : UInt16) (field : Quarter) :
    Instr.Fills dst (.movk wide dst imm field) := ⟨wide, imm, field, .inr rfl⟩

namespace Codegen

theorem loads_address (dst : Reg) (v : UInt64) : Loads dst v (loadAddressInstrs dst v) := by
  intro host c
  refine .cons ⟨rfl, rfl⟩ (fills_movz _ _ _ _) (.cons ⟨rfl, rfl⟩ (fills_movk _ _ _ _)
    (.cons ⟨rfl, rfl⟩ (fills_movk _ _ _ _) (.one ⟨?_, rfl⟩ (fills_movk _ _ _ _))))
  simp only [exec, write, if_true, Native.RegFile.get_set_self, Native.RegFile.set_set,
    setField_quarters]
  rfl

/-- A 32-bit constant clears the upper half of its register. -/
theorem loads_word (dst : Reg) (v : UInt32) : Loads dst v.toUInt64 (loadWordInstrs dst v) := by
  intro host c
  refine .cons ⟨rfl, rfl⟩ (fills_movz _ _ _ _) (.one ⟨?_, rfl⟩ (fills_movk _ _ _ _))
  simp only [exec, write, Bool.false_eq_true, if_false, setField_halves]
  simp only [Native.RegFile.set32, Native.RegFile.set_set]
  rfl

/-! ### What the parts have to be -/

/-- The prologue saves the registers, clears A, B and the cached cells, and loads both bases. -/
def IntendedPrologue (L : Layout) (is : List Instr) : Prop :=
  ∃ memory frame,
    is = [.pushPair x29 x30, .moveFromSp x29, .pushPair x19 x20, .pushPair x21 x22,
        .pushPair x23 x24, .pushPair x25 x26, .movz false x19 0 .q0, .movz false x20 0 .q0,
        .movz false x21 0 .q0, .movz false x22 0 .q0, .movz false x23 0 .q0] ++ memory ++ frame ∧
      memory.length = 4 ∧ Loads x24 L.memory memory ∧ frame.length = 4 ∧ Loads x25 L.frame frame

/-- The epilogue hands back A, B and the cached cells, each at its index in words, and restores the
registers in reverse. -/
def IntendedEpilogue (cached : Nat) (is : List Instr) : Prop :=
  is = [.store x19 x25 0, .store x20 x25 1] ++
    ([.store x21 x24 0, .store x22 x24 1, .store x23 x24 2] : List Instr).take cached ++
    [.popPair x25 x26, .popPair x23 x24, .popPair x21 x22, .popPair x19 x20, .popPair x29 x30,
      .ret]

/-- An operand that is a cell: the code for its register if it is cached, or else the code after its
index has been put into x9. -/
def cellInstrs (cached : Nat) (cell : UInt16) (held : Reg → List Instr) (stored : List Instr) :
    List Instr :=
  if cell.toNat < cached then held (if cell = 0 then x21 else if cell = 1 then x22 else x23)
  else .movz true x9 cell .q0 :: stored

/-- What the block of `i` at `pc` has to be, if blocks start as `start` says. A branch that stays in
the program leads to its target; one that would leave it is recorded in the third and fourth field
of the frame and leads to the epilogue; one that is not taken leads past the block. -/
def Intended (L : Layout) (cached size : Nat) (start : Nat → Nat) (pc : Nat) (i : Instruction)
    (is : List Instr) : Prop :=
  let r := if i.register = .a then x19 else x20
  let stop : Nat := start pc + 4 * is.length
  match i.opcode with
  | .loadImmediate => is = [.movz false r i.immediate .q0]
  | .addImmediate => is = [.movz false x9 i.immediate .q0, .alu .add r r x9]
  | .subtractImmediate => is = [.movz false x9 i.immediate .q0, .alu .sub r r x9]
  | .loadMemory =>
    is = cellInstrs cached i.immediate (fun c => [.mov false r c]) [.loadScaled r x24 x9]
  | .storeMemory =>
    is = cellInstrs cached i.immediate (fun c => [.mov false c r]) [.storeScaled r x24 x9]
  | .addMemory =>
    is = cellInstrs cached i.immediate (fun c => [.alu .add r r c])
      [.loadScaled x9 x24 x9, .alu .add r r x9]
  | .subtractMemory =>
    is = cellInstrs cached i.immediate (fun c => [.alu .sub r r c])
      [.loadScaled x9 x24 x9, .alu .sub r r x9]
  | .print =>
    ∃ address,
      is = [.mov true x0 x25, .movz false x1 (if i.register = .a then 0 else 1) .q0,
          .mov false x2 r] ++ address ++ [.call x16] ∧
        address.length = 4 ∧ Loads x16 L.print address
  | .jumpIfNonZero =>
    if Execution.InRange (i.branchTarget pc) size then
      ∃ (near : BitVec 19) (far : BitVec 26), is = [.branchIfZero r near, .branch far] ∧
        start pc + 4 * near.toInt = stop ∧
        (start pc + 4 : Nat) + 4 * far.toInt = start (i.branchTarget pc).toNat
    else
      ∃ (near : BitVec 19) (origin target : List Instr) (far : BitVec 26),
        is = [.branchIfZero r near] ++ origin ++ [.store x9 x25 2] ++ target ++
            [.store x9 x25 3, .branch far] ∧
        origin.length = 2 ∧ Loads x9 (wordOfInt (pc + 1)).toUInt64 origin ∧
        target.length = 2 ∧ Loads x9 (wordOfInt (i.branchTarget pc)).toUInt64 target ∧
        start pc + 4 * near.toInt = stop ∧
        (start pc + 28 : Nat) + 4 * far.toInt = start size

/-! ### The parts of a routine -/

variable {L : Layout} {cached pc : Nat} {code : List Instruction}

theorem intendedPrologue : IntendedPrologue L (codegen.prologueInstrs L cached code) :=
  ⟨loadAddressInstrs x24 L.memory, loadAddressInstrs x25 L.frame, rfl, rfl, loads_address _ _, rfl,
    loads_address _ _⟩

theorem intendedEpilogue (hc : cached ≤ 3) :
    IntendedEpilogue cached (codegen.epilogueInstrs L cached code) := by
  match cached, hc with
  | 0, _ | 1, _ | 2, _ | 3, _ => rfl

theorem register_eq (r : Register) : homes.register r = if r = .a then x19 else x20 := by
  cases r <;> rfl

theorem ofNat_index (r : Register) : UInt16.ofNat r.index = if r = .a then 0 else 1 := by
  cases r <;> rfl

theorem cell_toNat {cell : UInt16} (h : cell.toNat < 3) :
    homes.cell cell.toNat = if cell = 0 then x21 else if cell = 1 then x22 else x23 := by
  obtain ⟨n, hn, rfl⟩ : ∃ n < 3, cell = UInt16.ofNat n :=
    ⟨cell.toNat, h, UInt16.ofNat_toNat.symm⟩
  match n, hn with
  | 0, _ | 1, _ | 2, _ => rfl

/-- Every block is as intended, if the labels are the starts of blocks. -/
theorem intended_blockInstrs (hc : cached ≤ 3) (hreach : ExitsReach L cached code)
    {start : Nat → Nat} (hstart : ∀ l ≤ code.length, start l = codegen.label L cached code l)
    (h : pc < code.length) :
    Intended L cached code.length start pc code[pc]
      (codegen.blockInstrs L cached code pc code[pc]) := by
  have straight : ∀ {is : List Instr}, block L cached code.length pc code[pc] = is.map .instr →
      codegen.blockInstrs L cached code pc code[pc] = is := codegen.blockInstrs_of_straight
  have hr : ∀ r, homes.register r = if r = .a then x19 else x20 := register_eq
  unfold Intended
  simp only [hstart pc (Nat.le_of_lt h), hstart _ (Nat.le_refl _), ← label_succ h, ← hr]
  unfold block at straight
  cases hop : code[pc].opcode with
  | loadImmediate | addImmediate | subtractImmediate =>
    rw [hop] at straight
    exact straight rfl
  | loadMemory | storeMemory | addMemory | subtractMemory =>
    rw [hop] at straight
    apply straight
    by_cases cell : code[pc].immediate.toNat < cached
    · simp only [aluCell, homes.cell?_of_lt cell, cellInstrs, if_pos cell,
        cell_toNat (Nat.lt_of_lt_of_le cell hc)]
      rfl
    · simp only [aluCell, homes.cell?_of_le (Nat.not_lt.mp cell), cellInstrs, if_neg cell]
      rfl
  | print =>
    rw [hop] at straight
    dsimp only
    rw [← ofNat_index]
    exact ⟨loadAddressInstrs x16 L.print, straight rfl, rfl, loads_address _ _⟩
  | jumpIfNonZero =>
    by_cases hin : Execution.InRange (code[pc].branchTarget pc) code.length
    · have htarget : (code[pc].branchTarget pc).toNat ≤ code.length := by
        have := hin.2
        omega
      rw [if_pos hin, hstart _ htarget]
      exact blockInstrs_of_inRange L cached h hop hin
    · rw [if_neg hin]
      obtain ⟨near, hblock, hnear⟩ := blockInstrs_of_outOfRange L cached h hop hin
      exact ⟨near, loadWordInstrs x9 (wordOfInt (pc + 1)),
        loadWordInstrs x9 (wordOfInt (code[pc].branchTarget pc)), _, hblock, rfl,
        loads_word _ _, rfl, loads_word _ _, hnear, hreach pc h hop hin⟩

/-- The words of a routine decode to its prologue, one block for each instruction and its epilogue,
to the last byte, each as intended. -/
theorem words_assemble (L : Layout) {cached : Nat} (hc : cached ≤ 3) (code : List Instruction)
    (hsize : (codegen.assemble L cached code).length < 0x8000000) :
    ∃ P : Parts Instr,
      Native.parse (codegen.assemble L cached code) = some P.all ∧
      IntendedPrologue L P.prologue ∧
      P.blocks.length = code.length ∧
      (∀ pc (h : pc < code.length) (h' : pc < P.blocks.length),
        Intended L cached code.length P.start pc code[pc] P.blocks[pc]) ∧
      IntendedEpilogue cached P.epilogue := by
  refine ⟨codegen.parts L cached code, ?_, intendedPrologue, codegen.length_blocks_parts,
    fun pc h h' => ?_, intendedEpilogue hc⟩
  · rw [codegen.all_parts]
    exact Native.Generator.parse_assemble_eq legible L cached code
  · rw [codegen.getElem_blocks_parts h]
    exact intended_blockInstrs hc (exitsReach_of_size hsize) (fun l hl => codegen.start_parts hl) h

/-- A program with a branch of each kind, the last one out of the program. -/
theorem words_assemble_strayProgram :
    ∃ P : Parts Instr,
      Native.parse (codegen.assemble ⟨0x10000000, 0x20000000, 0x30000000⟩ 2 Native.strayProgram) =
        some P.all ∧
      IntendedPrologue ⟨0x10000000, 0x20000000, 0x30000000⟩ P.prologue ∧
      P.blocks.length = 5 ∧
      (∀ h : 4 < P.blocks.length,
        Intended ⟨0x10000000, 0x20000000, 0x30000000⟩ 2 5 P.start 4 ⟨.jumpIfNonZero, .a, 7⟩
          P.blocks[4]) ∧
      IntendedEpilogue 2 P.epilogue := by
  obtain ⟨P, hparse, hprologue, hblocks, hintended, hepilogue⟩ :=
    words_assemble ⟨0x10000000, 0x20000000, 0x30000000⟩ (show 2 ≤ 3 by decide)
      Native.strayProgram (by decide +kernel)
  exact ⟨P, hparse, hprologue, hblocks, fun h => hintended 4 (by decide) h, hepilogue⟩

end Codegen

end Dyad.Arm64
