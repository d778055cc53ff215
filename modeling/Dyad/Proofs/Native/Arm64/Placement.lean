import Dyad.Native.Arm64.Codegen
import Dyad.Proofs.Native.Placement
import Dyad.Proofs.Native.Arm64.Encoding

/-!
Where the code of each instruction stands in an ARM64 routine. All positions are multiples of four,
and a distance within the reach of a branch leads from that branch to the block it names
(`branch_reaches`). So the branches of a block lead to where they should (`blockInstrs_of_inRange`,
`blockInstrs_of_outOfRange`).
-/

namespace Dyad.Arm64

open Native (Generator Op wordOfInt)

namespace Codegen

open Reg

variable {L : Layout} {cached pc : Nat} {code : List Instruction}

theorem legible : codegen.Legible := fun _ _ _ i _ => i.readable

/-! ### Sizes -/

theorem totalSize_eq (ops : List (Op Instr Branch)) : codegen.totalSize ops = 4 * ops.length := by
  have hop (op : Op Instr Branch) : codegen.opSize op = 4 := by cases op <;> rfl
  induction ops with
  | nil => rfl
  | cons op ops ih =>
    rw [Generator.totalSize, ih, hop, List.length_cons, Nat.mul_succ, Nat.add_comm]

theorem label_succ (h : pc < code.length) :
    codegen.label L cached code (pc + 1) =
      codegen.label L cached code pc +
        4 * (codegen.blockInstrs L cached code pc code[pc]).length := by
  rw [codegen.label_succ h, totalSize_eq, Generator.blockInstrs, codegen.length_linkAll]

theorem four_dvd_label (h : pc ≤ code.length) : 4 ∣ codegen.label L cached code pc := by
  induction pc with
  | zero =>
    rw [codegen.label_zero, totalSize_eq]
    exact Nat.dvd_mul_right 4 _
  | succ pc ih =>
    rw [label_succ h]
    exact Nat.dvd_add (ih (Nat.le_of_succ_le h)) (Nat.dvd_mul_right 4 _)

theorem four_le_totalSize_block (L : Layout) (cached size pc : Nat) (i : Instruction) :
    4 ≤ codegen.totalSize (codegen.block L cached size pc i) := by
  rw [totalSize_eq]
  exact Nat.mul_le_mul_left 4
    (List.length_pos_iff.mpr (codegen.block_ne_nil L cached size pc i))

theorem label_add_four_le (h : pc < code.length) :
    codegen.label L cached code pc + 4 ≤ codegen.label L cached code (pc + 1) := by
  rw [codegen.label_succ h]
  exact Nat.add_le_add_left (four_le_totalSize_block L cached code.length pc code[pc]) _

/-- A program is shorter than its code. -/
theorem four_mul_length_le (L : Layout) (cached : Nat) (code : List Instruction) :
    4 * code.length ≤ (codegen.assemble L cached code).length :=
  codegen.mul_length_le (four_le_totalSize_block L cached)

theorem length_block_le (L : Layout) (cached size pc : Nat) (i : Instruction) :
    (codegen.block L cached size pc i).length ≤ 8 := by
  change (block L cached size pc i).length ≤ 8
  unfold block
  cases i.opcode with
  | loadImmediate | addImmediate | subtractImmediate | print => exact Nat.le_of_ble_eq_true rfl
  | loadMemory | storeMemory =>
    cases homes.cell? cached i.immediate <;> exact Nat.le_of_ble_eq_true rfl
  | addMemory | subtractMemory =>
    unfold aluCell
    cases homes.cell? cached i.immediate <;> exact Nat.le_of_ble_eq_true rfl
  | jumpIfNonZero => cases Native.branchLabel? i pc size <;> exact Nat.le_of_ble_eq_true rfl

theorem totalSize_block_le (L : Layout) (cached size pc : Nat) (i : Instruction) :
    codegen.totalSize (codegen.block L cached size pc i) ≤ 32 := by
  rw [totalSize_eq]
  exact Nat.mul_le_mul_left 4 (length_block_le L cached size pc i)

theorem label_succ_le (h : pc < code.length) :
    codegen.label L cached code (pc + 1) ≤ codegen.label L cached code pc + 32 :=
  codegen.label_succ_le (totalSize_block_le L cached) h

/-! ### Branches -/

theorem toInt_far {d : Int} (hlo : -0x2000000 ≤ d) (hhi : d < 0x2000000) :
    (BitVec.ofInt 26 d).toInt = d := by
  rw [BitVec.toInt_ofInt, Int.bmod]
  split <;> omega

theorem toInt_near {d : Int} (hlo : -0x40000 ≤ d) (hhi : d < 0x40000) :
    (BitVec.ofInt 19 d).toInt = d := by
  rw [BitVec.toInt_ofInt, Int.bmod]
  split <;> omega

/-- A branch at `position` leads to a label within reach. -/
theorem branch_reaches {l position : Nat} (hl : l ≤ code.length) (hdvd : 4 ∣ position)
    (hlo : position ≤ codegen.label L cached code l + 0x8000000)
    (hhi : codegen.label L cached code l < position + 0x8000000) :
    (position : Int) + 4 * (BitVec.ofInt 26
      (((codegen.label L cached code l : Int) - position) / 4)).toInt =
        codegen.label L cached code l := by
  obtain ⟨a, ha⟩ : 4 ∣ codegen.label L cached code l := four_dvd_label hl
  obtain ⟨b, rfl⟩ := hdvd
  rw [toInt_far (by omega) (by omega)]
  omega

/-- The branch at the start of a block leads past it. -/
theorem branchIfZero_reaches (h : pc < code.length) :
    (codegen.label L cached code pc : Int) + 4 * (BitVec.ofInt 19
      (((codegen.label L cached code (pc + 1) : Int) - codegen.label L cached code pc) / 4)).toInt =
        codegen.label L cached code (pc + 1) := by
  have hshort : codegen.label L cached code (pc + 1) ≤ codegen.label L cached code pc + 32 :=
    label_succ_le h
  rw [label_succ h] at hshort ⊢
  rw [toInt_near (by omega) (by omega)]
  omega

/-- Blocks are short, so a branch that stays in the program has its target within reach, however
long the routine is. -/
theorem target_near (L : Layout) (cached : Nat) (h : pc < code.length) {i : Instruction}
    (hin : Execution.InRange (i.branchTarget pc) code.length) :
    ((codegen.label L cached code (i.branchTarget pc).toNat : Int) -
      codegen.label L cached code (pc + 1)).natAbs ≤ 32 * 0x8000 :=
  codegen.target_near (totalSize_block_le L cached) h hin

/-! ### The blocks of jumps -/

/-- The instructions of `loadAddress`. -/
def loadAddressInstrs (dst : Reg) (v : UInt64) : List Instr :=
  [.movz true dst v.toUInt16 .q0, .movk true dst (v >>> 16).toUInt16 .q1,
    .movk true dst (v >>> 32).toUInt16 .q2, .movk true dst (v >>> 48).toUInt16 .q3]

/-- The instructions of `loadWord`. -/
def loadWordInstrs (dst : Reg) (v : UInt32) : List Instr :=
  [.movz false dst v.toUInt16 .q0, .movk false dst (v >>> 16).toUInt16 .q1]

/-- The instruction of `storeAt`. -/
def storeAtInstr (src base : Reg) (offset : UInt32) : Instr :=
  .store src base (BitVec.ofNat 12 (offset.toNat / 4))

/-- The instructions that record a branch from `pc` out of the program. -/
def faultStub (pc : Nat) (target : Int) : List Instr :=
  loadWordInstrs scratch (wordOfInt (pc + 1)) ++
  [storeAtInstr scratch frameBase Layout.frameFaultPc] ++
  loadWordInstrs scratch (wordOfInt target) ++
  [storeAtInstr scratch frameBase Layout.frameFaultTarget]

/-- A branch that stays in the program: one branch over the other if the register is zero. -/
theorem blockInstrs_of_inRange (L : Layout) (cached : Nat) (h : pc < code.length)
    (hop : code[pc].opcode = .jumpIfNonZero)
    (hin : Execution.InRange (code[pc].branchTarget pc) code.length) :
    ∃ near far,
      codegen.blockInstrs L cached code pc code[pc] =
        [.branchIfZero (homes.register code[pc].register) near, .branch far] ∧
      (codegen.label L cached code pc : Int) + 4 * near.toInt =
        codegen.label L cached code (pc + 1) ∧
      ((codegen.label L cached code pc + 4 : Nat) : Int) + 4 * far.toInt =
        codegen.label L cached code (code[pc].branchTarget pc).toNat := by
  have hblock : codegen.block L cached code.length pc code[pc] =
      [.branch (.ifZero (homes.register code[pc].register)) (pc + 1),
        .branch .always (code[pc].branchTarget pc).toNat] := by
    change block L cached code.length pc code[pc] = _
    rw [block, hop]
    simp only [Native.branchLabel?_eq_some hin.1 hin.2]
  have hinstrs : codegen.blockInstrs L cached code pc code[pc] = codegen.linkAll _ _ _ :=
    congrArg (codegen.linkAll (codegen.label L cached code) (codegen.label L cached code pc)) hblock
  have hnext : codegen.label L cached code (pc + 1) = codegen.label L cached code pc + 4 * 2 := by
    rw [label_succ h, hinstrs]
    rfl
  have hdvd : 4 ∣ codegen.label L cached code pc := four_dvd_label (Nat.le_of_lt h)
  have hnear : ((codegen.label L cached code (code[pc].branchTarget pc).toNat : Int) -
    codegen.label L cached code (pc + 1)).natAbs ≤ 32 * 0x8000 := target_near L cached h hin
  refine ⟨_, _, hinstrs, branchIfZero_reaches h, ?_⟩
  exact branch_reaches (by have := hin.2; omega) (by omega) (by omega) (by omega)

/-- The distance from the end of a fault stub to the epilogue, as it is written into a branch. -/
def exitField (L : Layout) (cached : Nat) (code : List Instruction) (pc : Nat) : BitVec 26 :=
  BitVec.ofInt 26 (((codegen.label L cached code code.length : Int) -
    (codegen.label L cached code pc + 28 : Nat)) / 4)

/-- A branch that would leave the program: it is recorded, unless the register is zero. -/
theorem blockInstrs_of_outOfRange (L : Layout) (cached : Nat) (h : pc < code.length)
    (hop : code[pc].opcode = .jumpIfNonZero)
    (hout : ¬ Execution.InRange (code[pc].branchTarget pc) code.length) :
    ∃ near,
      codegen.blockInstrs L cached code pc code[pc] =
        .branchIfZero (homes.register code[pc].register) near ::
          (faultStub pc (code[pc].branchTarget pc) ++ [.branch (exitField L cached code pc)]) ∧
      (codegen.label L cached code pc : Int) + 4 * near.toInt =
        codegen.label L cached code (pc + 1) := by
  have hblock : codegen.block L cached code.length pc code[pc] =
      .branch (.ifZero (homes.register code[pc].register)) (pc + 1) ::
        ((faultStub pc (code[pc].branchTarget pc)).map .instr ++
          [.branch .always code.length]) := by
    change block L cached code.length pc code[pc] = _
    rw [block, hop]
    simp only [Native.branchLabel?_eq_none hout]
    rfl
  have hinstrs : codegen.blockInstrs L cached code pc code[pc] = codegen.linkAll _ _ _ :=
    congrArg (codegen.linkAll (codegen.label L cached code) (codegen.label L cached code pc)) hblock
  exact ⟨_, hinstrs, branchIfZero_reaches h⟩

/-- Every branch that leaves the program is within reach of the epilogue. -/
def ExitsReach (L : Layout) (cached : Nat) (code : List Instruction) : Prop :=
  ∀ pc, (h : pc < code.length) → code[pc].opcode = .jumpIfNonZero →
    ¬ Execution.InRange (code[pc].branchTarget pc) code.length →
      ((codegen.label L cached code pc + 28 : Nat) : Int) +
          4 * (exitField L cached code pc).toInt = codegen.label L cached code code.length

/-- The block of a branch that would leave the program has eight words. -/
theorem label_succ_of_outOfRange (h : pc < code.length)
    (hop : code[pc].opcode = .jumpIfNonZero)
    (hout : ¬ Execution.InRange (code[pc].branchTarget pc) code.length) :
    codegen.label L cached code (pc + 1) = codegen.label L cached code pc + 32 := by
  obtain ⟨near, hinstrs, -⟩ : ∃ near, codegen.blockInstrs L cached code pc code[pc] = _ ∧ _ :=
    blockInstrs_of_outOfRange L cached h hop hout
  rw [label_succ h, hinstrs]
  rfl

theorem exitsReach_of_size (hsize : (codegen.assemble L cached code).length < 0x8000000) :
    ExitsReach L cached code := by
  intro pc h hop hout
  have hnext : codegen.label L cached code (pc + 1) = codegen.label L cached code pc + 32 :=
    label_succ_of_outOfRange h hop hout
  have hle : codegen.label L cached code (pc + 1) ≤ (codegen.assemble L cached code).length :=
    codegen.label_le h
  have hend : codegen.label L cached code code.length ≤ (codegen.assemble L cached code).length :=
    codegen.label_le (Nat.le_refl _)
  have hdvd : 4 ∣ codegen.label L cached code pc := four_dvd_label (Nat.le_of_lt h)
  exact branch_reaches (Nat.le_refl _) (by omega) (by omega) (by omega)

end Codegen

end Dyad.Arm64
