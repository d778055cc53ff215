import Dyad.Native.X64.Codegen
import Dyad.Proofs.Native.Placement
import Dyad.Proofs.Native.X64.Encoding

/-!
The blocks of an x86-64 routine, and where their branches lead. Every distance that is written into
a branch leads from the end of that branch to the first byte of the block it names, so the bytes of
a routine parse as prologue, blocks and epilogue, each as intended (`parse_assemble`).
-/

namespace Dyad.X64

open Native (Generator Op Parts add_signedWord_sub codeSize wordOfInt)

namespace Codegen

open Reg

variable {L : Layout} {cached pc size : Nat} {code : List Instruction} {i : Instruction}

/-! ### Sizes -/

theorem length_encodeRegs (opcode : UInt8) {field rm : Reg} (h : (field.high || rm.high) = true) :
    (Instr.encodeRegs opcode field rm).length = 3 := by
  rw [Instr.encodeRegs, rexIfNeeded, if_pos h]
  rfl

/-- Every block has at least three bytes, since its registers need an extension byte. -/
theorem three_le_totalSize_block (L : Layout) (cached size pc : Nat) (i : Instruction) :
    3 ≤ codegen.totalSize (codegen.block L cached size pc i) := by
  have hhigh : (homes.register i.register).high = true := by cases i.register <;> rfl
  have hleft (r : Reg) : ((homes.register i.register).high || r.high) = true := by simp [hhigh]
  have hright (r : Reg) : (r.high || (homes.register i.register).high) = true := by simp [hhigh]
  have hhead (op : Op Instr Cond) (ops : List (Op Instr Cond))
      (h : 3 ≤ codegen.opSize op) : 3 ≤ codegen.totalSize (op :: ops) :=
    Nat.le_trans h (Nat.le_add_right _ _)
  change 3 ≤ codegen.totalSize (block L cached size pc i)
  unfold block
  cases i.opcode with
  | loadImmediate | addImmediate | subtractImmediate =>
    cases i.register <;> exact Nat.le_of_ble_eq_true rfl
  | loadMemory =>
    cases homes.cell? cached i.immediate with
    | none => exact Nat.le_of_ble_eq_true rfl
    | some c => exact hhead _ _ (Nat.le_of_eq (length_encodeRegs _ (hright c)).symm)
  | storeMemory =>
    cases homes.cell? cached i.immediate with
    | none => exact Nat.le_of_ble_eq_true rfl
    | some c => exact hhead _ _ (Nat.le_of_eq (length_encodeRegs _ (hleft c)).symm)
  | addMemory | subtractMemory =>
    cases homes.cell? cached i.immediate with
    | none => exact Nat.le_of_ble_eq_true rfl
    | some c => exact hhead _ _ (Nat.le_of_eq (length_encodeRegs _ (hright c)).symm)
  | print => exact Nat.le_of_ble_eq_true rfl
  | jumpIfNonZero =>
    cases Native.branchLabel? i pc size <;>
      exact hhead _ _ (Nat.le_of_eq (length_encodeRegs _ (hleft _)).symm)

theorem label_add_three_le (h : pc < code.length) :
    codegen.label L cached code pc + 3 ≤ codegen.label L cached code (pc + 1) := by
  rw [codegen.label_succ h]
  exact Nat.add_le_add_left (three_le_totalSize_block L cached code.length pc code[pc]) _

/-- A program is much shorter than its code. -/
theorem three_mul_length_le (L : Layout) (cached : Nat) (code : List Instruction) :
    3 * code.length ≤ (codegen.assemble L cached code).length :=
  codegen.mul_length_le (three_le_totalSize_block L cached)

/-! ### Every instruction can be read back -/

/-- The instruction, if it is one, can be read back. -/
def OpEncodable : Op Instr Cond → Prop
  | .instr i => i.Encodable
  | .branch _ _ => True

theorem opReadable_of_encodable {op : Op Instr Cond} (h : OpEncodable op) :
    codegen.OpReadable op := by
  cases op with
  | instr i => exact Instr.readable h
  | branch cond l => exact fun _ _ => Instr.readable trivial

theorem prologue_encodable : ∀ op ∈ prologue L, OpEncodable op := by
  simp [prologue, OpEncodable, Instr.Encodable]

theorem block_encodable : ∀ op ∈ block L cached size pc i, OpEncodable op := by
  have hrax : rax.low ≠ 4 := by decide
  have hrbp : rbp.low ≠ 4 := by decide
  unfold block
  cases i.opcode with
  | loadImmediate | addImmediate | subtractImmediate => simp [OpEncodable, Instr.Encodable]
  | loadMemory | storeMemory | addMemory | subtractMemory =>
    cases homes.cell? cached i.immediate <;> simp [OpEncodable, Instr.Encodable, hrbp]
  | print => simp [OpEncodable, Instr.Encodable]
  | jumpIfNonZero =>
    cases Native.branchLabel? i pc size <;> simp [OpEncodable, Instr.Encodable, hrax]

theorem epilogue_encodable : ∀ op ∈ epilogue L cached, OpEncodable op := by
  have hrax : rax.low ≠ 4 := by decide
  rw [epilogue, List.forall_mem_append, List.forall_mem_append]
  refine ⟨⟨?_, fun op hop => ?_⟩, ?_⟩
  · simp [OpEncodable, Instr.Encodable, hrax]
  · obtain ⟨cell, _, rfl⟩ := List.mem_map.mp hop
    exact (by decide : rbp.low ≠ 4)
  · simp [OpEncodable, Instr.Encodable]

theorem legible : codegen.Legible :=
  .of_ops (fun _ op hop => opReadable_of_encodable (prologue_encodable op hop))
    (fun _ _ _ _ _ op hop => opReadable_of_encodable (block_encodable op hop))
    (fun _ _ op hop => opReadable_of_encodable (epilogue_encodable op hop))

/-! ### Branches -/

/-- A branch that ends at `stop` leads to its label, if all of the code is within reach. -/
theorem add_signedWord_wordOfInt {l stop : Nat}
    (hsize : (codegen.assemble L cached code).length < 0x80000000) (hl : l ≤ code.length)
    (hstop : stop ≤ (codegen.assemble L cached code).length) :
    (stop : Int) + signedWord (wordOfInt (codegen.label L cached code l - stop)) =
      codegen.label L cached code l := by
  have hle : codegen.label L cached code l ≤ (codegen.assemble L cached code).length :=
    codegen.label_le hl
  exact add_signedWord_sub (by omega) (by omega)

theorem block_of_inRange (h : i.opcode = .jumpIfNonZero)
    (hin : Execution.InRange (i.branchTarget pc) size) :
    block L cached size pc i =
      [.instr (.test (homes.register i.register) (homes.register i.register)),
        .branch .nonZero (i.branchTarget pc).toNat] := by
  rw [block, h]
  simp only [Native.branchLabel?_eq_some hin.1 hin.2]

theorem block_of_outOfRange (h : i.opcode = .jumpIfNonZero)
    (hout : ¬ Execution.InRange (i.branchTarget pc) size) :
    block L cached size pc i =
      [.instr (.test (homes.register i.register) (homes.register i.register)),
        .branch .zero (pc + 1),
        .instr (.movAddress rax L.frame),
        .instr (.storeImm rax Layout.frameFaultPc (wordOfInt (pc + 1))),
        .instr (.storeImm rax Layout.frameFaultTarget (wordOfInt (i.branchTarget pc))),
        .branch .always size] := by
  rw [block, h]
  simp only [Native.branchLabel?_eq_none hout]

theorem blockInstrs_of_inRange (L : Layout) (cached : Nat) (h : pc < code.length)
    (hop : code[pc].opcode = .jumpIfNonZero)
    (hin : Execution.InRange (code[pc].branchTarget pc) code.length) :
    codegen.blockInstrs L cached code pc code[pc] =
      [.test (homes.register code[pc].register) (homes.register code[pc].register),
        .jump .nonZero (wordOfInt
          (codegen.label L cached code (code[pc].branchTarget pc).toNat -
            codegen.label L cached code (pc + 1)))] := by
  have hblock : codegen.block L cached code.length pc code[pc] = _ := block_of_inRange hop hin
  rw [codegen.label_succ h, Generator.blockInstrs, hblock]
  simp only [Generator.linkAll, Generator.link, Generator.totalSize, Nat.add_zero,
    Int.natCast_add]
  rfl

/-- The position after the test and the branch of a block that may leave the program. -/
def skipEnd (L : Layout) (cached : Nat) (code : List Instruction) (pc : Nat) (r : Register) : Nat :=
  codegen.label L cached code pc +
    codeSize [Instr.test (homes.register r) (homes.register r), .jump .zero 0]

theorem skipEnd_eq (pc : Nat) (r : Register) (rel : UInt32) :
    codegen.label L cached code pc +
      codeSize [Instr.test (homes.register r) (homes.register r), .jump .zero rel] =
        skipEnd L cached code pc r := rfl

theorem blockInstrs_of_outOfRange (L : Layout) (cached : Nat) (h : pc < code.length)
    (hop : code[pc].opcode = .jumpIfNonZero)
    (hout : ¬ Execution.InRange (code[pc].branchTarget pc) code.length) :
    codegen.blockInstrs L cached code pc code[pc] =
      [.test (homes.register code[pc].register) (homes.register code[pc].register),
        .jump .zero (wordOfInt
          (codegen.label L cached code (pc + 1) - skipEnd L cached code pc code[pc].register)),
        .movAddress rax L.frame,
        .storeImm rax Layout.frameFaultPc (wordOfInt (pc + 1)),
        .storeImm rax Layout.frameFaultTarget (wordOfInt (code[pc].branchTarget pc)),
        .jump .always (wordOfInt
          (codegen.label L cached code code.length - codegen.label L cached code (pc + 1)))] := by
  have hblock : codegen.block L cached code.length pc code[pc] = _ := block_of_outOfRange hop hout
  rw [codegen.label_succ h, Generator.blockInstrs, hblock]
  simp only [Generator.linkAll, Generator.link, Generator.totalSize, Nat.add_zero,
    codegen.label_succ h, hblock, skipEnd, Int.natCast_add]
  rfl

theorem skipEnd_le_label (h : pc < code.length) (hop : code[pc].opcode = .jumpIfNonZero)
    (hout : ¬ Execution.InRange (code[pc].branchTarget pc) code.length) :
    skipEnd L cached code pc code[pc].register ≤ codegen.label L cached code (pc + 1) := by
  rw [← codegen.label_add_codeSize L cached h, blockInstrs_of_outOfRange L cached h hop hout,
    skipEnd]
  exact Nat.add_le_add_left (Nat.add_le_add_left (Nat.le_add_right _ _) _) _

theorem skipEnd_le (h : pc < code.length) (hop : code[pc].opcode = .jumpIfNonZero)
    (hout : ¬ Execution.InRange (code[pc].branchTarget pc) code.length) :
    skipEnd L cached code pc code[pc].register ≤ (codegen.assemble L cached code).length :=
  Nat.le_trans (skipEnd_le_label h hop hout) (codegen.label_le h)

/-! ### The whole stream -/

/-- The prologue saves six registers and eight bytes more, clears A, B and the cached cells, and
loads the address of the cells. -/
def IntendedPrologue (L : Layout) (is : List Instr) : Prop :=
  is = [.push rbx, .push rbp, .push r12, .push r13, .push r14, .push r15, .adjust .sub rsp 8,
    .xor r12 r12, .xor r13 r13, .xor r14 r14, .xor r15 r15, .xor rbx rbx,
    .movAddress rbp L.memory]

/-- The epilogue hands back A, B and the cached cells, each at its own displacement, and restores
the registers in reverse. -/
def IntendedEpilogue (L : Layout) (cached : Nat) (is : List Instr) : Prop :=
  is = [.movAddress rax L.frame, .store rax 0 r12, .store rax 4 r13] ++
    ([.store rbp 0 r14, .store rbp 4 r15, .store rbp 8 rbx] : List Instr).take cached ++
    [.adjust .add rsp 8, .pop r15, .pop r14, .pop r13, .pop r12, .pop rbp, .pop rbx, .ret]

/-- The instruction for an operand that is a cell: one for its register if it is cached, or else one
for its displacement from the first cell. -/
def cellInstr (cached : Nat) (cell : UInt16) (held : Reg → Instr) (stored : UInt32 → Instr) :
    Instr :=
  if cell.toNat < cached then held (if cell = 0 then r14 else if cell = 1 then r15 else rbx)
  else stored (4 * cell.toUInt32)

/-- What the block of `i` at `pc` has to be, if blocks start as `start` says. A branch that stays in
the program leads to its target; one that would leave it is recorded in the third and fourth field
of the frame and leads to the epilogue, unless it is not taken, which leads past the block. -/
def Intended (L : Layout) (cached size : Nat) (start : Nat → Nat) (pc : Nat) (i : Instruction)
    (is : List Instr) : Prop :=
  let r := if i.register = .a then r12 else r13
  let stop : Nat := start pc + codeSize is
  match i.opcode with
  | .loadImmediate => is = [.movImm r i.immediate.toUInt32]
  | .addImmediate => is = [.aluImm .add r i.immediate.toUInt32]
  | .subtractImmediate => is = [.aluImm .sub r i.immediate.toUInt32]
  | .loadMemory =>
    is = [cellInstr cached i.immediate (fun c => .mov r c) (fun disp => .load r rbp disp)]
  | .storeMemory =>
    is = [cellInstr cached i.immediate (fun c => .mov c r) (fun disp => .store rbp disp r)]
  | .addMemory =>
    is = [cellInstr cached i.immediate (fun c => .alu .add r c)
      (fun disp => .aluMem .add r rbp disp)]
  | .subtractMemory =>
    is = [cellInstr cached i.immediate (fun c => .alu .sub r c)
      (fun disp => .aluMem .sub r rbp disp)]
  | .print =>
    is = [.movAddress rdi L.frame, .movImm rsi (if i.register = .a then 0 else 1), .mov rdx r,
      .movAddress rax L.print, .call rax]
  | .jumpIfNonZero =>
    if Execution.InRange (i.branchTarget pc) size then
      ∃ rel, is = [.test r r, .jump .nonZero rel] ∧
        stop + signedWord rel = start (i.branchTarget pc).toNat
    else
      ∃ skip exit,
        is = [.test r r, .jump .zero skip, .movAddress rax L.frame,
          .storeImm rax 8 (wordOfInt (pc + 1)), .storeImm rax 12 (wordOfInt (i.branchTarget pc)),
          .jump .always exit] ∧
        (start pc + codeSize [Instr.test r r, .jump .zero skip] : Nat) + signedWord skip = stop ∧
        stop + signedWord exit = start size

theorem intendedPrologue : IntendedPrologue L (codegen.prologueInstrs L cached code) := rfl

theorem intendedEpilogue (hc : cached ≤ 3) :
    IntendedEpilogue L cached (codegen.epilogueInstrs L cached code) := by
  match cached, hc with
  | 0, _ | 1, _ | 2, _ | 3, _ => rfl

theorem register_eq (r : Register) : homes.register r = if r = .a then r12 else r13 := by
  cases r <;> rfl

theorem ofNat_index (r : Register) : UInt32.ofNat r.index = if r = .a then 0 else 1 := by
  cases r <;> rfl

theorem cell_toNat {cell : UInt16} (h : cell.toNat < 3) :
    homes.cell cell.toNat = if cell = 0 then r14 else if cell = 1 then r15 else rbx := by
  obtain ⟨n, hn, rfl⟩ : ∃ n < 3, cell = UInt16.ofNat n :=
    ⟨cell.toNat, h, UInt16.ofNat_toNat.symm⟩
  match n, hn with
  | 0, _ | 1, _ | 2, _ => rfl

/-- Every block is as intended, if the labels are the starts of blocks. -/
theorem intended_blockInstrs (hc : cached ≤ 3)
    (hsize : (codegen.assemble L cached code).length < 0x80000000) {start : Nat → Nat}
    (hstart : ∀ l ≤ code.length, start l = codegen.label L cached code l) (h : pc < code.length) :
    Intended L cached code.length start pc code[pc]
      (codegen.blockInstrs L cached code pc code[pc]) := by
  have straight : ∀ {is : List Instr}, block L cached code.length pc code[pc] = is.map .instr →
      codegen.blockInstrs L cached code pc code[pc] = is := codegen.blockInstrs_of_straight
  have hle : codegen.label L cached code (pc + 1) ≤ (codegen.assemble L cached code).length :=
    codegen.label_le h
  have hr : ∀ r, homes.register r = if r = .a then r12 else r13 := register_eq
  unfold Intended
  simp only [hstart pc (Nat.le_of_lt h), hstart _ (Nat.le_refl _),
    codegen.label_add_codeSize L cached h, ← hr]
  unfold block at straight
  cases hop : code[pc].opcode with
  | loadImmediate | addImmediate | subtractImmediate =>
    rw [hop] at straight
    exact straight rfl
  | loadMemory | storeMemory | addMemory | subtractMemory =>
    rw [hop] at straight
    apply straight
    by_cases cell : code[pc].immediate.toNat < cached
    · simp only [homes.cell?_of_lt cell, cellInstr, if_pos cell,
        cell_toNat (Nat.lt_of_lt_of_le cell hc)]
      rfl
    · simp only [homes.cell?_of_le (Nat.not_lt.mp cell), cellInstr, if_neg cell]
      rfl
  | print =>
    rw [hop] at straight
    dsimp only
    rw [← ofNat_index]
    exact straight rfl
  | jumpIfNonZero =>
    by_cases hin : Execution.InRange (code[pc].branchTarget pc) code.length
    · have htarget : (code[pc].branchTarget pc).toNat ≤ code.length := by
        have := hin.2
        omega
      rw [if_pos hin, hstart _ htarget]
      exact ⟨_, blockInstrs_of_inRange L cached h hop hin,
        add_signedWord_wordOfInt hsize htarget hle⟩
    · rw [if_neg hin]
      refine ⟨_, _, blockInstrs_of_outOfRange L cached h hop hin, ?_,
        add_signedWord_wordOfInt hsize (Nat.le_refl _) hle⟩
      rw [skipEnd_eq]
      exact add_signedWord_wordOfInt hsize h (skipEnd_le h hop hin)

/-- The bytes of a routine parse as its prologue, one block for each instruction and its epilogue,
to the last byte, each as intended. -/
theorem parse_assemble (L : Layout) {cached : Nat} (hc : cached ≤ 3) (code : List Instruction)
    (hsize : (codegen.assemble L cached code).length < 0x80000000) :
    ∃ P : Parts Instr,
      Native.parse (codegen.assemble L cached code) = some P.all ∧
      IntendedPrologue L P.prologue ∧
      P.blocks.length = code.length ∧
      (∀ pc (h : pc < code.length) (h' : pc < P.blocks.length),
        Intended L cached code.length P.start pc code[pc] P.blocks[pc]) ∧
      IntendedEpilogue L cached P.epilogue := by
  refine ⟨codegen.parts L cached code, ?_, intendedPrologue, codegen.length_blocks_parts,
    fun pc h h' => ?_, intendedEpilogue hc⟩
  · rw [codegen.all_parts]
    exact Generator.parse_assemble_eq legible L cached code
  · rw [codegen.getElem_blocks_parts h]
    exact intended_blockInstrs hc hsize (fun l hl => codegen.start_parts hl) h

/-- A program with a branch of each kind, the last one out of the program. -/
theorem parse_assemble_strayProgram :
    ∃ P : Parts Instr,
      Native.parse (codegen.assemble ⟨0x10000000, 0x20000000, 0x30000000⟩ 2 Native.strayProgram) =
        some P.all ∧
      IntendedPrologue ⟨0x10000000, 0x20000000, 0x30000000⟩ P.prologue ∧
      P.blocks.length = 5 ∧
      (∀ h : 4 < P.blocks.length,
        Intended ⟨0x10000000, 0x20000000, 0x30000000⟩ 2 5 P.start 4 ⟨.jumpIfNonZero, .a, 7⟩
          P.blocks[4]) ∧
      IntendedEpilogue ⟨0x10000000, 0x20000000, 0x30000000⟩ 2 P.epilogue := by
  obtain ⟨P, hparse, hprologue, hblocks, hintended, hepilogue⟩ :=
    parse_assemble ⟨0x10000000, 0x20000000, 0x30000000⟩ (show 2 ≤ 3 by decide)
      Native.strayProgram (by decide +kernel)
  exact ⟨P, hparse, hprologue, hblocks, fun h => hintended 4 (by decide) h, hepilogue⟩

end Codegen

end Dyad.X64
