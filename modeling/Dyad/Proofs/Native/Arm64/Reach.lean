import Dyad.Proofs.Native.Arm64.Stream

/-!
How far branches reach in an ARM64 routine. A block has at most eight words and a jump of the
program spans at most 32768 blocks, so a branch to a target in the program always fits its field,
and so does the branch at the start of the block, which skips the rest of it. Only the way from a
jump that leaves the program to the epilogue grows with the program (`distancesFit`).
-/

namespace Dyad.Arm64

/-- The instruction holds a distance. -/
def Instr.relative : Instr → Bool
  | .branchIfZero _ _ | .branch _ => true
  | _ => false

open Native (Generator)

namespace Codegen

variable {L : Layout} {cached : Nat} {code : List Instruction} {pc : Nat}

/-! ### All branches -/

/-- Instruction `i` of a routine stands at `position`. -/
def Stands (L : Layout) (cached : Nat) (code : List Instruction) (position : Nat) (i : Instr) :
    Prop :=
  (position, i) ∈ Native.placed 0 (codegen.instrs L cached code)

theorem any_relative_prologueInstrs :
    (codegen.prologueInstrs L cached code).any Instr.relative = false := rfl

theorem any_relative_epilogueInstrs :
    (codegen.epilogueInstrs L cached code).any Instr.relative = false := by
  have hcells : min cached maxCachedCells ≤ 3 := Nat.min_le_right _ _
  rw [Generator.epilogueInstrs]
  change (codegen.linkAll _ _ (epilogue L cached)).any Instr.relative = false
  rw [epilogue, writeBack]
  generalize min cached maxCachedCells = cells at hcells
  match cells, hcells with
  | 0, _ | 1, _ | 2, _ | 3, _ => rfl

theorem any_relative_blockInstrs {i : Instruction} (hop : i.opcode ≠ .jumpIfNonZero) :
    (codegen.blockInstrs L cached code pc i).any Instr.relative = false := by
  change (codegen.linkAll _ _ (block L cached code.length pc i)).any Instr.relative = false
  unfold block
  cases hcase : i.opcode with
  | loadImmediate | addImmediate | subtractImmediate | print => rfl
  | loadMemory | storeMemory => cases homes.cell? cached i.immediate <;> rfl
  | addMemory | subtractMemory =>
    unfold aluCell
    cases homes.cell? cached i.immediate <;> rfl
  | jumpIfNonZero => exact absurd hcase hop

/-- Only the blocks of instructions that jump have branches. -/
theorem Stands.mem_block {position : Nat} {i : Instr} (hi : i.relative = true)
    (hs : Stands L cached code position i) :
    ∃ pc, ∃ h : pc < code.length, code[pc].opcode = .jumpIfNonZero ∧
      (position, i) ∈ Native.placed (codegen.label L cached code pc)
        (codegen.blockInstrs L cached code pc code[pc]) := by
  have absent {start : Nat} {is : List Instr} (h : is.any Instr.relative = false) :
      (position, i) ∉ Native.placed start is := fun hmem =>
    List.any_eq_false.mp h i (Native.mem_of_mem_placed hmem) hi
  rcases codegen.mem_placed_instrs.mp hs with hmem | ⟨pc, h, hmem⟩ | hmem
  · exact absurd hmem (absent any_relative_prologueInstrs)
  · have hop := Decidable.byContradiction fun hop =>
      absent (any_relative_blockInstrs hop) hmem
    exact ⟨pc, h, hop, hmem⟩
  · exact absurd hmem (absent any_relative_epilogueInstrs)

theorem stands_of_mem_block {position : Nat} {i : Instr} (h : pc < code.length)
    (hmem : (position, i) ∈ Native.placed (codegen.label L cached code pc)
      (codegen.blockInstrs L cached code pc code[pc])) : Stands L cached code position i :=
  codegen.mem_placed_instrs.mpr (.inr (.inl ⟨pc, h, hmem⟩))

/-- A jump that stays in the program: the second branch leads to the target. -/
theorem placed_block_of_inRange (L : Layout) (cached : Nat) (h : pc < code.length)
    (hop : code[pc].opcode = .jumpIfNonZero)
    (hin : Execution.InRange (code[pc].branchTarget pc) code.length) :
    ∃ near far,
      Native.placed (codegen.label L cached code pc)
          (codegen.blockInstrs L cached code pc code[pc]) =
        [(codegen.label L cached code pc, .branchIfZero (homes.register code[pc].register) near),
          (codegen.label L cached code pc + 4, .branch far)] ∧
      (codegen.label L cached code pc : Int) + 4 * near.toInt =
        codegen.label L cached code (pc + 1) ∧
      ((codegen.label L cached code pc + 4 : Nat) : Int) + 4 * far.toInt =
        codegen.label L cached code (code[pc].branchTarget pc).toNat := by
  obtain ⟨near, far, hinstrs, hnear, hfar⟩ :
      ∃ near far, codegen.blockInstrs L cached code pc code[pc] = _ ∧ _ :=
    blockInstrs_of_inRange L cached h hop hin
  exact ⟨near, far, by rw [hinstrs]; rfl, hnear, hfar⟩

/-- One that would leave the program: the second branch comes after what is recorded, and ends the
block. -/
theorem placed_block_of_outOfRange (L : Layout) (cached : Nat) (h : pc < code.length)
    (hop : code[pc].opcode = .jumpIfNonZero)
    (hout : ¬ Execution.InRange (code[pc].branchTarget pc) code.length) :
    ∃ near stub,
      Native.placed (codegen.label L cached code pc)
          (codegen.blockInstrs L cached code pc code[pc]) =
        (codegen.label L cached code pc, .branchIfZero (homes.register code[pc].register) near) ::
          (stub ++ [(codegen.label L cached code pc + 28, .branch (exitField L cached code pc))]) ∧
      (∀ x ∈ stub, x.2.relative = false) ∧
      (codegen.label L cached code pc : Int) + 4 * near.toInt =
        codegen.label L cached code (pc + 1) ∧
      codegen.label L cached code pc + 32 = codegen.label L cached code (pc + 1) := by
  obtain ⟨near, hinstrs, hnear⟩ : ∃ near, codegen.blockInstrs L cached code pc code[pc] = _ ∧ _ :=
    blockInstrs_of_outOfRange L cached h hop hout
  refine ⟨near, Native.placed (codegen.label L cached code pc + 4)
    (faultStub pc (code[pc].branchTarget pc)), ?_, fun x hx => ?_, hnear, ?_⟩
  · rw [hinstrs]
    rfl
  · have hnone : (faultStub pc (code[pc].branchTarget pc)).any Instr.relative = false := rfl
    exact Bool.eq_false_iff.mpr (List.any_eq_false.mp hnone _ (Native.mem_of_mem_placed hx))
  · rw [label_succ h, hinstrs]
    rfl

section

variable {position : Nat} {r : Reg}

/-- A branch that depends on a register starts its block and leads to the next one. -/
theorem skip_of_mem_block (h : pc < code.length) (hop : code[pc].opcode = .jumpIfNonZero)
    {near : BitVec 19}
    (hmem : (position, .branchIfZero r near) ∈ Native.placed (codegen.label L cached code pc)
      (codegen.blockInstrs L cached code pc code[pc])) :
    position = codegen.label L cached code pc ∧
      (codegen.label L cached code pc : Int) + 4 * near.toInt =
        codegen.label L cached code (pc + 1) := by
  by_cases hin : Execution.InRange (code[pc].branchTarget pc) code.length
  · obtain ⟨near, far, hblock, hnear, -⟩ := placed_block_of_inRange L cached h hop hin
    rw [hblock, List.mem_cons, List.mem_singleton] at hmem
    rcases hmem with heq | heq
    · cases heq
      exact ⟨rfl, hnear⟩
    · cases heq
  · obtain ⟨near, stub, hblock, hstub, hnear, -⟩ := placed_block_of_outOfRange L cached h hop hin
    rw [hblock, List.mem_cons, List.mem_append, List.mem_singleton] at hmem
    rcases hmem with heq | hmem | heq
    · cases heq
      exact ⟨rfl, hnear⟩
    · cases hstub _ hmem
    · cases heq

theorem branch_of_mem_inRange (h : pc < code.length) (hop : code[pc].opcode = .jumpIfNonZero)
    (hin : Execution.InRange (code[pc].branchTarget pc) code.length) {far : BitVec 26}
    (hmem : (position, .branch far) ∈ Native.placed (codegen.label L cached code pc)
      (codegen.blockInstrs L cached code pc code[pc])) :
    position = codegen.label L cached code pc + 4 ∧
      ((codegen.label L cached code pc + 4 : Nat) : Int) + 4 * far.toInt =
        codegen.label L cached code (code[pc].branchTarget pc).toNat := by
  obtain ⟨near, far, hblock, -, hfar⟩ := placed_block_of_inRange L cached h hop hin
  rw [hblock, List.mem_cons, List.mem_singleton] at hmem
  rcases hmem with heq | heq
  · cases heq
  · cases heq
    exact ⟨rfl, hfar⟩

theorem branch_of_mem_outOfRange (h : pc < code.length)
    (hop : code[pc].opcode = .jumpIfNonZero)
    (hout : ¬ Execution.InRange (code[pc].branchTarget pc) code.length) {far : BitVec 26}
    (hmem : (position, .branch far) ∈ Native.placed (codegen.label L cached code pc)
      (codegen.blockInstrs L cached code pc code[pc])) :
    position = codegen.label L cached code pc + 28 := by
  obtain ⟨near, stub, hblock, hstub, -⟩ := placed_block_of_outOfRange L cached h hop hout
  rw [hblock, List.mem_cons, List.mem_append, List.mem_singleton] at hmem
  rcases hmem with heq | hmem | heq
  · cases heq
  · cases hstub _ hmem
  · cases heq
    rfl

end

/-! ### Distances and their fields -/

/-- The distance is a whole number of words, for which a signed field of `n` bits has room, and the
field holds it. -/
def Carries {n : Nat} (field : BitVec n) (distance : Int) : Prop :=
  4 ∣ distance ∧ (BitVec.intMin n).toInt ≤ distance / 4 ∧
    distance / 4 ≤ (BitVec.intMax n).toInt ∧ field.toInt = distance / 4

theorem carries_of_eq {n : Nat} {field : BitVec n} {start stop : Int}
    (h : start + 4 * field.toInt = stop) : Carries field (stop - start) := by
  have hwords : (stop - start) / 4 = field.toInt := by omega
  have hhi : field.toInt ≤ (BitVec.intMax n).toInt := by
    rw [BitVec.toInt_intMax]
    exact Int.le_sub_one_of_lt BitVec.toInt_lt
  rw [Carries, hwords]
  exact ⟨⟨field.toInt, by omega⟩, BitVec.toInt_intMin_le field, hhi, rfl⟩

/-- Every branch of a routine has room for its distance. Only the branches of jumps that leave the
program need the routine to be short enough for that. -/
structure DistancesFit (L : Layout) (cached : Nat) (code : List Instruction) : Prop where
  /-- What the bytes are read as. -/
  parsed : Native.parse (codegen.assemble L cached code) = some (codegen.instrs L cached code)
  /-- From a label on come the blocks from there on, and the epilogue. -/
  starts : ∀ l ≤ code.length,
    (codegen.assemble L cached code).drop (codegen.label L cached code l) =
      (codegen.instrsFrom L cached code l).flatMap Native.InstructionSet.encode
  /-- A jump that stays in the program has a branch that carries the distance to the block of its
  target. -/
  within : ∀ pc (h : pc < code.length), code[pc].opcode = .jumpIfNonZero →
    Execution.InRange (code[pc].branchTarget pc) code.length →
    ∃ far, Stands L cached code (codegen.label L cached code pc + 4) (.branch far) ∧
      Carries far (codegen.label L cached code (code[pc].branchTarget pc).toNat -
        (codegen.label L cached code pc + 4 : Nat))
  /-- Every jump starts with a branch that skips its block. -/
  past : ∀ pc (h : pc < code.length), code[pc].opcode = .jumpIfNonZero →
    ∃ near, Stands L cached code (codegen.label L cached code pc)
        (.branchIfZero (homes.register code[pc].register) near) ∧
      Carries near (codegen.label L cached code (pc + 1) - codegen.label L cached code pc)
  /-- No other branch depends on a register. -/
  skips : ∀ position r near, Stands L cached code position (.branchIfZero r near) →
    ∃ pc, ∃ h : pc < code.length, code[pc].opcode = .jumpIfNonZero ∧
      position = codegen.label L cached code pc ∧
      codegen.label L cached code (pc + 1) ≤ codegen.label L cached code pc + 32 ∧
      Carries near (codegen.label L cached code (pc + 1) - codegen.label L cached code pc)
  /-- If a jump would leave the program, the way to the epilogue grows with the number of
  instructions in between, and fits if the routine is short enough. -/
  out : ∀ pc (h : pc < code.length), code[pc].opcode = .jumpIfNonZero →
    ¬ Execution.InRange (code[pc].branchTarget pc) code.length →
    codegen.label L cached code pc + 28 + 4 * (code.length - pc) ≤
      codegen.label L cached code code.length ∧
    ∃ far, Stands L cached code (codegen.label L cached code pc + 28) (.branch far) ∧
      ((codegen.assemble L cached code).length < 0x8000000 →
        Carries far (codegen.label L cached code code.length -
          (codegen.label L cached code pc + 28 : Nat)))
  /-- Every branch but these is short, however long the program is, and carries the distance to a
  block. -/
  near_or_out : ∀ position far, Stands L cached code position (.branch far) →
    (∃ l ≤ code.length, ((codegen.label L cached code l : Int) - position).natAbs ≤ 32 * 0x8001 ∧
      Carries far (codegen.label L cached code l - position)) ∨
    ∃ pc, ∃ h : pc < code.length, code[pc].opcode = .jumpIfNonZero ∧
      ¬ Execution.InRange (code[pc].branchTarget pc) code.length ∧
      position = codegen.label L cached code pc + 28

theorem distancesFit (L : Layout) (cached : Nat) (code : List Instruction) :
    DistancesFit L cached code where
  parsed := Generator.parse_assemble_eq legible L cached code
  starts l hl := codegen.drop_label hl
  within pc h hop hin := by
    obtain ⟨near, far, hblock, -, hfar⟩ := placed_block_of_inRange L cached h hop hin
    refine ⟨far, stands_of_mem_block h ?_, carries_of_eq hfar⟩
    rw [hblock]
    exact .tail _ (.head _)
  past pc h hop := by
    by_cases hin : Execution.InRange (code[pc].branchTarget pc) code.length
    · obtain ⟨near, far, hblock, hnear, -⟩ := placed_block_of_inRange L cached h hop hin
      exact ⟨near, stands_of_mem_block h (hblock ▸ List.mem_cons_self), carries_of_eq hnear⟩
    · obtain ⟨near, stub, hblock, -, hnear, -⟩ := placed_block_of_outOfRange L cached h hop hin
      exact ⟨near, stands_of_mem_block h (hblock ▸ List.mem_cons_self), carries_of_eq hnear⟩
  skips position r near hs := by
    obtain ⟨pc, h, hop, hmem⟩ := hs.mem_block rfl
    obtain ⟨rfl, hnear⟩ := skip_of_mem_block h hop hmem
    exact ⟨pc, h, hop, rfl, label_succ_le h, carries_of_eq hnear⟩
  out pc h hop hout := by
    obtain ⟨near, stub, hblock, -, -, hnext⟩ := placed_block_of_outOfRange L cached h hop hout
    have hfar : codegen.label L cached code (pc + 1) + 4 * (code.length - (pc + 1)) ≤
        codegen.label L cached code code.length :=
      Native.add_le_start (fun l hl => label_add_four_le hl) h (Nat.le_refl _)
    have hend : codegen.label L cached code code.length ≤ (codegen.assemble L cached code).length :=
      codegen.label_le (Nat.le_refl _)
    have hdvd : 4 ∣ codegen.label L cached code pc := four_dvd_label (Nat.le_of_lt h)
    refine ⟨by omega, exitField L cached code pc, stands_of_mem_block h ?_, fun hsize => ?_⟩
    · rw [hblock]
      exact .tail _ (List.mem_append_right _ List.mem_cons_self)
    · exact carries_of_eq (branch_reaches (Nat.le_refl _) (by omega) (by omega) (by omega))
  near_or_out position far hs := by
    obtain ⟨pc, h, hop, hmem⟩ := hs.mem_block rfl
    by_cases hin : Execution.InRange (code[pc].branchTarget pc) code.length
    · obtain ⟨rfl, hfar⟩ := branch_of_mem_inRange h hop hin hmem
      have hnear := target_near L cached h hin
      have hlo : codegen.label L cached code pc + 4 ≤ codegen.label L cached code (pc + 1) :=
        label_add_four_le h
      have hhi : codegen.label L cached code (pc + 1) ≤ codegen.label L cached code pc + 32 :=
        label_succ_le h
      exact .inl ⟨_, by have := hin.2; omega, by omega, carries_of_eq hfar⟩
    · exact .inr ⟨pc, h, hop, hin, branch_of_mem_outOfRange h hop hin hmem⟩

end Codegen

end Dyad.Arm64
