import Dyad.Proofs.Native.X64.Placement

/-!
How far branches reach in an x86-64 routine. Blocks are short, and a branch of the program spans
at most 32768 of them, so the distance of a branch that stays in the program always fits its field,
however long the routine is (`branch_reaches`); so does that of a branch over the rest of its own
block (`skip_reaches`). Only the way from a branch that leaves the program to the epilogue grows
with the program (`ExitsReach`). That goes for all branches in the bytes of a routine
(`distancesFit`), since these are the branches of the blocks of jumps (`branchEnds_instrs_iff`).
-/

namespace Dyad.X64

open Native (Generator Op add_signedWord_sub codeSize_cons codeSize_nil wordOfInt)

namespace Codegen

variable {L : Layout} {cached pc : Nat} {code : List Instruction}

theorem totalSize_le (ops : List (Op Instr Cond)) : codegen.totalSize ops ≤ 11 * ops.length := by
  induction ops with
  | nil => exact Nat.le_refl 0
  | cons op ops ih =>
    have hop : codegen.opSize op ≤ 11 := by
      rw [← codegen.size_link (fun _ => 0) 0 op]
      exact Instr.size_le _
    rw [Generator.totalSize, List.length_cons]
    omega

theorem length_block_le (L : Layout) (cached size pc : Nat) (i : Instruction) :
    (codegen.block L cached size pc i).length ≤ 6 := by
  change (block L cached size pc i).length ≤ 6
  unfold block
  cases i.opcode with
  | loadImmediate | addImmediate | subtractImmediate | print => exact Nat.le_of_ble_eq_true rfl
  | loadMemory | storeMemory | addMemory | subtractMemory =>
    cases homes.cell? cached i.immediate <;> exact Nat.le_of_ble_eq_true rfl
  | jumpIfNonZero => cases Native.branchLabel? i pc size <;> exact Nat.le_of_ble_eq_true rfl

theorem totalSize_block_le (L : Layout) (cached size pc : Nat) (i : Instruction) :
    codegen.totalSize (codegen.block L cached size pc i) ≤ 66 :=
  Nat.le_trans (totalSize_le _) (Nat.mul_le_mul_left 11 (length_block_le L cached size pc i))

theorem label_succ_le (h : pc < code.length) :
    codegen.label L cached code (pc + 1) ≤ codegen.label L cached code pc + 66 :=
  codegen.label_succ_le (totalSize_block_le L cached) h

/-- Blocks are short, so the target of a branch that stays in the program is near, however long the
routine is. -/
theorem target_near (L : Layout) (cached : Nat) (h : pc < code.length) {i : Instruction}
    (hin : Execution.InRange (i.branchTarget pc) code.length) :
    ((codegen.label L cached code (i.branchTarget pc).toNat : Int) -
      codegen.label L cached code (pc + 1)).natAbs ≤ 66 * 0x8000 :=
  codegen.target_near (totalSize_block_le L cached) h hin

/-- A branch that stays in the program leads to its target. -/
theorem branch_reaches (L : Layout) (cached : Nat) (h : pc < code.length) {i : Instruction}
    (hin : Execution.InRange (i.branchTarget pc) code.length) :
    (codegen.label L cached code (pc + 1) : Int) + signedWord (wordOfInt
      (codegen.label L cached code (i.branchTarget pc).toNat -
        codegen.label L cached code (pc + 1))) =
        codegen.label L cached code (i.branchTarget pc).toNat := by
  have hnear := target_near L cached h hin
  exact add_signedWord_sub (by omega) (by omega)

theorem skip_near (L : Layout) (cached : Nat) (h : pc < code.length)
    (hop : code[pc].opcode = .jumpIfNonZero)
    (hout : ¬ Execution.InRange (code[pc].branchTarget pc) code.length) :
    ((codegen.label L cached code (pc + 1) : Int) -
      skipEnd L cached code pc code[pc].register).natAbs ≤ 66 := by
  have hblock : codegen.label L cached code (pc + 1) ≤ codegen.label L cached code pc + 66 :=
    label_succ_le h
  have hskip : codegen.label L cached code pc ≤ skipEnd L cached code pc code[pc].register :=
    Nat.le_add_right _ _
  have hrest : skipEnd L cached code pc code[pc].register ≤ codegen.label L cached code (pc + 1) :=
    skipEnd_le_label h hop hout
  omega

/-- The test of a branch that may leave the program leads past the rest of the block. -/
theorem skip_reaches (L : Layout) (cached : Nat) (h : pc < code.length)
    (hop : code[pc].opcode = .jumpIfNonZero)
    (hout : ¬ Execution.InRange (code[pc].branchTarget pc) code.length) :
    (skipEnd L cached code pc code[pc].register : Int) + signedWord (wordOfInt
      (codegen.label L cached code (pc + 1) - skipEnd L cached code pc code[pc].register)) =
        codegen.label L cached code (pc + 1) := by
  have hnear := skip_near L cached h hop hout
  exact add_signedWord_sub (by omega) (by omega)

/-- Every branch that leaves the program is within reach of the epilogue. -/
def ExitsReach (L : Layout) (cached : Nat) (code : List Instruction) : Prop :=
  ∀ pc, (h : pc < code.length) → code[pc].opcode = .jumpIfNonZero →
    ¬ Execution.InRange (code[pc].branchTarget pc) code.length →
      codegen.label L cached code code.length < codegen.label L cached code (pc + 1) + 0x80000000

theorem exitsReach_of_size (hsize : (codegen.assemble L cached code).length < 0x80000000) :
    ExitsReach L cached code := by
  intro pc _ _ _
  have hle : codegen.label L cached code code.length ≤ (codegen.assemble L cached code).length :=
    codegen.label_le (Nat.le_refl _)
  omega

theorem ExitsReach.reaches (hreach : ExitsReach L cached code) (h : pc < code.length)
    (hop : code[pc].opcode = .jumpIfNonZero)
    (hout : ¬ Execution.InRange (code[pc].branchTarget pc) code.length) :
    (codegen.label L cached code (pc + 1) : Int) + signedWord (wordOfInt
      (codegen.label L cached code code.length - codegen.label L cached code (pc + 1))) =
        codegen.label L cached code code.length := by
  have hle : codegen.label L cached code (pc + 1) ≤ codegen.label L cached code code.length :=
    Native.start_le_start (fun l hl => codegen.label_lt_succ hl) h (Nat.le_refl _)
  have hnear := hreach pc h hop hout
  exact add_signedWord_sub (by omega) (by omega)

/-! ### All branches -/

/-- Among instructions that stand one behind the other from `start` on, a branch ends at `stop`. The
distance in its field counts from there. -/
def BranchEnds (start : Nat) (is : List Instr) (stop : Nat) (cond : Cond) (rel : UInt32) : Prop :=
  ∃ position, (position, .jump cond rel) ∈ Native.placed start is ∧
    position + Native.size (Instr.jump cond rel) = stop

/-- Linked code has no branch if there is none in the piece. -/
theorem jump_not_mem_linkAll {label : Nat → Nat} {position : Nat} (ops : List (Op Instr Cond))
    (hinstr : ∀ cond rel, .instr (.jump cond rel) ∉ ops) (hbranch : ∀ b l, .branch b l ∉ ops)
    (cond : Cond) (rel : UInt32) : .jump cond rel ∉ codegen.linkAll label position ops := by
  intro h
  rcases codegen.mem_linkAll h with h | ⟨b, l, p, h, -⟩
  · exact hinstr cond rel h
  · exact hbranch b l h

theorem jump_not_mem_prologueInstrs (cond : Cond) (rel : UInt32) :
    .jump cond rel ∉ codegen.prologueInstrs L cached code :=
  jump_not_mem_linkAll (prologue L) (by simp [prologue]) (by simp [prologue]) cond rel

theorem jump_not_mem_epilogueInstrs (cond : Cond) (rel : UInt32) :
    .jump cond rel ∉ codegen.epilogueInstrs L cached code :=
  jump_not_mem_linkAll (epilogue L cached) (by simp [epilogue, writeBack])
    (by simp [epilogue, writeBack]) cond rel

/-- Only an instruction that jumps has branches in its block. -/
theorem opcode_of_jump_mem {i : Instruction} {cond : Cond} {rel : UInt32}
    (h : .jump cond rel ∈ codegen.blockInstrs L cached code pc i) : i.opcode = .jumpIfNonZero := by
  refine Decidable.byContradiction fun hne => ?_
  refine jump_not_mem_linkAll (block L cached code.length pc i) ?_ ?_ cond rel h
  all_goals
    unfold block
    cases hop : i.opcode with
    | jumpIfNonZero => exact absurd hop hne
    | loadImmediate | addImmediate | subtractImmediate | print => simp
    | loadMemory | storeMemory | addMemory | subtractMemory =>
      cases homes.cell? cached i.immediate <;> simp

section

variable {stop : Nat} {cond : Cond} {rel : UInt32}

/-- The branches of a routine are those in the blocks of instructions that jump. -/
theorem branchEnds_instrs_iff :
    BranchEnds 0 (codegen.instrs L cached code) stop cond rel ↔
      ∃ pc, ∃ h : pc < code.length, code[pc].opcode = .jumpIfNonZero ∧
        BranchEnds (codegen.label L cached code pc) (codegen.blockInstrs L cached code pc code[pc])
          stop cond rel := by
  constructor
  · rintro ⟨position, hmem, hstop⟩
    rcases codegen.mem_placed_instrs.mp hmem with hmem | ⟨pc, h, hmem⟩ | hmem
    · exact absurd (Native.mem_of_mem_placed hmem) (jump_not_mem_prologueInstrs cond rel)
    · exact ⟨pc, h, opcode_of_jump_mem (Native.mem_of_mem_placed hmem), position, hmem, hstop⟩
    · exact absurd (Native.mem_of_mem_placed hmem) (jump_not_mem_epilogueInstrs cond rel)
  · rintro ⟨pc, h, -, position, hmem, hstop⟩
    exact ⟨position, codegen.mem_placed_instrs.mpr (.inr (.inl ⟨pc, h, hmem⟩)), hstop⟩

/-- A jump that stays in the program has one branch, at the end of its block. -/
theorem branchEnds_iff_of_inRange (h : pc < code.length)
    (hop : code[pc].opcode = .jumpIfNonZero)
    (hin : Execution.InRange (code[pc].branchTarget pc) code.length) :
    BranchEnds (codegen.label L cached code pc) (codegen.blockInstrs L cached code pc code[pc])
        stop cond rel ↔
      cond = .nonZero ∧
        rel = wordOfInt (codegen.label L cached code (code[pc].branchTarget pc).toNat -
          codegen.label L cached code (pc + 1)) ∧
        codegen.label L cached code (pc + 1) = stop := by
  have hend : codegen.label L cached code pc + _ = codegen.label L cached code (pc + 1) :=
    codegen.label_add_codeSize L cached h
  rw [blockInstrs_of_inRange L cached h hop hin] at hend ⊢
  rw [codeSize_cons, codeSize_cons, codeSize_nil, Nat.add_zero, ← Nat.add_assoc] at hend
  simp only [BranchEnds, Native.placed, List.mem_cons, Prod.mk.injEq, reduceCtorEq, and_false,
    false_or, List.not_mem_nil, or_false, Instr.jump.injEq]
  constructor
  · rintro ⟨_, ⟨rfl, rfl, rfl⟩, rfl⟩
    exact ⟨rfl, rfl, hend.symm⟩
  · rintro ⟨rfl, rfl, rfl⟩
    exact ⟨_, ⟨rfl, rfl, rfl⟩, hend⟩

/-- One that would leave the program has a branch past the rest of its block, and one to the
epilogue at the end. -/
theorem branchEnds_iff_of_outOfRange (h : pc < code.length)
    (hop : code[pc].opcode = .jumpIfNonZero)
    (hout : ¬ Execution.InRange (code[pc].branchTarget pc) code.length) :
    BranchEnds (codegen.label L cached code pc) (codegen.blockInstrs L cached code pc code[pc])
        stop cond rel ↔
      (cond = .zero ∧ rel = wordOfInt (codegen.label L cached code (pc + 1) -
          skipEnd L cached code pc code[pc].register) ∧
        skipEnd L cached code pc code[pc].register = stop) ∨
      (cond = .always ∧ rel = wordOfInt (codegen.label L cached code code.length -
          codegen.label L cached code (pc + 1)) ∧
        codegen.label L cached code (pc + 1) = stop) := by
  have hend : codegen.label L cached code pc + _ = codegen.label L cached code (pc + 1) :=
    codegen.label_add_codeSize L cached h
  rw [blockInstrs_of_outOfRange L cached h hop hout] at hend ⊢
  simp only [codeSize_cons, codeSize_nil, Nat.add_zero, ← Nat.add_assoc] at hend
  simp only [BranchEnds, Native.placed, List.mem_cons, Prod.mk.injEq, reduceCtorEq, and_false,
    false_or, List.not_mem_nil, or_false, Instr.jump.injEq]
  constructor
  · rintro ⟨_, ⟨rfl, rfl, rfl⟩ | ⟨rfl, rfl, rfl⟩, rfl⟩
    · exact .inl ⟨rfl, rfl, rfl⟩
    · exact .inr ⟨rfl, rfl, hend.symm⟩
  · rintro (⟨rfl, rfl, rfl⟩ | ⟨rfl, rfl, rfl⟩)
    · exact ⟨_, .inl ⟨rfl, rfl, rfl⟩, rfl⟩
    · exact ⟨_, .inr ⟨rfl, rfl, rfl⟩, hend⟩

end

/-! ### Distances and their fields -/

/-- A signed field of 32 bits has room for the distance, and holds it. -/
def Carries (rel : UInt32) (distance : Int) : Prop :=
  -0x80000000 ≤ distance ∧ distance < 0x80000000 ∧ signedWord rel = distance

theorem carries_wordOfInt {distance : Int} (hlo : -0x80000000 ≤ distance)
    (hhi : distance < 0x80000000) : Carries (wordOfInt distance) distance :=
  ⟨hlo, hhi, Native.signedWord_wordOfInt hlo hhi⟩

/-- Every branch of a routine has room for its distance. Only the branches of jumps that leave the
program need the routine to be short enough for that. -/
structure DistancesFit (L : Layout) (cached : Nat) (code : List Instruction) : Prop where
  /-- What the bytes are read as. -/
  parsed : Native.parse (codegen.assemble L cached code) = some (codegen.instrs L cached code)
  /-- From a label on come the blocks from there on, and the epilogue. -/
  starts : ∀ l ≤ code.length,
    (codegen.assemble L cached code).drop (codegen.label L cached code l) =
      (codegen.instrsFrom L cached code l).flatMap Native.InstructionSet.encode
  /-- The branch of a jump that stays in the program carries the distance from its end, which is the
  end of its block, to the block of its target. -/
  within : ∀ pc (h : pc < code.length), code[pc].opcode = .jumpIfNonZero →
    Execution.InRange (code[pc].branchTarget pc) code.length →
    ∃ rel, BranchEnds 0 (codegen.instrs L cached code) (codegen.label L cached code (pc + 1))
        .nonZero rel ∧
      Carries rel (codegen.label L cached code (code[pc].branchTarget pc).toNat -
        codegen.label L cached code (pc + 1))
  /-- A jump that would leave the program has a branch that skips the rest of the same block. -/
  past : ∀ pc (h : pc < code.length), code[pc].opcode = .jumpIfNonZero →
    ¬ Execution.InRange (code[pc].branchTarget pc) code.length →
    ∃ rel, BranchEnds 0 (codegen.instrs L cached code)
        (skipEnd L cached code pc code[pc].register) .zero rel ∧
      Carries rel (codegen.label L cached code (pc + 1) -
        skipEnd L cached code pc code[pc].register)
  /-- No other branch is taken on zero. -/
  skips : ∀ stop rel, BranchEnds 0 (codegen.instrs L cached code) stop .zero rel →
    ∃ pc, ∃ h : pc < code.length, code[pc].opcode = .jumpIfNonZero ∧
      ¬ Execution.InRange (code[pc].branchTarget pc) code.length ∧
      stop = skipEnd L cached code pc code[pc].register ∧
      codegen.label L cached code pc < stop ∧ stop ≤ codegen.label L cached code (pc + 1) ∧
      codegen.label L cached code (pc + 1) ≤ codegen.label L cached code pc + 66 ∧
      Carries rel (codegen.label L cached code (pc + 1) - stop)
  /-- If a jump would leave the program, the way to the epilogue grows with the number of
  instructions in between, and fits if the routine is short enough. -/
  out : ∀ pc (h : pc < code.length), code[pc].opcode = .jumpIfNonZero →
    ¬ Execution.InRange (code[pc].branchTarget pc) code.length →
    codegen.label L cached code (pc + 1) + 3 * (code.length - (pc + 1)) ≤
      codegen.label L cached code code.length ∧
    ∃ rel, BranchEnds 0 (codegen.instrs L cached code) (codegen.label L cached code (pc + 1))
        .always rel ∧
      ((codegen.assemble L cached code).length < 0x80000000 →
        Carries rel (codegen.label L cached code code.length -
          codegen.label L cached code (pc + 1)))
  /-- Every branch but these is short, however long the program is, and carries the distance to a
  block. -/
  near_or_out : ∀ stop cond rel, BranchEnds 0 (codegen.instrs L cached code) stop cond rel →
    (∃ l ≤ code.length, ((codegen.label L cached code l : Int) - stop).natAbs ≤ 66 * 0x8000 ∧
      Carries rel (codegen.label L cached code l - stop)) ∨
    cond = .always ∧ ∃ pc, ∃ h : pc < code.length, code[pc].opcode = .jumpIfNonZero ∧
      ¬ Execution.InRange (code[pc].branchTarget pc) code.length ∧
      stop = codegen.label L cached code (pc + 1)

theorem label_lt_skipEnd (pc : Nat) (r : Register) :
    codegen.label L cached code pc < skipEnd L cached code pc r :=
  Nat.lt_add_of_pos_right (Nat.add_pos_left (Native.size_pos _) _)

theorem carries_target (L : Layout) (cached : Nat) (h : pc < code.length) {i : Instruction}
    (hin : Execution.InRange (i.branchTarget pc) code.length) :
    Carries (wordOfInt (codegen.label L cached code (i.branchTarget pc).toNat -
        codegen.label L cached code (pc + 1)))
      (codegen.label L cached code (i.branchTarget pc).toNat -
        codegen.label L cached code (pc + 1)) := by
  have hnear := target_near L cached h hin
  exact carries_wordOfInt (by omega) (by omega)

theorem carries_skip (L : Layout) (cached : Nat) (h : pc < code.length)
    (hop : code[pc].opcode = .jumpIfNonZero)
    (hout : ¬ Execution.InRange (code[pc].branchTarget pc) code.length) :
    Carries (wordOfInt (codegen.label L cached code (pc + 1) -
        skipEnd L cached code pc code[pc].register))
      (codegen.label L cached code (pc + 1) - skipEnd L cached code pc code[pc].register) := by
  have hnear := skip_near L cached h hop hout
  exact carries_wordOfInt (by omega) (by omega)

theorem distancesFit (L : Layout) (cached : Nat) (code : List Instruction) :
    DistancesFit L cached code where
  parsed := Generator.parse_assemble_eq legible L cached code
  starts l hl := codegen.drop_label hl
  within pc h hop hin :=
    ⟨_, branchEnds_instrs_iff.mpr ⟨pc, h, hop, (branchEnds_iff_of_inRange h hop hin).mpr
      ⟨rfl, rfl, rfl⟩⟩, carries_target L cached h hin⟩
  past pc h hop hout :=
    ⟨_, branchEnds_instrs_iff.mpr ⟨pc, h, hop, (branchEnds_iff_of_outOfRange h hop hout).mpr
      (.inl ⟨rfl, rfl, rfl⟩)⟩, carries_skip L cached h hop hout⟩
  skips stop rel hbranch := by
    obtain ⟨pc, h, hop, hends⟩ := branchEnds_instrs_iff.mp hbranch
    have hout : ¬ Execution.InRange (code[pc].branchTarget pc) code.length := fun hin => by
      cases ((branchEnds_iff_of_inRange h hop hin).mp hends).1
    rcases (branchEnds_iff_of_outOfRange h hop hout).mp hends with
      ⟨-, rfl, rfl⟩ | ⟨hcond, -⟩
    · exact ⟨pc, h, hop, hout, rfl, label_lt_skipEnd pc _, skipEnd_le_label h hop hout,
        label_succ_le h, carries_skip L cached h hop hout⟩
    · cases hcond
  out pc h hop hout := by
    have hfar : codegen.label L cached code (pc + 1) + 3 * (code.length - (pc + 1)) ≤
        codegen.label L cached code code.length :=
      Native.add_le_start (fun l hl => label_add_three_le hl) h (Nat.le_refl _)
    have hend : codegen.label L cached code code.length ≤ (codegen.assemble L cached code).length :=
      codegen.label_le (Nat.le_refl _)
    refine ⟨hfar, _, branchEnds_instrs_iff.mpr ⟨pc, h, hop,
      (branchEnds_iff_of_outOfRange h hop hout).mpr (.inr ⟨rfl, rfl, rfl⟩)⟩, fun hsize => ?_⟩
    exact carries_wordOfInt (by omega) (by omega)
  near_or_out stop cond rel hbranch := by
    obtain ⟨pc, h, hop, hends⟩ := branchEnds_instrs_iff.mp hbranch
    by_cases hin : Execution.InRange (code[pc].branchTarget pc) code.length
    · obtain ⟨rfl, rfl, rfl⟩ := (branchEnds_iff_of_inRange h hop hin).mp hends
      have htarget : (code[pc].branchTarget pc).toNat ≤ code.length := by
        have := hin.2
        omega
      exact .inl ⟨_, htarget, target_near L cached h hin, carries_target L cached h hin⟩
    · rcases (branchEnds_iff_of_outOfRange h hop hin).mp hends with
        ⟨rfl, rfl, rfl⟩ | ⟨rfl, rfl, rfl⟩
      · exact .inl ⟨pc + 1, h, Nat.le_trans (skip_near L cached h hop hin) (by decide),
          carries_skip L cached h hop hin⟩
      · exact .inr ⟨rfl, pc, h, hop, hin, rfl⟩

end Codegen

end Dyad.X64
