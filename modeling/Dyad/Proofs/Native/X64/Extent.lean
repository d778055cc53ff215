import Mathlib.Algebra.Order.BigOperators.Group.List
import Mathlib.Algebra.Order.Group.Nat
import Mathlib.Algebra.Ring.Nat
import Mathlib.Data.List.Forall2
import Dyad.Proofs.Native.Workshop

/-!
What of an x86-64 routine depends on where things are in memory, and how long a routine is. Only
the constants of the instructions that load an address do (`Instr.Relocated`): no instruction
changes its length with them, so every block stays where it is and every distance is the same
(`instrs_relocated`). The length is the sum of what the instructions take (`codeBytes`), of which
each use of a cached cell saves four bytes (`codeBytes_add_saved`).
-/

namespace Dyad

/-- What a routine holds the address of. -/
inductive Layout.Field where
  | memory
  | frame
  | print

def Layout.address (L : Layout) : Field → UInt64
  | .memory => L.memory
  | .frame => L.frame
  | .print => L.print

namespace X64

open Native (Generator Op)

variable {L L' : Layout}

/-! ### Instructions in two layouts -/

namespace Instr

/-- An instruction in one layout, and what it is in another: the same, unless it loads an
address. -/
inductive Relocated (L L' : Layout) : Instr → Instr → Prop
  | same (i : Instr) : Relocated L L' i i
  | address (dst : Reg) (field : Layout.Field) :
    Relocated L L' (.movAddress dst (L.address field)) (.movAddress dst (L'.address field))

/-- A position of the code that is inside the constant of an instruction that loads an address. -/
def InAddress (L : Layout) (is : List Instr) (position : Nat) : Prop :=
  ∃ before dst field after, is = before ++ .movAddress dst (L.address field) :: after ∧
    (before.flatMap encode).length + 2 ≤ position ∧
    position < (before.flatMap encode).length + 10

theorem Relocated.length_encode {i i' : Instr} (h : Relocated L L' i i') :
    i.encode.length = i'.encode.length := by
  cases h with
  | same => rfl
  | address dst field => rfl

theorem Relocated.jump {i' : Instr} {cond : Cond} {rel : UInt32}
    (h : Relocated L L' (.jump cond rel) i') : i' = .jump cond rel := by
  cases h with
  | same => rfl

/-- The first two bytes of an instruction that loads an address say where to. -/
theorem Relocated.inAddress_of_ne {i i' : Instr} (h : Relocated L L' i i') {p : Nat}
    (hne : i.encode[p]? ≠ i'.encode[p]?) (is : List Instr) : InAddress L (i :: is) p := by
  cases h with
  | same => exact absurd rfl hne
  | address dst field =>
    refine ⟨[], dst, field, is, rfl, ?_, ?_⟩
    · match p with
      | 0 | 1 => exact absurd rfl hne
      | p + 2 => simp
    · refine Nat.lt_of_not_le fun hge => hne ?_
      rw [List.getElem?_eq_none (by exact hge), List.getElem?_eq_none (by exact hge)]

theorem inAddress_of_ne {is is' : List Instr} (h : List.Forall₂ (Relocated L L') is is') {p : Nat}
    (hne : (is.flatMap encode)[p]? ≠ (is'.flatMap encode)[p]?) : InAddress L is p := by
  induction h generalizing p with
  | nil => exact absurd rfl hne
  | @cons i i' is is' hi _ ih =>
    rw [List.flatMap_cons, List.flatMap_cons] at hne
    rcases Nat.lt_or_ge p i.encode.length with hlt | hge
    · rw [List.getElem?_append_left hlt,
        List.getElem?_append_left (hi.length_encode ▸ hlt)] at hne
      exact hi.inAddress_of_ne hne is
    · rw [List.getElem?_append_right hge,
        List.getElem?_append_right (hi.length_encode ▸ hge), ← hi.length_encode] at hne
      obtain ⟨before, dst, field, after, rfl, hlo, hhi⟩ := ih hne
      refine ⟨i :: before, dst, field, after, rfl, ?_, ?_⟩ <;>
        rw [List.flatMap_cons, List.length_append] <;> omega

theorem getElem?_jump {is is' : List Instr} (h : List.Forall₂ (Relocated L L') is is') {n : Nat}
    {cond : Cond} {rel : UInt32} (hn : is[n]? = some (.jump cond rel)) :
    is'[n]? = some (.jump cond rel) := by
  induction h generalizing n with
  | nil => cases hn
  | cons hi _ ih =>
    cases n with
    | zero =>
      cases hn
      rw [hi.jump]
      rfl
    | succ n => exact ih hn

end Instr

/-- See `Instr.Relocated`; labels are no addresses. -/
inductive OpRelocated (L L' : Layout) : Op Instr Cond → Op Instr Cond → Prop
  | instr {i i' : Instr} (h : Instr.Relocated L L' i i') : OpRelocated L L' (.instr i) (.instr i')
  | branch (cond : Cond) (label : Nat) :
    OpRelocated L L' (.branch cond label) (.branch cond label)

namespace OpRelocated

theorem same (op : Op Instr Cond) : OpRelocated L L' op op := by
  cases op with
  | instr i => exact .instr (.same i)
  | branch cond label => exact .branch cond label

theorem address (dst : Reg) (field : Layout.Field) :
    OpRelocated L L' (.instr (.movAddress dst (L.address field)))
      (.instr (.movAddress dst (L'.address field))) :=
  .instr (.address dst field)

theorem forall₂_same (ops : List (Op Instr Cond)) : List.Forall₂ (OpRelocated L L') ops ops :=
  List.forall₂_same.mpr fun op _ => .same op

theorem opSize_eq {op op' : Op Instr Cond} (h : OpRelocated L L' op op') :
    codegen.opSize op = codegen.opSize op' := by
  cases h with
  | instr h => exact h.length_encode
  | branch => rfl

theorem link {op op' : Op Instr Cond} (h : OpRelocated L L' op op') (label : Nat → Nat)
    (position : Nat) :
    Instr.Relocated L L' (codegen.link label position op) (codegen.link label position op') := by
  cases h with
  | instr h => exact h
  | branch => exact .same _

theorem totalSize_eq {ops ops' : List (Op Instr Cond)}
    (h : List.Forall₂ (OpRelocated L L') ops ops') :
    codegen.totalSize ops = codegen.totalSize ops' := by
  induction h with
  | nil => rfl
  | cons h _ ih => rw [Generator.totalSize, Generator.totalSize, h.opSize_eq, ih]

theorem linkAll {ops ops' : List (Op Instr Cond)} (h : List.Forall₂ (OpRelocated L L') ops ops')
    (label : Nat → Nat) (position : Nat) :
    List.Forall₂ (Instr.Relocated L L') (codegen.linkAll label position ops)
      (codegen.linkAll label position ops') := by
  induction h generalizing position with
  | nil => exact .nil
  | cons h _ ih =>
    rw [Generator.linkAll, Generator.linkAll, h.opSize_eq]
    exact .cons (h.link label position) (ih _)

end OpRelocated

namespace Codegen

open Reg

variable (L L') (cached : Nat) (code : List Instruction)

theorem prologue_relocated : List.Forall₂ (OpRelocated L L') (prologue L) (prologue L') :=
  List.rel_append (OpRelocated.forall₂_same (prologue L).dropLast)
    (.cons (.address rbp .memory) .nil)

theorem block_relocated (size pc : Nat) (i : Instruction) :
    List.Forall₂ (OpRelocated L L') (block L cached size pc i) (block L' cached size pc i) := by
  unfold block
  cases i.opcode with
  | loadImmediate | addImmediate | subtractImmediate => exact OpRelocated.forall₂_same _
  | loadMemory | storeMemory | addMemory | subtractMemory => exact OpRelocated.forall₂_same _
  | print =>
    exact .cons (.address rdi .frame) (.cons (.same _) (.cons (.same _)
      (.cons (.address rax .print) (OpRelocated.forall₂_same _))))
  | jumpIfNonZero =>
    cases Native.branchLabel? i pc size with
    | some target => exact OpRelocated.forall₂_same _
    | none =>
      exact .cons (.same _) (.cons (.same _)
        (.cons (.address rax .frame) (OpRelocated.forall₂_same _)))

theorem epilogue_relocated :
    List.Forall₂ (OpRelocated L L') (epilogue L cached) (epilogue L' cached) :=
  .cons (.address rax .frame) (OpRelocated.forall₂_same _)

/-- Blocks start at the same positions in every layout. -/
theorem label_eq_label : codegen.label L cached code = codegen.label L' cached code := by
  have hprologue :
      codegen.totalSize (codegen.prologue L) = codegen.totalSize (codegen.prologue L') :=
    OpRelocated.totalSize_eq (prologue_relocated L L')
  have hsizes : (codegen.blocks L cached code).map codegen.totalSize =
      (codegen.blocks L' cached code).map codegen.totalSize := by
    rw [Generator.blocks, Generator.blocks, List.map_map, List.map_map]
    exact List.map_congr_left fun _ _ =>
      OpRelocated.totalSize_eq (block_relocated L L' cached _ _ _)
  funext l
  rw [Generator.label, Generator.label, Generator.labels, Generator.labels, hsizes, hprologue]

theorem instrs_relocated :
    List.Forall₂ (Instr.Relocated L L') (codegen.instrs L cached code)
      (codegen.instrs L' cached code) := by
  have hlabel := label_eq_label L L' cached code
  simp only [Generator.instrs_eq, Generator.instrsFrom, Generator.prologueInstrs,
    Generator.epilogueInstrs, Generator.blockInstrs, hlabel]
  refine List.rel_append (OpRelocated.linkAll (prologue_relocated L L') _ _)
    (List.rel_append ?_ (OpRelocated.linkAll (epilogue_relocated L L' cached) _ _))
  refine List.rel_flatMap (R := Eq) (List.forall₂_refl _) ?_
  rintro ⟨i, pc⟩ _ rfl
  exact OpRelocated.linkAll (block_relocated L L' cached _ _ _) _ _

/-! ### Lengths -/

/-- The number of bytes that an instruction takes, if the cell that it uses is cached or not, and
if the target of its branch is in the program or not. -/
def blockBytes (op : Opcode) (cached inRange : Bool) : Nat :=
  match op with
  | .loadImmediate => 6
  | .addImmediate | .subtractImmediate => 7
  | .loadMemory | .storeMemory | .addMemory | .subtractMemory => if cached then 3 else 7
  | .print => 30
  | .jumpIfNonZero => if inRange then 9 else 44

/-- The number of bytes that copying the cached cells back to memory takes. -/
def writeBackBytes (cached : Nat) : Nat := 7 * min cached maxCachedCells

/-- The number of bytes that instruction `i` at index `pc` takes. -/
def blockBytesAt (cached size pc : Nat) (i : Instruction) : Nat :=
  blockBytes i.opcode (i.immediate.toNat < cached) (Execution.InRange (i.branchTarget pc) size)

/-- The number of bytes of a routine. -/
def codeBytes (cached : Nat) (code : List Instruction) : Nat :=
  77 + writeBackBytes cached +
    (code.zipIdx.map fun (i, pc) => blockBytesAt cached code.length pc i).sum

variable {L cached code}

theorem totalSize_block (size pc : Nat) (i : Instruction) :
    codegen.totalSize (codegen.block L cached size pc i) = blockBytesAt cached size pc i := by
  change codegen.totalSize (block L cached size pc i) = _
  have hhigh : (homes.register i.register).high = true := by cases i.register <;> rfl
  have hleft (opcode : UInt8) (r : Reg) :
      (Instr.encodeRegs opcode (homes.register i.register) r).length = 3 :=
    length_encodeRegs opcode (by rw [hhigh, Bool.true_or])
  have hright (opcode : UInt8) (r : Reg) :
      (Instr.encodeRegs opcode r (homes.register i.register)).length = 3 :=
    length_encodeRegs opcode (by rw [hhigh, Bool.or_true])
  rw [blockBytesAt]
  cases hop : i.opcode with
  | loadImmediate | addImmediate | subtractImmediate | print =>
    rw [block, hop]
    cases i.register <;> rfl
  | loadMemory | addMemory | subtractMemory =>
    rw [block, hop, Native.Homes.cell?]
    by_cases hcached : i.immediate.toNat < cached
    · rw [if_pos hcached, decide_eq_true hcached]
      exact hright _ _
    · rw [if_neg hcached, decide_eq_false hcached]
      rfl
  | storeMemory =>
    rw [block, hop, Native.Homes.cell?]
    by_cases hcached : i.immediate.toNat < cached
    · rw [if_pos hcached, decide_eq_true hcached]
      exact hleft _ _
    · rw [if_neg hcached, decide_eq_false hcached]
      rfl
  | jumpIfNonZero =>
    by_cases hin : Execution.InRange (i.branchTarget pc) size
    · rw [block_of_inRange hop hin, decide_eq_true hin]
      cases i.register <;> rfl
    · rw [block_of_outOfRange hop hin, decide_eq_false hin]
      cases i.register <;> rfl

theorem totalSize_writeBack (cached : Nat) :
    codegen.totalSize (writeBack cached) = writeBackBytes cached := by
  have hcells (cells : List Nat) : codegen.totalSize (cells.map fun cell =>
      Op.instr (.store rbp (4 * UInt32.ofNat cell) (homes.cell cell))) = 7 * cells.length := by
    induction cells with
    | nil => rfl
    | cons cell cells ih =>
      rw [List.map_cons, Generator.totalSize, ih, List.length_cons, Nat.mul_succ, Nat.add_comm]
      rfl
  rw [writeBack, hcells, List.length_range, writeBackBytes]

theorem totalSize_epilogue :
    codegen.totalSize (codegen.epilogue L cached) = 39 + writeBackBytes cached := by
  change codegen.totalSize (epilogue L cached) = _
  rw [epilogue, codegen.totalSize_append, codegen.totalSize_append, totalSize_writeBack]
  change 24 + writeBackBytes cached + 15 = _
  omega

theorem totalSize_prologue : codegen.totalSize (codegen.prologue L) = 38 := by
  change codegen.totalSize (prologue L) = 38
  simp only [prologue, Generator.totalSize, Generator.opSize]
  change 1 + (1 + (2 + (2 + (2 + (2 + (4 + (3 + (3 + (3 + (3 + (2 + 10))))))))))) = 38
  rfl

theorem label_eq_sum {pc : Nat} (h : pc ≤ code.length) :
    codegen.label L cached code pc = 38 +
      ((code.zipIdx.take pc).map fun (i, pc) => blockBytesAt cached code.length pc i).sum := by
  induction pc with
  | zero =>
    rw [codegen.label_zero, totalSize_prologue]
    rfl
  | succ pc ih =>
    have hlt : pc < code.zipIdx.length := by rw [List.length_zipIdx]; exact h
    rw [codegen.label_succ h, ih (Nat.le_of_succ_le h), totalSize_block,
      List.take_succ_eq_append_getElem hlt]
    simp [Nat.add_assoc]

theorem length_assemble (L : Layout) (cached : Nat) (code : List Instruction) :
    (codegen.assemble L cached code).length = codeBytes cached code := by
  obtain ⟨before, hbefore, hsplit⟩ := codegen.assemble_split L cached (Nat.le_refl code.length)
  rw [hsplit, List.length_append, hbefore, codegen.instrsFrom_length,
    Native.length_flatMap_encode, Generator.epilogueInstrs, codegen.codeSize_linkAll,
    totalSize_epilogue, label_eq_sum (Nat.le_refl _), codeBytes,
    List.take_of_length_le (Nat.le_of_eq List.length_zipIdx)]
  omega

theorem blockBytes_le (op : Opcode) (cached inRange : Bool) :
    blockBytes op cached inRange ≤ 44 := by
  cases op <;> cases cached <;> cases inRange <;> decide

theorem length_assemble_le (L : Layout) (cached : Nat) (code : List Instruction) :
    (codegen.assemble L cached code).length ≤ 98 + 44 * code.length := by
  have hblocks : (code.zipIdx.map fun (i, pc) => blockBytesAt cached code.length pc i).sum ≤
      44 * code.length := by
    refine (List.sum_le_card_nsmul _ 44 fun bytes hbytes => ?_).trans_eq ?_
    · obtain ⟨⟨i, pc⟩, -, rfl⟩ := List.mem_map.mp hbytes
      exact blockBytes_le _ _ _
    · rw [List.length_map, List.length_zipIdx, Nat.nsmul_eq_mul, Nat.mul_comm]
  have hcells : min cached maxCachedCells ≤ 3 := Nat.min_le_right _ _
  rw [length_assemble, codeBytes, writeBackBytes]
  omega

/-- Whether an instruction uses one of the first `cached` cells. -/
def usesCached (cached : Nat) (i : Instruction) : Bool :=
  i.opcode.operandKind = .memory && i.immediate.toNat < cached

/-- A use of a cached cell takes four bytes less than a use of memory. -/
theorem blockBytesAt_add_saved (cached size pc : Nat) (i : Instruction) :
    blockBytesAt cached size pc i + 4 * (if usesCached cached i then 1 else 0) =
      blockBytesAt 0 size pc i := by
  have hnone : ¬ i.immediate.toNat < 0 := Nat.not_lt_zero _
  rw [blockBytesAt, blockBytesAt, usesCached, decide_eq_false hnone]
  by_cases hcached : i.immediate.toNat < cached
  · rw [decide_eq_true hcached]
    cases i.opcode <;> rfl
  · rw [decide_eq_false hcached, Bool.and_false]
    rfl

theorem codeBytes_add_saved (cached : Nat) (code : List Instruction) :
    codeBytes cached code + 4 * code.countP (usesCached cached) =
      codeBytes 0 code + writeBackBytes cached := by
  have hblocks (size : Nat) (xs : List (Instruction × Nat)) :
      (xs.map fun (i, pc) => blockBytesAt cached size pc i).sum +
        4 * (xs.map Prod.fst).countP (usesCached cached) =
          (xs.map fun (i, pc) => blockBytesAt 0 size pc i).sum := by
    induction xs with
    | nil => rfl
    | cons x xs ih =>
      obtain ⟨i, pc⟩ := x
      have hsaved := blockBytesAt_add_saved cached size pc i
      simp only [List.map_cons, List.sum_cons, List.countP_cons, ← ih, ← hsaved]
      omega
  have hall := hblocks code.length code.zipIdx
  rw [List.zipIdx_map_fst] at hall
  rw [codeBytes, codeBytes, ← hall]
  simp only [writeBackBytes, Nat.zero_min]
  omega

/-- Where things are in memory shows in a routine only in the constants of the instructions that
load an address. Code for two layouts is read as the same instructions, with the same distances, but
for these, has the same length, and differs in no other byte. The length, which the compiler counts,
is the sum of what the instructions take, by their operations and by whether a cell is cached and a
target in the program; caching cells saves four bytes at each use of one, and takes what is needed
to write them back. -/
theorem assemble_relocates (cached : Nat) (code : List Instruction) :
    (∀ L L' : Layout, ∃ is is' : List Instr,
      Native.parse (codegen.assemble L cached code) = some is ∧
      Native.parse (codegen.assemble L' cached code) = some is' ∧
      List.Forall₂ (Instr.Relocated L L') is is' ∧
      (∀ (n : Nat) (cond : Cond) (rel : UInt32), is[n]? = some (.jump cond rel) →
        is'[n]? = some (.jump cond rel)) ∧
      (codegen.assemble L cached code).length = (codegen.assemble L' cached code).length ∧
      ∀ position : Nat,
        (codegen.assemble L cached code)[position]? ≠ (codegen.assemble L' cached code)[position]? →
          Instr.InAddress L is position) ∧
    (∀ L : Layout, (codegen.assemble L cached code).length = codeBytes cached code) ∧
    codeBytes cached code + 4 * code.countP (usesCached cached) =
      codeBytes 0 code + writeBackBytes cached ∧
    ∀ (p : Program) (stats : CompileStats), Decodes p.words code → ∃ routine c,
      Compiler.compile ⟨cached, stats⟩ p = .ok (routine, c) ∧
      routine.stats.codeSize = codeBytes cached code ∧
      c.stats.codeSize = codeBytes cached code := by
  refine ⟨fun L L' => ?_, fun L => length_assemble L cached code, codeBytes_add_saved cached code,
    fun p stats hd => ?_⟩
  · have hrelocated := instrs_relocated L L' cached code
    refine ⟨_, _, Generator.parse_assemble_eq legible L cached code,
      Generator.parse_assemble_eq legible L' cached code, hrelocated, ?_, ?_, ?_⟩
    · intro n cond rel hjump
      exact Instr.getElem?_jump hrelocated hjump
    · rw [length_assemble, length_assemble]
    · intro position hne
      exact Instr.inAddress_of_ne hrelocated hne
  · refine ⟨_, _, Compiler.compile_of_decodes ⟨cached, stats⟩ hd, ?_, ?_⟩
    · exact length_assemble Native.runLayout cached code
    · exact length_assemble Native.runLayout cached code

/-- A program with a cached cell, a print and a branch of each kind, at two places. -/
theorem assemble_relocates_strayProgram :
    (codegen.assemble ⟨0x10000000, 0x20000000, 0x30000000⟩ 2 Native.strayProgram).length = 183 ∧
    (∃ is,
      Native.parse (codegen.assemble ⟨0x10000000, 0x20000000, 0x30000000⟩ 2
        Native.strayProgram) = some is ∧
      ∀ position : Nat,
        (codegen.assemble ⟨0x10000000, 0x20000000, 0x30000000⟩ 2 Native.strayProgram)[position]? ≠
          (codegen.assemble ⟨0, 1, 2⟩ 2 Native.strayProgram)[position]? →
        Instr.InAddress ⟨0x10000000, 0x20000000, 0x30000000⟩ is position) ∧
    ∃ routine c, Compiler.compile { cachedCells := 2 }
        ⟨(Native.strayProgram.map Instruction.encode).toArray, 0⟩ = .ok (routine, c) ∧
      routine.stats.codeSize = 183 := by
  obtain ⟨relocated, hlength, -, compiled⟩ := assemble_relocates 2 Native.strayProgram
  obtain ⟨is, -, hparse, -, -, -, -, hbytes⟩ :=
    relocated ⟨0x10000000, 0x20000000, 0x30000000⟩ ⟨0, 1, 2⟩
  obtain ⟨routine, c, hcompile, hsize, -⟩ := compiled
    ⟨(Native.strayProgram.map Instruction.encode).toArray, 0⟩ {} (Decodes.of_encode _)
  exact ⟨hlength _, ⟨is, hparse, hbytes⟩, routine, c, hcompile, hsize⟩

end Codegen

end X64

end Dyad
