import Dyad.Proofs.Native.Positions
import Dyad.Proofs.Native.Stepping
import Dyad.Run.Execution

/-!
Where the code of each instruction stands in a routine, whatever the generator. The label of a
block is the number of bytes before it (`drop_label`), so the bytes of a routine are those of its
prologue, its blocks and its epilogue, one behind the other (`codeAt_block`), and can be read back
as such (`parse_assemble_eq`).
-/

namespace Dyad.Native

variable {I B : Type} [InstructionSet I]

/-! ### Streams of instructions -/

/-- Reads instructions to the end of the bytes. -/
def parse (bytes : List UInt8) : Option (List I) :=
  match bytes with
  | [] => some []
  | b :: rest =>
    match InstructionSet.decode (I := I) (b :: rest) with
    | some (i, n + 1) => (parse (rest.drop n)).map (i :: ·)
    | _ => none
termination_by bytes.length
decreasing_by
  simp only [List.length_drop, List.length_cons]
  omega

theorem parse_encode {i : I} (h : Readable i) (rest : List UInt8) :
    parse (InstructionSet.encode i ++ rest) = (parse rest).map (i :: ·) := by
  have hdecode := h rest
  have hpos := size_pos i
  rw [size] at hdecode hpos
  obtain ⟨b, bytes, hbytes⟩ := List.exists_cons_of_length_pos hpos
  rw [hbytes] at hdecode ⊢
  rw [List.cons_append, List.length_cons] at hdecode
  rw [List.cons_append, parse, hdecode]
  simp only [List.drop_left]

/-- A stream of encoded instructions parses as these instructions and nothing else. -/
theorem parse_flatMap_encode {is : List I} (h : ∀ i ∈ is, Readable i) :
    parse (is.flatMap InstructionSet.encode) = some is := by
  induction is with
  | nil => rw [List.flatMap_nil, parse]
  | cons i is ih =>
    rw [List.flatMap_cons, parse_encode (h i List.mem_cons_self),
      ih fun j hj => h j (List.mem_cons_of_mem i hj), Option.map_some]

/-- Instructions one behind the other from `position` on, each with the position where it starts. -/
def placed : (position : Nat) → List I → List (Nat × I)
  | _, [] => []
  | position, i :: is => (position, i) :: placed (position + size i) is

theorem placed_append (position : Nat) (is js : List I) :
    placed position (is ++ js) = placed position is ++ placed (position + codeSize is) js := by
  induction is generalizing position with
  | nil => rfl
  | cons i is ih =>
    rw [List.cons_append, placed, ih, placed, codeSize_cons, Nat.add_assoc, List.cons_append]

theorem mem_of_mem_placed {position p : Nat} {i : I} {is : List I}
    (h : (p, i) ∈ placed position is) : i ∈ is := by
  induction is generalizing position with
  | nil => cases h
  | cons j is ih =>
    rcases List.mem_cons.mp h with heq | h
    · cases heq
      exact List.mem_cons_self
    · exact List.mem_cons_of_mem j (ih h)

namespace Generator

variable (g : Generator I B)

/-! ### Operations -/

theorem size_link (label : Nat → Nat) (position : Nat) (op : Op I B) :
    size (g.link label position op) = g.opSize op := by
  cases op with
  | instr i => rfl
  | branch b l => exact g.size_branch b position (label l)

theorem codeSize_linkAll (label : Nat → Nat) (position : Nat) (ops : List (Op I B)) :
    codeSize (g.linkAll label position ops) = g.totalSize ops := by
  induction ops generalizing position with
  | nil => rfl
  | cons op ops ih => rw [linkAll, codeSize_cons, ih, totalSize, size_link]

theorem length_linkAll (label : Nat → Nat) (position : Nat) (ops : List (Op I B)) :
    (g.linkAll label position ops).length = ops.length := by
  induction ops generalizing position with
  | nil => rfl
  | cons op ops ih => rw [linkAll, List.length_cons, ih, List.length_cons]

theorem totalSize_append (ops ops' : List (Op I B)) :
    g.totalSize (ops ++ ops') = g.totalSize ops + g.totalSize ops' := by
  induction ops with
  | nil => exact (Nat.zero_add _).symm
  | cons op ops ih => rw [List.cons_append, totalSize, ih, totalSize, Nat.add_assoc]

theorem linkAll_map_instr (label : Nat → Nat) (position : Nat) (is : List I) :
    g.linkAll label position (is.map .instr) = is := by
  induction is generalizing position with
  | nil => rfl
  | cons i is ih => rw [List.map_cons, linkAll, ih, link]

/-- The operation can be read back wherever it stands and wherever it leads. -/
def OpReadable : Op I B → Prop
  | .instr i => Readable i
  | .branch b _ => ∀ position target, Readable (g.branch b position target)

/-- An instruction in linked code is one of the piece, or stems from a branch of it. -/
theorem mem_linkAll {label : Nat → Nat} {position : Nat} {ops : List (Op I B)} {i : I}
    (hi : i ∈ g.linkAll label position ops) :
    .instr i ∈ ops ∨ ∃ b l p, .branch b l ∈ ops ∧ i = g.branch b p (label l) := by
  induction ops generalizing position with
  | nil => cases hi
  | cons op ops ih =>
    rcases List.mem_cons.mp hi with rfl | hi
    · cases op with
      | instr i => exact .inl List.mem_cons_self
      | branch b l => exact .inr ⟨b, l, position, List.mem_cons_self, rfl⟩
    · rcases ih hi with h | ⟨b, l, p, h, heq⟩
      · exact .inl (List.mem_cons_of_mem op h)
      · exact .inr ⟨b, l, p, List.mem_cons_of_mem op h, heq⟩

theorem readable_of_mem_linkAll {label : Nat → Nat} {position : Nat} {ops : List (Op I B)}
    (h : ∀ op ∈ ops, g.OpReadable op) {i : I} (hi : i ∈ g.linkAll label position ops) :
    Readable i := by
  rcases g.mem_linkAll hi with hmem | ⟨b, l, p, hmem, rfl⟩
  · exact h _ hmem
  · exact h _ hmem p (label l)

/-! ### Labels -/

variable (L : Layout) (cached : Nat) (code : List Instruction)

/-- The position of a label. -/
def label (l : Nat) : Nat := (g.labels L cached code).getD l 0

/-- The instructions of the block at `pc`. -/
def blockInstrs (pc : Nat) (i : Instruction) : List I :=
  g.linkAll (g.label L cached code) (g.label L cached code pc)
    (g.block L cached code.length pc i)

def prologueInstrs : List I := g.linkAll (g.label L cached code) 0 (g.prologue L)

def epilogueInstrs : List I :=
  g.linkAll (g.label L cached code) (g.label L cached code code.length) (g.epilogue L cached)

/-- The instructions from the block at `pc` on. -/
def instrsFrom (pc : Nat) : List I :=
  (code.zipIdx.drop pc).flatMap (fun (i, pc) => g.blockInstrs L cached code pc i) ++
    g.epilogueInstrs L cached code

theorem instrs_eq : g.instrs L cached code =
    g.prologueInstrs L cached code ++ g.instrsFrom L cached code 0 := by
  have hblocks : (g.blocks L cached code).zipIdx =
      code.zipIdx.map fun (i, pc) => (g.block L cached code.length pc i, pc) := by
    apply List.ext_getElem <;> simp [blocks]
  rw [instrs, instrsFrom, List.drop_zero, hblocks, List.flatMap_map, List.append_assoc]
  rfl

theorem label_zero : g.label L cached code 0 = g.totalSize (g.prologue L) := starts_zero _ _

theorem codeSize_prologueInstrs :
    codeSize (g.prologueInstrs L cached code) = g.label L cached code 0 := by
  rw [prologueInstrs, codeSize_linkAll, label_zero]

variable {L cached code} {pc : Nat}

theorem blockInstrs_of_straight {i : Instruction} {is : List I}
    (h : g.block L cached code.length pc i = is.map .instr) :
    g.blockInstrs L cached code pc i = is := by
  rw [blockInstrs, h, linkAll_map_instr]

theorem label_succ (h : pc < code.length) :
    g.label L cached code (pc + 1) =
      g.label L cached code pc + g.totalSize (g.block L cached code.length pc code[pc]) := by
  have hlength : ((g.blocks L cached code).map g.totalSize).length = code.length := by
    simp [blocks]
  rw [label, labels, starts_succ _ (by rw [hlength]; exact h)]
  simp [label, labels, blocks]

/-- A block ends where the next one starts. -/
theorem label_add_codeSize (L : Layout) (cached : Nat) (h : pc < code.length) :
    g.label L cached code pc + codeSize (g.blockInstrs L cached code pc code[pc]) =
      g.label L cached code (pc + 1) := by
  rw [g.label_succ h, blockInstrs, codeSize_linkAll]

/-- Blocks lie one behind the other, and none is empty. -/
theorem label_lt_succ (h : pc < code.length) :
    g.label L cached code pc < g.label L cached code (pc + 1) := by
  rw [g.label_succ h]
  obtain ⟨op, ops, hops⟩ :=
    List.exists_cons_of_ne_nil (g.block_ne_nil L cached code.length pc code[pc])
  have hpos : 0 < g.opSize op := by
    rw [← g.size_link (fun _ => 0) 0 op]
    exact size_pos _
  rw [hops, totalSize]
  omega

theorem instrsFrom_eq (h : pc < code.length) :
    g.instrsFrom L cached code pc =
      g.blockInstrs L cached code pc code[pc] ++ g.instrsFrom L cached code (pc + 1) := by
  have hlt : pc < code.zipIdx.length := by rw [List.length_zipIdx]; exact h
  rw [instrsFrom, List.drop_eq_getElem_cons hlt, List.flatMap_cons, List.append_assoc]
  simp [instrsFrom]

theorem instrsFrom_length :
    g.instrsFrom L cached code code.length = g.epilogueInstrs L cached code := by
  rw [instrsFrom, List.drop_of_length_le (Nat.le_of_eq List.length_zipIdx), List.flatMap_nil,
    List.nil_append]

/-- The label of a block is the number of bytes before it. -/
theorem assemble_split (L : Layout) (cached : Nat) (h : pc ≤ code.length) :
    ∃ before, before.length = g.label L cached code pc ∧
      g.assemble L cached code =
        before ++ (g.instrsFrom L cached code pc).flatMap InstructionSet.encode := by
  induction pc with
  | zero =>
    refine ⟨(g.prologueInstrs L cached code).flatMap InstructionSet.encode, ?_, ?_⟩
    · rw [length_flatMap_encode, codeSize_prologueInstrs]
    · rw [assemble, instrs_eq, List.flatMap_append]
  | succ pc ih =>
    obtain ⟨before, hlength, hsplit⟩ := ih (by omega)
    refine ⟨before ++
      (g.blockInstrs L cached code pc code[pc]).flatMap InstructionSet.encode, ?_, ?_⟩
    · rw [List.length_append, hlength, length_flatMap_encode, g.label_add_codeSize L cached h]
    · rw [hsplit, g.instrsFrom_eq h, List.flatMap_append, List.append_assoc]

theorem drop_label (h : pc ≤ code.length) :
    (g.assemble L cached code).drop (g.label L cached code pc) =
      (g.instrsFrom L cached code pc).flatMap InstructionSet.encode := by
  obtain ⟨before, hlength, hsplit⟩ := g.assemble_split L cached h
  rw [hsplit]
  exact List.drop_left' hlength

theorem label_le (h : pc ≤ code.length) :
    g.label L cached code pc ≤ (g.assemble L cached code).length := by
  obtain ⟨before, hlength, hsplit⟩ := g.assemble_split L cached h
  rw [hsplit, List.length_append, hlength]
  exact Nat.le_add_right _ _

/-- If every block has so many bytes, so many times the program's length is a bound for the code. -/
theorem mul_length_le {least : Nat}
    (hblock : ∀ size pc i, least ≤ g.totalSize (g.block L cached size pc i)) :
    least * code.length ≤ (g.assemble L cached code).length := by
  have hstep (l : Nat) (hl : l < code.length) :
      g.label L cached code l + least ≤ g.label L cached code (l + 1) := by
    rw [g.label_succ hl]
    exact Nat.add_le_add_left (hblock _ _ _) _
  have hlabel : g.label L cached code 0 + least * (code.length - 0) ≤
      g.label L cached code code.length :=
    add_le_start hstep (Nat.zero_le _) (Nat.le_refl _)
  have hle : g.label L cached code code.length ≤ (g.assemble L cached code).length :=
    g.label_le (Nat.le_refl _)
  rw [Nat.sub_zero] at hlabel
  omega

/-- If blocks are short, the next one is near. -/
theorem label_succ_le {bound : Nat}
    (hblock : ∀ size pc i, g.totalSize (g.block L cached size pc i) ≤ bound)
    (h : pc < code.length) :
    g.label L cached code (pc + 1) ≤ g.label L cached code pc + bound := by
  rw [g.label_succ h]
  exact Nat.add_le_add_left (hblock _ _ _) _

/-- If blocks are short, a branch that stays in the program has its target near, however long the
routine is. -/
theorem target_near {bound : Nat}
    (hblock : ∀ size pc i, g.totalSize (g.block L cached size pc i) ≤ bound)
    (h : pc < code.length) {i : Instruction}
    (hin : Execution.InRange (i.branchTarget pc) code.length) :
    ((g.label L cached code (i.branchTarget pc).toNat : Int) -
      g.label L cached code (pc + 1)).natAbs ≤ bound * 0x8000 := by
  obtain ⟨hlo, hhi⟩ := branchTarget_near i pc hin.1
  have htarget : (i.branchTarget pc).toNat ≤ code.length := by
    have := hin.2
    omega
  have hboth : g.label L cached code (pc + 1) ≤
        g.label L cached code (i.branchTarget pc).toNat + bound * 0x8000 ∧
      g.label L cached code (i.branchTarget pc).toNat ≤
        g.label L cached code (pc + 1) + bound * 0x8000 :=
    start_near (fun _ => g.label_lt_succ) (fun _ => g.label_succ_le hblock) h htarget hlo hhi
  omega

/-! ### Code in its place -/

/-- Every instruction that the generator writes can be read back. -/
def Legible : Prop := ∀ L cached code, ∀ i ∈ g.instrs L cached code, Readable i

variable {g}

theorem Legible.of_ops (hprologue : ∀ L, ∀ op ∈ g.prologue L, g.OpReadable op)
    (hblock : ∀ L cached size pc i, ∀ op ∈ g.block L cached size pc i, g.OpReadable op)
    (hepilogue : ∀ L cached, ∀ op ∈ g.epilogue L cached, g.OpReadable op) : g.Legible := by
  intro L cached code i hi
  simp only [instrs_eq, instrsFrom, List.drop_zero, List.mem_append, List.mem_flatMap] at hi
  rcases hi with hi | ⟨⟨_, pc⟩, _, hi⟩ | hi
  · exact g.readable_of_mem_linkAll (hprologue L) hi
  · exact g.readable_of_mem_linkAll (hblock L cached _ _ _) hi
  · exact g.readable_of_mem_linkAll (hepilogue L cached) hi

theorem parse_assemble_eq (h : g.Legible) (L : Layout) (cached : Nat) (code : List Instruction) :
    parse (g.assemble L cached code) = some (g.instrs L cached code) :=
  parse_flatMap_encode (h L cached code)

theorem codeAt_prologue (h : g.Legible) (L : Layout) (cached : Nat) (code : List Instruction) :
    CodeAt (g.assemble L cached code) 0 (g.prologueInstrs L cached code) where
  stands := ⟨_, by rw [List.drop_zero, assemble, instrs_eq, List.flatMap_append]⟩
  readable i hi := h L cached code i (by
    rw [instrs_eq]
    exact List.mem_append_left _ hi)

/-- The instructions from a label on are among those of the routine. -/
theorem mem_instrs_of_mem_instrsFrom (hpc : pc ≤ code.length) {i : I}
    (hi : i ∈ g.instrsFrom L cached code pc) : i ∈ g.instrs L cached code := by
  rw [instrs_eq]
  refine List.mem_append_right _ ?_
  induction pc with
  | zero => exact hi
  | succ pc ih =>
    refine ih (by omega) ?_
    rw [g.instrsFrom_eq hpc]
    exact List.mem_append_right _ hi

theorem codeAt_block (h : g.Legible) (L : Layout) (cached : Nat) (hpc : pc < code.length) :
    CodeAt (g.assemble L cached code) (g.label L cached code pc)
      (g.blockInstrs L cached code pc code[pc]) where
  stands := by
    refine ⟨(g.instrsFrom L cached code (pc + 1)).flatMap InstructionSet.encode, ?_⟩
    rw [g.drop_label (Nat.le_of_lt hpc), g.instrsFrom_eq hpc, List.flatMap_append]
  readable i hi := h L cached code i (mem_instrs_of_mem_instrsFrom (Nat.le_of_lt hpc) (by
    rw [g.instrsFrom_eq hpc]
    exact List.mem_append_left _ hi))

theorem codeAt_epilogue (h : g.Legible) (L : Layout) (cached : Nat) (code : List Instruction) :
    CodeAt (g.assemble L cached code) (g.label L cached code code.length)
      (g.epilogueInstrs L cached code) where
  stands := ⟨[], by rw [g.drop_label (Nat.le_refl _), g.instrsFrom_length, List.append_nil]⟩
  readable i hi := h L cached code i (mem_instrs_of_mem_instrsFrom (Nat.le_refl _) (by
    rw [g.instrsFrom_length]
    exact hi))

/-- Every instruction of a routine stands in its prologue, in one of its blocks or in its
epilogue. -/
theorem mem_placed_instrs {x : Nat × I} :
    x ∈ placed 0 (g.instrs L cached code) ↔
      x ∈ placed 0 (g.prologueInstrs L cached code) ∨
      (∃ pc, ∃ h : pc < code.length,
        x ∈ placed (g.label L cached code pc) (g.blockInstrs L cached code pc code[pc])) ∨
      x ∈ placed (g.label L cached code code.length) (g.epilogueInstrs L cached code) := by
  have before (l : Nat) (hl : l ≤ code.length) :
      x ∈ placed (g.label L cached code 0) (g.instrsFrom L cached code 0) ↔
        (∃ m, ∃ h : m < code.length, m < l ∧
          x ∈ placed (g.label L cached code m) (g.blockInstrs L cached code m code[m])) ∨
        x ∈ placed (g.label L cached code l) (g.instrsFrom L cached code l) := by
    induction l with
    | zero => simp
    | succ l ih =>
      have hsplit : x ∈ placed (g.label L cached code l) (g.instrsFrom L cached code l) ↔
          x ∈ placed (g.label L cached code l) (g.blockInstrs L cached code l code[l]) ∨
            x ∈ placed (g.label L cached code (l + 1)) (g.instrsFrom L cached code (l + 1)) := by
        rw [g.instrsFrom_eq hl, placed_append, List.mem_append, g.label_add_codeSize L cached hl]
      rw [ih (Nat.le_of_succ_le hl), hsplit, ← or_assoc]
      refine or_congr_left ⟨?_, ?_⟩
      · rintro (⟨m, h, hm, hx⟩ | hx)
        · exact ⟨m, h, Nat.lt_succ_of_lt hm, hx⟩
        · exact ⟨l, hl, Nat.lt_succ_self l, hx⟩
      · rintro ⟨m, h, hm, hx⟩
        rcases Nat.lt_succ_iff_lt_or_eq.mp hm with hm | rfl
        · exact .inl ⟨m, h, hm, hx⟩
        · exact .inr hx
  rw [instrs_eq, placed_append, List.mem_append, Nat.zero_add, codeSize_prologueInstrs,
    before code.length (Nat.le_refl _), g.instrsFrom_length]
  refine or_congr_right (or_congr_left ⟨?_, ?_⟩)
  · rintro ⟨m, h, -, hx⟩
    exact ⟨m, h, hx⟩
  · rintro ⟨m, h, hx⟩
    exact ⟨m, h, h, hx⟩

/-! ### Routines taken apart -/

end Generator

/-- A routine taken apart. -/
structure Parts (I : Type) where
  prologue : List I
  blocks : List (List I)
  epilogue : List I

namespace Parts

/-- All instructions, in order. -/
def all (P : Parts I) : List I := P.prologue ++ P.blocks.flatten ++ P.epilogue

/-- The number of bytes before a block, or before the epilogue. -/
def start (P : Parts I) (l : Nat) : Nat := codeSize (P.prologue ++ (P.blocks.take l).flatten)

end Parts

namespace Generator

/-- The parts of the routine for `code`. -/
def parts (g : Generator I B) (L : Layout) (cached : Nat) (code : List Instruction) : Parts I where
  prologue := g.prologueInstrs L cached code
  blocks := code.zipIdx.map fun (i, pc) => g.blockInstrs L cached code pc i
  epilogue := g.epilogueInstrs L cached code

variable (g : Generator I B) {L : Layout} {cached pc l : Nat} {code : List Instruction}

theorem all_parts : (g.parts L cached code).all = g.instrs L cached code := by
  rw [instrs_eq, instrsFrom, List.drop_zero, Parts.all, parts, List.append_assoc,
    List.flatMap_def]

theorem length_blocks_parts : (g.parts L cached code).blocks.length = code.length := by
  rw [parts, List.length_map, List.length_zipIdx]

theorem getElem_blocks_parts (h : pc < code.length)
    (h' : pc < (g.parts L cached code).blocks.length) :
    (g.parts L cached code).blocks[pc] = g.blockInstrs L cached code pc code[pc] := by
  simp [parts]

theorem start_parts (h : l ≤ code.length) :
    (g.parts L cached code).start l = g.label L cached code l := by
  induction l with
  | zero =>
    rw [← codeSize_prologueInstrs, Parts.start, List.take_zero, List.flatten_nil, List.append_nil,
      parts]
  | succ l ih =>
    have hlt : l < (g.parts L cached code).blocks.length := by rw [length_blocks_parts]; exact h
    rw [← g.label_add_codeSize L cached h, ← ih (by omega), Parts.start,
      List.take_succ_eq_append_getElem hlt, g.getElem_blocks_parts h, List.flatten_append,
      ← List.append_assoc, codeSize_append, List.flatten_singleton]
    rfl

end Generator

end Dyad.Native
