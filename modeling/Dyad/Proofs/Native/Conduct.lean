import Dyad.Proofs.Native.Target

/-!
How a routine conducts itself at every step, whatever its memory held when it was called. `At`
relates a state of the program to a machine that stands at the block of that state, and `Sound`
lists what a target has to get right about its prologue, each kind of block and its epilogue. Then
every turn of the program is a run through one block (`At.crosses`), a branch that leaves the
program leads to the epilogue (`At.strays`), and the epilogue returns (`At.closes`); on the way
every instruction is carried out in the manner of a routine (`Conduct`).
-/

namespace Dyad.Native.Target

variable {R S I B : Type} [RegisterSet R] [InstructionSet I]

/-! ### Surroundings -/

section

variable (P : Target R S I B) (L : Layout) (cached : Nat) (code : List Instruction)
  (entry : Cpu R S)

/-- A layout, a number of cached cells and a stack that suit the code of a target. -/
structure Suits : Prop where
  cached_le : cached ≤ maxCachedCells
  print : P.print = L.print
  separate : L.Separate (P.stackBase entry) P.stackBytes

/-- The code of a program, called in surroundings that suit it. What memory holds does not
matter. -/
structure Called : Prop extends P.Suits L cached entry where
  size : (P.codegen.assemble L cached code).length < P.reach
  ip : entry.ip = 0

/-- One step in the code of a program. -/
abbrev stepIn : Cpu R S → Cpu R S × Status :=
  step P.exec (Image.ofBytes (P.codegen.assemble L cached code))

/-! ### One instruction -/

/-- An instruction that accesses no more than a routine may, and neither calls nor returns. Cells
from `first` on may be accessed. -/
structure Tame (first : Nat) (c : Cpu R S) (i : I) : Prop where
  accesses : ∀ x ∈ P.accesses c i, L.Grants first (P.stackBase entry) P.stackWords x
  not_call : ∀ r, i ≠ P.call r
  not_ret : i ≠ P.ret

/-- What is true of a routine entered in `entry` that is about to carry out an instruction, if cells
from `first` on may be accessed. -/
structure Conduct (first : Nat) (c : Cpu R S) (i : I) : Prop where
  accesses : ∀ x ∈ P.accesses c i, L.Grants first (P.stackBase entry) P.stackWords x
  calls : ∀ r, i = P.call r → c.regs.get r = L.print ∧ P.Framed L entry c.regs c.special c.ram ∧
    ∃ p, Printing (P.codegen.label L cached code) code c.ip p ∧
      P.arguments c = callOf L ⟨p, c.regs.get32 (P.homes.register p)⟩
  returns : i = P.ret → P.Restored entry c

/-- The instruction at hand is carried out in the manner of a routine. -/
abbrev Conforms (first : Nat) (c : Cpu R S) : Prop :=
  Has (P.Conduct L cached code entry first) (Image.ofBytes (P.codegen.assemble L cached code)) c

/-- The machine leaves the start of the block at `pc` and passes through the block to `d`. -/
abbrev Crosses (pc n : Nat) (c d : Cpu R S) : Prop :=
  Leap (P.stepIn L cached code)
    (fun e => e.ip = P.codegen.label L cached code pc ∧ P.Conforms L cached code entry cached e)
    (fun e => P.codegen.label L cached code pc < e.ip ∧
      e.ip < P.codegen.label L cached code (pc + 1) ∧ P.Conforms L cached code entry cached e)
    n c d

/-- The block at `pc`, which is that of `i`, leads from `c` to the label `l`: the last of its
instructions that are carried out goes there, and all the others go on. -/
def Branches (pc : Nat) (i : Instruction) (c : Cpu R S) (l : Nat) (d : Cpu R S) : Prop :=
  ∃ front j rest c', P.codegen.blockInstrs L cached code pc i = front ++ j :: rest ∧
    Runs P.exec (P.Tame L entry cached) c front c' ∧ P.Tame L entry cached c' j ∧
    P.exec (c'.ip + Native.size j) c' j = (d, .running) ∧ d.ip = P.codegen.label L cached code l

/-- The machine stands at the block of the state `s`, which it represents, and has printed `ps`. The
array has the cached cells as they `was`, and the frame records `fault`. -/
structure At (was : Memory) (fault : UInt32 × UInt32) (s : State) (ps : List Print)
    (c : Cpu R S) : Prop where
  pc_le : s.pc ≤ code.length
  ip : c.ip = P.codegen.label L cached code s.pc
  represents : P.Represents L cached entry was fault s.registers s.memory c.regs c.special c.ram
  calls : c.calls.toList = entry.calls.toList ++ ps.map (callOf L)

end

/-! ### What a target has to get right -/

/-- The code generator of a target does what the program says, and on the way accesses nothing but
the routine's own data. -/
structure Sound (P : Target R S I B) : Prop extends lawful : P.Lawful where
  legible : P.codegen.Legible
  exitsReach {L : Layout} {cached : Nat} {code : List Instruction} :
    (P.codegen.assemble L cached code).length < P.reach → P.ExitsReach L cached code
  length_lt {L : Layout} {cached : Nat} {code : List Instruction} :
    (P.codegen.assemble L cached code).length < P.reach → code.length < 0x7fff0000
  /-- The prologue represents cleared registers, and all of memory if the cached cells are zero. -/
  opens {L : Layout} {cached : Nat} {entry : Cpu R S} {was m : Memory} {fault : UInt32 × UInt32} :
    P.Suits L cached entry → (∀ i : UInt16, i.toNat < cached → m.get i = 0) →
    Holds L 0 cached was m fault entry.ram →
      ∃ is d, P.codegen.prologue L = is.map .instr ∧
        Runs P.exec (P.Tame L entry cached) entry is d ∧
        P.Represents L cached entry was fault {} m d.regs d.special d.ram
  /-- An instruction that only changes registers and memory changes what represents them. -/
  update {L : Layout} {cached : Nat} {entry c : Cpu R S} {was : Memory} {fault : UInt32 × UInt32}
    {s : State} {i : Instruction} (size pc : Nat) : P.Suits L cached entry →
    P.Represents L cached entry was fault s.registers s.memory c.regs c.special c.ram →
    i.opcode ≠ .print → i.opcode ≠ .jumpIfNonZero →
      ∃ is d, P.codegen.block L cached size pc i = is.map .instr ∧
        Runs P.exec (P.Tame L entry cached) c is d ∧
        P.Represents L cached entry was fault (s.update i).registers (s.update i).memory d.regs
          d.special d.ram
  /-- A print calls the print function with the register's value. -/
  print {L : Layout} {cached : Nat} {entry c : Cpu R S} {was m : Memory} {fault : UInt32 × UInt32}
    {rs : Registers} {i : Instruction} (size pc : Nat) : P.Suits L cached entry →
    P.Represents L cached entry was fault rs m c.regs c.special c.ram → i.opcode = .print →
      ∃ is r d, P.codegen.block L cached size pc i = (is ++ [P.call r]).map .instr ∧
        Runs P.exec (P.Tame L entry cached) c is d ∧ d.regs.get r = L.print ∧
        P.arguments d = callOf L ⟨i.register, rs.get i.register⟩ ∧
        P.Represents L cached entry was fault rs m d.regs d.special d.ram
  /-- A call keeps everything. -/
  call {L : Layout} {cached : Nat} {entry c d : Cpu R S} {was m : Memory}
    {fault : UInt32 × UInt32} {rs : Registers} {r : R} {next : Nat} : P.Suits L cached entry →
    P.Represents L cached entry was fault rs m c.regs c.special c.ram →
    P.exec next c (P.call r) = (d, .running) →
      (∀ x ∈ P.accesses c (P.call r), L.Grants cached (P.stackBase entry) P.stackWords x) ∧
        P.Represents L cached entry was fault rs m d.regs d.special d.ram
  /-- A branch that is not taken leads past its block. -/
  untaken {L : Layout} {cached : Nat} {code : List Instruction} {entry c : Cpu R S} {was : Memory}
    {fault : UInt32 × UInt32} {s : State} (hlt : s.pc < code.length) :
    code[s.pc].opcode = .jumpIfNonZero → c.ip = P.codegen.label L cached code s.pc →
    P.Represents L cached entry was fault s.registers s.memory c.regs c.special c.ram →
    s.register code[s.pc].register = 0 →
      ∃ d, P.Branches L cached code entry s.pc code[s.pc] c (s.pc + 1) d ∧
        P.Represents L cached entry was fault s.registers s.memory d.regs d.special d.ram
  /-- A taken branch that stays in the program leads to its target. -/
  taken {L : Layout} {cached : Nat} {code : List Instruction} {entry c : Cpu R S} {was : Memory}
    {fault : UInt32 × UInt32} {s : State} (hlt : s.pc < code.length) :
    code[s.pc].opcode = .jumpIfNonZero →
    Execution.InRange (code[s.pc].branchTarget s.pc) code.length →
    c.ip = P.codegen.label L cached code s.pc →
    P.Represents L cached entry was fault s.registers s.memory c.regs c.special c.ram →
    s.register code[s.pc].register ≠ 0 →
      ∃ d, P.Branches L cached code entry s.pc code[s.pc] c
          (code[s.pc].branchTarget s.pc).toNat d ∧
        P.Represents L cached entry was fault s.registers s.memory d.regs d.special d.ram
  /-- A taken branch that leaves the program is recorded, and leads to the epilogue. -/
  stray {L : Layout} {cached : Nat} {code : List Instruction} {entry c : Cpu R S} {was : Memory}
    {fault : UInt32 × UInt32} {s : State} (hlt : s.pc < code.length) : P.Suits L cached entry →
    P.ExitsReach L cached code → code[s.pc].opcode = .jumpIfNonZero →
    ¬ Execution.InRange (code[s.pc].branchTarget s.pc) code.length →
    c.ip = P.codegen.label L cached code s.pc →
    P.Represents L cached entry was fault s.registers s.memory c.regs c.special c.ram →
    s.register code[s.pc].register ≠ 0 →
      ∃ d, P.Branches L cached code entry s.pc code[s.pc] c code.length d ∧
        P.Represents L cached entry was
          (wordOfInt (s.pc + 1), wordOfInt (code[s.pc].branchTarget s.pc)) s.registers s.memory
          d.regs d.special d.ram
  /-- The epilogue hands back what is represented, restores what was saved and returns. -/
  closes {L : Layout} {cached : Nat} {entry c : Cpu R S} {was m : Memory} {fault : UInt32 × UInt32}
    {rs : Registers} : P.Suits L cached entry →
    P.Represents L cached entry was fault rs m c.regs c.special c.ram →
      ∃ is d, P.codegen.epilogue L cached = (is ++ [P.ret]).map .instr ∧
        Runs P.exec (P.Tame L entry 0) c is d ∧ Closing L cached cached rs was m fault d.ram ∧
        P.Restored entry d ∧
        (∀ x ∈ P.accesses d P.ret, L.Grants 0 (P.stackBase entry) P.stackWords x) ∧
        ∀ next, ∃ e a, P.exec next d P.ret = (e, .returned a) ∧ e.ram = d.ram

variable {P : Target R S I B} {L : Layout} {cached first pc n : Nat} {code : List Instruction}
  {entry c d : Cpu R S} {was : Memory} {fault : UInt32 × UInt32} {s t : State} {ps : List Print}
  {i : I} {is : List I}

namespace Tame

theorem conduct (h : P.Tame L entry first c i) : P.Conduct L cached code entry first c i :=
  ⟨h.accesses, fun r hr => absurd hr (h.not_call r), fun hr => absurd hr h.not_ret⟩

theorem of_straight (hP : P.Lawful) (hs : P.Straight i)
    (ha : ∀ x ∈ P.accesses c i, L.Grants first (P.stackBase entry) P.stackWords x) :
    P.Tame L entry first c i :=
  ⟨ha, fun r hr => hP.call_not_straight r (hr ▸ hs), fun hr => hP.ret_not_straight (hr ▸ hs)⟩

end Tame

/-- The machine after an instruction at the current position. -/
def after (P : Target R S I B) (c : Cpu R S) (i : I) : Cpu R S :=
  (P.exec (c.ip + Native.size i) c i).1

/-- An instruction without branches is carried out where it stands. -/
theorem runs_cons (hP : P.Lawful) (hs : P.Straight i)
    (ha : ∀ x ∈ P.accesses c i, L.Grants first (P.stackBase entry) P.stackWords x)
    (rest : Runs P.exec (P.Tame L entry first) (P.after c i) is d) :
    Runs P.exec (P.Tame L entry first) c (i :: is) d := by
  obtain ⟨e, hexec, hip, -⟩ := hP.straight (c.ip + Native.size i) c hs
  rw [after, hexec] at rest
  exact .cons ⟨hexec, hip⟩ (.of_straight hP hs ha) rest

/-- Such an instruction that does not access memory. -/
theorem runs_silent (hP : P.Lawful) (hs : P.Straight i) (ha : P.accesses c i = [])
    (rest : Runs P.exec (P.Tame L entry first) (P.after c i) is d) :
    Runs P.exec (P.Tame L entry first) c (i :: is) d :=
  runs_cons hP hs (ha ▸ List.forall_mem_nil _) rest

theorem Tame.calls_eq (hP : P.Lawful) (h : P.Tame L entry first c i) (next : Nat) :
    (P.exec next c i).1.calls = c.calls := by
  rcases hP.calls_cases next c i with heq | ⟨r, hr, -⟩
  · exact heq
  · exact absurd hr (h.not_call r)

theorem calls_of_runs (hP : P.Lawful) (h : Runs P.exec (P.Tame L entry first) c is d) :
    d.calls = c.calls := by
  refine h.keeps (P := fun c d => d.calls = c.calls) (fun _ => rfl)
    (fun h h' => h'.trans h) ?_
  intro c d i tame goes
  have heq := tame.calls_eq hP (c.ip + Native.size i)
  rwa [goes.exec_eq] at heq

theorem conduct_of_runs (cached : Nat) (code : List Instruction)
    (h : Runs P.exec (P.Tame L entry first) c is d) :
    Runs P.exec (P.Conduct L cached code entry first) c is d :=
  h.mono fun _ _ tame => tame.conduct

namespace At

/-- The block of the state stands at the current position. -/
theorem codeAt_block (hP : P.Sound) (h : P.At L cached code entry was fault s ps c)
    (hlt : s.pc < code.length) {is : List I}
    (his : P.codegen.blockInstrs L cached code s.pc code[s.pc] = is) :
    CodeAt (P.codegen.assemble L cached code) c.ip is ∧
      c.ip + codeSize is = P.codegen.label L cached code (s.pc + 1) := by
  rw [← his, h.ip]
  exact ⟨P.codegen.codeAt_block hP.legible L cached hlt, P.codegen.label_add_codeSize L cached hlt⟩

/-- All but the last instruction of a block are carried out one after another. -/
theorem crosses_of_runs (hP : P.Sound) (h : P.At L cached code entry was fault s ps c)
    (hlt : s.pc < code.length) {j : I} {rest : List I} {e : Cpu R S}
    (hblock : P.codegen.blockInstrs L cached code s.pc code[s.pc] = is ++ j :: rest)
    (hruns : Runs P.exec (P.Tame L entry cached) c is d)
    (here : P.Conduct L cached code entry cached d j)
    (hexec : P.exec (d.ip + Native.size j) d j = (e, .running)) :
    P.Crosses L cached code entry s.pc is.length c e := by
  obtain ⟨hcode, hend⟩ := h.codeAt_block hP hlt hblock
  refine ((conduct_of_runs cached code hruns).leap_step hcode here hexec).mono ?_ ?_
  · rintro e ⟨hip, he⟩
    exact ⟨hip.trans h.ip, he⟩
  · rintro e ⟨hlo, hhi, he⟩
    rw [h.ip] at hlo
    exact ⟨hlo, hend ▸ hhi, he⟩

theorem crosses_of_branches (hP : P.Sound) (h : P.At L cached code entry was fault s ps c)
    (hlt : s.pc < code.length) {l : Nat}
    (hbranch : P.Branches L cached code entry s.pc code[s.pc] c l d) :
    ∃ n, n < (P.codegen.block L cached code.length s.pc code[s.pc]).length ∧
      P.Crosses L cached code entry s.pc n c d ∧ d.ip = P.codegen.label L cached code l ∧
      d.calls = c.calls := by
  obtain ⟨front, j, rest, c', hblock, hruns, tame, hexec, hip⟩ := hbranch
  have hcalls := tame.calls_eq hP.lawful (c'.ip + Native.size j)
  rw [hexec] at hcalls
  refine ⟨front.length, ?_, h.crosses_of_runs hP hlt hblock hruns tame.conduct hexec, hip,
    hcalls.trans (calls_of_runs hP.lawful hruns)⟩
  rw [← P.codegen.length_linkAll (P.codegen.label L cached code)
    (P.codegen.label L cached code s.pc), ← Generator.blockInstrs, hblock]
  simp

/-! ### Blocks -/

/-- An instruction that only changes registers and memory leads to the next block. -/
theorem crosses_update (hP : P.Sound) (hS : P.Suits L cached entry)
    (h : P.At L cached code entry was fault s ps c) (hlt : s.pc < code.length)
    (hprint : code[s.pc].opcode ≠ .print) (hjump : code[s.pc].opcode ≠ .jumpIfNonZero) :
    ∃ n d, n < (P.codegen.block L cached code.length s.pc code[s.pc]).length ∧
      P.Crosses L cached code entry s.pc n c d ∧
      P.At L cached code entry was fault (s.update code[s.pc]).next ps d := by
  obtain ⟨is, d, hops, hruns, hrep⟩ := hP.update code.length s.pc hS h.represents hprint hjump
  have hblock : P.codegen.blockInstrs L cached code s.pc code[s.pc] = is :=
    P.codegen.blockInstrs_of_straight hops
  obtain ⟨hcode, hend⟩ := h.codeAt_block hP hlt hblock
  have hcalls := calls_of_runs hP.lawful hruns
  have hpc : (s.update code[s.pc]).next.pc = s.pc + 1 := by rw [State.next, State.update_pc]
  have hat : P.At L cached code entry was fault (s.update code[s.pc]).next ps d :=
    ⟨hpc ▸ hlt, by rw [hruns.ip_eq, hend, hpc], hrep, hcalls ▸ h.calls⟩
  cases is with
  | nil => exact absurd hops (P.codegen.block_ne_nil L cached code.length s.pc code[s.pc])
  | cons i is =>
    refine ⟨is.length, d, by rw [hops]; simp,
      ((conduct_of_runs cached code hruns).leap hcode).mono ?_ ?_, hat⟩
    · rintro e ⟨hip, he⟩
      exact ⟨hip.trans h.ip, he⟩
    · rintro e ⟨hlo, hhi, he⟩
      rw [h.ip] at hlo
      exact ⟨hlo, hend ▸ hhi, he⟩

/-- A print calls the print function from its own block. -/
theorem crosses_print (hP : P.Sound) (hS : P.Suits L cached entry)
    (h : P.At L cached code entry was fault s ps c) (hlt : s.pc < code.length)
    (hop : code[s.pc].opcode = .print) :
    ∃ n d, n < (P.codegen.block L cached code.length s.pc code[s.pc]).length ∧
      P.Crosses L cached code entry s.pc n c d ∧
      P.At L cached code entry was fault s.next
        (ps ++ [⟨code[s.pc].register, s.register code[s.pc].register⟩]) d := by
  obtain ⟨is, r, d, hops, hruns, hr, harguments, hrep⟩ :=
    hP.print code.length s.pc hS h.represents hop
  have hblock : P.codegen.blockInstrs L cached code s.pc code[s.pc] = is ++ [P.call r] :=
    P.codegen.blockInstrs_of_straight hops
  obtain ⟨-, hend⟩ := h.codeAt_block hP hlt hblock
  obtain ⟨e, hexec, hip, hcalls⟩ :=
    hP.called (d.ip + Native.size (P.call r)) (hr.trans hS.print.symm)
  obtain ⟨haccesses, hrep'⟩ := hP.call hS hrep hexec
  have hpos := Native.size_pos (P.call r)
  rw [codeSize_append, codeSize_cons, codeSize_nil] at hend
  have hd := hruns.ip_eq
  have hstart := h.ip
  have here : P.Conduct L cached code entry cached d (P.call r) := by
    refine ⟨haccesses, fun r' hr' => ⟨?_, hrep.framed, code[s.pc].register,
      ⟨s.pc, hlt, hop, rfl, by omega, by omega⟩, ?_⟩, fun hret => ?_⟩
    · rw [← hP.call_injective hr', hr]
    · rw [harguments, hrep.held]
    · exact absurd hret (hP.call_ne_ret r)
  refine ⟨is.length, e, ?_, h.crosses_of_runs hP hlt hblock hruns here hexec, hlt, ?_, hrep', ?_⟩
  · rw [hops]
    simp
  · change e.ip = P.codegen.label L cached code (s.pc + 1)
    omega
  · rw [hcalls, Array.toList_push, harguments, calls_of_runs hP.lawful hruns, h.calls,
      List.map_append, List.append_assoc]
    rfl

/-- A turn of the program that goes onward is a run through one block. -/
theorem crosses (hP : P.Sound) (hS : P.Suits L cached entry)
    (h : P.At L cached code entry was fault s ps c) {p : Option Print}
    (hturn : s.turn code = .onward p t) :
    ∃ n d, (∃ hlt : s.pc < code.length,
        n < (P.codegen.block L cached code.length s.pc code[s.pc]).length) ∧
      P.Crosses L cached code entry s.pc n c d ∧
      P.At L cached code entry was fault t (ps ++ p.toList) d := by
  have hlt := State.pc_lt_of_onward hturn
  obtain ⟨i, hi, hcases⟩ := State.onward_cases hturn
  rw [List.getElem?_eq_getElem hlt, Option.some.injEq] at hi
  subst hi
  obtain ⟨hop, rfl, rfl⟩ | ⟨hop, hz, rfl, rfl⟩ | ⟨hop, hz, hin, rfl, rfl⟩ |
    ⟨hprint, hjump, rfl, rfl⟩ := hcases
  · obtain ⟨n, d, hn, hcross, hd⟩ := h.crosses_print hP hS hlt hop
    exact ⟨n, d, ⟨hlt, hn⟩, hcross, hd⟩
  · rw [Option.toList_none, List.append_nil]
    obtain ⟨d, hbranch, hrep⟩ := hP.untaken hlt hop h.ip h.represents hz
    obtain ⟨n, hn, hcross, hip, hcalls⟩ := h.crosses_of_branches hP hlt hbranch
    exact ⟨n, d, ⟨hlt, hn⟩, hcross, hlt, hip, hrep, hcalls ▸ h.calls⟩
  · rw [Option.toList_none, List.append_nil]
    obtain ⟨d, hbranch, hrep⟩ := hP.taken hlt hop hin h.ip h.represents hz
    obtain ⟨n, hn, hcross, hip, hcalls⟩ := h.crosses_of_branches hP hlt hbranch
    refine ⟨n, d, ⟨hlt, hn⟩, hcross, ?_, hip, hrep, hcalls ▸ h.calls⟩
    have := hin.2
    simp only
    omega
  · rw [Option.toList_none, List.append_nil]
    obtain ⟨n, d, hn, hcross, hd⟩ := h.crosses_update hP hS hlt hprint hjump
    exact ⟨n, d, ⟨hlt, hn⟩, hcross, hd⟩

/-- A branch that leaves the program leads to its end, with the branch on record. -/
theorem strays (hP : P.Sound) (hS : P.Suits L cached entry)
    (hreach : P.ExitsReach L cached code) (h : P.At L cached code entry was fault s ps c)
    {target : Int} (hturn : s.turn code = .astray target) :
    ∃ n d, (∃ hlt : s.pc < code.length,
        n < (P.codegen.block L cached code.length s.pc code[s.pc]).length) ∧
      P.Crosses L cached code entry s.pc n c d ∧
      P.At L cached code entry was (wordOfInt (s.pc + 1), wordOfInt target)
        { s with pc := code.length } ps d := by
  have hlt := State.pc_lt_of_astray hturn
  obtain ⟨i, hi, hop, hne, rfl, hout⟩ := State.astray_iff.mp hturn
  rw [List.getElem?_eq_getElem hlt, Option.some.injEq] at hi
  subst hi
  obtain ⟨d, hbranch, hrep⟩ := hP.stray hlt hS hreach hop hout h.ip h.represents hne
  obtain ⟨n, hn, hcross, hip, hcalls⟩ := h.crosses_of_branches hP hlt hbranch
  exact ⟨n, d, ⟨hlt, hn⟩, hcross, Nat.le_refl _, hip, hrep, hcalls ▸ h.calls⟩

end At

/-! ### Prologue and epilogue -/

/-- The prologue leads to the first block, with all of memory if the cached cells are zero. -/
theorem Suits.opens (hP : P.Sound) (hS : P.Suits L cached entry) (hip : entry.ip = 0) {m : Memory}
    (hm : ∀ i : UInt16, i.toNat < cached → m.get i = 0)
    (hdata : Holds L 0 cached was m fault entry.ram) (code : List Instruction) :
    ∃ d, Passage (P.stepIn L cached code)
        (fun e => e.ip < P.codegen.label L cached code 0 ∧
          P.Conforms L cached code entry cached e)
        (P.codegen.prologue L).length entry d ∧
      P.At L cached code entry was fault { memory := m } [] d := by
  obtain ⟨is, d, hops, hruns, hrep⟩ := hP.opens hS hm hdata
  have his : P.codegen.prologueInstrs L cached code = is := by
    rw [Generator.prologueInstrs, hops, P.codegen.linkAll_map_instr]
  have hcode := P.codegen.codeAt_prologue hP.legible L cached code
  have hsize := P.codegen.codeSize_prologueInstrs L cached code
  rw [his] at hcode hsize
  have hend := hruns.ip_eq
  rw [hip, Nat.zero_add, hsize] at hend
  rw [← hip] at hcode
  have hpass := (conduct_of_runs cached code hruns).passage hcode
  rw [hip, Nat.zero_add, hsize] at hpass
  rw [hops, List.length_map]
  refine ⟨d, hpass.mono fun e he => he.2, Nat.zero_le _, hend, hrep, ?_⟩
  rw [calls_of_runs hP.lawful hruns, List.map_nil, List.append_nil]

/-- The epilogue hands back the state and returns. -/
theorem At.closes (hP : P.Sound) (hS : P.Suits L cached entry)
    (h : P.At L cached code entry was fault s ps c) (hend : s.pc = code.length) :
    ∃ n d e a, n + 1 = (P.codegen.epilogue L cached).length ∧
      Passage (P.stepIn L cached code)
        (fun e => P.codegen.label L cached code code.length ≤ e.ip ∧
          P.Conforms L cached code entry 0 e) n c d ∧
      (P.codegen.label L cached code code.length ≤ d.ip ∧ P.Conforms L cached code entry 0 d) ∧
      P.stepIn L cached code d = (e, .returned a) ∧
      Closing L cached cached s.registers was s.memory fault e.ram ∧
      e.calls.toList = entry.calls.toList ++ ps.map (callOf L) := by
  obtain ⟨is, d, hops, hruns, hclosing, hrestored, haccesses, hret⟩ := hP.closes hS h.represents
  obtain ⟨e, a, hexec, hram⟩ := hret (d.ip + Native.size P.ret)
  have his : P.codegen.epilogueInstrs L cached code = is ++ [P.ret] := by
    rw [Generator.epilogueInstrs, hops, P.codegen.linkAll_map_instr]
  have hip := h.ip
  rw [hend] at hip
  have hcode := P.codegen.codeAt_epilogue hP.legible L cached code
  rw [his, ← hip] at hcode
  have hright := hcode.right
  rw [← hruns.ip_eq] at hright
  have hlast : P.codegen.label L cached code code.length ≤ d.ip := by
    rw [hruns.ip_eq, hip]
    exact Nat.le_add_right _ _
  have here : P.Conduct L cached code entry 0 d P.ret :=
    ⟨haccesses, fun r hr => absurd hr.symm (hP.call_ne_ret r), fun _ => hrestored⟩
  have hcalls : e.calls = d.calls := by
    rcases hP.calls_cases (d.ip + Native.size P.ret) d P.ret with heq | ⟨r, hr, -⟩
    · rwa [hexec] at heq
    · exact absurd hr.symm (hP.call_ne_ret r)
  refine ⟨is.length, d, e, a, ?_, ?_, ⟨hlast, P.ret, current_of_codeAt hright, here⟩,
    (step_of_codeAt P.exec hright).trans hexec, hram ▸ hclosing, ?_⟩
  · rw [hops]
    simp
  · exact ((conduct_of_runs cached code hruns).passage hcode.left).mono
      fun e he => ⟨hip ▸ he.1, he.2.2⟩
  · rw [hcalls, calls_of_runs hP.lawful hruns, h.calls]

/-! ### Code for prologues and epilogues -/

/-- Registers are cleared one after another, if `clear` clears a single one. -/
theorem runs_clear [DecidableEq R] {clear : R → I} {Q : S → Prop}
    (hclear : ∀ (c : Cpu R S) (r : R), Q c.special →
      ∃ d, Runs P.exec (P.Tame L entry first) c [clear r] d ∧ d.regs = c.regs.set32 r 0 ∧
        Q d.special ∧ d.ram = c.ram) (hc : Q c.special) (rs : List R) :
    ∃ d, Runs P.exec (P.Tame L entry first) c (rs.map clear) d ∧ Q d.special ∧ d.ram = c.ram ∧
      (∀ r ∈ rs, d.regs.get32 r = 0) ∧ ∀ r ∉ rs, d.regs.get r = c.regs.get r := by
  induction rs generalizing c with
  | nil => exact ⟨c, .nil c, hc, rfl, nofun, fun _ _ => rfl⟩
  | cons r rs ih =>
    obtain ⟨d, hone, hregs, hd, hram⟩ := hclear c r hc
    obtain ⟨e, hruns, he, hram', hzero, hkeep⟩ := ih hd
    refine ⟨e, hone.append hruns, he, hram'.trans hram, fun s hs => ?_, fun s hs => ?_⟩
    · by_cases hmem : s ∈ rs
      · exact hzero s hmem
      · cases (List.mem_cons.mp hs).resolve_right hmem
        rw [RegFile.get32, hkeep r hmem, hregs]
        exact (RegFile.get32_set32 _ _ _ _).trans (if_pos rfl)
    · rw [List.mem_cons, not_or] at hs
      rw [hkeep s hs.2, hregs, RegFile.get_set32_of_ne _ (Ne.symm hs.1)]

/-- The cached cells are copied to memory one after another, if `store` copies a single one. -/
theorem runs_writeBack (hP : P.Lawful) (hS : P.Suits L cached entry) {store : Nat → I}
    (hstore : ∀ (i : UInt16) (c : Cpu R S), i.toNat < cached →
      P.Framed L entry c.regs c.special c.ram →
        ∃ d, Runs P.exec (P.Tame L entry 0) c [store i.toNat] d ∧ d.regs = c.regs ∧
          d.special = c.special ∧
          d.ram = c.ram.store32 (L.cell i) (c.regs.get32 (P.homes.cell i.toNat)))
    {written n : Nat} (hn : written + n = cached) {rs : Registers} {m : Memory}
    (hcells : ∀ i : UInt16, i.toNat < cached → c.regs.get32 (P.homes.cell i.toNat) = m.get i)
    (framed : P.Framed L entry c.regs c.special c.ram)
    (h : Closing L written cached rs was m fault c.ram) :
    ∃ d, Runs P.exec (P.Tame L entry 0) c ((List.range' written n).map store) d ∧
      P.Framed L entry d.regs d.special d.ram ∧ Closing L cached cached rs was m fault d.ram := by
  induction n generalizing c written with
  | zero => exact ⟨c, .nil c, framed, hn ▸ h⟩
  | succ n ih =>
    have hlt : written < 65536 := by
      have hk := hS.cached_le
      rw [maxCachedCells] at hk
      omega
    obtain ⟨i, rfl⟩ : ∃ i : UInt16, i.toNat = written :=
      ⟨UInt16.ofNat written, UInt16.toNat_ofNat_of_lt' hlt⟩
    have hi : i.toNat < cached := by omega
    obtain ⟨d, hone, hregs, hspecial, hram⟩ := hstore i c hi framed
    have hframed := framed.store_apart hP (cell_apart_stack hS.separate i) (m.get i)
    have hclosing := h.write_back hS.separate
    rw [hcells i hi] at hram
    rw [← hregs, ← hspecial, ← hram] at hframed
    rw [← hram] at hclosing
    obtain ⟨e, hruns, he⟩ := ih (by omega) (hregs ▸ hcells) hframed hclosing
    rw [List.range'_succ, List.map_cons]
    exact ⟨e, hone.append hruns, he⟩

end Dyad.Native.Target
