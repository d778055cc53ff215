import Dyad.Proofs.Native.Conduct
import Dyad.Proofs.Native.X64.Target

/-!
What the x86-64 blocks do. The block of an instruction that only changes registers and memory is one
instruction that changes what represents them (`update`); that of a print calls the print function
(`print`), and the call keeps everything (`call_keeps`). A branch tests its register and leads past
its block (`untaken`), to its target (`taken`), or, once recorded, to the epilogue (`stray`).
-/

namespace Dyad.X64

open Codegen (homes cellDisp block)
open Native (Runs Target callOf wordOfInt codeSize codeSize_cons codeSize_nil)
open Reg

-- the machine's words and bytes are of no interest here, only the lemmas about them
attribute [local irreducible] Ram.store32 Ram.store64 Native.RegFile.set Native.RegFile.set32

variable {host : Host} {L : Layout} {cached pc : Nat} {code : List Instruction}
  {entry c d : Cpu} {was m : Memory} {fault : UInt32 × UInt32} {rs : Registers} {s : State}
  {i : Instruction}

/-! ### Addresses -/

theorem base_of_framed (h : (target host).Framed L entry c.regs c.special c.ram) :
    c.regs.get rbp = L.memory :=
  h.fixed (rbp, fun L _ => L.memory) List.mem_cons_self

theorem stack_of_framed (h : (target host).Framed L entry c.regs c.special c.ram) :
    c.regs.get rsp = stackBase entry + UInt64.ofNat 8 :=
  h.fixed (rsp, _) (List.mem_cons_of_mem _ List.mem_cons_self)

/-- A displacement from the first cell leads to the cell it is meant for. -/
theorem address_cell (h : c.regs.get rbp = L.memory) (i : UInt16) :
    address c rbp (cellDisp i) = L.cell i := by
  have hi := i.toNat_lt
  have hdisp : (cellDisp i).toNat = 4 * i.toNat := by
    simp only [cellDisp, UInt32.toNat_mul, UInt16.toNat_toUInt32, UInt32.reduceToNat]
    omega
  have hsmall : cellDisp i < 0x80000000 := by
    rw [UInt32.lt_iff_toNat_lt, hdisp]
    exact Nat.lt_of_lt_of_le (Nat.mul_lt_mul_of_pos_left hi (by decide)) (by decide)
  rw [address, h, signExtend32, if_pos hsmall, Layout.cell, ← hdisp, UInt64.ofNat_uInt32ToNat]

/-- A displacement from the frame leads to the field it is meant for. -/
theorem address_field (h : c.regs.get rax = L.frame) {o : UInt32} (ho : o ∈ [0, 4, 8, 12]) :
    address c rax o = L.field o := by
  have hsmall : o < 0x80000000 := by
    rcases Layout.offset_cases ho with rfl | rfl | rfl | rfl <;> decide
  rw [address, h, signExtend32, if_pos hsmall, Layout.field]

/-- Such an access is one that a routine may make. -/
theorem granted_field {first : Nat} (h : c.regs.get rax = L.frame) {o : UInt32}
    (ho : o ∈ [0, 4, 8, 12]) :
    ∀ x ∈ [(address c rax o, 4)], L.Grants first (stackBase entry) 9 x := by
  intro x hx
  rw [List.mem_singleton.mp hx, address_field h ho]
  exact .field o ho

/-! ### Instructions that only change registers and memory -/

theorem update (size pc : Nat) (hS : (target host).Suits L cached entry)
    (h : (target host).Represents L cached entry was fault s.registers s.memory c.regs c.special
      c.ram) (hprint : i.opcode ≠ .print) (hjump : i.opcode ≠ .jumpIfNonZero) :
    ∃ is d, block L cached size pc i = is.map .instr ∧
      Runs (exec host) ((target host).Tame L entry cached) c is d ∧
      (target host).Represents L cached entry was fault (s.update i).registers (s.update i).memory
        d.regs d.special d.ram := by
  obtain ⟨op, r, n⟩ := i
  have hP := target_lawful host
  have hr : c.regs.get32 (homes.register r) = s.registers.get r := h.held r
  have silent {j : Instr} (hs : j.Straight) (ha : accesses c j = []) :
      Runs (exec host) ((target host).Tame L entry cached) c [j] ((target host).after c j) :=
    Target.runs_silent hP hs ha (.nil _)
  have hcell := address_cell (base_of_framed h.framed) n
  have atCell {j : Instr} (hn : cached ≤ n.toNat) (hs : j.Straight)
      (ha : accesses c j = [(address c rbp (cellDisp n), 4)]) :
      Runs (exec host) ((target host).Tame L entry cached) c [j] ((target host).after c j) := by
    refine Target.runs_cons hP hs (fun x hx => ?_) (.nil _)
    rw [List.mem_singleton.mp ((congrArg (x ∈ ·) ha).mp hx), hcell]
    exact .cell n hn
  cases op with
  | print => exact absurd rfl hprint
  | jumpIfNonZero => exact absurd rfl hjump
  | loadImmediate => exact ⟨[_], _, rfl, silent trivial rfl, h.setRegister hP r rfl⟩
  | addImmediate | subtractImmediate =>
    exact ⟨[_], _, rfl, silent trivial rfl, (h.setRegister hP r (by rw [hr]; rfl)).settle trivial⟩
  | loadMemory =>
    simp only [block]
    rcases Nat.lt_or_ge n.toNat cached with hn | hn
    · rw [homes.cell?_of_lt hn]
      exact ⟨[_], _, rfl, silent trivial rfl, h.setRegister hP r (h.cells n hn)⟩
    · rw [homes.cell?_of_le hn]
      exact ⟨[_], _, rfl, atCell hn trivial rfl,
        h.setRegister hP r (hcell ▸ h.load_cell hn)⟩
  | storeMemory =>
    simp only [block]
    rw [State.update, State.setMemory, State.register, ← hr]
    rcases Nat.lt_or_ge n.toNat cached with hn | hn
    · rw [homes.cell?_of_lt hn]
      exact ⟨[_], _, rfl, silent trivial rfl, h.setCached hP hS.cached_le hn _⟩
    · rw [homes.cell?_of_le hn]
      have hstore := h.storeCell hP hS.separate hn (c.regs.get32 (homes.register r))
      rw [← hcell] at hstore
      exact ⟨[_], _, rfl, atCell hn trivial rfl, hstore⟩
  | addMemory | subtractMemory =>
    simp only [block]
    rcases Nat.lt_or_ge n.toNat cached with hn | hn
    · rw [homes.cell?_of_lt hn]
      exact ⟨[_], _, rfl, silent trivial rfl,
        (h.setRegister hP r (by rw [hr, h.cells n hn]; rfl)).settle trivial⟩
    · rw [homes.cell?_of_le hn]
      exact ⟨[_], _, rfl, atCell hn trivial rfl,
        (h.setRegister hP r (by rw [hr, hcell, h.load_cell hn]; rfl)).settle trivial⟩

/-! ### Printing -/

/-- The instructions that prepare the call of a print. -/
def printSetup (L : Layout) (r : Register) : List Instr :=
  [.movAddress rdi L.frame, .movImm rsi (UInt32.ofNat r.index), .mov rdx (homes.register r),
    .movAddress rax L.print]

theorem runs_printSetup (host : Host) (L : Layout) (cached : Nat) (entry c : Cpu) (r : Register) :
    ∃ d, Runs (exec host) ((target host).Tame L entry cached) c (printSetup L r) d ∧
      d.regs = (target host).printRegs L r rax c.regs ∧ d.special = c.special ∧ d.ram = c.ram := by
  have hP := target_lawful host
  exact ⟨_, Target.runs_silent hP trivial rfl (Target.runs_silent hP trivial rfl
    (Target.runs_silent hP trivial rfl (Target.runs_silent hP trivial rfl (.nil _)))),
    rfl, rfl, rfl⟩

/-- A print calls the print function with the register's value. -/
theorem print (size pc : Nat)
    (h : (target host).Represents L cached entry was fault rs m c.regs c.special c.ram)
    (hop : i.opcode = .print) :
    ∃ is r d, block L cached size pc i = (is ++ [Instr.call r]).map .instr ∧
      Runs (exec host) ((target host).Tame L entry cached) c is d ∧ d.regs.get r = L.print ∧
      (target host).arguments d = callOf L ⟨i.register, rs.get i.register⟩ ∧
      (target host).Represents L cached entry was fault rs m d.regs d.special d.ram := by
  have hP := target_lawful host
  have hfresh : [rax, rdx, rsi, rdi].Nodup := by decide
  have hscratch : ∀ s ∈ [rax, rdx, rsi, rdi], s ∉ keptRegisters := by decide
  obtain ⟨d, hruns, hregs, hspecial, hram⟩ := runs_printSetup host L cached entry c i.register
  have hblock : block L cached size pc i =
      (printSetup L i.register ++ [Instr.call rax]).map .instr := by
    rw [block, hop]
    rfl
  exact ⟨printSetup L i.register, rax, d, hblock, hruns,
    h.ready_to_print hP hfresh hscratch i.register hregs hspecial hram⟩

/-- A call keeps everything: it changes scratch registers and writes below the stack pointer. -/
theorem call_keeps {r : Reg} {next : Nat} (hS : (target host).Suits L cached entry)
    (h : (target host).Represents L cached entry was fault rs m c.regs c.special c.ram)
    (hexec : exec host next c (.call r) = (d, .running)) :
    (∀ x ∈ accesses c (.call r), L.Grants cached (stackBase entry) 9 x) ∧
      (target host).Represents L cached entry was fault rs m d.regs d.special d.ram := by
  have hP := target_lawful host
  have hsp : c.regs.get rsp - 8 = stackBase entry + UInt64.ofNat (8 * 0) := by
    rw [stack_of_framed h.framed]
    exact (UInt64.add_sub_cancel _ _).trans (UInt64.add_zero _).symm
  constructor
  · intro x hx
    rw [List.mem_singleton.mp hx, hsp]
    exact .slot 0 (by decide)
  · rw [exec, call] at hexec
    split at hexec
    · cases hexec
      have hstore := h.store_stack hP hS.separate (show 0 < 2 by decide)
        (host.codeBase + next.toUInt64)
      rw [← hsp] at hstore
      have hkept : ∀ r ∈ keptRegisters, r ∉ callerSaved := by decide
      exact (hstore.congr hP fun r hr => Native.RegFile.get_trample _ _ (hkept r hr)).settle trivial
    · cases hexec

/-! ### Branches -/

/-- A register tested against itself sets the zero flag if its lower half is zero. -/
theorem after_test_zero (host : Host) (c : Cpu) (r : Reg) :
    ((target host).after c (.test r r)).special.zero = decide (c.regs.get32 r = 0) := by
  change decide ((c.regs.get32 r &&& c.regs.get32 r) = 0) = _
  rw [UInt32.and_self]

theorem tame_jump (c : Cpu) (cond : Cond) (rel : UInt32) :
    (target host).Tame L entry cached c (.jump cond rel) :=
  ⟨List.forall_mem_nil _, nofun, nofun⟩

/-- After the test the first jump of the block decides where to go. -/
theorem branches_of_test {l : Nat} {r : Reg} {cond : Cond} {rel : UInt32} {rest : List Instr}
    (hblock : codegen.blockInstrs L cached code pc i = .test r r :: .jump cond rel :: rest)
    (h : (target host).Represents L cached entry was fault rs m c.regs c.special c.ram)
    (hexec : ∀ d : Cpu, d.special.zero = decide (c.regs.get32 r = 0) →
      exec host (c.ip + codeSize [Instr.test r r, .jump cond rel]) d (.jump cond rel) =
        ({ d with ip := codegen.label L cached code l }, .running)) :
    ∃ d, (target host).Branches L cached code entry pc i c l d ∧
      (target host).Represents L cached entry was fault rs m d.regs d.special d.ram := by
  refine ⟨{ (target host).after c (.test r r) with ip := codegen.label L cached code l },
    ⟨[.test r r], .jump cond rel, rest, _, hblock,
      Target.runs_silent (target_lawful host) trivial rfl (.nil _), tame_jump _ cond rel, ?_, rfl⟩,
    h.settle trivial⟩
  have hjump := hexec _ (after_test_zero host c r)
  rwa [codeSize_cons, codeSize_cons, codeSize_nil, Nat.add_zero, ← Nat.add_assoc] at hjump

/-- A branch that is not taken leads past its block. -/
theorem untaken (hlt : s.pc < code.length) (hop : code[s.pc].opcode = .jumpIfNonZero)
    (hip : c.ip = codegen.label L cached code s.pc)
    (h : (target host).Represents L cached entry was fault s.registers s.memory c.regs c.special
      c.ram) (hz : s.register code[s.pc].register = 0) :
    ∃ d, (target host).Branches L cached code entry s.pc code[s.pc] c (s.pc + 1) d ∧
      (target host).Represents L cached entry was fault s.registers s.memory d.regs d.special
        d.ram := by
  have hzero : c.regs.get32 (homes.register code[s.pc].register) = 0 := (h.held _).trans hz
  by_cases hin : Execution.InRange (code[s.pc].branchTarget s.pc) code.length
  · have hblock := Codegen.blockInstrs_of_inRange L cached hlt hop hin
    have hend := codegen.label_add_codeSize L cached hlt
    rw [hblock, ← hip] at hend
    refine branches_of_test hblock h fun d hd => ?_
    rw [hend]
    exact exec_jump_of_not_holds host (by rw [hd, decide_eq_true hzero]; rfl) _ _
  · -- the record of the branch is skipped
    have hblock := Codegen.blockInstrs_of_outOfRange L cached hlt hop hin
    refine branches_of_test hblock h fun d hd => ?_
    rw [hip, Codegen.skipEnd_eq]
    exact exec_jump_of_holds host (by rw [hd, decide_eq_true hzero]; rfl)
      (Codegen.skip_reaches L cached hlt hop hin)

/-- A taken branch that stays in the program leads to its target. -/
theorem taken (hlt : s.pc < code.length) (hop : code[s.pc].opcode = .jumpIfNonZero)
    (hin : Execution.InRange (code[s.pc].branchTarget s.pc) code.length)
    (hip : c.ip = codegen.label L cached code s.pc)
    (h : (target host).Represents L cached entry was fault s.registers s.memory c.regs c.special
      c.ram) (hz : s.register code[s.pc].register ≠ 0) :
    ∃ d, (target host).Branches L cached code entry s.pc code[s.pc] c
        (code[s.pc].branchTarget s.pc).toNat d ∧
      (target host).Represents L cached entry was fault s.registers s.memory d.regs d.special
        d.ram := by
  have hzero : c.regs.get32 (homes.register code[s.pc].register) ≠ 0 :=
    fun h0 => hz ((h.held _).symm.trans h0)
  have hblock := Codegen.blockInstrs_of_inRange L cached hlt hop hin
  have hend := codegen.label_add_codeSize L cached hlt
  rw [hblock, ← hip] at hend
  refine branches_of_test hblock h fun d hd => ?_
  rw [hend]
  exact exec_jump_of_holds host (by rw [hd, decide_eq_false hzero]; rfl)
    (Codegen.branch_reaches L cached hlt hin)

/-- The test of a register that is not zero leads on to what it would skip otherwise. -/
theorem runs_unskipped (host : Host) (L : Layout) (cached : Nat) (entry : Cpu) {r : Reg}
    (hr : c.regs.get32 r ≠ 0) (rel : UInt32) :
    ∃ d, Runs (exec host) ((target host).Tame L entry cached) c [.test r r, .jump .zero rel] d ∧
      d.regs = c.regs ∧ d.ram = c.ram := by
  have hzero : Cond.zero.holds ((target host).after c (.test r r)).special.zero = false := by
    rw [Cond.holds, after_test_zero, decide_eq_false hr]
  exact ⟨_, Target.runs_silent (target_lawful host) trivial rfl
    (.one ⟨exec_jump_of_not_holds host hzero _ rel, rfl⟩ (tame_jump _ _ _)), rfl, rfl⟩

/-- The instructions that record a branch from `pc` out of the program. -/
def faultStub (L : Layout) (pc : Nat) (target : Int) : List Instr :=
  [.movAddress rax L.frame, .storeImm rax Layout.frameFaultPc (wordOfInt (pc + 1)),
    .storeImm rax Layout.frameFaultTarget (wordOfInt target)]

theorem runs_faultStub (host : Host) (L : Layout) (cached : Nat) (entry c : Cpu) (pc : Nat)
    (target : Int) :
    ∃ d, Runs (exec host) ((X64.target host).Tame L entry cached) c (faultStub L pc target) d ∧
      d.regs = c.regs.set rax L.frame ∧ d.special = c.special ∧
      d.ram = (c.ram.store32 (L.field Layout.frameFaultPc) (wordOfInt (pc + 1))).store32
        (L.field Layout.frameFaultTarget) (wordOfInt target) := by
  have hP := target_lawful host
  have hframe : (c.regs.set rax L.frame).get rax = L.frame := Native.RegFile.get_set_self _ _ _
  let framed := (X64.target host).after c (.movAddress rax L.frame)
  let located := (X64.target host).after framed
    (.storeImm rax Layout.frameFaultPc (wordOfInt (pc + 1)))
  have hpc : address framed rax Layout.frameFaultPc = L.field Layout.frameFaultPc :=
    address_field hframe (by decide)
  have htarget : address located rax Layout.frameFaultTarget = L.field Layout.frameFaultTarget :=
    address_field hframe (by decide)
  refine ⟨_, Target.runs_silent hP trivial rfl (Target.runs_cons hP trivial
    (granted_field (c := framed) hframe (by decide)) (Target.runs_cons hP trivial
    (granted_field (c := located) hframe (by decide)) (.nil _))), rfl, rfl, ?_⟩
  rw [← hpc, ← htarget]
  rfl

/-- A taken branch that leaves the program is recorded, and leads to the epilogue. -/
theorem stray (hlt : s.pc < code.length) (hS : (target host).Suits L cached entry)
    (hreach : Codegen.ExitsReach L cached code) (hop : code[s.pc].opcode = .jumpIfNonZero)
    (hout : ¬ Execution.InRange (code[s.pc].branchTarget s.pc) code.length)
    (hip : c.ip = codegen.label L cached code s.pc)
    (h : (target host).Represents L cached entry was fault s.registers s.memory c.regs c.special
      c.ram) (hz : s.register code[s.pc].register ≠ 0) :
    ∃ d, (target host).Branches L cached code entry s.pc code[s.pc] c code.length d ∧
      (target host).Represents L cached entry was
        (wordOfInt (s.pc + 1), wordOfInt (code[s.pc].branchTarget s.pc)) s.registers s.memory
        d.regs d.special d.ram := by
  have hP := target_lawful host
  have hzero : c.regs.get32 (homes.register code[s.pc].register) ≠ 0 :=
    fun h0 => hz ((h.held _).symm.trans h0)
  have hblock := Codegen.blockInstrs_of_outOfRange L cached hlt hop hout
  have hend := codegen.label_add_codeSize L cached hlt
  have hexit := hreach.reaches hlt hop hout
  rw [hblock, ← hip] at hend
  obtain ⟨d₁, hruns₁, hregs₁, hram₁⟩ := runs_unskipped host L cached entry hzero
    (wordOfInt (codegen.label L cached code (s.pc + 1) -
      Codegen.skipEnd L cached code s.pc code[s.pc].register))
  obtain ⟨d₂, hruns₂, hregs₂, hspecial₂, hram₂⟩ := runs_faultStub host L cached entry d₁ s.pc
    (code[s.pc].branchTarget s.pc)
  have hruns := hruns₁.append hruns₂
  refine ⟨{ d₂ with ip := codegen.label L cached code code.length },
    ⟨_, _, [], d₂, hblock, hruns, tame_jump _ _ _, ?_, rfl⟩, ?_⟩
  · have halways : Cond.always.holds d₂.special.zero = true := rfl
    refine exec_jump_of_holds host halways ?_
    rw [(hruns.ip_add_size _).trans hend]
    exact hexit
  · rw [hregs₂, hram₂, hregs₁, hram₁]
    exact ((h.storeFault hP hS.separate _ _).set_scratch hP (by decide : rax ∉ keptRegisters)
      _).settle trivial

end Dyad.X64
