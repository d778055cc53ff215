import Dyad.Proofs.Native.Conduct
import Dyad.Proofs.Native.Arm64.Stream
import Dyad.Proofs.Native.Arm64.Target

/-!
What the ARM64 blocks do. Immediates and cells that are not cached go through a scratch register
(`loadScratch`), and the rest of a block without branches changes what represents the registers and
memory (`update`). A print calls the print function (`print`), and the call keeps everything
(`call_keeps`). A branch leads past its block (`untaken`), to its target (`taken`), or, once
recorded, to the epilogue (`stray`).
-/

namespace Dyad.Arm64

open Codegen (homes memoryBase frameBase scratch callee block loadAddressInstrs loadWordInstrs
  storeAtInstr faultStub)
open Native (Alu Runs Target callOf wordOfInt)
open Reg

-- the machine's words and bytes are of no interest here, only the lemmas about them
attribute [local irreducible] Ram.store32 Ram.store64 Native.RegFile.set Native.RegFile.set32
  setField

variable {host : Host} {L : Layout} {cached first pc : Nat} {code : List Instruction}
  {entry c d : Cpu} {was m : Memory} {fault : UInt32 × UInt32} {rs : Registers} {s : State}
  {i : Instruction}

/-! ### Addresses -/

theorem base_of_framed (h : (target host).Framed L entry c.regs c.special c.ram) :
    c.regs.get memoryBase = L.memory :=
  h.fixed (memoryBase, fun L _ => L.memory) List.mem_cons_self

theorem frame_of_framed (h : (target host).Framed L entry c.regs c.special c.ram) :
    c.regs.get frameBase = L.frame :=
  h.fixed (frameBase, fun L _ => L.frame) (List.mem_cons_of_mem _ List.mem_cons_self)

/-- An index in a register leads to the cell it is meant for. -/
theorem address_index (L : Layout) (i : UInt16) :
    L.memory + 4 * i.toUInt32.toUInt64 = L.cell i := by
  rw [Layout.cell, UInt16.toUInt64_toUInt32, UInt64.ofNat_mul, UInt64.ofNat_uInt16ToNat]
  rfl

/-- The offset of a store counts in words. -/
theorem offset_storeAt {o : UInt32} (hsmall : o.toNat < 0x4000) (hdvd : 4 ∣ o.toNat) :
    4 * (BitVec.ofNat 12 (o.toNat / 4)).toNat.toUInt64 = o.toUInt64 := by
  apply UInt64.toNat_inj.mp
  have hlt := o.toNat_lt
  obtain ⟨k, hk⟩ := hdvd
  simp only [BitVec.toNat_ofNat, UInt64.toNat_mul, UInt32.toNat_toUInt64, UInt64.reduceToNat,
    Nat.toUInt64, UInt64.toNat_ofNat']
  omega

/-! ### Instructions that only change registers and memory -/

theorem toUInt32_setField (imm : UInt16) : (setField 0 .q0 imm).toUInt32 = imm.toUInt32 := by
  rw [setField_zero, UInt16.toUInt32_toUInt64]

/-- A constant in the lowest field is the whole register, in both widths. -/
theorem regs_after_movz (host : Host) (c : Cpu) (wide : Bool) (dst : Reg) (imm : UInt16) :
    ((target host).after c (.movz wide dst imm .q0)).regs = c.regs.set32 dst imm.toUInt32 := by
  cases wide with
  | false =>
    change c.regs.set32 dst (setField 0 .q0 imm).toUInt32 = _
    rw [toUInt32_setField]
  | true =>
    change c.regs.set dst (setField 0 .q0 imm) = _
    rw [setField_zero, Native.RegFile.set32, UInt16.toUInt64_toUInt32]

/-- An immediate goes to the scratch register, which counts for nothing else. -/
theorem loadScratch (host : Host) (wide : Bool) (n : UInt16)
    (h : (target host).Represents L cached entry was fault rs m c.regs c.special c.ram) :
    ∃ d, Runs (exec host) ((target host).Tame L entry cached) c [.movz wide scratch n .q0] d ∧
      (target host).Represents L cached entry was fault rs m d.regs d.special d.ram ∧
      d.regs.get32 scratch = n.toUInt32 ∧
      d.regs.get memoryBase + 4 * d.regs.get scratch = L.cell n := by
  have hP := target_lawful host
  have hscratch : scratch ∉ keptRegisters := by decide
  have hrep := h.set32_scratch hP hscratch n.toUInt32
  refine ⟨_, Target.runs_silent hP trivial rfl (.nil _), ?_⟩
  rw [regs_after_movz]
  refine ⟨hrep, ?_, ?_⟩
  · rw [Native.RegFile.get32_set32, if_pos rfl]
  · have hbase : (c.regs.set32 scratch n.toUInt32).get memoryBase = L.memory :=
      (Native.RegFile.get_set32_of_ne _ (by decide) _).trans (base_of_framed h.framed)
    rw [hbase, Native.RegFile.set32, Native.RegFile.get_set_self, address_index]

/-- An instruction that accesses no more than the cell whose index is in the scratch register. -/
theorem runs_atCell {n : UInt16} {j : Instr} (hn : first ≤ n.toNat)
    (haddress : c.regs.get memoryBase + 4 * c.regs.get scratch = L.cell n) (hs : j.Straight)
    (ha : accesses c j = [(c.regs.get memoryBase + 4 * c.regs.get scratch, 4)]) :
    Runs (exec host) ((target host).Tame L entry first) c [j] ((target host).after c j) := by
  refine Target.runs_cons (target_lawful host) hs (fun x hx => ?_) (.nil _)
  rw [List.mem_singleton.mp ((congrArg (x ∈ ·) ha).mp hx), haddress]
  exact .cell n hn

theorem runs_aluCell (op : Alu) (r : Register) (n : UInt16)
    (h : (target host).Represents L cached entry was fault rs m c.regs c.special c.ram) :
    ∃ is d, Codegen.aluCell cached op (homes.register r) n = is.map .instr ∧
      Runs (exec host) ((target host).Tame L entry cached) c is d ∧
      (target host).Represents L cached entry was fault
        (rs.set r (op.apply32 (rs.get r) (m.get n))) m d.regs d.special d.ram := by
  have hP := target_lawful host
  rw [Codegen.aluCell]
  rcases Nat.lt_or_ge n.toNat cached with hn | hn
  · rw [homes.cell?_of_lt hn]
    exact ⟨[_], _, rfl, Target.runs_silent hP trivial rfl (.nil _),
      h.setRegister hP r (by rw [h.held r, h.cells n hn])⟩
  · rw [homes.cell?_of_le hn]
    obtain ⟨d, hload, hrep, -, haddress⟩ := loadScratch host true n h
    let loaded := (target host).after d (.loadScaled scratch memoryBase scratch)
    let sum : Instr := .alu op (homes.register r) (homes.register r) scratch
    have hcell : Runs (exec host) ((target host).Tame L entry cached) d
        [.loadScaled scratch memoryBase scratch] loaded := runs_atCell hn haddress trivial rfl
    have hsum : Runs (exec host) ((target host).Tame L entry cached) loaded [sum]
        ((target host).after loaded sum) := Target.runs_silent hP trivial rfl (.nil _)
    have hscratch : scratch ∉ keptRegisters := by decide
    have hloaded : (target host).Represents L cached entry was fault rs m loaded.regs
        loaded.special loaded.ram := hrep.set32_scratch hP hscratch _
    have hvalue : loaded.regs.get32 scratch = m.get n := by
      rw [← hrep.load_cell hn, ← haddress]
      exact (Native.RegFile.get32_set32 d.regs scratch scratch _).trans (if_pos rfl)
    exact ⟨[_, _, _], _, rfl, (hload.append hcell).append hsum,
      hloaded.setRegister hP r (by rw [hloaded.held r, hvalue])⟩

theorem update (size pc : Nat) (hS : (target host).Suits L cached entry)
    (h : (target host).Represents L cached entry was fault s.registers s.memory c.regs c.special
      c.ram) (hprint : i.opcode ≠ .print) (hjump : i.opcode ≠ .jumpIfNonZero) :
    ∃ is d, block L cached size pc i = is.map .instr ∧
      Runs (exec host) ((target host).Tame L entry cached) c is d ∧
      (target host).Represents L cached entry was fault (s.update i).registers (s.update i).memory
        d.regs d.special d.ram := by
  obtain ⟨op, r, n⟩ := i
  have hP := target_lawful host
  have silent {c : Cpu} {j : Instr} (hs : j.Straight) (ha : accesses c j = []) :
      Runs (exec host) ((target host).Tame L entry cached) c [j] ((target host).after c j) :=
    Target.runs_silent hP hs ha (.nil _)
  cases op with
  | print => exact absurd rfl hprint
  | jumpIfNonZero => exact absurd rfl hjump
  | loadImmediate =>
    exact ⟨[_], _, rfl, silent trivial rfl, h.setRegister hP r (toUInt32_setField n)⟩
  | addImmediate | subtractImmediate =>
    obtain ⟨d, hload, hrep, hn, -⟩ := loadScratch host false n h
    exact ⟨[_, _], _, rfl, hload.append (silent trivial rfl),
      hrep.setRegister hP r (by rw [hrep.held r, hn]; rfl)⟩
  | loadMemory =>
    simp only [block]
    rcases Nat.lt_or_ge n.toNat cached with hn | hn
    · rw [homes.cell?_of_lt hn]
      exact ⟨[_], _, rfl, silent trivial rfl, h.setRegister hP r (h.cells n hn)⟩
    · rw [homes.cell?_of_le hn]
      obtain ⟨d, hload, hrep, -, haddress⟩ := loadScratch host true n h
      exact ⟨[_, _], _, rfl, hload.append (runs_atCell hn haddress trivial rfl),
        hrep.setRegister hP r (haddress ▸ hrep.load_cell hn)⟩
  | storeMemory =>
    simp only [block]
    rw [State.update, State.setMemory, State.register]
    rcases Nat.lt_or_ge n.toNat cached with hn | hn
    · rw [homes.cell?_of_lt hn, ← h.held r]
      exact ⟨[_], _, rfl, silent trivial rfl, h.setCached hP hS.cached_le hn _⟩
    · rw [homes.cell?_of_le hn]
      obtain ⟨d, hload, hrep, -, haddress⟩ := loadScratch host true n h
      have hstore := hrep.storeCell hP hS.separate hn (d.regs.get32 (homes.register r))
      rw [← haddress] at hstore
      rw [← hrep.held r]
      exact ⟨[_, _], _, rfl, hload.append (runs_atCell hn haddress trivial rfl), hstore⟩
  | addMemory => exact runs_aluCell .add r n h
  | subtractMemory => exact runs_aluCell .sub r n h

/-! ### Constants -/

theorem tame_of_fills {dst : Reg} {j : Instr} (h : j.Fills dst) :
    (target host).Tame L entry first c j := by
  obtain ⟨wide, imm, field, rfl | rfl⟩ := h
  · exact ⟨List.forall_mem_nil _, nofun, nofun⟩
  · exact ⟨List.forall_mem_nil _, nofun, nofun⟩

/-- Instructions that load a constant are such as a routine may carry out. -/
theorem Loads.runs {dst : Reg} {v : UInt64} {is : List Instr} (h : Loads dst v is) (host : Host)
    (L : Layout) (entry : Cpu) (first : Nat) (c : Cpu) :
    ∃ d, Runs (exec host) ((target host).Tame L entry first) c is d ∧
      d.regs = c.regs.set dst v ∧ d.special = c.special ∧ d.ram = c.ram :=
  ⟨_, (h host c).mono fun _ _ hfills => tame_of_fills hfills, rfl, rfl, rfl⟩

/-! ### Printing -/

/-- The instructions that prepare the call of a print. -/
def printSetup (L : Layout) (r : Register) : List Instr :=
  [.mov true x0 frameBase, .movz false x1 (UInt16.ofNat r.index) .q0,
    .mov false x2 (homes.register r)] ++ loadAddressInstrs callee L.print

theorem runs_printSetup (host : Host) (cached : Nat) (entry : Cpu) (r : Register)
    (hframe : c.regs.get frameBase = L.frame) :
    ∃ d, Runs (exec host) ((target host).Tame L entry cached) c (printSetup L r) d ∧
      d.regs = (target host).printRegs L r callee c.regs ∧ d.special = c.special ∧
      d.ram = c.ram := by
  have hP := target_lawful host
  have hindex : (UInt16.ofNat r.index).toUInt32 = UInt32.ofNat r.index := by cases r <;> rfl
  let framed := (target host).after c (.mov true x0 frameBase)
  let indexed := (target host).after framed (.movz false x1 (UInt16.ofNat r.index) .q0)
  let valued := (target host).after indexed (.mov false x2 (homes.register r))
  have hindexed : indexed.regs = (c.regs.set x0 L.frame).set32 x1 (UInt32.ofNat r.index) := by
    rw [regs_after_movz, hindex, ← hframe]
    rfl
  have hvalued : valued.regs = indexed.regs.set32 x2 (indexed.regs.get32 (homes.register r)) := rfl
  have harguments : Runs (exec host) ((target host).Tame L entry cached) c
      [.mov true x0 frameBase, .movz false x1 (UInt16.ofNat r.index) .q0,
        .mov false x2 (homes.register r)] valued :=
    Target.runs_silent hP trivial rfl (Target.runs_silent hP trivial rfl
      (Target.runs_silent hP trivial rfl (.nil _)))
  obtain ⟨d, hload, hregs, hspecial, hram⟩ :=
    (Codegen.loads_address callee L.print).runs host L entry cached valued
  refine ⟨d, harguments.append hload, ?_, hspecial, hram⟩
  rw [hregs, hvalued, hindexed]
  rfl

/-- A print calls the print function with the register's value. -/
theorem print (size pc : Nat)
    (h : (target host).Represents L cached entry was fault rs m c.regs c.special c.ram)
    (hop : i.opcode = .print) :
    ∃ is r d, block L cached size pc i = (is ++ [Instr.call r]).map .instr ∧
      Runs (exec host) ((target host).Tame L entry cached) c is d ∧ d.regs.get r = L.print ∧
      (target host).arguments d = callOf L ⟨i.register, rs.get i.register⟩ ∧
      (target host).Represents L cached entry was fault rs m d.regs d.special d.ram := by
  have hP := target_lawful host
  have hfresh : [callee, x2, x1, x0].Nodup := by decide
  have hscratch : ∀ s ∈ [callee, x2, x1, x0], s ∉ keptRegisters := by decide
  obtain ⟨d, hruns, hregs, hspecial, hram⟩ :=
    runs_printSetup host cached entry i.register (frame_of_framed h.framed)
  have hblock : block L cached size pc i =
      (printSetup L i.register ++ [Instr.call callee]).map .instr := by
    rw [block, hop]
    rfl
  exact ⟨printSetup L i.register, callee, d, hblock, hruns,
    h.ready_to_print hP hfresh hscratch i.register hregs hspecial hram⟩

/-- A call changes only registers that do not count. -/
theorem call_keeps {r : Reg} {next : Nat}
    (h : (target host).Represents L cached entry was fault rs m c.regs c.special c.ram)
    (hexec : exec host next c (.call r) = (d, .running)) :
    (∀ x ∈ accesses c (.call r), L.Grants cached (stackBase entry) 10 x) ∧
      (target host).Represents L cached entry was fault rs m d.regs d.special d.ram := by
  refine ⟨List.forall_mem_nil _, ?_⟩
  rw [exec] at hexec
  split at hexec
  · cases hexec
    have hkept : ∀ r ∈ keptRegisters, r ∉ callerSaved := by decide
    exact h.congr (target_lawful host) fun r hr => Native.RegFile.get_trample _ _ (hkept r hr)
  · cases hexec

/-! ### Branches -/

theorem tame_branch (far : BitVec 26) : (target host).Tame L entry first c (.branch far) :=
  ⟨List.forall_mem_nil _, nofun, nofun⟩

theorem tame_branchIfZero (r : Reg) (near : BitVec 19) :
    (target host).Tame L entry first c (.branchIfZero r near) :=
  ⟨List.forall_mem_nil _, nofun, nofun⟩

/-- A branch goes on with the rest of its block if the register is not zero. -/
theorem runs_unskipped (host : Host) (L : Layout) (entry : Cpu) (first : Nat) {r : Reg}
    (hr : c.regs.get32 r ≠ 0) (near : BitVec 19) :
    ∃ d, Runs (exec host) ((target host).Tame L entry first) c [.branchIfZero r near] d ∧
      d.regs = c.regs ∧ d.special = c.special ∧ d.ram = c.ram :=
  ⟨_, .one ⟨exec_branchIfZero_of_ne host _ hr, rfl⟩ (tame_branchIfZero r near), rfl, rfl, rfl⟩

/-- The block of a branch starts with a branch past it. -/
theorem blockInstrs_of_jump (L : Layout) (cached : Nat) (hlt : pc < code.length)
    (hop : code[pc].opcode = .jumpIfNonZero) :
    ∃ near rest, codegen.blockInstrs L cached code pc code[pc] =
        .branchIfZero (homes.register code[pc].register) near :: rest ∧
      (codegen.label L cached code pc : Int) + 4 * near.toInt =
        codegen.label L cached code (pc + 1) := by
  by_cases hin : Execution.InRange (code[pc].branchTarget pc) code.length
  · obtain ⟨near, far, hblock, hnear, -⟩ := Codegen.blockInstrs_of_inRange L cached hlt hop hin
    exact ⟨near, _, hblock, hnear⟩
  · obtain ⟨near, hblock, hnear⟩ := Codegen.blockInstrs_of_outOfRange L cached hlt hop hin
    exact ⟨near, _, hblock, hnear⟩

/-- A branch that is not taken leads past its block. -/
theorem untaken (hlt : s.pc < code.length) (hop : code[s.pc].opcode = .jumpIfNonZero)
    (hip : c.ip = codegen.label L cached code s.pc)
    (h : (target host).Represents L cached entry was fault s.registers s.memory c.regs c.special
      c.ram) (hz : s.register code[s.pc].register = 0) :
    ∃ d, (target host).Branches L cached code entry s.pc code[s.pc] c (s.pc + 1) d ∧
      (target host).Represents L cached entry was fault s.registers s.memory d.regs d.special
        d.ram := by
  have hzero : c.regs.get32 (homes.register code[s.pc].register) = 0 := (h.held _).trans hz
  obtain ⟨near, rest, hblock, hnear⟩ := blockInstrs_of_jump L cached hlt hop
  rw [← hip] at hnear
  exact ⟨{ c with ip := codegen.label L cached code (s.pc + 1) },
    ⟨[], _, rest, c, hblock, .nil c, tame_branchIfZero _ near,
      exec_branchIfZero_of_eq host _ hzero hnear, rfl⟩, h⟩

/-- A taken branch that stays in the program leads to its target. -/
theorem taken (hlt : s.pc < code.length) (hop : code[s.pc].opcode = .jumpIfNonZero)
    (hin : Execution.InRange (code[s.pc].branchTarget s.pc) code.length)
    (hip : c.ip = codegen.label L cached code s.pc)
    (h : (target host).Represents L cached entry was fault s.registers s.memory c.regs c.special
      c.ram) (hz : s.register code[s.pc].register ≠ 0) :
    ∃ d, (target host).Branches L cached code entry s.pc code[s.pc] c
        (code[s.pc].branchTarget s.pc).toNat d ∧
      (target host).Represents L cached entry was fault s.registers s.memory d.regs d.special
        d.ram := by
  have hzero : c.regs.get32 (homes.register code[s.pc].register) ≠ 0 :=
    fun h0 => hz ((h.held _).symm.trans h0)
  obtain ⟨near, far, hblock, -, hfar⟩ :=
    Codegen.blockInstrs_of_inRange L cached hlt hop hin
  obtain ⟨d, hruns, hregs, hspecial, hram⟩ := runs_unskipped host L entry cached hzero near
  have hd : d.ip = codegen.label L cached code s.pc + 4 := hip ▸ hruns.ip_eq
  rw [← hd] at hfar
  refine ⟨{ d with ip := codegen.label L cached code (code[s.pc].branchTarget s.pc).toNat },
    ⟨[_], _, [], d, hblock, hruns, tame_branch far, exec_branch host (d.ip + 4) hfar, rfl⟩, ?_⟩
  rw [hregs, hspecial, hram]
  exact h

/-- A store at an offset, if it is one that a routine may make. -/
theorem runs_storeAt (host : Host) {a : UInt64} {src base : Reg} {o : UInt32}
    (ha : c.regs.get base + 4 * (BitVec.ofNat 12 (o.toNat / 4)).toNat.toUInt64 = a)
    (hgrant : L.Grants first (stackBase entry) 10 (a, 4)) :
    ∃ d, Runs (exec host) ((target host).Tame L entry first) c [storeAtInstr src base o] d ∧
      d.regs = c.regs ∧ d.special = c.special ∧
      d.ram = c.ram.store32 a (c.regs.get32 src) := by
  refine ⟨_, Target.runs_cons (target_lawful host) trivial (fun x hx => ?_) (.nil _), rfl, rfl, ?_⟩
  · rw [List.mem_singleton.mp hx, ha]
    exact hgrant
  · rw [← ha]
    rfl

theorem runs_storeField (host : Host) (entry : Cpu) (first : Nat) (src : Reg) {o : UInt32}
    (ho : o ∈ [0, 4, 8, 12]) (hframe : c.regs.get frameBase = L.frame) :
    ∃ d, Runs (exec host) ((target host).Tame L entry first) c [storeAtInstr src frameBase o] d ∧
      d.regs = c.regs ∧ d.special = c.special ∧
      d.ram = c.ram.store32 (L.field o) (c.regs.get32 src) := by
  refine runs_storeAt host ?_ (.field o ho)
  rw [hframe, offset_storeAt, Layout.field] <;>
    rcases Layout.offset_cases ho with rfl | rfl | rfl | rfl <;> decide

/-- A word is recorded in a field of the frame by way of the scratch register. -/
theorem runs_record (host : Host) (entry : Cpu) (first : Nat) (v : UInt32) {o : UInt32}
    (ho : o ∈ [0, 4, 8, 12]) (hframe : c.regs.get frameBase = L.frame) :
    ∃ d, Runs (exec host) ((target host).Tame L entry first) c
        (loadWordInstrs scratch v ++ [storeAtInstr scratch frameBase o]) d ∧
      d.regs = c.regs.set32 scratch v ∧ d.special = c.special ∧
      d.ram = c.ram.store32 (L.field o) v := by
  obtain ⟨d, hload, hregs, hspecial, hram⟩ :=
    (Codegen.loads_word scratch v).runs host L entry first c
  rw [← Native.RegFile.set32] at hregs
  have hframe' : d.regs.get frameBase = L.frame := by
    rw [hregs, Native.RegFile.get_set32_of_ne _ (by decide), hframe]
  have hvalue : d.regs.get32 scratch = v := by
    rw [hregs]
    exact (Native.RegFile.get32_set32 c.regs scratch scratch v).trans (if_pos rfl)
  obtain ⟨e, hstore, hregs', hspecial', hram'⟩ :=
    runs_storeField host entry first scratch ho hframe'
  exact ⟨e, hload.append hstore, hregs'.trans hregs, hspecial'.trans hspecial,
    by rw [hram', hvalue, hram]⟩

theorem runs_faultStub (host : Host) (entry : Cpu) (first pc : Nat) (target : Int)
    (hframe : c.regs.get frameBase = L.frame) :
    ∃ d, Runs (exec host) ((Arm64.target host).Tame L entry first) c (faultStub pc target) d ∧
      d.regs = (c.regs.set32 scratch (wordOfInt (pc + 1))).set32 scratch (wordOfInt target) ∧
      d.special = c.special ∧
      d.ram = (c.ram.store32 (L.field Layout.frameFaultPc) (wordOfInt (pc + 1))).store32
        (L.field Layout.frameFaultTarget) (wordOfInt target) := by
  obtain ⟨d₁, hruns₁, hregs₁, hspecial₁, hram₁⟩ := runs_record host entry first
    (wordOfInt (pc + 1)) (by decide : Layout.frameFaultPc ∈ [0, 4, 8, 12]) hframe
  have hframe₁ : d₁.regs.get frameBase = L.frame := by
    rw [hregs₁, Native.RegFile.get_set32_of_ne _ (by decide), hframe]
  obtain ⟨d₂, hruns₂, hregs₂, hspecial₂, hram₂⟩ := runs_record host entry first
    (wordOfInt target) (by decide : Layout.frameFaultTarget ∈ [0, 4, 8, 12]) hframe₁
  refine ⟨d₂, ?_, hregs₂.trans (hregs₁ ▸ rfl), hspecial₂.trans hspecial₁,
    hram₂.trans (hram₁ ▸ rfl)⟩
  rw [faultStub, List.append_assoc]
  exact hruns₁.append hruns₂

/-- A taken branch that leaves the program is recorded, and leads to the epilogue. -/
theorem stray (hlt : s.pc < code.length) (hS : (target host).Suits L cached entry)
    (hreach : Codegen.ExitsReach L cached code) (hop : code[s.pc].opcode = .jumpIfNonZero)
    (hout : ¬ Execution.InRange (code[s.pc].branchTarget s.pc) code.length)
    (hip : c.ip = codegen.label L cached code s.pc)
    (h : (target host).Represents L cached entry was fault s.registers s.memory c.regs c.special
      c.ram) (hz : s.register code[s.pc].register ≠ 0) :
    ∃ d, (target host).Branches L cached code entry s.pc code[s.pc] c code.length d ∧
      (target host).Represents L cached entry was
        (wordOfInt (s.pc + 1), wordOfInt (code[s.pc].branchTarget s.pc)) s.registers s.memory
        d.regs d.special d.ram := by
  have hP := target_lawful host
  have hzero : c.regs.get32 (homes.register code[s.pc].register) ≠ 0 :=
    fun h0 => hz ((h.held _).symm.trans h0)
  obtain ⟨near, hblock, -⟩ :=
    Codegen.blockInstrs_of_outOfRange L cached hlt hop hout
  have hexit := hreach s.pc hlt hop hout
  obtain ⟨d₁, hruns₁, hregs₁, hspecial₁, hram₁⟩ := runs_unskipped host L entry cached hzero near
  obtain ⟨d₂, hruns₂, hregs₂, hspecial₂, hram₂⟩ := runs_faultStub (L := L) (c := d₁) host entry
    cached s.pc (code[s.pc].branchTarget s.pc) (hregs₁ ▸ frame_of_framed h.framed)
  have hruns := hruns₁.append hruns₂
  have hd : d₂.ip = codegen.label L cached code s.pc + 28 := hip ▸ hruns.ip_eq
  rw [← hd] at hexit
  refine ⟨{ d₂ with ip := codegen.label L cached code code.length },
    ⟨_, _, [], d₂, hblock, hruns, tame_branch _,
      exec_branch host (d₂.ip + 4) hexit, rfl⟩, ?_⟩
  rw [hregs₂, hspecial₂, hram₂, hregs₁, hspecial₁, hram₁]
  have hscratch : scratch ∉ keptRegisters := by decide
  exact ((h.storeFault hP hS.separate _ _).set32_scratch hP hscratch _).set32_scratch hP hscratch _

end Dyad.Arm64
