import Dyad.Proofs.Native.Conformance
import Dyad.Proofs.Native.Arm64.Blocks

/-!
Into an ARM64 routine and out of it. The prologue saves what the caller must get back, two
registers at a time, and clears the registers of the program (`opens`); the epilogue writes the
result to memory, restores what was saved and returns (`closes`). With the blocks this is all that
the target has to get right (`target_sound`), so its routines keep the calling convention
(`keepsConvention`).
-/

namespace Dyad.Arm64

open Codegen (homes memoryBase frameBase loadAddressInstrs storeAtInstr)
open Native (Closing Holds Printing Runs Steps Target callOf current step)
open Ram (StackHolds)
open Reg

attribute [local irreducible] Ram.store32 Ram.store64 Native.RegFile.set Native.RegFile.set32
  setField

variable {host : Host} {L : Layout} {cached first q : Nat} {code : List Instruction}
  {entry c : Cpu} {was m : Memory} {fault : UInt32 × UInt32} {rs : Registers}

/-! ### Prologue -/

/-- Two words on top of each other are two slots of the stack. -/
theorem granted_pair {sp : UInt64} (hsp : sp = stackBase entry + UInt64.ofNat (8 * q))
    (hq : q + 2 ≤ 10) : ∀ x ∈ [(sp, 8), (sp + 8, 8)], L.Grants first (stackBase entry) 10 x := by
  intro x hx
  rcases List.mem_cons.mp hx with rfl | hx
  · rw [hsp]
    exact .slot q (by omega)
  · have hupper : sp + 8 = stackBase entry + UInt64.ofNat (8 * (q + 1)) := by
      rw [hsp, UInt64.add_assoc, Nat.mul_succ, UInt64.ofNat_add]
      rfl
    rw [List.mem_singleton.mp hx, hupper]
    exact .slot (q + 1) (by omega)

/-- The instructions that push pairs of registers. -/
def pushInstrs (pairs : List (Reg × Reg)) : List Instr :=
  pairs.map fun pair => .pushPair pair.1 pair.2

/-- Pushed pairs lie above where the stack pointer gets to, the last one first. -/
theorem runs_push (hS : (target host).Suits L cached entry) (v : Reg → UInt64)
    (pairs : List (Reg × Reg)) (ws : List UInt64)
    (hv : ∀ r ∈ registersOf pairs, c.regs.get r = v r)
    (hsp : c.special.sp = stackBase entry + UInt64.ofNat (8 * (q + 2 * pairs.length)))
    (hroom : q + 2 * pairs.length + ws.length ≤ 10)
    (hdata : Holds L 0 cached was m fault c.ram) (hws : StackHolds c.ram c.special.sp ws) :
    ∃ d, Runs (exec host) ((target host).Tame L entry cached) c (pushInstrs pairs) d ∧
      d.regs = c.regs ∧ d.special.sp = stackBase entry + UInt64.ofNat (8 * q) ∧
      Holds L 0 cached was m fault d.ram ∧
      StackHolds d.ram d.special.sp ((registersOf pairs.reverse).map v ++ ws) := by
  induction pairs generalizing c ws with
  | nil => exact ⟨c, .nil c, rfl, hsp, hdata, hws⟩
  | cons pair pairs ih =>
    obtain ⟨first, second⟩ := pair
    rw [List.length_cons] at hsp hroom
    let d := (target host).after c (.pushPair first second)
    have hsp' : c.special.sp - 16 =
        stackBase entry + UInt64.ofNat (8 * (q + 2 * pairs.length)) := by
      rw [hsp, show 8 * (q + 2 * (pairs.length + 1)) = 8 * (q + 2 * pairs.length) + 16 by omega,
        UInt64.ofNat_add, ← UInt64.add_assoc]
      exact UInt64.add_sub_cancel _ _
    have hupper : c.special.sp - 16 + 8 =
        stackBase entry + UInt64.ofNat (8 * (q + 2 * pairs.length) + 8) := by
      rw [hsp', UInt64.add_assoc, UInt64.ofNat_add (8 * (q + 2 * pairs.length))]
      rfl
    have hdata' : Holds L 0 cached was m fault d.ram := by
      have hL : L.Separate (stackBase entry) 80 := hS.separate
      have hstore := (hdata.store_stack hL
        (show 8 * (q + 2 * pairs.length) + 8 ≤ 80 by omega) (c.regs.get first)).store_stack hL
        (show 8 * (q + 2 * pairs.length) + 8 + 8 ≤ 80 by omega) (c.regs.get second)
      rw [← hupper, ← hsp'] at hstore
      exact hstore
    have hpush : StackHolds d.ram d.special.sp (v first :: v second :: ws) := by
      rw [← hv first (by simp [registersOf]), ← hv second (by simp [registersOf])]
      exact hws.push_pair _ _ (by omega)
    have hv' : ∀ r ∈ registersOf pairs, d.regs.get r = v r :=
      fun r hr => hv r (List.mem_cons_of_mem _ (List.mem_cons_of_mem _ hr))
    obtain ⟨e, hruns, hregs, hend, hdata, hws⟩ := ih (v first :: v second :: ws) hv' hsp'
      (by simp only [List.length_cons]; omega) hdata' hpush
    refine ⟨e, Target.runs_cons (target_lawful host) trivial (granted_pair hsp' (by omega)) hruns,
      hregs, hend, hdata, ?_⟩
    rw [List.reverse_cons, registersOf, List.flatMap_append, List.map_append, List.append_assoc]
    exact hws

/-- A register is cleared, and the stack pointer stays where it is. -/
theorem runs_movz (host : Host) (L : Layout) (cached : Nat) (entry : Cpu) {sp : UInt64}
    (c : Cpu) (r : Reg) (hsp : c.special.sp = sp) :
    ∃ d, Runs (exec host) ((target host).Tame L entry cached) c [.movz false r 0 .q0] d ∧
      d.regs = c.regs.set32 r 0 ∧ d.special.sp = sp ∧ d.ram = c.ram :=
  ⟨_, Target.runs_silent (target_lawful host) trivial rfl (.nil _),
    regs_after_movz host c false r 0, hsp, rfl⟩

/-- The prologue after its pushes. -/
def settingInstrs (L : Layout) : List Instr :=
  homeRegisters.map (fun r => .movz false r 0 .q0) ++
    (loadAddressInstrs memoryBase L.memory ++ loadAddressInstrs frameBase L.frame)

theorem prologue_eq (L : Layout) :
    Codegen.prologue L = (pushInstrs [(x29, x30)] ++ (Instr.moveFromSp x29 ::
      (pushInstrs savedPairs.tail ++ settingInstrs L))).map .instr :=
  rfl

/-- Once the registers are pushed, the rest of the prologue clears the home registers and fixes the
two bases. -/
theorem runs_settingInstrs (host : Host) (L : Layout) (cached : Nat)
    (hsp : c.special.sp = stackBase entry)
    (hsaved : StackHolds c.ram c.special.sp (savedWords entry)) :
    ∃ d, Runs (exec host) ((target host).Tame L entry cached) c (settingInstrs L) d ∧
      d.ram = c.ram ∧ (∀ r ∈ homeRegisters, d.regs.get32 r = 0) ∧
      (target host).Framed L entry d.regs d.special d.ram := by
  obtain ⟨c₁, hclear, hsp₁, hram₁, hzero, -⟩ := Target.runs_clear (P := target host)
    (Q := fun special => special.sp = stackBase entry)
    (fun c r hc => runs_movz host L cached entry c r hc) hsp homeRegisters
  obtain ⟨c₂, hmemory, hregs₂, hspecial₂, hram₂⟩ :=
    (Codegen.loads_address memoryBase L.memory).runs host L entry cached c₁
  obtain ⟨c₃, hframe, hregs₃, hspecial₃, hram₃⟩ :=
    (Codegen.loads_address frameBase L.frame).runs host L entry cached c₂
  have hram : c₃.ram = c.ram := hram₃.trans (hram₂.trans hram₁)
  refine ⟨c₃, hclear.append (hmemory.append hframe), hram, fun r hr => ?_, fun x hx => ?_, ?_, ?_⟩
  · have hne₂ := ne_of_mem_of_not_mem hr (by decide : memoryBase ∉ homeRegisters)
    have hne₃ := ne_of_mem_of_not_mem hr (by decide : frameBase ∉ homeRegisters)
    rw [hregs₃, Native.RegFile.get32_set_of_ne _ hne₃.symm, hregs₂,
      Native.RegFile.get32_set_of_ne _ hne₂.symm, hzero r hr]
  · rcases List.mem_cons.mp hx with rfl | hx
    · rw [hregs₃, Native.RegFile.get_set_of_ne _ (by decide : frameBase ≠ memoryBase), hregs₂,
        Native.RegFile.get_set_self]
    · rw [List.mem_singleton.mp hx, hregs₃, Native.RegFile.get_set_self]
  · exact (congrArg Special.sp (hspecial₃.trans hspecial₂)).trans hsp₁
  · rw [hsp, ← hram] at hsaved
    change StackHolds c₃.ram (stackBase entry + 0) _
    rw [UInt64.add_zero]
    exact hsaved

/-- The prologue represents cleared registers, and all of memory if the cached cells are zero. -/
theorem opens (hS : (target host).Suits L cached entry)
    (hm : ∀ i : UInt16, i.toNat < cached → m.get i = 0)
    (hdata : Holds L 0 cached was m fault entry.ram) :
    ∃ is d, Codegen.prologue L = is.map .instr ∧
      Runs (exec host) ((target host).Tame L entry cached) entry is d ∧
      (target host).Represents L cached entry was fault {} m d.regs d.special d.ram := by
  have hbase : entry.special.sp = stackBase entry + UInt64.ofNat (8 * (8 + 2 * 1)) :=
    (UInt64.sub_add_cancel _ _).symm
  obtain ⟨c, hpush, hregs, hsp, hdata, hsaved⟩ := runs_push hS entry.regs.get [(x29, x30)] []
    (fun _ _ => rfl) hbase (by decide) hdata trivial
  let c₁ := (target host).after c (.moveFromSp x29)
  have hget : ∀ r ∈ registersOf savedPairs.tail, c₁.regs.get r = entry.regs.get r := by
    intro r hr
    have hne : x29 ≠ r := by
      rintro rfl
      exact absurd hr (by decide)
    rw [← hregs]
    exact Native.RegFile.get_set_of_ne c.regs hne c.special.sp
  obtain ⟨c₂, hpush₂, -, hsp₂, hdata₂, hsaved₂⟩ := runs_push (c := c₁) (q := 0) hS entry.regs.get
    savedPairs.tail [entry.regs.get x29, entry.regs.get x30] hget hsp (Nat.le_refl 10) hdata hsaved
  obtain ⟨d, hset, hram, hclear, framed⟩ := runs_settingInstrs host L cached
    (hsp₂.trans (UInt64.add_zero _)) hsaved₂
  refine ⟨_, d, prologue_eq L, hpush.append (Target.runs_silent (target_lawful host) trivial rfl
    (hpush₂.append hset)), fun r => ?_, fun i hi => ?_, framed, hram ▸ hdata₂⟩
  · rw [hclear _ (register_mem r)]
    cases r <;> rfl
  · rw [hclear _ (cell_mem _), hm i hi]

/-! ### Epilogue -/

/-- The instructions that hand back the registers. -/
def handBackInstrs : List Instr :=
  [storeAtInstr x19 frameBase Layout.frameA, storeAtInstr x20 frameBase Layout.frameB]

/-- The instruction that copies a cached cell to memory. -/
def writeBackInstr (cell : Nat) : Instr :=
  storeAtInstr (homes.cell cell) memoryBase (4 * UInt32.ofNat cell)

/-- The instructions that pop pairs of registers. -/
def popInstrs (pairs : List (Reg × Reg)) : List Instr :=
  pairs.map fun pair => .popPair pair.1 pair.2

/-- The epilogue up to its return. -/
def closingInstrs (cached : Nat) : List Instr :=
  handBackInstrs ++ ((List.range' 0 cached).map writeBackInstr ++ popInstrs savedPairs.reverse)

theorem epilogue_eq (L : Layout) (hk : cached ≤ maxCachedCells) :
    Codegen.epilogue L cached = (closingInstrs cached ++ [Instr.ret]).map .instr := by
  rw [Codegen.epilogue, Codegen.writeBack, Nat.min_eq_left hk, List.range_eq_range', closingInstrs]
  simp only [List.map_append, List.map_map, List.append_assoc]
  rfl

/-- The registers go to the frame first. -/
theorem handBack (hS : (target host).Suits L cached entry)
    (h : (target host).Represents L cached entry was fault rs m c.regs c.special c.ram) :
    ∃ d, Runs (exec host) ((target host).Tame L entry 0) c handBackInstrs d ∧ d.regs = c.regs ∧
      (target host).Framed L entry d.regs d.special d.ram ∧
      Closing L 0 cached rs was m fault d.ram := by
  have hP := target_lawful host
  have hframe := frame_of_framed h.framed
  have ha : c.regs.get32 x19 = rs.a := h.held .a
  have hb : c.regs.get32 x20 = rs.b := h.held .b
  obtain ⟨d₁, hruns₁, hregs₁, hspecial₁, hram₁⟩ := runs_storeField host entry 0 x19
    (by decide : Layout.frameA ∈ [0, 4, 8, 12]) hframe
  obtain ⟨d₂, hruns₂, hregs₂, hspecial₂, hram₂⟩ := runs_storeField host entry 0 x20
    (by decide : Layout.frameB ∈ [0, 4, 8, 12]) (hregs₁ ▸ hframe)
  rw [hregs₁, hb, hram₁, ha] at hram₂
  rw [hregs₁] at hregs₂
  refine ⟨d₂, hruns₁.append hruns₂, hregs₂, ?_, ?_⟩
  · rw [hregs₂, hspecial₂, hspecial₁, hram₂]
    exact (h.framed.store_apart hP
      (Native.field_apart_stack hS.separate (by decide)) rs.a).store_apart hP
      (Native.field_apart_stack hS.separate (by decide)) rs.b
  · rw [hram₂]
    exact .of_holds hS.separate h.data rs

theorem toNat_writeBack (i : UInt16) : (4 * UInt32.ofNat i.toNat).toNat = 4 * i.toNat := by
  have hlt := i.toNat_lt
  simp only [UInt32.ofNat_uInt16ToNat, UInt32.toNat_mul, UInt16.toNat_toUInt32,
    UInt32.reduceToNat]
  omega

/-- The first cells are within the reach of an offset. -/
theorem runs_writeBackInstr (hbase : c.regs.get memoryBase = L.memory) {i : UInt16}
    (hi : i.toNat < 0x1000) :
    ∃ d, Runs (exec host) ((target host).Tame L entry 0) c [writeBackInstr i.toNat] d ∧
      d.regs = c.regs ∧ d.special = c.special ∧
      d.ram = c.ram.store32 (L.cell i) (c.regs.get32 (homes.cell i.toNat)) := by
  have hoffset := toNat_writeBack i
  refine runs_storeAt host ?_ (.cell i (Nat.zero_le _))
  rw [hbase, offset_storeAt (by rw [hoffset]; omega) (by rw [hoffset]; exact Nat.dvd_mul_right 4 _),
    Layout.cell, ← hoffset, UInt64.ofNat_uInt32ToNat]

/-- Popped registers get the words on the stack, the topmost pair first. -/
theorem runs_pop (host : Host) (L : Layout) (v : Reg → UInt64) (pairs : List (Reg × Reg))
    (hnodup : (registersOf pairs).Nodup)
    (hsp : c.special.sp = stackBase entry + UInt64.ofNat (8 * q))
    (hroom : q + 2 * pairs.length ≤ 10)
    (h : StackHolds c.ram c.special.sp ((registersOf pairs).map v)) :
    ∃ d, Runs (exec host) ((target host).Tame L entry 0) c (popInstrs pairs) d ∧ d.ram = c.ram ∧
      d.special.sp = stackBase entry + UInt64.ofNat (8 * (q + 2 * pairs.length)) ∧
      (∀ r ∈ registersOf pairs, d.regs.get r = v r) ∧
      ∀ r ∉ registersOf pairs, d.regs.get r = c.regs.get r := by
  induction pairs generalizing c q with
  | nil => exact ⟨c, .nil c, rfl, hsp, nofun, fun _ _ => rfl⟩
  | cons pair pairs ih =>
    obtain ⟨first, second⟩ := pair
    rw [List.length_cons] at hroom ⊢
    have hregisters : registersOf ((first, second) :: pairs) =
      first :: second :: registersOf pairs := rfl
    rw [hregisters, List.nodup_cons, List.nodup_cons, List.mem_cons, not_or] at hnodup
    obtain ⟨⟨hne, hfirst⟩, hsecond, hpairs⟩ := hnodup
    rw [hregisters] at h ⊢
    obtain ⟨hv₁, hv₂, hrest⟩ := h
    let d := (target host).after c (.popPair first second)
    have hregs : d.regs = (c.regs.set first (v first)).set second (v second) := by
      rw [← hv₁, ← hv₂]
      rfl
    have hsp' : d.special.sp = stackBase entry + UInt64.ofNat (8 * (q + 2)) := by
      change c.special.sp + 16 = _
      rw [hsp, UInt64.add_assoc, Nat.mul_add, UInt64.ofNat_add]
      rfl
    have hrest' : StackHolds d.ram d.special.sp ((registersOf pairs).map v) := by
      rwa [show c.special.sp + 8 + 8 = c.special.sp + 16 from UInt64.add_assoc _ _ _] at hrest
    obtain ⟨e, hruns, hram, hend, hpopped, hkept⟩ := ih hpairs hsp' (by omega) hrest'
    refine ⟨e, Target.runs_cons (target_lawful host) trivial (granted_pair hsp (by omega)) hruns,
      hram, ?_, fun r hr => ?_, fun r hr => ?_⟩
    · rw [hend, Nat.mul_succ, Nat.add_assoc q 2, Nat.add_comm 2]
    · rcases List.mem_cons.mp hr with rfl | hr
      · rw [hkept r hfirst, hregs, Native.RegFile.get_set_of_ne _ (Ne.symm hne),
          Native.RegFile.get_set_self]
      · rcases List.mem_cons.mp hr with rfl | hr
        · rw [hkept r hsecond, hregs, Native.RegFile.get_set_self]
        · exact hpopped r hr
    · rw [List.mem_cons, not_or, List.mem_cons, not_or] at hr
      rw [hkept r hr.2.2, hregs, Native.RegFile.get_set_of_ne _ (Ne.symm hr.2.1),
        Native.RegFile.get_set_of_ne _ (Ne.symm hr.1)]

/-- The last instructions before the return restore what was saved. -/
theorem restore (h : (target host).Framed L entry c.regs c.special c.ram) :
    ∃ d, Runs (exec host) ((target host).Tame L entry 0) c (popInstrs savedPairs.reverse) d ∧
      d.ram = c.ram ∧ Restored entry d := by
  have hbase : stackBase entry + UInt64.ofNat (8 * 0) = c.special.sp :=
    (UInt64.add_zero _).trans h.settled.symm
  have hsaved : StackHolds c.ram c.special.sp (savedWords entry) := hbase ▸ h.saved
  obtain ⟨d, hruns, hram, hend, hpopped, -⟩ := runs_pop host L entry.regs.get savedPairs.reverse
    (by decide) hbase.symm (by decide) hsaved
  refine ⟨d, hruns, hram, ?_, fun r hr => hpopped r ?_⟩
  · rw [hend]
    exact UInt64.sub_add_cancel _ _
  · revert r
    decide

/-- The epilogue hands back what is represented, restores what was saved and returns. -/
theorem closes (hS : (target host).Suits L cached entry)
    (h : (target host).Represents L cached entry was fault rs m c.regs c.special c.ram) :
    ∃ is d, Codegen.epilogue L cached = (is ++ [Instr.ret]).map .instr ∧
      Runs (exec host) ((target host).Tame L entry 0) c is d ∧
      Closing L cached cached rs was m fault d.ram ∧ Restored entry d ∧
      (∀ x ∈ accesses d .ret, L.Grants 0 (stackBase entry) 10 x) ∧
      ∀ next, ∃ e a, exec host next d .ret = (e, .returned a) ∧ e.ram = d.ram := by
  obtain ⟨d, hhand, hregs, framed, hclosing⟩ := handBack hS h
  have hcells : ∀ i : UInt16, i.toNat < cached → d.regs.get32 (homes.cell i.toNat) = m.get i :=
    fun i hi => hregs ▸ h.cells i hi
  have hk : cached ≤ 3 := hS.cached_le
  obtain ⟨e, hwrite, framed, hclosing⟩ := Target.runs_writeBack (target_lawful host) hS
    (fun i c hi framed => runs_writeBackInstr (base_of_framed framed) (by omega))
    (Nat.zero_add cached) hcells framed hclosing
  obtain ⟨f, hrestore, hram, hrestored⟩ := restore framed
  exact ⟨_, f, epilogue_eq L hS.cached_le, hhand.append (hwrite.append hrestore), hram ▸ hclosing,
    hrestored, List.forall_mem_nil _, fun next => ⟨_, _, rfl, rfl⟩⟩

/-! ### The whole routine -/

theorem target_sound (host : Host) : (target host).Sound where
  lawful := target_lawful host
  legible := Codegen.legible
  exitsReach := Codegen.exitsReach_of_size
  length_lt {L cached code} hsize := by
    have hlength := Codegen.four_mul_length_le L cached code
    have hsize : (codegen.assemble L cached code).length < 0x8000000 := hsize
    omega
  opens := opens
  update := update
  print size pc _ h hop := print size pc h hop
  call _ := call_keeps
  untaken := untaken
  taken := taken
  stray := stray
  closes := closes

/-! ### The calling convention -/

/-- What a routine entered in `entry` owes to its caller and to the print function. -/
structure KeepsConvention (L : Layout) (cached : Nat) (code : List Instruction) (host : Host)
    (entry : Cpu) : Prop where
  /-- When it returns, the saved registers and the stack pointer are as they were, and it returns
  to its caller. -/
  restores {m : Nat} {c d : Cpu} {a : UInt64} :
    Steps (step (exec host) (Image.ofBytes (codegen.assemble L cached code))) m entry c →
    step (exec host) (Image.ofBytes (codegen.assemble L cached code)) c = (d, .returned a) →
      (∀ r ∈ [x19, x20, x21, x22, x23, x24, x25, x26, x29, x30],
        c.regs.get r = entry.regs.get r) ∧ c.special.sp = entry.special.sp ∧
        a = entry.regs.get x30
  /-- The stack is aligned all the time, if it was so at the call. -/
  aligned {m : Nat} {c : Cpu} :
    Steps (step (exec host) (Image.ofBytes (codegen.assemble L cached code))) m entry c →
      entry.special.sp % 16 = 0 → c.special.sp % 16 = 0
  /-- It calls the print function only, from the block of a print, with the frame, the index of the
  printed register and what that register holds. -/
  passes {m : Nat} {c : Cpu} {r : Reg} :
    Steps (step (exec host) (Image.ofBytes (codegen.assemble L cached code))) m entry c →
    current (Image.ofBytes (codegen.assemble L cached code)) c = some (Instr.call r) →
      c.regs.get r = L.print ∧ ∃ p, Printing (codegen.label L cached code) code c.ip p ∧
        c.regs.get x0 = L.frame ∧ c.regs.get32 x1 = UInt32.ofNat p.index ∧
        c.regs.get32 x2 = c.regs.get32 (homes.register p)
  /-- If its data were zero, this value is the one that the program prints: the calls made so far
  and this one are the first prints of the program. -/
  prints {m : Nat} {c : Cpu} {r : Reg} : L.Zeroed entry.ram → entry.calls = #[] →
    Steps (step (exec host) (Image.ofBytes (codegen.assemble L cached code))) m entry c →
    current (Image.ofBytes (codegen.assemble L cached code)) c = some (Instr.call r) →
      ∃ n ps t, Walk code n State.fresh ps t ∧
        c.calls.toList ++ [⟨c.regs.get x0, c.regs.get32 x1, c.regs.get32 x2⟩] <+:
          ps.map (callOf L)

/-- However far any code has run, the stack is as aligned as it was. -/
theorem sp_mod_of_steps {image : Image} {n : Nat} {d : Cpu}
    (h : Steps (step (exec host) image) n c d) : d.special.sp % 16 = c.special.sp % 16 := by
  induction h with
  | nil => rfl
  | @cons n c d e head _ ih =>
    refine ih.trans ?_
    cases hcurrent : current (I := Instr) image c with
    | none =>
      rw [Native.step_eq_of_current_eq_none (exec host) hcurrent] at head
      cases head
    | some i =>
      obtain ⟨next, hstep⟩ := Native.exists_step_eq (exec host) hcurrent
      have hmod := exec_sp_mod host next c i
      rwa [← hstep, head] at hmod

theorem keepsConvention (h : (target host).Called L cached code entry) :
    KeepsConvention L cached code host entry where
  restores hs hreturn := by
    obtain ⟨hret, hsp, hsaved⟩ := h.restored (target_sound host) hs hreturn
    obtain ⟨next, hstep⟩ := Native.exists_step_eq (exec host) hret
    have ha := (exec_returned (hstep.symm.trans hreturn)).2
    refine ⟨fun r hr => hsaved r ?_, hsp, ha.trans (hsaved x30 (by decide))⟩
    revert r
    decide
  aligned hs haligned := (sp_mod_of_steps hs).trans haligned
  passes hs hcall := by
    obtain ⟨hprint, -, p, hp, harguments⟩ := h.calling (target_sound host) hs hcall
    rw [Native.Machine.arguments, callOf, Native.Call.mk.injEq] at harguments
    exact ⟨hprint, p, hp, harguments⟩
  prints hzeroed hcalls hs hcall := h.prints (target_sound host) hzeroed hcalls hs hcall

end Dyad.Arm64
