import Dyad.Proofs.Native.Conformance
import Dyad.Proofs.Native.X64.Blocks

/-!
Into an x86-64 routine and out of it. The prologue saves what the caller must get back and clears
the registers of the program (`opens`); the epilogue writes the result to memory, restores what was
saved and returns (`closes`). With the blocks this is all that the target has to get right
(`target_sound`), so its routines keep the calling convention (`keepsConvention`).
-/

namespace Dyad.X64

open Codegen (homes)
open Native (Closing Holds Printing Runs Steps Target callOf current step)
open Ram (StackHolds)
open Reg

attribute [local irreducible] Ram.store32 Ram.store64 Native.RegFile.set Native.RegFile.set32

variable {host : Host} {L : Layout} {cached first q : Nat} {code : List Instruction}
  {entry c : Cpu} {was m : Memory} {fault : UInt32 × UInt32} {rs : Registers}

/-! ### Prologue -/

/-- An access to the word at the stack pointer. -/
theorem granted_slot {a : UInt64} (ha : a = stackBase entry + UInt64.ofNat (8 * q)) (hq : q < 9) :
    ∀ x ∈ [(a, 8)], L.Grants first (stackBase entry) 9 x := by
  intro x hx
  rw [List.mem_singleton.mp hx, ha]
  exact .slot q hq

/-- Pushed registers lie above where the stack pointer gets to, the last one first. -/
theorem runs_push (hS : (target host).Suits L cached entry) (v : Reg → UInt64) (rs : List Reg)
    (ws : List UInt64) (hrs : rsp ∉ rs) (hv : ∀ r ∈ rs, c.regs.get r = v r)
    (hsp : c.regs.get rsp = stackBase entry + UInt64.ofNat (8 * (q + rs.length)))
    (hroom : q + rs.length + ws.length ≤ 9)
    (hdata : Holds L 0 cached was m fault c.ram) (hws : StackHolds c.ram (c.regs.get rsp) ws) :
    ∃ d, Runs (exec host) ((target host).Tame L entry cached) c (rs.map .push) d ∧
      d.regs.get rsp = stackBase entry + UInt64.ofNat (8 * q) ∧
      Holds L 0 cached was m fault d.ram ∧
      StackHolds d.ram (d.regs.get rsp) (rs.reverse.map v ++ ws) := by
  induction rs generalizing c ws with
  | nil => exact ⟨c, .nil c, hsp, hdata, hws⟩
  | cons r rs ih =>
    rw [List.mem_cons, not_or] at hrs
    rw [List.length_cons] at hsp hroom
    let d := (target host).after c (.push r)
    have hsp' : c.regs.get rsp - 8 = stackBase entry + UInt64.ofNat (8 * (q + rs.length)) := by
      rw [hsp, ← Nat.add_assoc, Nat.mul_succ, UInt64.ofNat_add, ← UInt64.add_assoc]
      exact UInt64.add_sub_cancel _ _
    have hrsp : d.regs.get rsp = c.regs.get rsp - 8 := Native.RegFile.get_set_self _ _ _
    have hdata' : Holds L 0 cached was m fault d.ram := by
      have hstore := hdata.store_stack hS.separate
        (show 8 * (q + rs.length) + 8 ≤ 72 by omega) (c.regs.get r)
      rw [← hsp'] at hstore
      exact hstore
    have hpush : StackHolds d.ram (d.regs.get rsp) (v r :: ws) := by
      rw [hrsp, ← hv r List.mem_cons_self]
      exact hws.push (c.regs.get r) (by omega)
    have hv' : ∀ s ∈ rs, d.regs.get s = v s := by
      intro s hs
      rw [← hv s (List.mem_cons_of_mem r hs)]
      exact Native.RegFile.get_set_of_ne _ (by rintro rfl; exact hrs.2 hs) _
    obtain ⟨e, hruns, hend, hdata, hws⟩ := ih (v r :: ws) hrs.2 hv' (hrsp.trans hsp')
      (by rw [List.length_cons]; omega) hdata' hpush
    refine ⟨e, Target.runs_cons (target_lawful host) trivial (granted_slot hsp' (by omega)) hruns,
      hend, hdata, ?_⟩
    rw [List.reverse_cons, List.map_append, List.append_assoc]
    exact hws

/-- A register combined with itself is cleared. -/
theorem runs_xor (host : Host) (L : Layout) (cached : Nat) (entry c : Cpu) (r : Reg) :
    ∃ d, Runs (exec host) ((target host).Tame L entry cached) c [.xor r r] d ∧
      d.regs = c.regs.set32 r 0 ∧ True ∧ d.ram = c.ram := by
  refine ⟨_, Target.runs_silent (target_lawful host) trivial rfl (.nil _), ?_, trivial, rfl⟩
  change c.regs.set32 r (c.regs.get32 r ^^^ c.regs.get32 r) = _
  rw [UInt32.xor_self]

/-- The prologue after its pushes. -/
def settingInstrs (L : Layout) : List Instr :=
  .adjust .sub rsp 8 :: (homeRegisters.map (fun r => .xor r r) ++ [.movAddress rbp L.memory])

theorem prologue_eq (L : Layout) :
    Codegen.prologue L = (savedRegisters.map Instr.push ++ settingInstrs L).map .instr :=
  rfl

/-- Once the registers are pushed, the rest of the prologue clears the home registers and fixes the
base and the stack pointer. -/
theorem runs_settingInstrs (host : Host) (L : Layout) (cached : Nat)
    (hsp : c.regs.get rsp = stackBase entry + UInt64.ofNat (8 * 2))
    (hsaved : StackHolds c.ram (c.regs.get rsp) (savedWords entry)) :
    ∃ d, Runs (exec host) ((target host).Tame L entry cached) c (settingInstrs L) d ∧
      d.ram = c.ram ∧ (∀ r ∈ homeRegisters, d.regs.get32 r = 0) ∧
      (target host).Framed L entry d.regs d.special d.ram := by
  have hP := target_lawful host
  have hsp' : ((target host).after c (.adjust .sub rsp 8)).regs.get rsp =
      stackBase entry + UInt64.ofNat 8 := by
    refine (Native.RegFile.get_set_self _ _ _).trans ?_
    rw [hsp, show UInt64.ofNat (8 * 2) = UInt64.ofNat 8 + 8 from rfl, ← UInt64.add_assoc]
    exact UInt64.add_sub_cancel _ _
  obtain ⟨d, hruns, -, hram, hclear, hkeep⟩ := Target.runs_clear (P := target host)
    (c := (target host).after c (.adjust .sub rsp 8)) (Q := fun _ => True)
    (fun c r _ => runs_xor host L cached entry c r) trivial homeRegisters
  have hregs : ((target host).after d (.movAddress rbp L.memory)).regs =
      d.regs.set rbp L.memory := rfl
  refine ⟨_, Target.runs_silent hP trivial rfl
    (hruns.append (Target.runs_silent hP trivial rfl (.nil _))), hram, fun r hr => ?_,
    fun x hx => ?_, trivial, ?_⟩
  · rw [hregs, Native.RegFile.get32_set_of_ne _
      (ne_of_mem_of_not_mem hr (by decide : rbp ∉ homeRegisters)).symm, hclear r hr]
  · rcases List.mem_cons.mp hx with rfl | hx
    · exact Native.RegFile.get_set_self _ _ _
    · cases List.mem_singleton.mp hx
      rw [hregs, Native.RegFile.get_set_of_ne _ (by decide : rbp ≠ rsp), hkeep rsp (by decide),
        hsp']
  · change StackHolds d.ram _ _
    rw [← hsp, hram]
    exact hsaved

/-- The prologue represents cleared registers, and all of memory if the cached cells are zero. -/
theorem opens (hS : (target host).Suits L cached entry)
    (hm : ∀ i : UInt16, i.toNat < cached → m.get i = 0)
    (hdata : Holds L 0 cached was m fault entry.ram) :
    ∃ is d, Codegen.prologue L = is.map .instr ∧
      Runs (exec host) ((target host).Tame L entry cached) entry is d ∧
      (target host).Represents L cached entry was fault {} m d.regs d.special d.ram := by
  have hbase : entry.regs.get rsp = stackBase entry + UInt64.ofNat (8 * (2 + 6)) :=
    (UInt64.sub_add_cancel _ _).symm
  obtain ⟨c, hpush, hsp, hdata, hsaved⟩ := runs_push hS entry.regs.get savedRegisters
    [entry.ram.load64 (entry.regs.get rsp)] (by decide) (fun _ _ => rfl) hbase (Nat.le_refl 9)
    hdata ⟨rfl, trivial⟩
  obtain ⟨d, hset, hram, hclear, framed⟩ := runs_settingInstrs host L cached hsp hsaved
  refine ⟨_, d, prologue_eq L, hpush.append hset, fun r => ?_, fun i hi => ?_, framed,
    hram ▸ hdata⟩
  · rw [hclear _ (register_mem r)]
    cases r <;> rfl
  · rw [hclear _ (cell_mem _), hm i hi]

/-! ### Epilogue -/

/-- The instructions that hand back the registers. -/
def handBackInstrs (L : Layout) : List Instr :=
  [.movAddress rax L.frame, .store rax Layout.frameA r12, .store rax Layout.frameB r13]

/-- The instruction that copies a cached cell to memory. -/
def writeBackInstr (cell : Nat) : Instr :=
  .store rbp (4 * UInt32.ofNat cell) (homes.cell cell)

/-- The epilogue up to its return. -/
def closingInstrs (L : Layout) (cached : Nat) : List Instr :=
  handBackInstrs L ++ ((List.range' 0 cached).map writeBackInstr ++
    .adjust .add rsp 8 :: savedRegisters.reverse.map .pop)

theorem epilogue_eq (L : Layout) (hk : cached ≤ maxCachedCells) :
    Codegen.epilogue L cached = (closingInstrs L cached ++ [Instr.ret]).map .instr := by
  rw [Codegen.epilogue, Codegen.writeBack, Nat.min_eq_left hk, List.range_eq_range', closingInstrs]
  simp only [List.map_append, List.map_map, List.append_assoc]
  rfl

/-- The registers go to the frame first. -/
theorem handBack (hS : (target host).Suits L cached entry)
    (h : (target host).Represents L cached entry was fault rs m c.regs c.special c.ram) :
    ∃ d, Runs (exec host) ((target host).Tame L entry 0) c (handBackInstrs L) d ∧
      (∀ r ≠ rax, d.regs.get32 r = c.regs.get32 r) ∧
      (target host).Framed L entry d.regs d.special d.ram ∧
      Closing L 0 cached rs was m fault d.ram := by
  have hP := target_lawful host
  let framed := (target host).after c (.movAddress rax L.frame)
  let handed := (target host).after framed (.store rax Layout.frameA r12)
  have hframe : (c.regs.set rax L.frame).get rax = L.frame := Native.RegFile.get_set_self _ _ _
  have hkeep : ∀ r ≠ rax, (c.regs.set rax L.frame).get32 r = c.regs.get32 r :=
    fun r hr => Native.RegFile.get32_set_of_ne _ (Ne.symm hr) _
  have hram : ((target host).after handed (.store rax Layout.frameB r13)).ram =
      (c.ram.store32 (L.field Layout.frameA) rs.a).store32 (L.field Layout.frameB) rs.b := by
    have ha : framed.regs.get32 r12 = rs.a := (hkeep r12 (by decide)).trans (h.held .a)
    have hb : handed.regs.get32 r13 = rs.b := (hkeep r13 (by decide)).trans (h.held .b)
    have hA : address framed rax Layout.frameA = L.field Layout.frameA :=
      address_field hframe (by decide)
    have hB : address handed rax Layout.frameB = L.field Layout.frameB :=
      address_field hframe (by decide)
    rw [← ha, ← hb, ← hA, ← hB]
    rfl
  have hrep := h.set_scratch hP (by decide : rax ∉ keptRegisters) L.frame
  refine ⟨_, Target.runs_silent hP trivial rfl (Target.runs_cons hP trivial
    (granted_field (c := framed) hframe (by decide)) (Target.runs_cons hP trivial
    (granted_field (c := handed) hframe (by decide)) (.nil _))), hkeep, ?_, ?_⟩
  · rw [hram]
    exact (hrep.framed.store_apart hP
      (Native.field_apart_stack hS.separate (by decide)) rs.a).store_apart hP
      (Native.field_apart_stack hS.separate (by decide)) rs.b
  · rw [hram]
    exact .of_holds hS.separate h.data rs

theorem runs_writeBackInstr (hbase : c.regs.get rbp = L.memory) (i : UInt16) :
    ∃ d, Runs (exec host) ((target host).Tame L entry 0) c [writeBackInstr i.toNat] d ∧
      d.regs = c.regs ∧ d.special = c.special ∧
      d.ram = c.ram.store32 (L.cell i) (c.regs.get32 (homes.cell i.toNat)) := by
  have hdisp : 4 * UInt32.ofNat i.toNat = Codegen.cellDisp i := by
    rw [Codegen.cellDisp, UInt32.ofNat_uInt16ToNat]
  have hcell := address_cell hbase i
  rw [← hdisp] at hcell
  refine ⟨_, Target.runs_cons (target_lawful host) trivial (fun x hx => ?_) (.nil _), rfl, rfl, ?_⟩
  · rw [List.mem_singleton.mp hx, hcell]
    exact .cell i (Nat.zero_le _)
  · rw [← hcell]
    rfl

/-- Popped registers get the words on the stack, the topmost word first. -/
theorem runs_pop (host : Host) (L : Layout) (v : Reg → UInt64) (rs : List Reg) (ws : List UInt64)
    (hrs : rsp ∉ rs) (hnodup : rs.Nodup)
    (hsp : c.regs.get rsp = stackBase entry + UInt64.ofNat (8 * q)) (hroom : q + rs.length ≤ 9)
    (h : StackHolds c.ram (c.regs.get rsp) (rs.map v ++ ws)) :
    ∃ d, Runs (exec host) ((target host).Tame L entry 0) c (rs.map .pop) d ∧ d.ram = c.ram ∧
      d.regs.get rsp = stackBase entry + UInt64.ofNat (8 * (q + rs.length)) ∧
      StackHolds d.ram (d.regs.get rsp) ws ∧ (∀ r ∈ rs, d.regs.get r = v r) ∧
      ∀ r ∉ rs, r ≠ rsp → d.regs.get r = c.regs.get r := by
  induction rs generalizing c q with
  | nil => exact ⟨c, .nil c, rfl, hsp, h, nofun, fun _ _ _ => rfl⟩
  | cons r rs ih =>
    rw [List.mem_cons, not_or] at hrs
    rw [List.nodup_cons] at hnodup
    rw [List.length_cons] at hroom ⊢
    let d := (target host).after c (.pop r)
    have hrsp : d.regs.get rsp = c.regs.get rsp + 8 :=
      (Native.RegFile.get_set_of_ne _ (Ne.symm hrs.1) _).trans (Native.RegFile.get_set_self _ _ _)
    have hsp' : d.regs.get rsp = stackBase entry + UInt64.ofNat (8 * (q + 1)) := by
      rw [hrsp, hsp, Nat.mul_succ, UInt64.ofNat_add, UInt64.add_assoc]
      rfl
    have hr : d.regs.get r = v r := (Native.RegFile.get_set_self _ _ _).trans h.1
    have hrest : StackHolds d.ram (d.regs.get rsp) (rs.map v ++ ws) := hrsp ▸ h.2
    obtain ⟨e, hruns, hram, hend, hws, hpopped, hkeep⟩ :=
      ih hrs.2 hnodup.2 hsp' (by omega) hrest
    refine ⟨e, Target.runs_cons (target_lawful host) trivial (granted_slot hsp (by omega)) hruns,
      hram, ?_, hws, fun s hs => ?_, fun s hs hne => ?_⟩
    · rw [hend, Nat.add_assoc, Nat.add_comm 1]
    · rcases List.mem_cons.mp hs with rfl | hs
      · exact (hkeep s hnodup.1 (Ne.symm hrs.1)).trans hr
      · exact hpopped s hs
    · rw [List.mem_cons, not_or] at hs
      refine (hkeep s hs.2 hne).trans ?_
      exact (Native.RegFile.get_set_of_ne _ (Ne.symm hs.1) _).trans
        (Native.RegFile.get_set_of_ne _ (Ne.symm hne) _)

/-- The last instructions before the return restore what was saved. -/
theorem restore (h : (target host).Framed L entry c.regs c.special c.ram) :
    ∃ d, Runs (exec host) ((target host).Tame L entry 0) c
        (.adjust .add rsp 8 :: savedRegisters.reverse.map .pop) d ∧ d.ram = c.ram ∧
      Restored entry d := by
  have hsp : ((target host).after c (.adjust .add rsp 8)).regs.get rsp =
      stackBase entry + UInt64.ofNat (8 * 2) := by
    refine (Native.RegFile.get_set_self _ _ _).trans ?_
    rw [stack_of_framed h]
    exact UInt64.add_assoc _ _ _
  have hsaved : StackHolds ((target host).after c (.adjust .add rsp 8)).ram
      (((target host).after c (.adjust .add rsp 8)).regs.get rsp) (savedWords entry) :=
    hsp ▸ h.saved
  obtain ⟨d, hruns, hram, hend, haddress, hpopped, -⟩ := runs_pop host L entry.regs.get
    savedRegisters.reverse [entry.ram.load64 (entry.regs.get rsp)] (by decide) (by decide) hsp
    (by decide) hsaved
  refine ⟨d, Target.runs_silent (target_lawful host) trivial rfl hruns, hram, ?_, haddress.1,
    fun r hr => hpopped r (List.mem_reverse.mpr hr)⟩
  rw [hend]
  exact UInt64.sub_add_cancel _ _

/-- The epilogue hands back what is represented, restores what was saved and returns. -/
theorem closes (hS : (target host).Suits L cached entry)
    (h : (target host).Represents L cached entry was fault rs m c.regs c.special c.ram) :
    ∃ is d, Codegen.epilogue L cached = (is ++ [Instr.ret]).map .instr ∧
      Runs (exec host) ((target host).Tame L entry 0) c is d ∧
      Closing L cached cached rs was m fault d.ram ∧ Restored entry d ∧
      (∀ x ∈ accesses d .ret, L.Grants 0 (stackBase entry) 9 x) ∧
      ∀ next, ∃ e a, exec host next d .ret = (e, .returned a) ∧ e.ram = d.ram := by
  obtain ⟨d, hhand, hkeep, framed, hclosing⟩ := handBack hS h
  have hcells : ∀ i : UInt16, i.toNat < cached → d.regs.get32 (homes.cell i.toNat) = m.get i := by
    intro i hi
    have hne := ne_of_mem_of_not_mem (cell_mem i.toNat) (by decide : rax ∉ homeRegisters)
    rw [hkeep _ hne, ← h.cells i hi]
  obtain ⟨e, hwrite, framed, hclosing⟩ := Target.runs_writeBack (target_lawful host) hS
    (fun i c _ framed => runs_writeBackInstr (base_of_framed framed) i) (Nat.zero_add cached)
    hcells framed hclosing
  obtain ⟨f, hrestore, hram, hrestored⟩ := restore framed
  refine ⟨_, f, epilogue_eq L hS.cached_le, hhand.append (hwrite.append hrestore), hram ▸ hclosing,
    hrestored, ?_, fun next => ⟨_, _, rfl, rfl⟩⟩
  refine granted_slot (q := 8) ?_ (by decide)
  rw [hrestored.stack]
  exact (UInt64.sub_add_cancel _ _).symm

/-! ### The whole routine -/

theorem target_sound (host : Host) : (target host).Sound where
  lawful := target_lawful host
  legible := Codegen.legible
  exitsReach := Codegen.exitsReach_of_size
  length_lt {L cached code} hsize := by
    have hlength := Codegen.three_mul_length_le L cached code
    have hsize : (codegen.assemble L cached code).length < 0x80000000 := hsize
    omega
  opens := opens
  update := update
  print size pc _ h hop := print size pc h hop
  call := call_keeps
  untaken := untaken
  taken := taken
  stray := stray
  closes := closes

/-! ### The calling convention -/

/-- What a routine entered in `entry` owes to its caller and to the print function. -/
structure KeepsConvention (L : Layout) (cached : Nat) (code : List Instruction) (host : Host)
    (entry : Cpu) : Prop where
  /-- When it returns, the saved registers and the stack pointer are as they were, and it returns
  to its caller. -/
  restores {m : Nat} {c d : Cpu} {a : UInt64} :
    Steps (step (exec host) (Image.ofBytes (codegen.assemble L cached code))) m entry c →
    step (exec host) (Image.ofBytes (codegen.assemble L cached code)) c = (d, .returned a) →
      (∀ r ∈ [rbx, rbp, r12, r13, r14, r15, rsp], c.regs.get r = entry.regs.get r) ∧
        a = entry.ram.load64 (entry.regs.get rsp)
  /-- When it calls, the stack is aligned, if it was so for the call of the routine itself. -/
  aligns {m : Nat} {c : Cpu} {r : Reg} :
    Steps (step (exec host) (Image.ofBytes (codegen.assemble L cached code))) m entry c →
    current (Image.ofBytes (codegen.assemble L cached code)) c = some (Instr.call r) →
      entry.regs.get rsp % 16 = 8 → c.regs.get rsp % 16 = 0
  /-- It calls the print function only, from the block of a print, with the frame, the index of the
  printed register and what that register holds. -/
  passes {m : Nat} {c : Cpu} {r : Reg} :
    Steps (step (exec host) (Image.ofBytes (codegen.assemble L cached code))) m entry c →
    current (Image.ofBytes (codegen.assemble L cached code)) c = some (Instr.call r) →
      c.regs.get r = L.print ∧ ∃ p, Printing (codegen.label L cached code) code c.ip p ∧
        c.regs.get rdi = L.frame ∧ c.regs.get32 rsi = UInt32.ofNat p.index ∧
        c.regs.get32 rdx = c.regs.get32 (homes.register p)
  /-- If its data were zero, this value is the one that the program prints: the calls made so far
  and this one are the first prints of the program. -/
  prints {m : Nat} {c : Cpu} {r : Reg} : L.Zeroed entry.ram → entry.calls = #[] →
    Steps (step (exec host) (Image.ofBytes (codegen.assemble L cached code))) m entry c →
    current (Image.ofBytes (codegen.assemble L cached code)) c = some (Instr.call r) →
      ∃ n ps t, Walk code n State.fresh ps t ∧
        c.calls.toList ++ [⟨c.regs.get rdi, c.regs.get32 rsi, c.regs.get32 rdx⟩] <+:
          ps.map (callOf L)

theorem stackBase_aligned (h : entry.regs.get rsp % 16 = 8) :
    (stackBase entry + UInt64.ofNat 8) % 16 = 0 := by
  have hnat := congrArg UInt64.toNat h
  apply UInt64.toNat_inj.mp
  simp only [stackBase, UInt64.toNat_mod, UInt64.toNat_add, UInt64.toNat_sub,
    UInt64.toNat_ofNat', UInt64.reduceToNat] at hnat ⊢
  omega

theorem keepsConvention (h : (target host).Called L cached code entry) :
    KeepsConvention L cached code host entry where
  restores hs hreturn := by
    obtain ⟨hret, hsp, haddress, hsaved⟩ := h.restored (target_sound host) hs hreturn
    obtain ⟨next, hstep⟩ := Native.exists_step_eq (exec host) hret
    rw [hreturn, exec] at hstep
    cases hstep
    refine ⟨fun r hr => ?_, haddress⟩
    rcases List.mem_append.mp (show r ∈ savedRegisters ++ [rsp] from hr) with hr | hr
    · exact hsaved r hr
    · rw [List.mem_singleton.mp hr, hsp]
  aligns hs hcall haligned := by
    obtain ⟨-, framed, -⟩ := h.calling (target_sound host) hs hcall
    rw [stack_of_framed framed]
    exact stackBase_aligned haligned
  passes hs hcall := by
    obtain ⟨hprint, -, p, hp, harguments⟩ := h.calling (target_sound host) hs hcall
    rw [Native.Machine.arguments, callOf, Native.Call.mk.injEq] at harguments
    exact ⟨hprint, p, hp, harguments⟩
  prints hzeroed hcalls hs hcall := h.prints (target_sound host) hzeroed hcalls hs hcall

end Dyad.X64
