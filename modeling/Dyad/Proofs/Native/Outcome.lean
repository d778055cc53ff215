import Dyad.Proofs.Native.Data
import Dyad.Proofs.Native.Positions
import Dyad.Proofs.Run.Report

/-!
What a routine hands back, whatever the machine it runs on: a call of the print function for each
print, the final registers and cells, and a record of the branch that left the program, if one did.
-/

namespace Dyad.Native

/-- The call by which a routine prints. -/
def callOf (L : Layout) (p : Print) : Call := ⟨L.frame, UInt32.ofNat p.register.index, p.value⟩

@[simp] theorem print_callOf (L : Layout) (p : Print) : (callOf L p).print = p := by
  obtain ⟨r, v⟩ := p
  cases r <;> rfl

theorem map_print_callOf (L : Layout) (ps : List Print) :
    (ps.map (callOf L)).map Call.print = ps := by
  rw [List.map_map]
  exact List.map_id'' (print_callOf L) ps

/-- The record of a program that has ended in `s`: the index of the branch that left it, plus one,
and its target. -/
def faultWords (code : List Instruction) (s : State) : UInt32 × UInt32 :=
  match s.turn code with
  | .astray target => (wordOfInt (s.pc + 1), wordOfInt target)
  | _ => (0, 0)

/-- The routine has handed back the state `s` in which the program has ended. -/
structure HandedBack (L : Layout) (code : List Instruction) (s : State) (ram : Ram) : Prop where
  frame : readFrame ram L.frame = ⟨s.registers, (faultWords code s).1, (faultWords code s).2⟩
  cells : readCells ram L.memory = s.memory

/-- The record is exact if its words are wide enough. -/
theorem faultWords_of_astray {code : List Instruction} {s : State} {target : Int}
    (hsize : code.length < 0x7fff0000) (hturn : s.turn code = .astray target) :
    (faultWords code s).1.toNat = s.pc + 1 ∧ signedWord (faultWords code s).2 = target := by
  have hlt := State.pc_lt_of_astray hturn
  obtain ⟨i, _, _, _, rfl, _⟩ := State.astray_iff.mp hturn
  have hbounds := branchOffset_bounds i
  rw [faultWords, hturn]
  refine ⟨toNat_wordOfInt (n := s.pc + 1) (by omega), ?_⟩
  rw [Instruction.branchTarget]
  exact signedWord_wordOfInt (by omega) (by omega)

theorem HandedBack.recordedJump {L : Layout} {code : List Instruction} {s : State} {ram : Ram}
    (h : HandedBack L code s ram) (hsize : code.length < 0x7fff0000) :
    Routine.recordedJump (readFrame ram L.frame) =
      match s.turn code with
      | .astray target => some (s.pc, target)
      | _ => none := by
  rw [Routine.recordedJump, h.frame]
  cases hturn : s.turn code with
  | onward | finished => rw [faultWords, hturn]; rfl
  | astray target =>
    obtain ⟨hpc, htarget⟩ := faultWords_of_astray hsize hturn
    have hne : (faultWords code s).1 ≠ 0 := by
      intro h0
      rw [h0] at hpc
      cases hpc
    simp only [if_neg hne, hpc, htarget, Nat.add_sub_cancel]

/-- The frame tells with which fault a run has ended: it has the index of the branch that left the
program, plus one, and its target, or zero. -/
def Frame.Records (f : Frame) : Option Fault → Prop
  | some (.jumpOutOfRange pc target _) =>
    f.faultPc.toNat = pc + 1 ∧ signedWord f.faultTarget = target
  | _ => f.faultPc = 0

theorem HandedBack.records {L : Layout} {code : List Instruction} {s : State} {ram : Ram}
    (h : HandedBack L code s ram) (hsize : code.length < 0x7fff0000) :
    (readFrame ram L.frame).Records (s.jumpFault code) := by
  rw [h.frame, State.jumpFault]
  cases hturn : s.turn code with
  | onward | finished =>
    change (faultWords code s).1 = 0
    rw [faultWords, hturn]
  | astray target => exact faultWords_of_astray hsize hturn

/-- An output error comes before the branch that left the program. -/
theorem HandedBack.conclude {L : Layout} {code : List Instruction} {s : State} {ram : Ram}
    (h : HandedBack L code s ram) (hsize : code.length < 0x7fff0000) (out : Printer) :
    (Routine.conclude code.length (readFrame ram L.frame) out).fault =
        out.finish.2.or (s.jumpFault code) ∧
      (Routine.conclude code.length (readFrame ram L.frame) out).sink = out.finish.1 := by
  rw [Routine.conclude, h.recordedJump hsize, State.jumpFault]
  obtain ⟨sink, _ | cause⟩ := out.finish
  · cases s.turn code <;> exact ⟨rfl, rfl⟩
  · exact ⟨rfl, rfl⟩

/-- The data while the routine hands back registers `rs` and memory `m`: the registers are in the
frame, and of the cached cells those below `written` are back in the array. -/
structure Closing (L : Layout) (written cached : Nat) (rs : Registers) (was m : Memory)
    (fault : UInt32 × UInt32) (ram : Ram) : Prop where
  data : Holds L written cached was m fault ram
  a : ram.load32 (L.field Layout.frameA) = rs.a
  b : ram.load32 (L.field Layout.frameB) = rs.b

namespace Closing

variable {L : Layout} {stack : UInt64} {n written cached : Nat} {rs : Registers}
  {was m : Memory} {fault : UInt32 × UInt32} {ram : Ram}

theorem of_holds (hL : L.Separate stack n) (h : Holds L written cached was m fault ram)
    (rs : Registers) :
    Closing L written cached rs was m fault
      ((ram.store32 (L.field Layout.frameA) rs.a).store32 (L.field Layout.frameB) rs.b) where
  data := h.store_registers hL rs.a rs.b
  a := by
    rw [Ram.load32_store32_of_apart, Ram.load32_store32]
    exact (field_apart_field L (by decide)).symm
  b := Ram.load32_store32 _ _ _

theorem write_back (hL : L.Separate stack n) {i : UInt16}
    (h : Closing L i.toNat cached rs was m fault ram) :
    Closing L (i.toNat + 1) cached rs was m fault (ram.store32 (L.cell i) (m.get i)) where
  data := h.data.write_back hL
  a := by
    rw [Ram.load32_store32_of_apart, h.a]
    rw [Layout.field_eq]
    exact (cell_apart_frame hL i).sub_right (by decide)
  b := by
    rw [Ram.load32_store32_of_apart, h.b]
    rw [Layout.field_eq]
    exact (cell_apart_frame hL i).sub_right (by decide)

theorem handedBack {code : List Instruction} {s : State}
    (h : Closing L cached cached s.registers was s.memory (faultWords code s) ram) :
    HandedBack L code s ram where
  frame := by
    have ha : ram.load32 (L.frame + Layout.frameA.toUInt64) = s.registers.a := h.a
    have hb : ram.load32 (L.frame + Layout.frameB.toUInt64) = s.registers.b := h.b
    have hpc : ram.load32 (L.frame + Layout.frameFaultPc.toUInt64) = (faultWords code s).1 :=
      h.data.faultPc
    have htarget : ram.load32 (L.frame + Layout.frameFaultTarget.toUInt64) =
        (faultWords code s).2 := h.data.faultTarget
    rw [readFrame, ha, hb, hpc, htarget]
  cells := h.data.readCells_eq

end Closing

/-! ### A program to try it on -/

def strayInterpreter : Interpreter := { words := (strayProgram.map Instruction.encode).toArray }

theorem strayInterpreter_decodes : Decodes strayInterpreter.words strayProgram := .of_encode _

theorem strayInterpreter_ends : (strayInterpreter.run 6 {}).isSome := by decide +kernel

theorem strayProgram_ends :
    ∃ n ps t, Walk strayProgram n State.fresh ps t ∧ t.Ends strayProgram ∧
      t.jumpFault strayProgram = some (.jumpOutOfRange 4 12 5) := by
  have hfault : (strayInterpreter.run 6 {}).map (·.1.fault) =
      some (some (.jumpOutOfRange 4 12 5)) := by decide +kernel
  obtain ⟨⟨report, m⟩, hrun, hfault⟩ := Option.map_eq_some_iff.mp hfault
  obtain ⟨n, ps, w, ht, hjump, -⟩ := Interpreter.walk_of_report strayInterpreter_decodes
    Device.neverRefuses_reliable hrun
  exact ⟨n, ps, _, w, ht, hjump ▸ hfault⟩

end Dyad.Native
