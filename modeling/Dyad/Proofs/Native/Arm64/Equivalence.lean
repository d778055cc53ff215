import Dyad.Proofs.Native.Arm64.Boundary

/-!
The ARM64 code of a program runs like the interpreter: when it has returned, the interpreter's
prints, registers, cells and fault are those that it leaves behind (`Setting.agrees_interpreter`).
-/

namespace Dyad.Arm64

open Native (Call Target readFrame readCells runFor step)

/-- The code of a program, entered in surroundings that suit it. -/
abbrev Setting (L : Layout) (cached : Nat) (code : List Instruction) (host : Host)
    (entry : Cpu) : Prop :=
  (target host).Setting L cached code entry

/-- With a sink that takes everything the code returns exactly if the interpreter's run ends. Then
both have printed the same, and the code has left the interpreter's last registers and cells
behind, with a record of its fault. -/
theorem Setting.agrees_interpreter {L : Layout} {cached : Nat} {code : List Instruction}
    {host : Host} {entry : Cpu} (S : Setting L cached code host entry) {m : Interpreter}
    (hd : Decodes m.words code) {sink : Sink} (hsink : sink.device.NeverRefuses) :
    ((∃ limit a d,
        runFor (step (exec host) (Image.ofBytes (codegen.assemble L cached code))) limit entry =
          (d, .returned a)) ↔
      ∃ fuel, (m.run fuel sink).isSome) ∧
    ∀ limit a d fuel report m',
      runFor (step (exec host) (Image.ofBytes (codegen.assemble L cached code))) limit entry =
        (d, .returned a) →
      m.run fuel sink = some (report, m') →
      d.calls.toList.map Call.print = Execution.prints m.words m.trace fuel { sink } ∧
      report.sink.text = sink.text ++ Printer.transcript (d.calls.toList.map Call.print) ∧
      (readFrame d.ram L.frame).registers = report.state.registers ∧
      readCells d.ram L.memory = report.state.memory ∧
      (readFrame d.ram L.frame).Records report.fault := by
  have hagree := Target.Setting.agreement (target_sound host) S hd hsink
  exact hagree

/-! ### A program to try it on -/

/-- Surroundings in which every call leaves its number in all registers it need not keep. -/
def strayHost : Host where
  print := Native.runLayout.print
  leaves n _ := UInt64.ofNat n

/-- A machine with zeroed memory, a stack, and other values in its registers. -/
def strayEntry : Cpu where
  regs := Native.RegFile.ofFn fun r => 0x1000 + UInt64.ofNat r.index
  special := ⟨0x50000000⟩
  ram := Ram.zero Native.runLayout.memory (4 * memoryCells)

theorem strayEntry_entered : (target strayHost).Entry Native.runLayout strayEntry where
  ip := rfl
  calls := rfl
  separate := ⟨.of_toNat (by decide) (by decide), .of_toNat (by decide) (by decide),
    .of_toNat (by decide) (by decide)⟩
  zeroed := ⟨fun _ _ => Ram.get_zero _ _ _, fun _ _ => Ram.get_zero _ _ _⟩

theorem strayProgram_setting :
    Setting Native.runLayout 2 Native.strayProgram strayHost strayEntry :=
  ⟨by decide, by decide +kernel, rfl, strayEntry_entered⟩

/-- A program that prints and then leaves itself: its code returns, with the branch on record. -/
theorem Setting.agrees_interpreter_strayProgram :
    ∃ limit a d,
      runFor (step (exec strayHost)
        (Image.ofBytes (codegen.assemble Native.runLayout 2 Native.strayProgram))) limit
          strayEntry = (d, .returned a) ∧
      (readFrame d.ram Native.runLayout.frame).Records (some (.jumpOutOfRange 4 12 5)) := by
  obtain ⟨hiff, hagree⟩ := strayProgram_setting.agrees_interpreter
    Native.strayInterpreter_decodes Device.neverRefuses_reliable
  obtain ⟨limit, a, d, hrun⟩ := hiff.mpr ⟨6, Native.strayInterpreter_ends⟩
  have hfault : (Native.strayInterpreter.run 6 {}).map (·.1.fault) =
      some (some (.jumpOutOfRange 4 12 5)) := by decide +kernel
  obtain ⟨⟨report, m'⟩, hreport, heq⟩ := Option.map_eq_some_iff.mp hfault
  obtain ⟨-, -, -, -, hrecords⟩ := hagree limit a d 6 report m' hrun hreport
  exact ⟨limit, a, d, hrun, heq ▸ hrecords⟩

end Dyad.Arm64
