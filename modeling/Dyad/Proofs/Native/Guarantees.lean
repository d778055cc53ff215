import Dyad.Proofs.Native.Arm64.Equivalence
import Dyad.Proofs.Native.Coherence
import Dyad.Proofs.Native.X64.Equivalence

/-!
What the code of a program guarantees on both machines. Its branches have room for their distances
(`displacements_fit`). At every step of every run it keeps the calling convention towards its caller
and the print function (`calling_convention`). Towards the interpreter it keeps step from block to
block, with the cached cells in registers, and it accesses nothing but its own data
(`block_coherence`).
-/

namespace Dyad.Native

/-- Only a branch to the epilogue out of a jump that leaves the program may be too long for its
field, and then the code is very long. -/
theorem displacements_fit (L : Layout) (cached : Nat) (code : List Instruction) :
    X64.Codegen.DistancesFit L cached code ∧ Arm64.Codegen.DistancesFit L cached code :=
  ⟨X64.Codegen.distancesFit L cached code, Arm64.Codegen.distancesFit L cached code⟩

/-- The branch back of a program, over a print, with the distances that its fields hold. -/
theorem displacements_fit_strayProgram :
    (∃ rel, X64.Codegen.BranchEnds 0 (X64.codegen.instrs runLayout 2 strayProgram) 86 .nonZero
        rel ∧ signedWord rel = -42) ∧
    ∃ far, Arm64.Codegen.Stands runLayout 2 strayProgram 120 (.branch far) ∧ far.toInt = -10 := by
  obtain ⟨hx64, harm64⟩ := displacements_fit runLayout 2 strayProgram
  obtain ⟨rel, hends, -, -, hrel⟩ := hx64.within 3 (by decide) (by decide) (by decide)
  obtain ⟨far, hstands, -, -, -, hfar⟩ := harm64.within 3 (by decide) (by decide) (by decide)
  exact ⟨⟨rel, hends, hrel.trans (by decide +kernel)⟩, far, hstands,
    hfar.trans (by decide +kernel)⟩

/-- Wherever the code is called and whatever memory holds, it keeps the calling convention of its
machine. -/
theorem calling_convention (L : Layout) (cached : Nat) (code : List Instruction) :
    (∀ host entry, (X64.target host).Called L cached code entry →
      X64.KeepsConvention L cached code host entry) ∧
    ∀ host entry, (Arm64.target host).Called L cached code entry →
      Arm64.KeepsConvention L cached code host entry :=
  ⟨fun _ _ h => X64.keepsConvention h, fun _ _ h => Arm64.keepsConvention h⟩

/-- A program that prints and then leaves itself: its code returns on both machines, and then the
caller has its registers and its stack back. -/
theorem calling_convention_strayProgram :
    (∃ m c d a,
      Steps (step (X64.exec runHost)
        (Image.ofBytes (X64.codegen.assemble runLayout 2 strayProgram))) m entry c ∧
      step (X64.exec runHost) (Image.ofBytes (X64.codegen.assemble runLayout 2 strayProgram)) c =
        (d, .returned a) ∧
      ∀ r ∈ [.rbx, .rbp, .r12, .r13, .r14, .r15, .rsp], c.regs.get r = entry.regs.get r) ∧
    ∃ m c d a,
      Steps (step (Arm64.exec Arm64.strayHost)
        (Image.ofBytes (Arm64.codegen.assemble runLayout 2 strayProgram))) m Arm64.strayEntry c ∧
      step (Arm64.exec Arm64.strayHost)
        (Image.ofBytes (Arm64.codegen.assemble runLayout 2 strayProgram)) c = (d, .returned a) ∧
      c.special.sp = Arm64.strayEntry.special.sp ∧ a = Arm64.strayEntry.regs.get .x30 := by
  obtain ⟨n, ps, t, _, w, ht⟩ := Interpreter.walk_of_run strayInterpreter_decodes
    Device.neverRefuses_reliable strayInterpreter_ends
  obtain ⟨hx64, harm64⟩ := calling_convention runLayout 2 strayProgram
  constructor
  · obtain ⟨a, d, hreturns, _⟩ :=
      (X64.strayProgram_setting.follows (X64.target_sound runHost)).returns_of_walk w ht
    obtain ⟨m, c, hsteps, hlast⟩ := hreturns.last_step
    have hkeeps := hx64 runHost entry X64.strayProgram_setting.called
    exact ⟨m, c, d, a, hsteps, hlast, (hkeeps.restores hsteps hlast).1⟩
  · obtain ⟨a, d, hreturns, _⟩ :=
      (Arm64.strayProgram_setting.follows (Arm64.target_sound _)).returns_of_walk w ht
    obtain ⟨m, c, hsteps, hlast⟩ := hreturns.last_step
    have hkeeps := harm64 Arm64.strayHost Arm64.strayEntry Arm64.strayProgram_setting.called
    exact ⟨m, c, d, a, hsteps, hlast, (hkeeps.restores hsteps hlast).2⟩

/-- If the cells are cleared and the sink takes everything, the code is coherent with the
interpreter's run of the program's words. -/
theorem block_coherence {words : Array UInt32} {code : List Instruction} (hd : Decodes words code)
    (trace : Bool) {sink : Sink} (hsink : sink.device.NeverRefuses) (L : Layout) (cached : Nat) :
    (∀ host entry, (X64.target host).Called L cached code entry → L.Cleared entry.ram →
      (X64.target host).Coheres L cached code entry words trace sink) ∧
    ∀ host entry, (Arm64.target host).Called L cached code entry → L.Cleared entry.ram →
      (Arm64.target host).Coheres L cached code entry words trace sink :=
  ⟨fun host _ h hcleared => h.coheres (X64.target_sound host) hcleared hd trace hsink,
    fun host _ h hcleared => h.coheres (Arm64.target_sound host) hcleared hd trace hsink⟩

/-- After four steps of that program, which has two cells in registers, both machines get to a block
for the fourth time, and mirror the interpreter there. -/
theorem block_coherence_strayProgram :
    ∃ x, Execution.runFor strayInterpreter.words false 4 {} = (x, .advanced) ∧
    (∃ c, Arrival ((X64.target runHost).stepIn runLayout 2 strayProgram)
        (AtBlock ((X64.target runHost).view
            (Image.ofBytes (X64.codegen.assemble runLayout 2 strayProgram)))
          (X64.codegen.label runLayout 2 strayProgram) 5) 4 entry c ∧
      Mirrors ((X64.target runHost).view
          (Image.ofBytes (X64.codegen.assemble runLayout 2 strayProgram)))
        (X64.codegen.label runLayout 2 strayProgram) runLayout 2 5 x.state c) ∧
    ∃ c, Arrival ((Arm64.target Arm64.strayHost).stepIn runLayout 2 strayProgram)
        (AtBlock ((Arm64.target Arm64.strayHost).view
            (Image.ofBytes (Arm64.codegen.assemble runLayout 2 strayProgram)))
          (Arm64.codegen.label runLayout 2 strayProgram) 5) 4 Arm64.strayEntry c ∧
      Mirrors ((Arm64.target Arm64.strayHost).view
          (Image.ofBytes (Arm64.codegen.assemble runLayout 2 strayProgram)))
        (Arm64.codegen.label runLayout 2 strayProgram) runLayout 2 5 x.state c := by
  have houtcome : (Execution.runFor strayInterpreter.words false 4 {}).2 = .advanced := by
    decide +kernel
  obtain ⟨x, hrun⟩ : ∃ x, Execution.runFor strayInterpreter.words false 4 {} = (x, .advanced) :=
    ⟨_, Prod.ext rfl houtcome⟩
  obtain ⟨hx64, harm64⟩ := block_coherence strayInterpreter_decodes false
    Device.neverRefuses_reliable runLayout 2
  have X := hx64 runHost entry X64.strayProgram_setting.called
    (X64.entry_entered runHost).zeroed.memory
  have A := harm64 Arm64.strayHost Arm64.strayEntry Arm64.strayProgram_setting.called
    Arm64.strayEntry_entered.zeroed.memory
  obtain ⟨c, hc⟩ := X.arrives hrun
  obtain ⟨d, hd⟩ := A.arrives hrun
  exact ⟨x, hrun, ⟨c, hc, X.mirrors hrun hc⟩, d, hd, A.mirrors hrun hd⟩

end Dyad.Native
