import Dyad.Proofs.Native.Conduct

/-!
Compiled code runs like the interpreter, whatever the target. Put together, prologue, blocks and
epilogue follow the program from an entry (`Entry.follows`), so the code returns exactly if the
program ends, and hands back the state in which it ends. Compared with the interpreter this gives
equal prints, registers, cells and faults (`Setting.agreement`). A turn takes no more steps than its
block has operations, so the way to the return is bounded as well (`Entry.returns_within`).
-/

namespace Dyad.Native

variable {R S I B : Type} [RegisterSet R] [InstructionSet I]

/-- What a routine has left behind when it has returned, after the end of the program in `s`. -/
structure Left (L : Layout) (code : List Instruction) (s : State) (ps : List Print)
    (c : Cpu R S) : Prop where
  handedBack : HandedBack L code s c.ram
  calls : c.calls.toList = ps.map (callOf L)

namespace Target

section

variable (P : Target R S I B) (L : Layout) (cached : Nat) (code : List Instruction)
  (entry : Cpu R S)

/-- A machine that enters a routine as its code expects: with its data zero, and before any call of
the print function. -/
structure Entry : Prop where
  ip : entry.ip = 0
  calls : entry.calls = #[]
  separate : L.Separate (P.stackBase entry) P.stackBytes
  zeroed : L.Zeroed entry.ram

/-- The code of a program, entered in surroundings that suit it. -/
structure Setting : Prop where
  cached_le : cached ≤ maxCachedCells
  size : (P.codegen.assemble L cached code).length < P.reach
  print : P.print = L.print
  entered : P.Entry L entry

end

variable {P : Target R S I B} {L : Layout} {cached n : Nat} {code : List Instruction}
  {entry c d : Cpu R S} {was : Memory} {s t : State} {ps qs : List Print}

/-- At the end of the program the machine gets to the epilogue, with the branch that left the
program on record, if one did. -/
theorem At.atEnd (hP : P.Sound) (hS : P.Suits L cached entry) (hreach : P.ExitsReach L cached code)
    (h : P.At L cached code entry was (0, 0) s ps c) (hs : s.Ends code) :
    ∃ n d, (n = 0 ∨ ∃ hlt : s.pc < code.length,
        n ≤ (P.codegen.block L cached code.length s.pc code[s.pc]).length) ∧
      Steps (P.stepIn L cached code) n c d ∧
      P.At L cached code entry was (faultWords code s) { s with pc := code.length } ps d := by
  cases hturn : s.turn code with
  | onward p t => exact absurd hturn (hs p t)
  | finished =>
    have hpc : s.pc = code.length := Nat.le_antisymm h.pc_le (State.turn_eq_finished_iff.mp hturn)
    refine ⟨0, c, .inl rfl, .nil c, ?_⟩
    rw [faultWords, hturn, ← hpc]
    exact h
  | astray target =>
    obtain ⟨n, d, ⟨hlt, hn⟩, hcross, hd⟩ := h.strays hP hS hreach hturn
    refine ⟨n + 1, d, .inr ⟨hlt, hn⟩, Leap.steps hcross, ?_⟩
    rw [faultWords, hturn]
    exact hd

/-- The epilogue returns, and what it has handed back is the state in which the program has
ended. -/
theorem At.returns (hP : P.Sound) (hS : P.Suits L cached entry) (hcalls : entry.calls = #[])
    (h : P.At L cached code entry was (faultWords code s) { s with pc := code.length } ps c) :
    ∃ a d, runFor (P.stepIn L cached code) (P.codegen.epilogue L cached).length c =
        (d, .returned a) ∧ Left L code s ps d := by
  obtain ⟨n, d, e, a, hn, hpass, -, hlast, hclosing, he⟩ := h.closes hP hS rfl
  rw [hcalls, List.nil_append] at he
  refine ⟨a, e, ?_, Closing.handedBack (s := s) hclosing, he⟩
  rw [← hn]
  exact hpass.steps.runFor_succ hlast

/-- A walk of the program takes no more steps for each turn than a block has operations. -/
theorem At.walk_within (hP : P.Sound) (hS : P.Suits L cached entry) {bound : Nat}
    (hblock : ∀ size pc i, (P.codegen.block L cached size pc i).length ≤ bound)
    {fault : UInt32 × UInt32} (w : Walk code n s qs t)
    (h : P.At L cached code entry was fault s ps c) :
    ∃ m d, m ≤ bound * n ∧ Steps (P.stepIn L cached code) m c d ∧
      P.At L cached code entry was fault t (ps ++ qs) d := by
  induction w generalizing ps c with
  | nil s =>
    rw [List.append_nil]
    exact ⟨0, c, Nat.zero_le _, .nil c, h⟩
  | cons turn _ ih =>
    obtain ⟨k, d, ⟨_, hk⟩, hcross, hd⟩ := h.crosses hP hS turn
    obtain ⟨m, e, hm, hsteps, he⟩ := ih hd
    have hk := Nat.lt_of_lt_of_le hk (hblock _ _ _)
    rw [List.append_assoc] at he
    refine ⟨k + 1 + m, e, ?_, (Leap.steps hcross).trans hsteps, he⟩
    rw [Nat.mul_succ]
    omega

namespace Entry

/-- The prologue leads to the first block, with the fresh state. -/
theorem opens (hP : P.Sound) (h : P.Entry L entry) (hS : P.Suits L cached entry)
    (code : List Instruction) :
    ∃ d, Steps (P.stepIn L cached code) (P.codegen.prologue L).length entry d ∧
      P.At L cached code entry Memory.zero (0, 0) State.fresh [] d := by
  have hdata := Holds.of_cleared h.zeroed.memory cached
  rw [Holds.recorded_of_zeroed h.zeroed] at hdata
  obtain ⟨d, hpass, hd⟩ := hS.opens hP h.ip (fun i _ => Memory.get_zero i) hdata code
  exact ⟨d, hpass.steps, hd⟩

/-- Entered as it expects, the code follows the program. -/
theorem follows (hP : P.Sound) (h : P.Entry L entry) (hS : P.Suits L cached entry)
    (hreach : P.ExitsReach L cached code) :
    Follows (P.stepIn L cached code) code entry
      (P.At L cached code entry Memory.zero (0, 0)) (Left L code) where
  starts := ⟨_, h.opens hP hS code⟩
  onward hat hturn := by
    obtain ⟨n, d, -, hcross, hd⟩ := hat.crosses hP hS hturn
    exact ⟨n, d, Leap.steps hcross, hd⟩
  ends hat hs := by
    obtain ⟨n, d, -, hsteps, hd⟩ := hat.atEnd hP hS hreach hs
    obtain ⟨a, e, hrun, hleft⟩ := hd.returns hP hS h.calls
    exact ⟨a, e, (Returns.steps_iff hsteps).mpr ⟨_, hrun⟩, hleft⟩

/-- If the program ends, its code returns, within a number of steps that grows with the number of
turns only. -/
theorem returns_within (hP : P.Sound) (h : P.Entry L entry) (hS : P.Suits L cached entry)
    (hreach : P.ExitsReach L cached code) {bound : Nat}
    (hblock : ∀ size pc i, (P.codegen.block L cached size pc i).length ≤ bound)
    (w : Walk code n State.fresh ps t) (ht : t.Ends code) {limit : Nat}
    (hlimit : (P.codegen.prologue L).length + bound * (n + 1) +
      (P.codegen.epilogue L cached).length ≤ limit) :
    ∃ a d, runFor (P.stepIn L cached code) limit entry = (d, .returned a) := by
  obtain ⟨c, hstart, hc⟩ := h.opens hP hS code
  obtain ⟨m, d, hm, hwalk, hd⟩ := hc.walk_within hP hS hblock w
  obtain ⟨k, e, hk, hend, he⟩ := hd.atEnd hP hS hreach ht
  obtain ⟨a, f, hrun, -⟩ := he.returns hP hS h.calls
  have hk : k ≤ bound := by
    rcases hk with rfl | ⟨_, hk⟩
    · exact Nat.zero_le bound
    · exact Nat.le_trans hk (hblock _ _ _)
  have hall := (((hstart.trans hwalk).trans hend).runFor_add _).trans hrun
  rw [Nat.mul_succ] at hlimit
  exact ⟨a, f, runFor_returned_mono hall (by omega)⟩

end Entry

/-! ### Agreement -/

namespace Setting

variable {a : UInt64} {limit : Nat}

theorem suits (S : P.Setting L cached code entry) : P.Suits L cached entry :=
  ⟨S.cached_le, S.print, S.entered.separate⟩

theorem called (S : P.Setting L cached code entry) : P.Called L cached code entry :=
  ⟨S.suits, S.size, S.entered.ip⟩

theorem follows (hP : P.Sound) (S : P.Setting L cached code entry) :
    Follows (P.stepIn L cached code) code entry
      (P.At L cached code entry Memory.zero (0, 0)) (Left L code) :=
  S.entered.follows hP S.suits (hP.exitsReach S.size)

/-- The code returns exactly if the program ends. -/
theorem returned_iff (hP : P.Sound) (S : P.Setting L cached code entry) :
    (∃ limit a d, runFor (P.stepIn L cached code) limit entry = (d, .returned a)) ↔
      ∃ n ps t, Walk code n State.fresh ps t ∧ t.Ends code := by
  rw [← (S.follows hP).returns_iff]
  constructor
  · rintro ⟨limit, a, d, hrun⟩
    exact ⟨a, d, limit, hrun⟩
  · rintro ⟨a, d, limit, hrun⟩
    exact ⟨limit, a, d, hrun⟩

theorem left_of_returned (hP : P.Sound) (S : P.Setting L cached code entry)
    (w : Walk code n State.fresh ps t) (ht : t.Ends code)
    (hrun : runFor (P.stepIn L cached code) limit entry = (d, .returned a)) : Left L code t ps d :=
  (S.follows hP).left_of_returned w ht ⟨limit, hrun⟩

/-- With a sink that takes everything the code returns exactly if the interpreter's run ends. Then
both have printed the same, and the code has left the interpreter's last registers and cells behind,
with a record of its fault. -/
theorem agreement (hP : P.Sound) (S : P.Setting L cached code entry) {m : Interpreter}
    (hd : Decodes m.words code) {sink : Sink} (hsink : sink.device.NeverRefuses) :
    ((∃ limit a d, runFor (P.stepIn L cached code) limit entry = (d, .returned a)) ↔
      ∃ fuel, (m.run fuel sink).isSome) ∧
    ∀ limit a d fuel report m',
      runFor (P.stepIn L cached code) limit entry = (d, .returned a) →
      m.run fuel sink = some (report, m') →
      d.calls.toList.map Call.print = Execution.prints m.words m.trace fuel { sink } ∧
      report.sink.text = sink.text ++ Printer.transcript (d.calls.toList.map Call.print) ∧
      (readFrame d.ram L.frame).registers = report.state.registers ∧
      readCells d.ram L.memory = report.state.memory ∧
      (readFrame d.ram L.frame).Records report.fault := by
  refine ⟨(S.returned_iff hP).trans (Interpreter.run_isSome_iff hd hsink).symm, ?_⟩
  intro limit a d fuel report m' hrun hreport
  obtain ⟨n, ps, w, ht, hfault, hprints, htext⟩ := Interpreter.walk_of_report hd hsink hreport
  have hleft := S.left_of_returned hP w ht hrun
  have hcalls : d.calls.toList.map Call.print = ps := by
    rw [hleft.calls, map_print_callOf]
  refine ⟨hcalls.trans hprints.symm, hcalls ▸ htext, ?_, hleft.handedBack.cells, ?_⟩
  · rw [hleft.handedBack.frame]
  · rw [hfault]
    exact hleft.handedBack.records (hP.length_lt S.size)

end Setting

end Target

end Dyad.Native
