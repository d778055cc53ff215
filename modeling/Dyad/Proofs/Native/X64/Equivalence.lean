import Dyad.Proofs.Native.X64.Boundary

/-!
The x86-64 code of a program runs like the interpreter. Compiled routines run this code, so what is
true of the target goes for their invocations as well: they report the interpreter's prints,
registers, cells and faults (`Setting.agrees`), and return within `6 * n + 33` steps if the program
ends after `n` turns (`Setting.invokeAt_within`).
-/

namespace Dyad

/-- The routine holds the code of `code` for a layout. -/
structure Routine.Compiled (r : Routine) (L : Layout) (cached : Nat) (code : List Instruction) :
    Prop where
  bytes : r.code = X64.codegen.assemble L cached code
  size : r.stats.instructionCount = code.length

theorem Routine.returned_of_invokeAt {r r' : Routine} {L : Layout} {host : X64.Host}
    {entry : X64.Cpu} {limit : Nat} {sink : Sink} {native : Report}
    (h : r.invokeAt L host entry limit sink = some (native, r')) :
    ∃ a d, Native.runFor (Native.step (X64.exec host) (Image.ofBytes r.code)) limit entry =
      (d, .returned a) := by
  unfold invokeAt at h
  split at h
  · rename_i d a hrun
    exact ⟨a, d, hrun⟩
  · cases h

namespace X64

open Native (Call Follows Left Target readFrame readCells runFor step)

/-- The code of a program, entered in surroundings that suit it. -/
abbrev Setting (L : Layout) (cached : Nat) (code : List Instruction) (host : Host)
    (entry : Cpu) : Prop :=
  (target host).Setting L cached code entry

/-- The code of a program works with these addresses and this number of cached cells, however long
it is: the ways out of the program reach the epilogue. -/
structure Usable (L : Layout) (cached : Nat) (code : List Instruction) : Prop where
  cached_le : cached ≤ maxCachedCells
  reach : Codegen.ExitsReach L cached code

/-- However the machine was found, a routine is entered as its code expects, if only the stack is
away from the routine's data. -/
theorem entered_enter {L : Layout} {host : Host} {found : Cpu}
    (h : L.Separate (stackBase found) (target host).stackBytes) :
    (target host).Entry L (Native.enter L found) where
  ip := rfl
  calls := rfl
  separate := h
  zeroed := L.zeroed_clear found.ram

theorem idle_separate : Native.runLayout.Separate (stackBase Native.idle) 72 :=
  ⟨.of_toNat (by decide) (by decide), .of_toNat (by decide) (by decide),
    .of_toNat (by decide) (by decide)⟩

theorem entry_entered (host : Host) : (target host).Entry Native.runLayout Native.entry :=
  entered_enter idle_separate

/-- The routine for a program that prints and then leaves itself. -/
def strayRoutine : Routine :=
  { code := codegen.assemble Native.runLayout 2 Native.strayProgram, cachedCells := 2,
    stats := { instructionCount := 5 } }

theorem strayRoutine_compiled : strayRoutine.Compiled Native.runLayout 2 Native.strayProgram :=
  ⟨rfl, rfl⟩

theorem strayProgram_setting :
    Setting Native.runLayout 2 Native.strayProgram Native.runHost Native.entry :=
  ⟨by decide, by decide +kernel, rfl, entry_entered _⟩

variable {L : Layout} {cached : Nat} {code : List Instruction} {host : Host} {entry d : Cpu}
  {a : UInt64} {n limit : Nat} {ps : List Print} {t : State}

/-- Entered as it expects, the code follows the program, however long it is. -/
theorem follows (h : (target host).Entry L entry) (U : Usable L cached code)
    (hprint : host.print = L.print) :
    Follows (step (exec host) (Image.ofBytes (codegen.assemble L cached code))) code entry
      ((target host).At L cached code entry Memory.zero (0, 0)) (Left L code) := by
  have hS : (target host).Suits L cached entry := ⟨U.cached_le, hprint, h.separate⟩
  have hfollows := h.follows (target_sound host) hS U.reach
  exact hfollows

/-- If the program ends, every routine for it returns, whatever the sink. -/
theorem exists_invokeAt (h : (target host).Entry L entry) (U : Usable L cached code)
    (hprint : host.print = L.print) (w : Walk code n State.fresh ps t) (ht : t.Ends code) :
    ∃ limit, ∀ r : Routine, r.code = codegen.assemble L cached code → ∀ sink,
      ∃ report r', r.invokeAt L host entry limit sink = some (report, r') := by
  obtain ⟨a, d, ⟨limit, hrun⟩, -⟩ := (follows h U hprint).returns_of_walk w ht
  refine ⟨limit, fun r hr sink => ?_⟩
  rw [← hr] at hrun
  rw [Routine.invokeAt, hrun]
  exact ⟨_, _, rfl⟩

namespace Setting

theorem usable (S : Setting L cached code host entry) : Usable L cached code :=
  ⟨S.cached_le, Codegen.exitsReach_of_size S.size⟩

/-- What an invocation reports when the code has returned. -/
theorem invokeAt_of_returned (S : Setting L cached code host entry)
    (w : Walk code n State.fresh ps t) (ht : t.Ends code) {r : Routine}
    (hr : r.Compiled L cached code)
    (hrun : runFor (step (exec host) (Image.ofBytes r.code)) limit entry = (d, .returned a))
    (sink : Sink) :
    ∃ report r', r.invokeAt L host entry limit sink = some (report, r') ∧
      report.fault = (Printer.printAll { sink } ps).finish.2.or (t.jumpFault code) ∧
      report.sink = (Printer.printAll { sink } ps).finish.1 ∧
      r'.state = { t with pc := code.length } := by
  have hleft : Left L code t ps d :=
    Target.Setting.left_of_returned (target_sound host) S w ht (hr.bytes ▸ hrun)
  obtain ⟨hfault, hsink⟩ := hleft.handedBack.conclude ((target_sound host).length_lt S.size)
    (Printer.printAll { sink } ps)
  refine ⟨_, _, by rw [Routine.invokeAt, hrun], ?_, ?_, ?_⟩
  · rw [hleft.calls, Native.map_print_callOf, hr.size]
    exact hfault
  · rw [hleft.calls, Native.map_print_callOf, hr.size]
    exact hsink
  · rw [Routine.state, hleft.handedBack.frame, hleft.handedBack.cells]
    exact congrArg (State.mk t.registers · t.memory) hr.size

/-- With a sink that takes everything the code returns exactly if the interpreter's run ends. Then
both have printed the same, the routine has handed back the interpreter's last registers and cells,
and its invocation ends like the run: without a fault, in the same state, or with the same fault. -/
theorem agrees (S : Setting L cached code host entry) {m : Interpreter}
    (hd : Decodes m.words code) {r : Routine} (hr : r.Compiled L cached code) {sink : Sink}
    (hsink : sink.device.NeverRefuses) :
    ((∃ limit a d,
        runFor (step (exec host) (Image.ofBytes r.code)) limit entry = (d, .returned a)) ↔
      ∃ fuel, (m.run fuel sink).isSome) ∧
    ∀ limit a d fuel report m',
      runFor (step (exec host) (Image.ofBytes r.code)) limit entry = (d, .returned a) →
      m.run fuel sink = some (report, m') →
      d.calls.toList.map Call.print = Execution.prints m.words m.trace fuel { sink } ∧
      report.sink.text = sink.text ++ Printer.transcript (d.calls.toList.map Call.print) ∧
      (readFrame d.ram L.frame).registers = report.state.registers ∧
      readCells d.ram L.memory = report.state.memory ∧
      ∃ native r', r.invokeAt L host entry limit sink = some (native, r') ∧
        native.sink.text = report.sink.text ∧ native.fault = report.fault ∧
        (report.fault = none → r'.state = report.state) := by
  obtain ⟨hiff, hagree⟩ := Target.Setting.agreement (target_sound host) S hd hsink
  rw [Target.stepIn, ← hr.bytes] at hiff hagree
  refine ⟨hiff, fun limit a d fuel report m' hrun hreport => ?_⟩
  obtain ⟨hprints, htext, hregisters, hcells, -⟩ := hagree limit a d fuel report m' hrun hreport
  refine ⟨hprints, htext, hregisters, hcells, ?_⟩
  obtain ⟨n, ps, w, ht, hfault, -, hps⟩ := Interpreter.walk_of_report hd hsink hreport
  obtain ⟨sink', hout, hsink'⟩ := Printer.exists_printAll_of_neverRefuses hsink ps
  obtain ⟨native, r', hinvoke, hnative, hwritten, hr'⟩ := S.invokeAt_of_returned w ht hr hrun sink
  rw [hout] at hnative hwritten
  rw [Printer.finish_of_neverRefuses hsink', Option.none_or, ← hfault] at hnative
  refine ⟨native, r', hinvoke, ?_, hnative, fun hnone => ?_⟩
  · rw [hwritten, hps, ← Printer.text_of_printAll hout]
    rfl
  · rw [hr', ← w.pc_eq_length (Nat.zero_le _) ht (hfault.symm.trans hnone)]

/-- A program that prints and then leaves itself: its interpreter run ends, so its code returns. -/
theorem agrees_strayProgram :
    Setting Native.runLayout 2 Native.strayProgram Native.runHost Native.entry ∧
    ∃ limit a d,
      runFor (step (exec Native.runHost) (Image.ofBytes strayRoutine.code)) limit Native.entry =
        (d, .returned a) := by
  have h := strayProgram_setting.agrees Native.strayInterpreter_decodes
    strayRoutine_compiled Device.neverRefuses_reliable
  exact ⟨strayProgram_setting, h.1.mpr ⟨6, Native.strayInterpreter_ends⟩⟩

/-- What an invocation reports that is given six steps for each turn of the program, and for the way
in and out. -/
theorem invokeAt_within (S : Setting L cached code host entry)
    (w : Walk code n State.fresh ps t) (ht : t.Ends code) {r : Routine}
    (hr : r.Compiled L cached code) (hlimit : 6 * n + 33 ≤ limit) (sink : Sink) :
    ∃ report r', r.invokeAt L host entry limit sink = some (report, r') ∧
      report.fault = (Printer.printAll { sink } ps).finish.2.or (t.jumpFault code) ∧
      report.sink = (Printer.printAll { sink } ps).finish.1 ∧
      r'.state = { t with pc := code.length } := by
  have hepilogue : (codegen.epilogue L cached).length ≤ 14 := by
    have hcached : cached ≤ 3 := S.cached_le
    change (Codegen.epilogue L cached).length ≤ 14
    simp only [Codegen.epilogue, Codegen.writeBack, List.length_append, List.length_map,
      List.length_range, List.length_cons, List.length_nil, maxCachedCells]
    omega
  have hroom : (codegen.prologue L).length + 6 * (n + 1) + (codegen.epilogue L cached).length ≤
      limit := by
    have hprologue : (codegen.prologue L).length = 13 := rfl
    omega
  obtain ⟨a, d, hrun⟩ := S.entered.returns_within (target_sound host) S.suits
    S.usable.reach (Codegen.length_block_le L cached) w ht hroom
  rw [Target.stepIn, ← hr.bytes] at hrun
  exact S.invokeAt_of_returned w ht hr hrun sink

end Setting

/-- Every routine for the program that prints and then leaves itself returns, and if its line is
taken, with the branch as its fault. -/
theorem strayProgram_returns :
    ∃ fuel, ∀ r : Routine, r.Compiled Native.runLayout 2 Native.strayProgram → ∀ sink,
      ∃ report r', r.invoke fuel sink = some (report, r') ∧
        (sink.device.NeverRefuses → report.fault = some (.jumpOutOfRange 4 12 5)) := by
  obtain ⟨n, ps, t, w, ht, hjump⟩ := Native.strayProgram_ends
  refine ⟨6 * n + 33, fun r hr sink => ?_⟩
  obtain ⟨report, r', hinvoke, hfault, -⟩ :=
    strayProgram_setting.invokeAt_within w ht hr (Nat.le_refl _) sink
  refine ⟨report, r', hinvoke, fun hsink => ?_⟩
  obtain ⟨sink', hout, hsink'⟩ := Printer.exists_printAll_of_neverRefuses hsink ps
  rw [hfault, hout, Printer.finish_of_neverRefuses hsink', Option.none_or, hjump]

end X64

end Dyad
