import Dyad.Proofs.Native.Workshop

/-!
Invocations of one routine, one after the other. The memory array and the frame of a routine hold
what its last invocation left there, and are cleared before its code runs. What a run then comes to,
apart from what the sink makes of its prints, depends on the program alone (`Native.Result`): not
on what was found in memory or in the machine's registers, nor on earlier sinks, the addresses of
the data, or the number of cached cells. So every invocation repeats the first one.
-/

namespace Dyad

/-! ### Results -/

/-- What a run of a routine comes to, before its prints reach a sink. -/
structure Native.Result where
  frame : Frame
  memory : Memory
  prints : List Print

namespace Native.Result

/-- What code that has returned has left behind. -/
def ofCpu (L : Layout) (d : X64.Cpu) : Result :=
  ⟨readFrame d.ram L.frame, readCells d.ram L.memory, d.calls.toList.map Call.print⟩

/-- What a program comes to that has ended in `t` after printing `ps`. -/
def ofEnd (code : List Instruction) (t : State) (ps : List Print) : Result :=
  ⟨⟨t.registers, (faultWords code t).1, (faultWords code t).2⟩, t.memory, ps⟩

end Native.Result

namespace Routine

open Native

/-- The routine after `n` more invocations, each of which came to `x`. -/
def bearing (r : Routine) (x : Result) (n : Nat) : Routine :=
  { r with
    stats := { r.stats with execCount := r.stats.execCount + n }
    registers := x.frame.registers
    memory := x.memory }

/-- The last of `n` invocations that come to `x`: its report, and the routine it leaves. -/
def outcome (r : Routine) (x : Result) (n : Nat) (sink : Sink) : Report × Routine :=
  (conclude r.stats.instructionCount x.frame (Printer.printAll { sink } x.prints), r.bearing x n)

theorem outcome_bearing (r : Routine) (x : Result) (m n : Nat) (sink : Sink) :
    (r.bearing x m).outcome x n sink = r.outcome x (m + n) sink := by
  rw [outcome, outcome, bearing, bearing, bearing, Nat.add_assoc]

theorem invokeAt_eq_outcome {r : Routine} {L : Layout} {host : X64.Host} {entry d : X64.Cpu}
    {a : UInt64} {fuel : Nat}
    (h : runFor (step (X64.exec host) (Image.ofBytes r.code)) fuel entry = (d, .returned a))
    (sink : Sink) :
    r.invokeAt L host entry fuel sink = some (r.outcome (.ofCpu L d) 1 sink) := by
  rw [invokeAt, h]
  rfl

/-- An invocation that ends reports what its code has left behind. -/
theorem outcome_of_invokeAt {r : Routine} {L : Layout} {host : X64.Host} {entry : X64.Cpu}
    {fuel : Nat} {sink : Sink} {out : Report × Routine}
    (h : r.invokeAt L host entry fuel sink = some out) :
    ∃ a d, Returns (step (X64.exec host) (Image.ofBytes r.code)) entry a d ∧
      out = r.outcome (.ofCpu L d) 1 sink := by
  obtain ⟨a, d, hrun⟩ := returned_of_invokeAt h
  rw [invokeAt_eq_outcome hrun] at h
  cases h
  exact ⟨a, d, ⟨fuel, hrun⟩, rfl⟩

theorem code_of_invokeAt {r r' : Routine} {L : Layout} {host : X64.Host} {entry : X64.Cpu}
    {fuel : Nat} {sink : Sink} {report : Report}
    (h : r.invokeAt L host entry fuel sink = some (report, r')) : r'.code = r.code := by
  obtain ⟨a, d, -, hout⟩ := outcome_of_invokeAt h
  cases hout
  rfl

/-! ### Histories -/

variable {V : Type} {call : Routine → V → Option (Report × Routine)}

/-- Calls of a routine, each on the routine that the one before it has left. No answer means that
one of them has not ended. -/
def callAll (call : Routine → V → Option (Report × Routine)) (r : Routine) :
    List V → Option (List (Report × Routine))
  | [] => some []
  | v :: vs =>
    match call r v with
    | none => none
    | some (report, r) => (r.callAll call vs).map ((report, r) :: ·)

theorem callAll_nil (call : Routine → V → Option (Report × Routine)) (r : Routine) :
    r.callAll call [] = some [] := rfl

theorem callAll_cons (call : Routine → V → Option (Report × Routine)) {r : Routine} {v : V}
    {vs : List V} {out : Report × Routine} {rest : List (Report × Routine)}
    (hv : call r v = some out) (hvs : out.2.callAll call vs = some rest) :
    r.callAll call (v :: vs) = some (out :: rest) := by
  simp only [callAll, hv, hvs, Option.map_some]

theorem callAll_cons_iff {r : Routine} {v : V} {vs : List V} {log : List (Report × Routine)} :
    r.callAll call (v :: vs) = some log ↔
      ∃ out rest, call r v = some out ∧ out.2.callAll call vs = some rest ∧ log = out :: rest := by
  constructor
  · intro h
    rw [callAll] at h
    cases hv : call r v with
    | none =>
      rw [hv] at h
      cases h
    | some out =>
      rw [hv] at h
      obtain ⟨rest, hrest, rfl⟩ := Option.map_eq_some_iff.mp h
      exact ⟨out, rest, rfl, hrest, rfl⟩
  · rintro ⟨out, rest, hv, hrest, rfl⟩
    exact callAll_cons call hv hrest

/-- If every call of routines with this code comes to `x`, then in a history of calls only the
number of invocations tells them apart. -/
theorem callAll_outcome {sinkOf : V → Sink} {x : Result} {code : List UInt8} {vs : List V}
    (steady : ∀ r : Routine, r.code = code → ∀ v ∈ vs, ∀ out,
      call r v = some out → out = r.outcome x 1 (sinkOf v))
    {r : Routine} (hr : r.code = code) {log : List (Report × Routine)}
    (h : r.callAll call vs = some log) {i : Nat} {v : V} (hv : vs[i]? = some v) :
    log[i]? = some (r.outcome x (i + 1) (sinkOf v)) := by
  induction vs generalizing r log i with
  | nil => cases hv
  | cons u us ih =>
    obtain ⟨out, rest, hu, hrest, rfl⟩ := callAll_cons_iff.mp h
    obtain rfl := steady r hr u List.mem_cons_self out hu
    cases i with
    | zero =>
      cases hv
      rfl
    | succ i =>
      -- the rest of the history is that of the routine after one invocation
      have hlater := ih (fun r hr v hv => steady r hr v (List.mem_cons_of_mem u hv))
        (r := r.bearing x 1) hr hrest hv
      rw [List.getElem?_cons_succ, hlater, outcome_bearing, Nat.add_comm 1]

/-- The `n`-th call of a routine, with this sink, has ended like a first call of `new`. -/
structure Repeats (new : Routine) (sink : Sink) (n : Nat) (out : Report × Routine) : Prop where
  /-- A first call of `new` ends, whatever its sink. -/
  ends : ∀ first, ∃ fuel answer, new.invoke fuel first = some answer
  /-- It leaves these registers and cells, whatever its sink. -/
  leaves : ∀ fuel first answer, new.invoke fuel first = some answer →
    out.2.registers = answer.2.registers ∧ out.2.memory = answer.2.memory ∧
      out.2.state = answer.2.state
  /-- With the same sink it reports the same. -/
  report : ∀ fuel answer, new.invoke fuel sink = some answer → out.1 = answer.1
  execCount : out.2.stats.execCount = n

theorem repeats_outcome {r new : Routine} {x : Result}
    (hsize : r.stats.instructionCount = new.stats.instructionCount)
    (hcount : r.stats.execCount = 0)
    (hends : ∀ sink, ∃ fuel answer, new.invoke fuel sink = some answer)
    (hnew : ∀ fuel sink answer, new.invoke fuel sink = some answer →
      answer = new.outcome x 1 sink) (sink : Sink) (n : Nat) :
    new.Repeats sink n (r.outcome x n sink) where
  ends := hends
  leaves fuel first answer h := by
    rw [hnew fuel first answer h]
    exact ⟨rfl, rfl, congrArg (State.mk x.frame.registers · x.memory) hsize⟩
  report fuel answer h := by
    rw [hnew fuel sink answer h, outcome, hsize, outcome]
  execCount := by
    change r.stats.execCount + n = n
    rw [hcount, Nat.zero_add]

/-- All invocations of routines with the same code end alike. -/
theorem callAll_invoke_repeats {r new : Routine} (hcode : new.code = r.code)
    (hsize : r.stats.instructionCount = new.stats.instructionCount)
    (hcount : r.stats.execCount = 0) {calls : List (Nat × Sink)} {log : List (Report × Routine)}
    (h : r.callAll (fun r v => r.invoke v.1 v.2) calls = some log) {i fuel : Nat} {sink : Sink}
    (hi : calls[i]? = some (fuel, sink)) :
    ∃ out, log[i]? = some out ∧ new.Repeats sink (i + 1) out := by
  -- the first call has returned, and all others leave behind what it has left
  obtain ⟨a, d, hret⟩ : ∃ a d,
      Returns (step (X64.exec runHost) (Image.ofBytes r.code)) Native.entry a d := by
    cases calls with
    | nil => cases hi
    | cons v vs =>
      obtain ⟨out, rest, hv, -⟩ := callAll_cons_iff.mp h
      obtain ⟨a, d, hret, -⟩ := outcome_of_invokeAt hv
      exact ⟨a, d, hret⟩
  have steady (t : Routine) (ht : t.code = r.code) (fuel : Nat) (sink : Sink)
      (out : Report × Routine) (hout : t.invoke fuel sink = some out) :
      out = t.outcome (.ofCpu runLayout d) 1 sink := by
    obtain ⟨a', d', hret', rfl⟩ := outcome_of_invokeAt hout
    rw [ht] at hret'
    obtain ⟨-, rfl⟩ := hret.unique hret'
    rfl
  refine ⟨_, callAll_outcome (fun t ht v _ => steady t ht v.1 v.2) rfl h hi, ?_⟩
  refine repeats_outcome hsize hcount (fun sink => ?_) (steady new hcode) sink (i + 1)
  obtain ⟨fuel, hrun⟩ := hret
  rw [← hcode] at hrun
  exact ⟨fuel, _, invokeAt_eq_outcome hrun sink⟩

end Routine

/-! ### Any machine, any addresses -/

namespace X64

open Native (Result runLayout runHost)

/-- A call of a routine, in surroundings that need not be those of any earlier call: the machine is
found with anything in its registers and in its memory. -/
structure Visit where
  host : Host
  found : Cpu
  fuel : Nat
  sink : Sink

namespace Visit

/-- The print function is where the code expects it, and the stack away from its data. -/
structure Suits (L : Layout) (v : Visit) : Prop where
  print : v.host.print = L.print
  separate : L.Separate (stackBase v.found) (target v.host).stackBytes

theorem Suits.entered {L : Layout} {v : Visit} (h : v.Suits L) :
    (target v.host).Entry L (Native.enter L v.found) :=
  entered_enter h.separate

/-- Invokes a routine whose data are where `L` says. -/
def invoke (L : Layout) (r : Routine) (v : Visit) : Option (Routine.Report × Routine) :=
  r.invokeOn L v.host v.found v.fuel v.sink

end Visit

variable {L : Layout} {cached : Nat} {code : List Instruction} {host : Host} {entry : Cpu}
  {n fuel : Nat} {ps : List Print} {t : State} {r : Routine} {sink : Sink}
  {out : Routine.Report × Routine}

/-- If a routine for a program returns, the program ends. -/
theorem walk_of_invokeAt (h : (target host).Entry L entry) (U : Usable L cached code)
    (hprint : host.print = L.print) (hr : r.code = codegen.assemble L cached code)
    (hcall : r.invokeAt L host entry fuel sink = some out) :
    ∃ n ps t, Walk code n State.fresh ps t ∧ t.Ends code := by
  obtain ⟨a, d, hret, -⟩ := Routine.outcome_of_invokeAt hcall
  rw [hr] at hret
  exact (follows h U hprint).returns_iff.mp ⟨a, d, hret⟩

/-- What it comes to is said by the program alone. -/
theorem outcome_of_invokeAt (h : (target host).Entry L entry) (U : Usable L cached code)
    (hprint : host.print = L.print) (w : Walk code n State.fresh ps t) (ht : t.Ends code)
    (hr : r.code = codegen.assemble L cached code)
    (hcall : r.invokeAt L host entry fuel sink = some out) :
    out = r.outcome (.ofEnd code t ps) 1 sink := by
  obtain ⟨a, d, hret, rfl⟩ := Routine.outcome_of_invokeAt hcall
  rw [hr] at hret
  have hleft := (follows h U hprint).left_of_returned w ht hret
  have hresult : Result.ofCpu L d = .ofEnd code t ps := by
    rw [Result.ofCpu, hleft.handedBack.frame, hleft.handedBack.cells, hleft.calls,
      Native.map_print_callOf, Result.ofEnd]
  rw [hresult]

/-- All visits of routines for the same program end alike, wherever their data are. -/
theorem callAll_visits_repeat (U : Usable L cached code) (hr : r.Compiled L cached code)
    (hcount : r.stats.execCount = 0) {cells : Nat} (U' : Usable runLayout cells code)
    {new : Routine} (hnew : new.Compiled runLayout cells code) {visits : List Visit}
    (hsuit : ∀ v ∈ visits, v.Suits L) {log : List (Routine.Report × Routine)}
    (h : r.callAll (Visit.invoke L) visits = some log) {i : Nat} {v : Visit}
    (hv : visits[i]? = some v) : ∃ out, log[i]? = some out ∧ new.Repeats v.sink (i + 1) out := by
  -- the first visit has returned, so the program ends, and its end settles what all visits come to
  obtain ⟨n, ps, t, w, ht⟩ : ∃ n ps t, Walk code n State.fresh ps t ∧ t.Ends code := by
    cases visits with
    | nil => cases hv
    | cons u us =>
      obtain ⟨out, rest, hu, -⟩ := Routine.callAll_cons_iff.mp h
      have suits := hsuit u List.mem_cons_self
      exact walk_of_invokeAt suits.entered U suits.print hr.bytes hu
  have steady (s : Routine) (hs : s.code = r.code) (u : Visit) (hu : u ∈ visits)
      (out : Routine.Report × Routine) (hout : Visit.invoke L s u = some out) :
      out = s.outcome (.ofEnd code t ps) 1 u.sink := by
    have suits := hsuit u hu
    exact outcome_of_invokeAt suits.entered U suits.print w ht (hs.trans hr.bytes) hout
  refine ⟨_, Routine.callAll_outcome steady rfl h hv, ?_⟩
  have hprint : runHost.print = runLayout.print := rfl
  refine Routine.repeats_outcome (hr.size.trans hnew.size.symm) hcount ?_ ?_ v.sink (i + 1)
  · intro sink
    obtain ⟨fuel, hfuel⟩ := exists_invokeAt (entry_entered runHost) U' hprint w ht
    obtain ⟨report, r', hanswer⟩ := hfuel new hnew.bytes sink
    exact ⟨fuel, _, hanswer⟩
  · intro fuel sink answer hanswer
    exact outcome_of_invokeAt (entry_entered runHost) U' hprint w ht hnew.bytes hanswer

end X64

/-- Every invocation of a compiled routine repeats the first one of a routine newly compiled from
the same program, whatever its sink and those before it. So does every invocation of a routine for
the program with its data elsewhere, on a machine that may be found in any condition. -/
theorem Compiler.invocations_repeat {c c' d d' : Compiler} {p : Program} {r new : Routine}
    (hr : c.compile p = .ok (r, c')) (hnew : d.compile p = .ok (new, d'))
    (hcells : d.cachedCells = c.cachedCells) :
    (∀ calls log, r.callAll (fun r v => r.invoke v.1 v.2) calls = some log →
      ∀ i fuel sink, calls[i]? = some (fuel, sink) →
        ∃ out, log[i]? = some out ∧ new.Repeats sink (i + 1) out) ∧
    (∀ code, Decodes p.words code → X64.Usable Native.runLayout c.cachedCells code →
      ∀ L k, X64.Usable L k code → ∀ s : Routine, s.Compiled L k code → s.stats.execCount = 0 →
        ∀ visits log, (∀ v ∈ visits, v.Suits L) →
          s.callAll (X64.Visit.invoke L) visits = some log →
            ∀ i v, visits[i]? = some v →
              ∃ out, log[i]? = some out ∧ new.Repeats v.sink (i + 1) out) := by
  obtain ⟨code, hd, rfl⟩ := routine_of_compile hr
  obtain ⟨code', hd', rfl⟩ := routine_of_compile hnew
  obtain rfl := hd.unique hd'
  constructor
  · intro calls log h i fuel sink hi
    have hcode : (d.routineFor code).code = (c.routineFor code).code := by
      rw [routineFor, routineFor, hcells]
    exact Routine.callAll_invoke_repeats hcode rfl rfl h hi
  · intro code'' hd'' U L k U' s hs hcount visits log hsuit h i v hv
    obtain rfl := hd.unique hd''
    have hcompiled := routineFor_compiled d code
    rw [hcells] at hcompiled
    exact X64.callAll_visits_repeat U' hs hcount U hcompiled hsuit h hv

/-- A machine on which something has run before: a cell is not zero, and the frame has a record of
a branch. -/
def X64.litteredCpu : X64.Cpu :=
  { Native.idle with
    ip := 7
    ram := (Native.idle.ram.store32 (Native.runLayout.cell 1) 5).store32
      (Native.runLayout.field Layout.frameFaultPc) 9 }

/-- A program that prints and then leaves itself. Its second invocation is not affected by the
first, whose line was refused; nor is an invocation on a machine with leftovers in its memory. -/
theorem Compiler.invocations_repeat_stray :
    ∃ r c', compile { cachedCells := 2 } ⟨Native.strayInterpreter.words, 0⟩ = .ok (r, c') ∧
      (∃ fuel log,
        r.callAll (fun r v => r.invoke v.1 v.2)
          [(fuel, { device := Device.failing (some 0) false false }), (fuel, {})] = some log ∧
        ∃ out, log[1]? = some out ∧ r.Repeats {} 2 out) ∧
      ∃ fuel log,
        r.callAll (X64.Visit.invoke Native.runLayout)
          [⟨Native.runHost, X64.litteredCpu, fuel, {}⟩] = some log ∧
        ∃ out, log[0]? = some out ∧ r.Repeats {} 1 out := by
  have hd : Decodes (⟨Native.strayInterpreter.words, 0⟩ : Program).words Native.strayProgram :=
    Native.strayInterpreter_decodes
  have hr := compile_of_decodes { cachedCells := 2 } hd
  have hcompiled := routineFor_compiled { cachedCells := 2 } Native.strayProgram
  obtain ⟨invocations, visits⟩ := invocations_repeat hr hr rfl
  refine ⟨_, _, hr, ?_, ?_⟩
  · obtain ⟨n, ps, t, w, ht, -⟩ := Native.strayProgram_ends
    obtain ⟨fuel, hfuel⟩ : ∃ fuel, ∀ r : Routine,
        r.code = X64.codegen.assemble Native.runLayout 2 Native.strayProgram →
          ∀ sink, ∃ report r', r.invoke fuel sink = some (report, r') :=
      X64.exists_invokeAt (X64.entry_entered Native.runHost) X64.strayProgram_setting.usable
        X64.strayProgram_setting.print w ht
    obtain ⟨report, r, hfirst⟩ :=
      hfuel _ hcompiled.bytes { device := Device.failing (some 0) false false }
    obtain ⟨report', r', hsecond⟩ := hfuel r (Routine.code_of_invokeAt hfirst) {}
    have hlog := Routine.callAll_cons (fun r (v : Nat × Sink) => r.invoke v.1 v.2)
      (v := (fuel, _)) hfirst (Routine.callAll_cons _ (v := (fuel, {})) hsecond
        (Routine.callAll_nil _ _))
    exact ⟨fuel, _, hlog, invocations _ _ hlog 1 fuel {} rfl⟩
  · have suits (fuel : Nat) :
        X64.Visit.Suits Native.runLayout ⟨Native.runHost, X64.litteredCpu, fuel, {}⟩ :=
      ⟨rfl, X64.idle_separate⟩
    have usable := X64.strayProgram_setting.usable
    obtain ⟨n, ps, t, w, ht, -⟩ := Native.strayProgram_ends
    obtain ⟨fuel, hfuel⟩ := X64.exists_invokeAt (suits 0).entered usable (suits 0).print w ht
    obtain ⟨report, r, hout⟩ := hfuel _ hcompiled.bytes {}
    have hlog := Routine.callAll_cons (X64.Visit.invoke Native.runLayout)
      (v := ⟨Native.runHost, X64.litteredCpu, fuel, {}⟩) hout
      (Routine.callAll_nil _ _)
    refine ⟨fuel, _, hlog, ?_⟩
    refine visits _ hd usable _ _ usable _ hcompiled rfl _ _ ?_ hlog 0 _ rfl
    intro v hv
    cases List.mem_singleton.mp hv
    exact suits fuel

end Dyad
