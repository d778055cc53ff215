import Dyad.Proofs.Native.X64.Equivalence

/-!
Both engines on outputs that fail. The interpreter stops at the first line that the sink refuses;
compiled code runs on, drops its later lines and reports the refusal at the end. Each engine has
its own copy of the sink, and still both collect the same text and end alike, except that only
compiled code flushes after a branch out of the program (`EndAlike`).
-/

namespace Dyad

namespace Printer

theorem print_flushes (out : Printer) (p : Print) :
    (out.print p).sink.flushes = out.sink.flushes := by
  obtain ⟨sink, _ | reason⟩ := out
  · simp only [print, Sink.write]
    split <;> rfl
  · rfl

theorem printAll_flushes (out : Printer) (ps : List Print) :
    (out.printAll ps).sink.flushes = out.sink.flushes := by
  induction ps generalizing out with
  | nil => rfl
  | cons p ps ih => exact (ih (out.print p)).trans (print_flushes out p)

end Printer

/-- How the reports of both engines, each made with its own copy of `sink`, go together, by how the
last step of the interpreter turned out. -/
def EndAlike (sink : Sink) (report : Interpreter.Report) (native : Routine.Report) :
    Execution.Outcome → Prop
  | .halted =>
    -- both flush, and report a refusal of that
    native.fault = report.fault ∧ report.sink.flushes = sink.flushes + 1 ∧
      native.sink.flushes = sink.flushes + 1
  | .failed (.output reason) =>
    -- a line was refused, and neither flushes
    report.fault = some (.output reason) ∧ native.fault = some (.output reason) ∧
      report.sink.flushes = sink.flushes ∧ native.sink.flushes = sink.flushes
  | .failed (.jumpOutOfRange pc target size) =>
    -- only the routine flushes, and a refusal of that comes before the branch
    report.fault = some (.jumpOutOfRange pc target size) ∧
      native.fault = (report.sink.flush.2.map Fault.output).or report.fault ∧
      report.sink.flushes = sink.flushes ∧ native.sink.flushes = sink.flushes + 1
  | _ => False

/-- The two reports where the prints have left `out` behind and the program has ended in `t`. -/
theorem endAlike_of_printed {m m' : Interpreter} {code : List Instruction} {t : State} {sink : Sink}
    {out : Printer} (hflushes : out.sink.flushes = sink.flushes) {x : Execution}
    {o : Execution.Outcome}
    (hended : Execution.Settled code t x o out)
    {report : Interpreter.Report} (hreport : (report, m') = m.finish x o.fault)
    {native : Routine.Report} (hfault : native.fault = out.finish.2.or (t.jumpFault code))
    (hsink : native.sink = out.finish.1) :
    native.sink.text = report.sink.text ∧ EndAlike sink report native o := by
  obtain ⟨sink', _ | reason⟩ := out
  · obtain ⟨_, rfl, rfl⟩ := hended
    have hfinish : Printer.finish ⟨x.sink, none⟩ =
      (x.sink.flush.1, x.sink.flush.2.map Fault.output) := rfl
    rw [hfinish] at hfault hsink
    rw [Execution.fault_ending] at hreport
    cases hjump : t.jumpFault code with
    | none =>
      obtain ⟨hfault', hsink'⟩ := Interpreter.finish_none m x
      rw [hjump] at hreport hfault
      rw [← hreport] at hfault' hsink'
      rw [Option.or_none] at hfault
      rw [Execution.ending, hjump, hsink, EndAlike, hsink, hsink']
      refine ⟨rfl, hfault.trans hfault'.symm, ?_, ?_⟩
      · exact congrArg (· + 1) hflushes
      · exact congrArg (· + 1) hflushes
    | some cause =>
      obtain ⟨target, _, rfl⟩ := State.jumpFault_eq_some hjump
      rw [hjump] at hreport hfault
      cases hreport
      rw [Execution.ending, hjump, hsink, EndAlike, hsink]
      exact ⟨rfl, rfl, hfault, hflushes, congrArg (· + 1) hflushes⟩
  · obtain ⟨rfl, rfl⟩ := hended
    cases hreport
    refine ⟨?_, rfl, hfault, hflushes, ?_⟩
    · rw [hsink]
      rfl
    · rw [hsink]
      exact hflushes

namespace X64.Setting

open Native (Target strayInterpreter strayInterpreter_decodes strayInterpreter_ends)

variable {L : Layout} {cached : Nat} {code : List Instruction} {host : Host} {entry : Cpu}

/-- If an invocation of the routine ends, whatever the sink refuses, the interpreter's run on the
same sink ends too, has collected the same text, and ends alike. -/
theorem endAlike (S : Setting L cached code host entry) {m : Interpreter}
    (hd : Decodes m.words code) {r r' : Routine} (hr : r.Compiled L cached code) {sink : Sink}
    {limit : Nat} {native : Routine.Report}
    (h : r.invokeAt L host entry limit sink = some (native, r')) :
    (∃ fuel, (m.run fuel sink).isSome) ∧
    ∀ fuel report m', m.run fuel sink = some (report, m') →
      native.sink.text = report.sink.text ∧
      EndAlike sink report native (Execution.runFor m.words m.trace fuel { sink }).2 := by
  obtain ⟨a, d, hrun⟩ := Routine.returned_of_invokeAt h
  obtain ⟨n, ps, t, w, ht⟩ : ∃ n ps t, Walk code n State.fresh ps t ∧ t.Ends code := by
    rw [← Target.Setting.returned_iff (target_sound host) S, Target.stepIn, ← hr.bytes]
    exact ⟨limit, a, d, hrun⟩
  obtain ⟨_, _, hinvoke, hfault, hsink, _⟩ := S.invokeAt_of_returned w ht hr hrun sink
  rw [h] at hinvoke
  cases hinvoke
  refine ⟨⟨n + 1, Interpreter.run_isSome_of_walk_ends hd w ht sink⟩, ?_⟩
  intro fuel report m' hreport
  obtain ⟨x, o, hout, ho, hfinish⟩ := Interpreter.run_eq_some hreport
  have hended := Execution.settled_of_ended hd w ht rfl hout ho
  rw [hout]
  exact endAlike_of_printed (Printer.printAll_flushes _ ps) hended hfinish hfault hsink

/-- A program leaves itself, and the sink refuses to flush: the two engines report different
errors. -/
theorem endAlike_strayProgram :
    ∃ limit native r' report m',
      strayRoutine.invokeAt Native.runLayout Native.runHost Native.entry limit
        { device := Device.failing none false true } = some (native, r') ∧
      strayInterpreter.run 6 { device := Device.failing none false true } = some (report, m') ∧
      native.sink.text = report.sink.text ∧
      report.fault = some (.jumpOutOfRange 4 12 5) ∧
      native.fault = some (.output "flush failed") := by
  obtain ⟨n, ps, t, _, w, ht⟩ :=
    Interpreter.walk_of_run strayInterpreter_decodes Device.neverRefuses_reliable
      strayInterpreter_ends
  obtain ⟨native, r', hinvoke, _⟩ := strayProgram_setting.invokeAt_within w ht
    strayRoutine_compiled (Nat.le_refl _) { device := Device.failing none false true }
  have hreport : (strayInterpreter.run 6 { device := Device.failing none false true }).map
      (fun r => (r.1.fault, r.1.sink.flush.2)) =
        some (some (.jumpOutOfRange 4 12 5), some "flush failed") := by decide +kernel
  have houtcome : (Execution.runFor strayInterpreter.words false 6
      { sink := { device := Device.failing none false true } }).2 =
        .failed (.jumpOutOfRange 4 12 5) := by decide +kernel
  obtain ⟨⟨report, m'⟩, hsome, hpair⟩ := Option.map_eq_some_iff.mp hreport
  have halike := (strayProgram_setting.endAlike strayInterpreter_decodes strayRoutine_compiled
    hinvoke).2 6 report m' hsome
  rw [show strayInterpreter.trace = false from rfl, houtcome, EndAlike] at halike
  obtain ⟨htext, hfault, hnative, _⟩ := halike
  rw [congrArg Prod.snd hpair] at hnative
  exact ⟨_, native, r', report, m', hinvoke, hsome, htext, hfault, hnative⟩

end X64.Setting

end Dyad
