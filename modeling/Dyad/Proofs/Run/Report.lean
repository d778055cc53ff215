import Dyad.Proofs.Run.Walk

/-!
What a run of the interpreter reports. The walk from the fresh state decides it: if the walk ends,
so does the run, with the refusal of the first line that the sink does not take, or else with the
branch that left the program, if one did (`settled_of_ended`). With a sink that takes everything
the run ends only if the walk does (`walk_of_run`).
-/

namespace Dyad

/-- The device takes every line and never refuses to flush. -/
structure Device.NeverRefuses (d : Device) : Prop where
  line (earlier : List String) (line : String) : d.refusal earlier line = none
  flush (earlier : List String) : d.flushRefusal earlier = none

theorem Device.neverRefuses_reliable : (({} : Sink).device).NeverRefuses :=
  ⟨fun _ _ => rfl, fun _ => rfl⟩

namespace Printer

theorem print_device (out : Printer) (p : Print) : (out.print p).sink.device = out.sink.device := by
  obtain ⟨sink, _ | reason⟩ := out
  · simp only [print, Sink.write]
    split <;> rfl
  · rfl

theorem printAll_device (out : Printer) (ps : List Print) :
    (out.printAll ps).sink.device = out.sink.device := by
  induction ps generalizing out with
  | nil => rfl
  | cons p ps ih => exact (ih (out.print p)).trans (print_device out p)

theorem printAll_of_neverRefuses {sink : Sink} (h : sink.device.NeverRefuses) (ps : List Print) :
    (printAll ⟨sink, none⟩ ps).refused = none := by
  induction ps generalizing sink with
  | nil => rfl
  | cons p ps ih =>
    have hp : (print ⟨sink, none⟩ p).refused = none := by
      simp only [print, Sink.write, h.line]
    obtain ⟨sink', hsink'⟩ : ∃ sink', print ⟨sink, none⟩ p = ⟨sink', none⟩ :=
      ⟨_, congrArg (Printer.mk (print ⟨sink, none⟩ p).sink) hp⟩
    have hdevice := print_device ⟨sink, none⟩ p
    rw [hsink'] at hdevice
    refine Eq.trans ?_ (ih (hdevice ▸ h))
    rw [printAll, List.foldl_cons, hsink']
    rfl

theorem exists_printAll_of_neverRefuses {sink : Sink} (h : sink.device.NeverRefuses)
    (ps : List Print) :
    ∃ sink', printAll ⟨sink, none⟩ ps = ⟨sink', none⟩ ∧ sink'.device.NeverRefuses :=
  ⟨(printAll ⟨sink, none⟩ ps).sink,
    congrArg (Printer.mk (printAll ⟨sink, none⟩ ps).sink) (printAll_of_neverRefuses h ps),
    printAll_device ⟨sink, none⟩ ps ▸ h⟩

theorem finish_of_neverRefuses {sink : Sink} (h : sink.device.NeverRefuses) :
    (finish ⟨sink, none⟩).2 = none := by
  rw [finish, Sink.flush, h.flush]
  rfl

/-- The lines of prints, one after another. -/
def transcript : List Print → String
  | [] => ""
  | p :: ps => p.line ++ transcript ps

theorem transcript_append (ps qs : List Print) :
    transcript (ps ++ qs) = transcript ps ++ transcript qs := by
  induction ps with
  | nil => exact String.empty_append.symm
  | cons p ps ih => rw [List.cons_append, transcript, transcript, ih, String.append_assoc]

/-- A sink that has refused nothing holds the lines of all prints. -/
theorem text_of_printAll {sink sink' : Sink} {ps : List Print}
    (h : printAll ⟨sink, none⟩ ps = ⟨sink', none⟩) : sink'.text = sink.text ++ transcript ps := by
  induction ps generalizing sink with
  | nil =>
    cases h
    exact String.append_empty.symm
  | cons p ps ih =>
    rw [printAll, List.foldl_cons, ← printAll, print, Sink.write] at h
    cases hrefusal : sink.device.refusal sink.offered p.line with
    | some reason =>
      simp only [hrefusal, printAll_refused] at h
      cases h
    | none =>
      simp only [hrefusal] at h
      rw [ih h, transcript, String.append_assoc]

end Printer

namespace Execution

variable {words : Array UInt32} {trace : Bool} {code : List Instruction} {n limit : Nat}
  {ps : List Print} {s t : State} {x y : Execution} {o : Outcome}

/-- A run that has ended is not changed by a higher limit. -/
theorem runFor_mono {more : Nat} (h : runFor words trace limit x = (y, o)) (ho : o ≠ .advanced)
    (hle : limit ≤ more) : runFor words trace more x = (y, o) := by
  induction limit generalizing more x with
  | zero =>
    cases h
    exact absurd rfl ho
  | succ limit ih =>
    obtain ⟨more, rfl⟩ := Nat.exists_eq_add_of_le' (show 1 ≤ more by omega)
    rw [runFor] at h ⊢
    split at h
    · exact ih h (by omega)
    · exact h

/-- How a run has ended in `x` with `o`, if its walk ends in `t`: with the refusal that its prints
have met, or else where the walk ends. -/
def Settled (code : List Instruction) (t : State) (x : Execution) (o : Outcome) : Printer → Prop
  | ⟨sink, some reason⟩ => x.sink = sink ∧ o = .failed (.output reason)
  | ⟨sink, none⟩ => x.state = t ∧ x.sink = sink ∧ o = ending code t

theorem settled_of_ended (hd : Decodes words code) (w : Walk code n s ps t) (ht : t.Ends code)
    (hx : x.state = s) (h : runFor words trace limit x = (y, o)) (ho : o ≠ .advanced) :
    Settled code t y o (Printer.printAll ⟨x.sink, none⟩ ps) := by
  have hmore := runFor_mono h ho (Nat.le_add_right limit (n + 1))
  cases hout : Printer.printAll ⟨x.sink, none⟩ ps with
  | mk sink refused =>
    cases refused with
    | some reason =>
      obtain ⟨z, hz, hrun⟩ := runFor_of_refused trace hd w hx hout
      rw [hrun _ (by omega)] at hmore
      cases hmore
      exact ⟨hz, rfl⟩
    | none =>
      obtain ⟨events, hrun⟩ := runFor_of_walk_ends trace hd w ht hx hout
      rw [hrun _ (by omega)] at hmore
      cases hmore
      exact ⟨rfl, rfl, rfl⟩

/-- If the walk ends so does the run. -/
theorem runFor_ne_advanced (hd : Decodes words code) (w : Walk code n s ps t)
    (ht : t.Ends code) (hx : x.state = s) : (runFor words trace (n + 1) x).2 ≠ .advanced := by
  cases hout : Printer.printAll ⟨x.sink, none⟩ ps with
  | mk sink refused =>
    cases refused with
    | some reason =>
      obtain ⟨z, hz, hrun⟩ := runFor_of_refused trace hd w hx hout
      rw [hrun _ (by omega)]
      nofun
    | none =>
      obtain ⟨events, hrun⟩ := runFor_of_walk_ends trace hd w ht hx hout
      rw [hrun _ (by omega)]
      exact ending_ne_advanced code t

/-- With a sink that takes everything, a run that has not ended after `n` steps is a walk of `n`
turns. -/
theorem walk_of_advanced {sink : Sink} (hd : Decodes words code)
    (hsink : sink.device.NeverRefuses) (h : runFor words trace n { sink } = (x, .advanced)) :
    ∃ ps, Walk code n State.fresh ps x.state := by
  rcases Walk.exists_or_ends code n State.fresh with ⟨ps, t, w⟩ | ⟨m, ps, t, hm, w, ht⟩
  · obtain ⟨sink', hout, _⟩ := Printer.exists_printAll_of_neverRefuses hsink ps
    obtain ⟨events, hrun⟩ := runFor_of_walk trace hd w (x := { sink }) rfl hout
    rw [hrun] at h
    cases h
    exact ⟨ps, w⟩
  · have hne : (runFor words trace (m + 1) { sink }).2 ≠ .advanced :=
      runFor_ne_advanced hd w ht rfl
    have hmore := runFor_mono rfl hne hm
    rw [h] at hmore
    exact absurd (congrArg Prod.snd hmore).symm hne

/-- The fault with which a run ends. -/
def Outcome.fault : Outcome → Option Fault
  | .failed cause => some cause
  | _ => none

theorem fault_ending (code : List Instruction) (s : State) :
    (ending code s).fault = s.jumpFault code := by
  unfold ending
  cases s.jumpFault code <;> rfl

end Execution

namespace Interpreter

variable {m : Interpreter} {code : List Instruction} {n fuel : Nat} {ps : List Print} {t : State}
  {sink : Sink}

theorem run_eq_some {r : Report × Interpreter} (h : m.run fuel sink = some r) :
    ∃ x o, Execution.runFor m.words m.trace fuel { sink } = (x, o) ∧ o ≠ .advanced ∧
      r = m.finish x o.fault := by
  unfold run at h
  split at h
  · cases h
  · rename_i x hrun
    cases h
    exact ⟨x, _, hrun, nofun, rfl⟩
  · rename_i x cause hrun
    cases h
    exact ⟨x, _, hrun, nofun, rfl⟩

/-- A run that ends normally flushes, and reports a refusal of that. -/
theorem finish_none (m : Interpreter) (x : Execution) :
    (m.finish x none).1.fault = x.sink.flush.2.map Fault.output ∧
      (m.finish x none).1.sink = x.sink.flush.1 := by
  rw [finish]
  obtain ⟨sink, _ | reason⟩ := x.sink.flush <;> exact ⟨rfl, rfl⟩

/-- If the walk ends so does the run. -/
theorem run_isSome_of_walk_ends (hd : Decodes m.words code) (w : Walk code n State.fresh ps t)
    (ht : t.Ends code) (sink : Sink) : (m.run (n + 1) sink).isSome := by
  have hne : (Execution.runFor m.words m.trace (n + 1) { sink }).2 ≠ .advanced :=
    Execution.runFor_ne_advanced hd w ht rfl
  unfold run
  split
  · rename_i hrun
    rw [hrun] at hne
    exact absurd rfl hne
  · rfl
  · rfl

/-- With a sink that takes everything, a run ends only where the walk ends. -/
theorem walk_of_run (hd : Decodes m.words code) (hsink : sink.device.NeverRefuses)
    (h : (m.run fuel sink).isSome) :
    ∃ n ps t, n < fuel ∧ Walk code n State.fresh ps t ∧ t.Ends code := by
  rcases Walk.exists_or_ends code fuel State.fresh with ⟨ps, t, w⟩ | ⟨n, ps, t, hn, w, ht⟩
  · obtain ⟨sink', hout, _⟩ := Printer.exists_printAll_of_neverRefuses hsink ps
    obtain ⟨events, hrun⟩ := Execution.runFor_of_walk m.trace hd w (x := { sink }) rfl hout
    rw [run, hrun] at h
    cases h
  · exact ⟨n, ps, t, hn, w, ht⟩

/-- With a sink that takes everything, the run ends exactly if the walk does. -/
theorem run_isSome_iff (hd : Decodes m.words code) (hsink : sink.device.NeverRefuses) :
    (∃ fuel, (m.run fuel sink).isSome) ↔
      ∃ n ps t, Walk code n State.fresh ps t ∧ t.Ends code := by
  constructor
  · rintro ⟨fuel, hsome⟩
    obtain ⟨n, ps, t, _, w, ht⟩ := walk_of_run hd hsink hsome
    exact ⟨n, ps, t, w, ht⟩
  · rintro ⟨n, ps, t, w, ht⟩
    exact ⟨n + 1, run_isSome_of_walk_ends hd w ht sink⟩

/-- With a sink that takes everything, a run reports where and how the walk ends. -/
theorem report_of_neverRefuses (hd : Decodes m.words code) (hsink : sink.device.NeverRefuses)
    (w : Walk code n State.fresh ps t) (ht : t.Ends code) {report : Report} {m' : Interpreter}
    (h : m.run fuel sink = some (report, m')) :
    report.state = t ∧ report.fault = t.jumpFault code ∧
      report.sink.text = sink.text ++ Printer.transcript ps := by
  obtain ⟨x, o, hrun, ho, hfinish⟩ := run_eq_some h
  have hended := Execution.settled_of_ended hd w ht rfl hrun ho
  obtain ⟨sink', hout, hsink'⟩ := Printer.exists_printAll_of_neverRefuses hsink ps
  rw [hout] at hended
  obtain ⟨hstate, hx, rfl⟩ := hended
  have htext : sink'.text = sink.text ++ Printer.transcript ps := Printer.text_of_printAll hout
  rw [Execution.fault_ending] at hfinish
  cases hfault : t.jumpFault code with
  | none =>
    rw [hfault, finish, Sink.flush, hx, hsink'.flush] at hfinish
    cases hfinish
    exact ⟨hstate, rfl, htext⟩
  | some cause =>
    rw [hfault, finish] at hfinish
    cases hfinish
    exact ⟨hstate, rfl, hx ▸ htext⟩

/-- With a sink that takes everything, a run reports the walk that ends in its last state. -/
theorem walk_of_report (hd : Decodes m.words code) (hsink : sink.device.NeverRefuses)
    {report : Report} {m' : Interpreter} (h : m.run fuel sink = some (report, m')) :
    ∃ n ps, Walk code n State.fresh ps report.state ∧ report.state.Ends code ∧
      report.fault = report.state.jumpFault code ∧
      Execution.prints m.words m.trace fuel { sink } = ps ∧
      report.sink.text = sink.text ++ Printer.transcript ps := by
  obtain ⟨n, ps, t, hn, w, ht⟩ := walk_of_run hd hsink (by rw [h]; rfl)
  obtain ⟨hstate, hfault, htext⟩ := report_of_neverRefuses hd hsink w ht h
  obtain ⟨sink', hout, _⟩ := Printer.exists_printAll_of_neverRefuses hsink ps
  have hprints := Execution.prints_of_walk_ends m.trace hd w ht (x := { sink }) rfl hout
    (Nat.le_of_lt hn)
  subst hstate
  exact ⟨n, ps, w, ht, hfault, hprints, htext⟩

end Interpreter

end Dyad
