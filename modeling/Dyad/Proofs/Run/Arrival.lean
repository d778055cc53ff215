import Dyad.Proofs.Run.Step

/-!
Which words a run reads. A step reads the word at the pc and the number of words, and no other word
(`step_congr`); so a run reads no more than the words that it arrives at (`congr_of_arrivals`), and
any other word may as well not be an instruction. A run fails to decode exactly if it arrives at
such a word (`runFor_undecodable_iff`), and what it has written by then are the lines of the steps
before.
-/

namespace Dyad

namespace Execution

/-- Where a run of at most `limit` steps arrives, in order: all that it takes a step from, the last
one, which fails or halts, included. -/
def arrivals (words : Array UInt32) (trace : Bool) : (limit : Nat) → Execution → List Execution
  | 0, _ => []
  | limit + 1, x =>
    x :: match step words trace x with
      | (y, .advanced) => arrivals words trace limit y
      | _ => []

variable {words words' : Array UInt32} {trace : Bool} {limit : Nat} {x y : Execution} {o : Outcome}

theorem arrivals_of_advanced (h : step words trace x = (y, .advanced)) (limit : Nat) :
    arrivals words trace (limit + 1) x = x :: arrivals words trace limit y := by
  rw [arrivals, h]

theorem arrivals_of_ended (h : step words trace x = (y, o)) (ho : o ≠ .advanced) (limit : Nat) :
    arrivals words trace (limit + 1) x = [x] := by
  rw [arrivals, h]
  cases o with
  | advanced => exact absurd rfl ho
  | halted | failed => rfl

theorem prints_of_advanced (h : step words trace x = (y, .advanced)) (limit : Nat) :
    prints words trace (limit + 1) x =
      (printed words x).toList ++ prints words trace limit y := by
  rw [prints, h]

theorem prints_of_ended (h : step words trace x = (y, o)) (ho : o ≠ .advanced) (limit : Nat) :
    prints words trace (limit + 1) x = [] := by
  rw [prints, h]
  cases o with
  | advanced => exact absurd rfl ho
  | halted | failed => rfl

/-! ### Words that agree -/

theorem Stepped.congr {r : Execution × Outcome} (hsize : words'.size = words.size)
    (hword : words'[x.state.pc]? = words[x.state.pc]?) (h : Stepped words trace x r) :
    Stepped words' trace x r := by
  have hfetch : x.state.fetch words' = x.state.fetch words := by
    rw [State.fetch, State.fetch, hword]
  cases h with
  | halted hge =>
    rw [← hsize] at hge
    exact .halted hge
  | undecodable hdecode =>
    rw [← hfetch] at hdecode
    exact .undecodable hdecode
  | astray hdecode hturn =>
    rw [← hfetch] at hdecode
    rw [← hsize] at hturn ⊢
    exact .astray hdecode hturn
  | refused hdecode hturn hout =>
    rw [← hfetch] at hdecode
    rw [← hsize] at hturn
    exact .refused hdecode hturn hout
  | advanced hdecode hturn hout =>
    rw [← hfetch] at hdecode
    rw [← hsize] at hturn
    exact .advanced hdecode hturn hout

/-- A step reads one word. -/
theorem step_congr (trace : Bool) (hsize : words'.size = words.size)
    (hword : words'[x.state.pc]? = words[x.state.pc]?) :
    step words' trace x = step words trace x :=
  ((stepped words trace x).congr hsize hword).eq

/-- If words agree with others wherever a run of the others arrives, then their run arrives at the
same places and comes to the same. -/
theorem congr_of_arrivals (hsize : words'.size = words.size)
    (hagree : ∀ z ∈ arrivals words trace limit x, words'[z.state.pc]? = words[z.state.pc]?) :
    arrivals words' trace limit x = arrivals words trace limit x ∧
      runFor words' trace limit x = runFor words trace limit x := by
  fun_induction runFor words trace limit x with
  | case1 x => exact ⟨rfl, rfl⟩
  | case2 limit x y hstep ih =>
    rw [arrivals_of_advanced hstep, List.forall_mem_cons] at hagree
    obtain ⟨hhere, hlater⟩ := hagree
    obtain ⟨harrivals, hrun⟩ := ih hlater
    have hstep' := (step_congr trace hsize hhere).trans hstep
    rw [arrivals_of_advanced hstep, arrivals_of_advanced hstep', harrivals, runFor, hstep']
    exact ⟨rfl, hrun⟩
  | case3 limit x y o ho hstep =>
    rw [arrivals_of_ended hstep ho] at hagree
    have hstep' := (step_congr trace hsize (hagree x List.mem_cons_self)).trans hstep
    rw [arrivals_of_ended hstep ho, arrivals_of_ended hstep' ho]
    exact ⟨rfl, runFor_of_step hstep' ho (Nat.succ_pos limit)⟩

/-! ### Words that do not decode -/

theorem Stepped.undecodable_iff {r : Execution × Outcome} {e : DecodeError}
    (h : Stepped words trace x r) :
    r = (y, .failed (.undecodable e)) ↔ y = x ∧ x.state.fetch words = some (.error e) := by
  constructor
  · rintro rfl
    cases h with
    | undecodable hfetch => exact ⟨rfl, hfetch⟩
  · rintro ⟨rfl, hfetch⟩
    exact h.eq.symm.trans (step_of_fetch_error trace hfetch)

/-- A run fails to decode exactly where it has arrived at a word that is not an instruction. -/
theorem runFor_undecodable_iff {e : DecodeError} :
    runFor words trace limit x = (y, .failed (.undecodable e)) ↔
      y ∈ arrivals words trace limit x ∧ y.state.fetch words = some (.error e) := by
  fun_induction runFor words trace limit x with
  | case1 x =>
    constructor
    · intro h
      cases h
    · rintro ⟨hmem, -⟩
      exact absurd hmem List.not_mem_nil
  | case2 limit x z hstep ih =>
    rw [ih, arrivals_of_advanced hstep, List.mem_cons]
    constructor
    · rintro ⟨hmem, hfetch⟩
      exact ⟨.inr hmem, hfetch⟩
    · rintro ⟨rfl | hmem, hfetch⟩
      · cases hstep.symm.trans (step_of_fetch_error trace hfetch)
      · exact ⟨hmem, hfetch⟩
  | case3 limit x z o ho hstep =>
    rw [(stepped_of_step hstep).undecodable_iff, arrivals_of_ended hstep ho, List.mem_singleton]
    refine and_congr_right ?_
    rintro rfl
    rfl

theorem Stepped.text {r : Execution × Outcome} (h : Stepped words trace x r) :
    (r.2 = .advanced →
      r.1.sink.text = x.sink.text ++ Printer.transcript (printed words x).toList) ∧
    (r.2 ≠ .advanced → r.1.sink.text = x.sink.text) := by
  cases h with
  | halted | undecodable | astray => exact ⟨nofun, fun _ => rfl⟩
  | refused hfetch hturn hout =>
    obtain ⟨p, rfl, hwrite⟩ := Printer.write_of_refused hout
    exact ⟨nofun, fun _ => Sink.text_of_refused hwrite⟩
  | advanced hfetch hturn hout =>
    refine ⟨fun _ => ?_, fun h => absurd rfl h⟩
    rw [printed_of_turnBy hfetch hturn]
    exact Printer.text_of_printAll hout

/-- A run has added the lines of its completed steps to the sink, and nothing else. -/
theorem text_runFor (words : Array UInt32) (trace : Bool) (limit : Nat) (x : Execution) :
    (runFor words trace limit x).1.sink.text =
      x.sink.text ++ Printer.transcript (prints words trace limit x) := by
  fun_induction runFor words trace limit x with
  | case1 x => exact String.append_empty.symm
  | case2 limit x y hstep ih =>
    have htext : y.sink.text = x.sink.text ++ Printer.transcript (printed words x).toList :=
      (stepped_of_step hstep).text.1 rfl
    rw [ih, htext, prints_of_advanced hstep, Printer.transcript_append, String.append_assoc]
  | case3 limit x y o ho hstep =>
    rw [prints_of_ended hstep ho]
    exact ((stepped_of_step hstep).text.2 ho).trans String.append_empty.symm

end Execution

/-! ### Whole runs of the interpreter -/

namespace Interpreter

variable {m m' : Interpreter} {fuel : Nat} {sink : Sink} {report : Report} {words' : Array UInt32}

/-- What is reported and counted at the end of a run does not depend on the words. -/
theorem finish_words (m : Interpreter) (words' : Array UInt32) (x : Execution)
    (fault : Option Fault) :
    ({ m with words := words' } : Interpreter).finish x fault =
      ((m.finish x fault).1, { (m.finish x fault).2 with words := words' }) := by
  cases fault with
  | some cause => rfl
  | none =>
    rw [finish, finish]
    obtain ⟨sink, _ | reason⟩ := x.sink.flush <;> rfl

theorem run_words (m : Interpreter)
    (h : Execution.runFor words' m.trace fuel { sink } =
      Execution.runFor m.words m.trace fuel { sink }) :
    ({ m with words := words' } : Interpreter).run fuel sink =
      (m.run fuel sink).map fun r => (r.1, { r.2 with words := words' }) := by
  rw [run, run, h]
  obtain ⟨x, o⟩ := Execution.runFor m.words m.trace fuel { sink }
  cases o with
  | advanced => rfl
  | halted | failed => exact congrArg some (m.finish_words words' x _)

/-- The interpreter reports a word that is not an instruction exactly if it has arrived at one, and
leaves everything as it was on arrival. -/
theorem run_undecodable_iff {e : DecodeError} :
    (m.run fuel sink = some (report, m') ∧ report.fault = some (.undecodable e)) ↔
      ∃ z ∈ Execution.arrivals m.words m.trace fuel { sink },
        z.state.fetch m.words = some (.error e) ∧
        report = ⟨z.state, some (.undecodable e), z.sink, z.events.reverse⟩ ∧ m' = m := by
  constructor
  · rintro ⟨hrun, hfault⟩
    obtain ⟨z, o, hended, -, hreport⟩ := run_eq_some hrun
    cases ho : o.fault with
    | none =>
      have hflush := (m.finish_none z).1
      rw [← ho, ← hreport, hfault] at hflush
      cases hrefusal : z.sink.flush.2 <;> rw [hrefusal] at hflush <;> cases hflush
    | some cause =>
      rw [ho, finish] at hreport
      cases hreport
      cases hfault
      cases o with
      | advanced | halted => cases ho
      | failed cause =>
        cases ho
        obtain ⟨hmem, hfetch⟩ := Execution.runFor_undecodable_iff.mp hended
        exact ⟨z, hmem, hfetch, rfl, rfl⟩
  · rintro ⟨z, hmem, hfetch, rfl, rfl⟩
    refine ⟨?_, rfl⟩
    rw [run, Execution.runFor_undecodable_iff.mpr ⟨hmem, hfetch⟩]
    rfl

end Interpreter

/-- A run reads the words that it arrives at and no others. If other words, as many of them, agree
with these wherever a run arrives, their run arrives at the same places in the same states and comes
to the same; so a word that is never reached does not matter. A run fails to decode exactly if it
arrives at a word that is not an instruction, by the error of that word, and has by then written the
lines of the steps before. -/
theorem Execution.reads_arrivals_only (words : Array UInt32) :
    (∀ (trace : Bool) (limit : Nat) (x : Execution),
      (∀ words' : Array UInt32, words'.size = words.size →
        (∀ z ∈ arrivals words trace limit x, words'[z.state.pc]? = words[z.state.pc]?) →
        arrivals words' trace limit x = arrivals words trace limit x ∧
          runFor words' trace limit x = runFor words trace limit x) ∧
      (∀ (k : Nat) (w : UInt32), (∀ z ∈ arrivals words trace limit x, z.state.pc ≠ k) →
        arrivals (words.setIfInBounds k w) trace limit x = arrivals words trace limit x ∧
          runFor (words.setIfInBounds k w) trace limit x = runFor words trace limit x) ∧
      (∀ y e, runFor words trace limit x = (y, .failed (.undecodable e)) ↔
        y ∈ arrivals words trace limit x ∧ y.state.fetch words = some (.error e)) ∧
      (runFor words trace limit x).1.sink.text =
        x.sink.text ++ Printer.transcript (prints words trace limit x)) ∧
    ∀ (m : Interpreter) (fuel : Nat) (sink : Sink), m.words = words →
      (∀ words' : Array UInt32, words'.size = words.size →
        (∀ z ∈ arrivals words m.trace fuel { sink },
          words'[z.state.pc]? = words[z.state.pc]?) →
        ({ m with words := words' } : Interpreter).run fuel sink =
          (m.run fuel sink).map fun r => (r.1, { r.2 with words := words' })) ∧
      ∀ report m' e,
        (m.run fuel sink = some (report, m') ∧ report.fault = some (.undecodable e)) ↔
          ∃ z ∈ arrivals words m.trace fuel { sink }, z.state.fetch words = some (.error e) ∧
            report = ⟨z.state, some (.undecodable e), z.sink, z.events.reverse⟩ ∧ m' = m := by
  constructor
  · intro trace limit x
    refine ⟨?_, ?_, ?_, text_runFor words trace limit x⟩
    · intro words' hsize hagree
      exact congr_of_arrivals hsize hagree
    · intro k w hunreached
      refine congr_of_arrivals Array.size_setIfInBounds fun z hz => ?_
      exact Array.getElem?_setIfInBounds_ne (hunreached z hz).symm
    · intro y e
      exact runFor_undecodable_iff
  · rintro m fuel sink rfl
    constructor
    · intro words' hsize hagree
      exact m.run_words (congr_of_arrivals hsize hagree).2
    · intro report m' e
      exact Interpreter.run_undecodable_iff

/-- A branch leads over a word that is not an instruction; replacing it changes nothing, and the run
ends at another such word, after a print. -/
theorem Execution.reads_arrivals_only_skipped :
    (runFor #[0x01000001, 0x08000001, 0x07010000, 0x07000000, 0x09000000] true 9 {} =
      runFor #[0x01000001, 0x08000001, 0xff000000, 0x07000000, 0x09000000] true 9 {}) ∧
    ∃ report m', Interpreter.run
        { words := #[0x01000001, 0x08000001, 0xff000000, 0x07000000, 0x09000000] } 9 {} =
          some (report, m') ∧
      report.fault = some (.undecodable (.invalidOpcode 0x09000000 9)) ∧
      report.sink.text = "A        1(0x00000001)\n" := by
  obtain ⟨runs, reports⟩ := reads_arrivals_only
    #[0x01000001, 0x08000001, 0xff000000, 0x07000000, 0x09000000]
  obtain ⟨same, -⟩ := runs true 9 {}
  obtain ⟨-, undecodable⟩ := reports
    { words := #[0x01000001, 0x08000001, 0xff000000, 0x07000000, 0x09000000] } 9 {} rfl
  have hroute : (arrivals #[0x01000001, 0x08000001, 0xff000000, 0x07000000, 0x09000000] true 9
    {}).map (fun z => z.state.pc) = [0, 1, 3, 4] := rfl
  refine ⟨(same _ rfl fun z hz => ?_).2, ?_⟩
  · have hpc : z.state.pc ∈ [0, 1, 3, 4] := hroute ▸ List.mem_map_of_mem hz
    generalize z.state.pc = pc at hpc
    revert pc
    decide
  · obtain ⟨hrun, hfault⟩ := (undecodable _ _ (.invalidOpcode 0x09000000 9)).mpr
      ⟨_, .tail _ (.tail _ (.tail _ (.head _))), rfl, rfl, rfl⟩
    exact ⟨_, _, hrun, hfault, rfl⟩

end Dyad
