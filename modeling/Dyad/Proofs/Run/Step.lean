import Dyad.Proofs.Run.Sequence

/-!
Steps over any words, instructions or not. `Stepped` lists all that a step can do: a step does one
of these things (`stepped`) and no other (`Stepped.eq`), so what holds of every step is read off the
list. A run that has ended did so by its last step (`runFor_last`), and what the interpreter reports
of it is the outcome of that step, unless the flush afterwards is refused
(`Interpreter.report_cases`); only a run without a fault counts (`Interpreter.counted_cases`).
-/

namespace Dyad

namespace State

/-- What the word at the pc stands for; nothing at or beyond the end. -/
def fetch (words : Array UInt32) (s : State) : Option (Except DecodeError Instruction) :=
  words[s.pc]?.map Instruction.decode

variable {words : Array UInt32} {s : State}

theorem fetch_of_lt (h : s.pc < words.size) :
    s.fetch words = some (Instruction.decode words[s.pc]) := by
  rw [fetch, Array.getElem?_eq_getElem h, Option.map_some]

theorem pc_lt_of_fetch {arrived : Except DecodeError Instruction}
    (h : s.fetch words = some arrived) : s.pc < words.size := by
  obtain ⟨w, hw, -⟩ := Option.map_eq_some_iff.mp h
  exact (Array.getElem?_eq_some_iff.mp hw).1

theorem fetch_ne_error (hd : ∀ w ∈ words.toList, ∃ i, Instruction.decode w = .ok i)
    (e : DecodeError) : s.fetch words ≠ some (.error e) := by
  intro h
  obtain ⟨w, hw, hdecode⟩ := Option.map_eq_some_iff.mp h
  obtain ⟨i, hi⟩ := hd w (Array.mem_toList_iff.mpr (Array.mem_of_getElem? hw))
  rw [hi] at hdecode
  cases hdecode

end State

/-- A sink keeps nothing of a line that it refuses. -/
theorem Sink.text_of_refused {s s' : Sink} {line reason : String}
    (h : s.write line = (s', some reason)) : s'.text = s.text := by
  unfold write at h
  split at h <;> cases h
  rfl

/-- What is refused of at most one print is its line. -/
theorem Printer.write_of_refused {sink sink' : Sink} {p : Option Print} {reason : String}
    (h : printAll ⟨sink, none⟩ p.toList = ⟨sink', some reason⟩) :
    ∃ q, p = some q ∧ sink.write q.line = (sink', some reason) := by
  cases p with
  | none => cases h
  | some q =>
    refine ⟨q, rfl, Prod.ext ?_ ?_⟩
    · exact congrArg Printer.sink h
    · exact congrArg Printer.refused h

namespace Execution

/-- The events after arriving at `i`. -/
def eventsAt (trace : Bool) (i : Instruction) (x : Execution) : List Event :=
  if trace then x.state.observe i :: x.events else x.events

/-- All that a step can do. -/
inductive Stepped (words : Array UInt32) (trace : Bool) (x : Execution) :
    Execution × Outcome → Prop where
  | halted : words.size ≤ x.state.pc → Stepped words trace x (x, .halted)
  | undecodable {e : DecodeError} : x.state.fetch words = some (.error e) →
    Stepped words trace x (x, .failed (.undecodable e))
  | astray {i : Instruction} {target : Int} : x.state.fetch words = some (.ok i) →
    x.state.turnBy words.size i = .astray target →
    Stepped words trace x ({ x with events := x.eventsAt trace i },
      .failed (.jumpOutOfRange x.state.pc target words.size))
  | refused {i : Instruction} {p : Option Print} {t : State} {sink : Sink} {reason : String} :
    x.state.fetch words = some (.ok i) → x.state.turnBy words.size i = .onward p t →
    Printer.printAll ⟨x.sink, none⟩ p.toList = ⟨sink, some reason⟩ →
    Stepped words trace x ({ x with sink, events := x.eventsAt trace i }, .failed (.output reason))
  | advanced {i : Instruction} {p : Option Print} {t : State} {sink : Sink} :
    x.state.fetch words = some (.ok i) → x.state.turnBy words.size i = .onward p t →
    Printer.printAll ⟨x.sink, none⟩ p.toList = ⟨sink, none⟩ →
    Stepped words trace x (⟨t, sink, x.executed + 1, x.eventsAt trace i⟩, .advanced)

variable {words : Array UInt32} {trace : Bool} {x y : Execution} {o : Outcome} {limit : Nat}

theorem step_of_size_le (trace : Bool) (h : words.size ≤ x.state.pc) :
    step words trace x = (x, .halted) := by
  rw [step, dif_neg (Nat.not_lt.mpr h)]

theorem step_of_fetch_error (trace : Bool) {e : DecodeError}
    (h : x.state.fetch words = some (.error e)) :
    step words trace x = (x, .failed (.undecodable e)) := by
  have hlt := State.pc_lt_of_fetch h
  rw [State.fetch_of_lt hlt, Option.some.injEq] at h
  rw [step, dif_pos hlt, h]

theorem step_of_fetch_ok (trace : Bool) {i : Instruction}
    (h : x.state.fetch words = some (.ok i)) :
    step words trace x = perform words.size i { x with events := x.eventsAt trace i } := by
  have hlt := State.pc_lt_of_fetch h
  rw [State.fetch_of_lt hlt, Option.some.injEq] at h
  rw [step, dif_pos hlt, h]
  cases trace <;> rfl

/-- The list leaves no choice. -/
theorem Stepped.eq {r : Execution × Outcome} (h : Stepped words trace x r) :
    step words trace x = r := by
  cases h with
  | halted hge => exact step_of_size_le trace hge
  | undecodable hfetch => exact step_of_fetch_error trace hfetch
  | @astray i target hfetch hturn =>
    rw [step_of_fetch_ok trace hfetch,
      perform_of_astray (x := { x with events := x.eventsAt trace i }) hturn]
  | @refused i p t sink reason hfetch hturn hout =>
    rw [step_of_fetch_ok trace hfetch,
      perform_of_onward (x := { x with events := x.eventsAt trace i }) hturn, hout]
  | @advanced i p t sink hfetch hturn hout =>
    rw [step_of_fetch_ok trace hfetch,
      perform_of_onward (x := { x with events := x.eventsAt trace i }) hturn, hout]

/-- The list leaves nothing out. -/
theorem stepped (words : Array UInt32) (trace : Bool) (x : Execution) :
    Stepped words trace x (step words trace x) := by
  obtain ⟨r, h⟩ : ∃ r, Stepped words trace x r := by
    rcases Nat.lt_or_ge x.state.pc words.size with hlt | hge
    · have hfetch := State.fetch_of_lt hlt
      cases hdecode : Instruction.decode words[x.state.pc] with
      | error e =>
        rw [hdecode] at hfetch
        exact ⟨_, .undecodable hfetch⟩
      | ok i =>
        rw [hdecode] at hfetch
        cases hturn : x.state.turnBy words.size i with
        | finished => exact absurd hturn (State.turnBy_ne_finished _ _)
        | astray target => exact ⟨_, .astray hfetch hturn⟩
        | onward p t =>
          cases hout : Printer.printAll ⟨x.sink, none⟩ p.toList with
          | mk sink refused =>
            cases refused with
            | none => exact ⟨_, .advanced hfetch hturn hout⟩
            | some reason => exact ⟨_, .refused hfetch hturn hout⟩
    · exact ⟨_, .halted hge⟩
  rw [h.eq]
  exact h

theorem stepped_of_step {r : Execution × Outcome} (h : step words trace x = r) :
    Stepped words trace x r :=
  h ▸ stepped words trace x

/-- A step that fails leaves registers, pc and memory as they were. -/
theorem Stepped.state_of_failed {r : Execution × Outcome} {cause : Fault}
    (h : Stepped words trace x r) (hr : r.2 = .failed cause) : r.1.state = x.state := by
  cases h with
  | undecodable | astray | refused => rfl
  | halted | advanced => cases hr

/-- A step arrives at a word only before the end. -/
theorem Stepped.halted_iff {r : Execution × Outcome} (h : Stepped words trace x r) :
    r.2 = .halted ↔ words.size ≤ x.state.pc := by
  cases h with
  | halted hge => exact ⟨fun _ => hge, fun _ => rfl⟩
  | undecodable hfetch | astray hfetch _ | refused hfetch _ _ | advanced hfetch _ _ =>
    exact ⟨nofun, fun hge => absurd hge (Nat.not_le.mpr (State.pc_lt_of_fetch hfetch))⟩

theorem printed_of_turnBy {size : Nat} {i : Instruction} {p : Option Print} {t : State}
    (hfetch : x.state.fetch words = some (.ok i)) (hturn : x.state.turnBy size i = .onward p t) :
    printed words x = p := by
  rw [State.fetch] at hfetch
  simp only [printed, hfetch]
  obtain ⟨hop, rfl, _⟩ | ⟨hop, _, rfl, _⟩ | ⟨hop, _, _, rfl, _⟩ | ⟨hop, _, rfl, _⟩ :=
    State.turnBy_cases hturn
  · exact if_pos hop
  · exact if_neg (by simp [hop])
  · exact if_neg (by simp [hop])
  · exact if_neg hop

/-! ### Runs -/

/-- What steps keep if they advance, a run keeps up to its last step. -/
theorem runFor_last {P : State → Prop}
    (hstep : ∀ {x y : Execution}, P x.state → step words trace x = (y, .advanced) → P y.state)
    (hx : P x.state) (h : runFor words trace limit x = (y, o)) (ho : o ≠ .advanced) :
    ∃ z : Execution, P z.state ∧ step words trace z = (y, o) := by
  induction limit generalizing x with
  | zero =>
    cases h
    exact absurd rfl ho
  | succ limit ih =>
    obtain ⟨z, o', hz⟩ : ∃ z o', step words trace x = (z, o') := ⟨_, _, rfl⟩
    rw [runFor, hz] at h
    cases o' with
    | advanced => exact ih (hstep hx hz) h
    | halted | failed =>
      cases h
      exact ⟨x, hx, hz⟩

/-- Before it halted, a run has taken as many steps as it has executed instructions. -/
theorem runFor_of_halted (h : runFor words trace limit x = (y, .halted)) :
    ∃ n < limit, runFor words trace n x = (y, .advanced) ∧ y.executed = x.executed + n := by
  fun_induction runFor words trace limit x with
  | case1 x => cases h
  | case2 limit x z hstep ih =>
    obtain ⟨n, hn, hrun, hexecuted⟩ := ih h
    refine ⟨n + 1, Nat.succ_lt_succ hn, by rw [runFor, hstep]; exact hrun, ?_⟩
    cases stepped_of_step hstep with
    | advanced => rw [hexecuted, Nat.add_assoc, Nat.add_comm 1]
  | case3 limit x z o ho hstep =>
    cases h
    cases stepped_of_step hstep with
    | halted => exact ⟨0, Nat.zero_lt_succ limit, rfl, rfl⟩

end Execution

namespace Interpreter

variable {m m' : Interpreter} {fuel : Nat} {sink : Sink} {report : Report}

/-- A run reports how it ended, unless it ended normally and the flush is refused. -/
theorem report_cases (h : m.run fuel sink = some (report, m')) :
    ∃ x o, Execution.runFor m.words m.trace fuel { sink } = (x, o) ∧ o ≠ .advanced ∧
      report.state = x.state ∧
      (report.fault = o.fault ∨ ∃ reason, report.fault = some (.output reason)) := by
  obtain ⟨x, o, hrun, ho, hreport⟩ := run_eq_some h
  refine ⟨x, o, hrun, ho, ?_⟩
  cases hfault : o.fault with
  | some cause =>
    rw [hfault, finish] at hreport
    cases hreport
    exact ⟨rfl, .inl rfl⟩
  | none =>
    rw [hfault, finish] at hreport
    split at hreport
    · cases hreport
      exact ⟨rfl, .inr ⟨_, rfl⟩⟩
    · cases hreport
      exact ⟨rfl, .inl rfl⟩

/-- A run that is reported without a fault has halted and counts, with the instructions that it has
executed. Any other run counts nothing. -/
theorem counted_cases (h : m.run fuel sink = some (report, m')) :
    (report.fault = none ∧ ∃ x, Execution.runFor m.words m.trace fuel { sink } = (x, .halted) ∧
      report.state = x.state ∧
      m' = { m with stats := ⟨m.stats.runs + 1, m.stats.executed + x.executed⟩ }) ∨
    report.fault ≠ none ∧ m' = m := by
  obtain ⟨x, o, hrun, ho, hreport⟩ := run_eq_some h
  cases o with
  | advanced => exact absurd rfl ho
  | failed cause =>
    cases hreport
    exact .inr ⟨Option.some_ne_none _, rfl⟩
  | halted =>
    replace hreport : (report, m') = m.finish x none := hreport
    rw [finish] at hreport
    split at hreport
    · cases hreport
      exact .inr ⟨Option.some_ne_none _, rfl⟩
    · cases hreport
      exact .inl ⟨rfl, x, hrun, rfl, rfl⟩

/-- A walk to the end of the program, on a sink that takes everything, is a run without a fault that
counts as many instructions as the walk has turns. -/
theorem run_of_finished {code : List Instruction} {n : Nat} {ps : List Print} {t : State}
    (hd : Decodes m.words code) (hsink : sink.device.NeverRefuses)
    (w : Walk code n State.fresh ps t) (ht : t.turn code = .finished) (hfuel : n < fuel) :
    ∃ report m', m.run fuel sink = some (report, m') ∧ report.fault = none ∧ report.state = t ∧
      report.sink.text = sink.text ++ Printer.transcript ps ∧
      m'.stats = ⟨m.stats.runs + 1, m.stats.executed + n⟩ ∧
      Execution.prints m.words m.trace fuel { sink } = ps := by
  obtain ⟨hends, hhalted⟩ := Execution.ending_of_finished ht
  obtain ⟨out, hout, hflush⟩ := Printer.exists_printAll_of_neverRefuses hsink ps
  obtain ⟨events, hrun⟩ :=
    Execution.runFor_of_walk_ends m.trace hd w hends (x := { sink }) rfl hout
  have hprints := Execution.prints_of_walk_ends m.trace hd w hends (x := { sink }) rfl hout
    (Nat.le_of_lt hfuel)
  have htext := Printer.text_of_printAll hout
  have hreport : m.run fuel sink = some (m.finish ⟨t, out, n, events⟩ none) := by
    rw [run, hrun fuel hfuel, hhalted, Nat.zero_add]
  rw [finish, Sink.flush, hflush.flush] at hreport
  exact ⟨_, _, hreport, rfl, rfl, htext, rfl, hprints⟩

/-- The interpreter reports a word that is not an instruction only if it has arrived at one. -/
theorem fault_ne_undecodable (hd : ∀ w ∈ m.words.toList, ∃ i, Instruction.decode w = .ok i)
    (h : m.run fuel sink = some (report, m')) (e : DecodeError) :
    report.fault ≠ some (.undecodable e) := by
  obtain ⟨x, o, hrun, ho, -, hfault | ⟨reason, hfault⟩⟩ := report_cases h
  · obtain ⟨z, -, hlast⟩ :=
      Execution.runFor_last (P := fun _ => True) (fun _ _ => trivial) trivial hrun ho
    rw [hfault]
    intro hundecodable
    have hstepped := Execution.stepped m.words m.trace z
    rw [hlast] at hstepped
    cases hstepped with
    | undecodable hfetch => exact State.fetch_ne_error hd _ hfetch
    | halted | astray | refused => cases hundecodable
    | advanced => exact ho rfl
  · rw [hfault]
    nofun

end Interpreter

end Dyad
