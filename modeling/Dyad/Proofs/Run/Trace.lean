import Dyad.Cli.Log
import Dyad.Proofs.Run.Arrival

/-!
What tracing shows. A step that is traced does what it does without tracing, and shows first where
it has arrived, if that is at an instruction (`step_traced`); so a traced run is the quiet run
together with what is to be seen along its route (`runFor_traced`). Since it is shown before the
instruction is executed, an instruction that is not completed is shown as well, and the two numbers
differ by it (`executed_add_sightings`).
-/

namespace Dyad

/-! ### Events -/

/-- Whether an event shows an arrival. -/
def Event.isTrace : Event → Bool
  | .trace .. => true
  | _ => false

/-- Of the records of events, those of arrivals have the level that is called so. -/
theorem Event.filter_records (elapsed : Cli.Elapsed) (events : List Event) :
    (events.map (Cli.Record.ofEvent elapsed)).filter (·.level = .trace) =
      (events.filter isTrace).map (Cli.Record.ofEvent elapsed) := by
  rw [List.filter_map]
  refine congrArg (List.map _) (List.filter_congr fun e _ => ?_)
  cases e <;> rfl

namespace State

/-- What there is to be seen on arriving in a state: nothing at the end of the program, or at a word
that is not an instruction. -/
def sighting (words : Array UInt32) (s : State) : Option Event :=
  match s.fetch words with
  | some (.ok i) => some (.trace s.pc (s.register .a) (s.register .b) (s.memory.get 0)
      (s.memory.get 1) (s.memory.get 2) i)
  | _ => none

/-- The line of the log that shows it. -/
def sightingLine (words : Array UInt32) (s : State) : Option String :=
  let number (n : Nat) := String.ofList (Numeral.decimal n)
  match s.fetch words with
  | some (.ok i) => some ("pc=" ++ number s.pc ++ " a=" ++ number (s.register .a).toNat ++
      " b=" ++ number (s.register .b).toNat ++ " mem0=" ++ number (s.memory.get 0).toNat ++
      " mem1=" ++ number (s.memory.get 1).toNat ++ " mem2=" ++ number (s.memory.get 2).toNat ++
      " instr=" ++ i.text)
  | _ => none

variable {words : Array UInt32} {s : State}

theorem sighting_of_fetch {i : Instruction} (h : s.fetch words = some (.ok i)) :
    s.sighting words = some (s.observe i) := by
  rw [sighting, h]
  rfl

theorem sighting_of_fetch_error {e : DecodeError} (h : s.fetch words = some (.error e)) :
    s.sighting words = none := by
  rw [sighting, h]

theorem sighting_of_size_le (h : words.size ≤ s.pc) : s.sighting words = none := by
  rw [sighting, fetch, Array.getElem?_eq_none h]
  rfl

/-- All that is to be seen along a route. -/
def sightings (words : Array UInt32) (route : List State) : List Event :=
  route.filterMap (sighting words)

theorem sightings_cons (s : State) (route : List State) :
    sightings words (s :: route) = (s.sighting words).toList ++ sightings words route := by
  cases h : s.sighting words with
  | none => exact List.filterMap_cons_none h
  | some e => exact List.filterMap_cons_some h

theorem isTrace_of_sighting {e : Event} (h : s.sighting words = some e) :
    e.isTrace = true := by
  unfold sighting at h
  split at h
  · cases h
    rfl
  · cases h

theorem filter_sightings (route : List State) :
    (sightings words route).filter Event.isTrace = sightings words route := by
  refine List.filter_eq_self.mpr fun e he => ?_
  obtain ⟨s, -, hs⟩ := List.mem_filterMap.mp he
  exact isTrace_of_sighting hs

/-- The log shows what is to be seen. -/
theorem lines_of_sightings (elapsed : Cli.Elapsed) (route : List State) :
    ((sightings words route).map (Cli.Record.ofEvent elapsed)).map Cli.Record.message =
      route.filterMap (sightingLine words) := by
  rw [List.map_map, sightings, List.map_filterMap]
  refine congrFun (congrArg List.filterMap (funext fun s => ?_)) route
  rw [sighting, sightingLine]
  split <;> rfl

end State

namespace Execution

/-- The states in which a run of at most `limit` steps arrives, in order. -/
def route (words : Array UInt32) (trace : Bool) (limit : Nat) (x : Execution) : List State :=
  (arrivals words trace limit x).map state

variable {words : Array UInt32} {trace : Bool} {limit : Nat} {x y : Execution} {o : Outcome}

theorem route_of_advanced (h : step words trace x = (y, .advanced)) (limit : Nat) :
    route words trace (limit + 1) x = x.state :: route words trace limit y := by
  rw [route, arrivals_of_advanced h, List.map_cons, ← route]

theorem route_of_ended (h : step words trace x = (y, o)) (ho : o ≠ .advanced) (limit : Nat) :
    route words trace (limit + 1) x = [x.state] := by
  rw [route, arrivals_of_ended h ho, List.map_singleton]

/-! ### Steps and runs -/

theorem Stepped.events_quiet {r : Execution × Outcome} (h : Stepped words false x r) :
    r.1.events = x.events := by
  cases h with
  | halted | undecodable | astray | refused | advanced => rfl

theorem Stepped.traced (h : Stepped words false x (y, o)) (events : List Event) :
    Stepped words true { x with events }
      ({ y with events := (x.state.sighting words).toList ++ events }, o) := by
  cases h with
  | halted hge =>
    rw [State.sighting_of_size_le hge]
    exact .halted hge
  | undecodable hfetch =>
    rw [State.sighting_of_fetch_error hfetch]
    exact .undecodable hfetch
  | astray hfetch hturn =>
    rw [State.sighting_of_fetch hfetch]
    exact .astray (x := { x with events }) hfetch hturn
  | refused hfetch hturn hout =>
    rw [State.sighting_of_fetch hfetch]
    exact .refused (x := { x with events }) hfetch hturn hout
  | advanced hfetch hturn hout =>
    rw [State.sighting_of_fetch hfetch]
    exact .advanced (x := { x with events }) hfetch hturn hout

/-- A traced step is the quiet step, and shows where it has arrived. -/
theorem step_traced (h : step words false x = (y, o)) (events : List Event) :
    step words true { x with events } =
      ({ y with events := (x.state.sighting words).toList ++ events }, o) :=
  ((stepped_of_step h).traced events).eq

theorem events_runFor_quiet (words : Array UInt32) (limit : Nat) (x : Execution) :
    (runFor words false limit x).1.events = x.events := by
  fun_induction runFor words false limit x with
  | case1 x => rfl
  | case2 limit x y hstep ih => exact ih.trans (stepped_of_step hstep).events_quiet
  | case3 limit x y o ho hstep => exact (stepped_of_step hstep).events_quiet

/-- A traced run takes the route of the quiet run and comes to the same, and it shows what is to be
seen along the route. -/
theorem runFor_traced (words : Array UInt32) (limit : Nat) (x : Execution) (events : List Event) :
    route words true limit { x with events } = route words false limit x ∧
    runFor words true limit { x with events } =
      ({ (runFor words false limit x).1 with
          events := (State.sightings words (route words false limit x)).reverse ++ events },
        (runFor words false limit x).2) := by
  fun_induction runFor words false limit x generalizing events with
  | case1 x => exact ⟨rfl, rfl⟩
  | case2 limit x y hstep ih =>
    have htraced := step_traced hstep events
    obtain ⟨hroute, hrun⟩ := ih ((x.state.sighting words).toList ++ events)
    constructor
    · rw [route_of_advanced htraced, route_of_advanced hstep, hroute]
    · rw [runFor, htraced, route_of_advanced hstep, State.sightings_cons, List.reverse_append,
        List.append_assoc]
      -- events are kept newest first, so what is seen here lies below what is seen later
      refine hrun.trans ?_
      cases x.state.sighting words <;> rfl
  | case3 limit x y o ho hstep =>
    have htraced := step_traced hstep events
    rw [route_of_ended htraced ho, route_of_ended hstep ho, State.sightings_cons]
    refine ⟨rfl, (runFor_of_step htraced ho (Nat.succ_pos limit)).trans ?_⟩
    cases x.state.sighting words <;> rfl

/-! ### Numbers -/

/-- The number of instructions that a step has begun and not completed: one if its line is refused
or its branch leads out of the program. -/
def Outcome.begun : Outcome → Nat
  | .failed (.output _) | .failed (.jumpOutOfRange ..) => 1
  | _ => 0

theorem Stepped.executed_add_sighting (h : Stepped words trace x (y, o)) :
    x.executed + (x.state.sighting words).toList.length = y.executed + o.begun := by
  cases h with
  | halted hge =>
    rw [State.sighting_of_size_le hge]
    rfl
  | undecodable hfetch =>
    rw [State.sighting_of_fetch_error hfetch]
    rfl
  | astray hfetch | refused hfetch | advanced hfetch =>
    rw [State.sighting_of_fetch hfetch]
    rfl

/-- Along the route of a run every completed instruction is seen once, and besides only one that the
run has failed to complete. -/
theorem executed_add_sightings (words : Array UInt32) (trace : Bool) (limit : Nat) (x : Execution) :
    x.executed + (State.sightings words (route words trace limit x)).length =
      (runFor words trace limit x).1.executed + (runFor words trace limit x).2.begun := by
  fun_induction runFor words trace limit x with
  | case1 x => rfl
  | case2 limit x y hstep ih =>
    have hseen : x.executed + (x.state.sighting words).toList.length = y.executed :=
      (stepped_of_step hstep).executed_add_sighting
    rw [route_of_advanced hstep, State.sightings_cons, List.length_append, ← ih]
    omega
  | case3 limit x y o ho hstep =>
    rw [route_of_ended hstep ho, State.sightings_cons, List.length_append]
    exact (stepped_of_step hstep).executed_add_sighting

end Execution

/-! ### Whole runs of the interpreter -/

namespace Interpreter

open Execution (route)

variable {m m' : Interpreter} {fuel : Nat} {sink : Sink} {report : Report}

/-- Everything that has been seen is reported in front of what else there is to report. -/
theorem finish_traced (m : Interpreter) {x : Execution} (hx : x.events = []) (seen : List Event)
    (fault : Option Fault) :
    ({ m with trace := true } : Interpreter).finish { x with events := seen.reverse } fault =
      ({ (({ m with trace := false } : Interpreter).finish x fault).1 with
          events := seen ++ (({ m with trace := false } : Interpreter).finish x fault).1.events },
        { (({ m with trace := false } : Interpreter).finish x fault).2 with trace := true }) := by
  cases fault with
  | some cause => simp [finish, hx]
  | none =>
    simp only [finish]
    obtain ⟨sink, _ | reason⟩ := x.sink.flush <;> simp [hx]

/-- A traced run is the quiet run, with everything that is to be seen along the route. -/
theorem run_traced (m : Interpreter) (fuel : Nat) (sink : Sink) :
    ({ m with trace := true } : Interpreter).run fuel sink =
      (({ m with trace := false } : Interpreter).run fuel sink).map fun r =>
        ({ r.1 with
            events := State.sightings m.words (route m.words true fuel { sink }) ++ r.1.events },
          { r.2 with trace := true }) := by
  obtain ⟨hroute, hrun⟩ := Execution.runFor_traced m.words fuel { sink } []
  have hquiet := Execution.events_runFor_quiet m.words fuel { sink }
  rw [List.append_nil] at hrun
  simp only [run]
  rw [hroute, hrun]
  cases hended : Execution.runFor m.words false fuel { sink } with
  | mk x o =>
    rw [hended] at hquiet
    cases o with
    | advanced => rfl
    | halted | failed => exact congrArg some (m.finish_traced hquiet _ _)

/-- What is reported of a quiet run shows no arrival. -/
theorem isTrace_of_quiet (h : ({ m with trace := false } : Interpreter).run fuel sink =
    some (report, m')) : report.events.filter Event.isTrace = [] := by
  obtain ⟨x, o, hrun, -, hreport⟩ := run_eq_some h
  have hquiet := Execution.events_runFor_quiet m.words fuel { sink }
  rw [hrun] at hquiet
  cases hfault : o.fault with
  | some cause =>
    rw [hfault, finish, hquiet] at hreport
    cases hreport
    rfl
  | none =>
    rw [hfault, finish, hquiet] at hreport
    split at hreport <;> cases hreport <;> rfl

/-- What a traced run that has ended reports of its arrivals. -/
structure Shows (m : Interpreter) (fuel : Nat) (sink : Sink) (report : Report)
    (m' : Interpreter) : Prop where
  /-- One event for each arrival at an instruction. -/
  events : report.events.filter Event.isTrace =
    State.sightings m.words (route m.words true fuel { sink })
  /-- The lines that the log has for them. -/
  lines : ∀ elapsed, ((report.events.map (Cli.Record.ofEvent elapsed)).filter
      (·.level = .trace)).map Cli.Record.message =
    (route m.words true fuel { sink }).filterMap (State.sightingLine m.words)
  /-- If the run has succeeded, as many as the instructions that it counts. -/
  counted : report.fault = none →
    m'.stats.executed = m.stats.executed + (report.events.filter Event.isTrace).length
  /-- In any case, as many as the instructions that it has completed, and one more for a print or a
  branch that has failed. -/
  completed : ∀ x o, Execution.runFor m.words true fuel { sink } = (x, o) →
    (report.events.filter Event.isTrace).length = x.executed + o.begun

theorem shows_of_run (h : ({ m with trace := true } : Interpreter).run fuel sink =
    some (report, m')) : m.Shows fuel sink report m' := by
  have hevents : report.events.filter Event.isTrace =
      State.sightings m.words (route m.words true fuel { sink }) := by
    rw [run_traced] at h
    obtain ⟨⟨quiet, m''⟩, hquiet, heq⟩ := Option.map_eq_some_iff.mp h
    cases heq
    rw [List.filter_append, isTrace_of_quiet hquiet, State.filter_sightings, List.append_nil]
  have hnumber := Execution.executed_add_sightings m.words true fuel { sink }
  rw [Nat.zero_add, ← hevents] at hnumber
  refine ⟨hevents, fun elapsed => ?_, fun hfault => ?_, fun x o hrun => ?_⟩
  · rw [Event.filter_records, hevents, State.lines_of_sightings]
  · obtain ⟨-, x, hrun, -, rfl⟩ | ⟨hfailed, -⟩ := counted_cases h
    · rw [hrun] at hnumber
      rw [hnumber]
      rfl
    · exact absurd hfault hfailed
  · rw [hnumber, hrun]

end Interpreter

/-- Tracing shows a run and does not change it. A traced run arrives in the same states as the quiet
run and comes to the same: state, fault, sink and statistics. It shows one event for each arrival at
an instruction, with everything as it is before the instruction is executed; the quiet run shows
none. -/
theorem Interpreter.tracing_only_shows (m : Interpreter) (fuel : Nat) (sink : Sink) :
    Execution.route m.words true fuel { sink } = Execution.route m.words false fuel { sink } ∧
    ({ m with trace := true } : Interpreter).run fuel sink =
      (({ m with trace := false } : Interpreter).run fuel sink).map (fun r =>
        ({ r.1 with
            events := State.sightings m.words (Execution.route m.words true fuel { sink }) ++
              r.1.events },
          { r.2 with trace := true })) ∧
    (∀ report m', ({ m with trace := false } : Interpreter).run fuel sink = some (report, m') →
      report.events.filter Event.isTrace = []) ∧
    ∀ report m', ({ m with trace := true } : Interpreter).run fuel sink = some (report, m') →
      m.Shows fuel sink report m' := by
  refine ⟨?_, m.run_traced fuel sink, ?_, ?_⟩
  · exact (Execution.runFor_traced m.words fuel { sink } []).1
  · intro report m' h
    exact isTrace_of_quiet h
  · intro report m' h
    exact shows_of_run h

/-- A print that is refused, and a branch to the end over a word that is not an instruction. -/
theorem Interpreter.tracing_only_shows_refused :
    (∃ report m', Interpreter.run { words := #[0x01010005, 0x07010000], trace := true } 9
        { device := .failing (some 0) false false } = some (report, m') ∧
      report.fault = some (.output "sink full") ∧
      report.events.filter Event.isTrace =
        [.trace 0 0 0 0 0 0 ⟨.loadImmediate, .b, 5⟩, .trace 1 0 5 0 0 0 ⟨.print, .b, 0⟩]) ∧
    ∃ report m', Interpreter.run
        { words := #[0x01000001, 0x08000001, 0xff000000], trace := true } 9 {} =
          some (report, m') ∧
      m'.stats.executed = 2 ∧ (report.events.filter Event.isTrace).length = 2 := by
  obtain ⟨-, -, -, refused⟩ := tracing_only_shows { words := #[0x01010005, 0x07010000] } 9
    { device := .failing (some 0) false false }
  obtain ⟨-, -, -, branched⟩ :=
    tracing_only_shows { words := #[0x01000001, 0x08000001, 0xff000000] } 9 {}
  have hcounted := (branched _ _ rfl).counted rfl
  rw [Nat.zero_add] at hcounted
  exact ⟨⟨_, _, rfl, rfl, (refused _ _ rfl).events⟩, _, _, rfl, rfl, hcounted.symm⟩

end Dyad
