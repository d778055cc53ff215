import Mathlib.Algebra.Ring.Nat
import Mathlib.Data.List.Forall2
import Dyad.Proofs.Run.Outcomes

/-!
Series of runs of one interpreter. Whatever its sink, a run that gets to the end of the program does
so after the same number of steps (`Completes.unique`). A run that succeeds adds itself and that
number to the statistics, and any other run adds nothing (`run_cases`); nothing else is carried over
from one run to the next, so each run of a series reports what it would report alone.
-/

namespace Dyad

namespace Execution

/-- From the fresh state, on some sink, `n` steps lead to the end of the program. -/
def Completes (words : Array UInt32) (n : Nat) : Prop :=
  ∃ (trace : Bool) (sink : Sink) (x : Execution),
    runFor words trace n { sink } = (x, .advanced) ∧ x.state.pc = words.size

variable {words : Array UInt32} {trace trace' : Bool} {n k : Nat} {x x' y y' : Execution}

theorem Stepped.state_eq (h : Stepped words trace x (y, .advanced))
    (h' : Stepped words trace' x' (y', .advanced)) (hstate : x'.state = x.state) :
    y'.state = y.state := by
  cases h with
  | advanced hfetch hturn _ =>
    cases h' with
    | advanced hfetch' hturn' _ =>
      rw [hstate, hfetch] at hfetch'
      cases hfetch'
      rw [hstate, hturn] at hturn'
      cases hturn'
      rfl

theorem runFor_succ_advanced (h : runFor words trace (n + 1) x = (y, .advanced)) :
    ∃ z, Stepped words trace x (z, .advanced) ∧ runFor words trace n z = (y, .advanced) := by
  obtain ⟨z, o, hstep⟩ : ∃ z o, step words trace x = (z, o) := ⟨_, _, rfl⟩
  rw [runFor, hstep] at h
  cases o with
  | advanced => exact ⟨z, stepped_of_step hstep, h⟩
  | halted | failed => cases h

/-- From the same state there is one number of steps that lead to the end. -/
theorem steps_unique (h : runFor words trace n x = (y, .advanced))
    (h' : runFor words trace' k x' = (y', .advanced)) (hstate : x'.state = x.state)
    (hy : words.size ≤ y.state.pc) (hy' : words.size ≤ y'.state.pc) : n = k := by
  -- no step advances at the end, so neither of the two runs can be the longer one
  have no_step {trace : Bool} {x y : Execution} (hx : words.size ≤ x.state.pc)
      (h : Stepped words trace x (y, .advanced)) : False := by
    cases h.halted_iff.mpr hx
  induction n generalizing k x x' with
  | zero =>
    cases h
    cases k with
    | zero => rfl
    | succ k =>
      obtain ⟨z, hstep, -⟩ := runFor_succ_advanced h'
      exact (no_step (by rwa [hstate]) hstep).elim
  | succ n ih =>
    obtain ⟨z, hstep, hrest⟩ := runFor_succ_advanced h
    cases k with
    | zero =>
      cases h'
      exact (no_step (by rwa [← hstate]) hstep).elim
    | succ k =>
      obtain ⟨z', hstep', hrest'⟩ := runFor_succ_advanced h'
      exact congrArg (· + 1) (ih hrest hrest' (hstep.state_eq hstep' hstate))

theorem Completes.unique (h : Completes words n) (h' : Completes words k) : n = k := by
  obtain ⟨trace, sink, x, hrun, hx⟩ := h
  obtain ⟨trace', sink', x', hrun', hx'⟩ := h'
  exact steps_unique hrun hrun' rfl (Nat.le_of_eq hx.symm) (Nat.le_of_eq hx'.symm)

end Execution

namespace Interpreter

open Execution (Completes)

variable {m m' : Interpreter} {fuel : Nat} {sink : Sink} {report : Report}

/-! ### One run -/

/-- What a run that has ended adds to the statistics. -/
theorem run_cases (h : m.run fuel sink = some (report, m')) :
    (report.fault = none ∧ ∃ n < fuel, Completes m.words n ∧
      m' = { m with stats := ⟨m.stats.runs + 1, m.stats.executed + n⟩ }) ∨
    report.fault ≠ none ∧ m' = m := by
  obtain ⟨hfault, x, hrun, hstate, rfl⟩ | hfailed := counted_cases h
  · obtain ⟨n, hn, hsteps, hexecuted⟩ := Execution.runFor_of_halted hrun
    have hpc := pc_eq_size h hfault
    rw [hstate] at hpc
    rw [Nat.zero_add] at hexecuted
    rw [hexecuted]
    exact .inl ⟨hfault, n, hn, ⟨m.trace, sink, x, hsteps, hpc⟩, rfl⟩
  · exact .inr hfailed

theorem finish_report (m new : Interpreter) (x : Execution) (fault : Option Fault) :
    (new.finish x fault).1 = (m.finish x fault).1 := by
  cases fault with
  | some cause => rfl
  | none =>
    rw [finish, finish]
    obtain ⟨sink, _ | reason⟩ := x.sink.flush <;> rfl

/-- What is reported does not depend on the statistics. -/
theorem exists_run_of_stats (h : m.run fuel sink = some (report, m')) (stats : RunStats) :
    ∃ new, ({ m with stats } : Interpreter).run fuel sink = some (report, new) := by
  obtain ⟨x, o, hrun, ho, hreport⟩ := run_eq_some h
  have hnew : ({ m with stats } : Interpreter).run fuel sink =
      some (({ m with stats } : Interpreter).finish x o.fault) := by
    rw [run, hrun]
    cases o with
    | advanced => exact absurd rfl ho
    | halted | failed => rfl
  have hsame : report = (({ m with stats } : Interpreter).finish x o.fault).1 :=
    (congrArg Prod.fst hreport).trans (finish_report _ m x o.fault)
  rw [hnew, hsame]
  exact ⟨_, rfl⟩

/-! ### Series -/

/-- Runs of an interpreter one after the other, each with its own limit and sink. No answer means
that one of them has not ended. -/
def runAll (m : Interpreter) : List (Nat × Sink) → Option (List Report × Interpreter)
  | [] => some ([], m)
  | (fuel, sink) :: calls =>
    match m.run fuel sink with
    | none => none
    | some (report, m) => (m.runAll calls).map fun r => (report :: r.1, r.2)

theorem runAll_cons {calls : List (Nat × Sink)} {reports : List Report}
    (h : m.runAll ((fuel, sink) :: calls) = some (reports, m')) :
    ∃ report rest m₁, m.run fuel sink = some (report, m₁) ∧
      m₁.runAll calls = some (rest, m') ∧ reports = report :: rest := by
  rw [runAll] at h
  cases hrun : m.run fuel sink with
  | none =>
    rw [hrun] at h
    cases h
  | some out =>
    rw [hrun] at h
    obtain ⟨⟨rest, m₂⟩, hrest, heq⟩ := Option.map_eq_some_iff.mp h
    cases heq
    exact ⟨out.1, rest, out.2, rfl, hrest, rfl⟩

/-- A run with this report adds `n` to the instructions executed: if it has succeeded, the one
number of steps that leads to the end of the program, and otherwise nothing. -/
def Credits (words : Array UInt32) (report : Report) (n : Nat) : Prop :=
  (report.fault = none ∧ Completes words n ∧ ∀ k, Completes words k → k = n) ∨
    (report.fault ≠ none ∧ n = 0)

theorem tally_of_runAll {calls : List (Nat × Sink)} {reports : List Report}
    (h : m.runAll calls = some (reports, m')) :
    List.Forall₂ (fun call report => ∃ new,
      ({ m with stats := {} } : Interpreter).run call.1 call.2 = some (report, new)) calls reports ∧
    m'.stats.runs = m.stats.runs + reports.countP (fun r => r.fault.isNone) ∧
    ∃ ns : List Nat, List.Forall₂ (Credits m.words) reports ns ∧
      m'.stats.executed = m.stats.executed + ns.sum := by
  induction calls generalizing m reports with
  | nil =>
    cases h
    exact ⟨.nil, rfl, [], .nil, rfl⟩
  | cons call calls ih =>
    obtain ⟨fuel, sink⟩ := call
    obtain ⟨report, rest, m₁, hrun, hrest, rfl⟩ := runAll_cons h
    obtain ⟨hsame, hruns, ns, hcredits, hexecuted⟩ := ih hrest
    have halone := exists_run_of_stats hrun {}
    obtain ⟨hfault, n, -, hn, rfl⟩ | ⟨hfault, rfl⟩ := run_cases hrun
    · refine ⟨.cons halone hsame, ?_, n :: ns, .cons ?_ hcredits, ?_⟩
      · rw [hruns, List.countP_cons_of_pos (by rw [hfault]; rfl)]
        simp only
        omega
      · exact .inl ⟨hfault, hn, fun k hk => hk.unique hn⟩
      · rw [hexecuted, List.sum_cons]
        simp only
        omega
    · refine ⟨.cons halone hsame, ?_, 0 :: ns, .cons (.inr ⟨hfault, rfl⟩) hcredits, ?_⟩
      · rw [hruns, List.countP_cons_of_neg (by simpa using hfault)]
      · rw [hexecuted, List.sum_cons, Nat.zero_add]

/-- A run counts as one at most, and counts no more instructions than it was allowed steps, so the
counters of a series stay within what its calls allow. -/
theorem stats_le_of_runAll {calls : List (Nat × Sink)} {reports : List Report}
    (h : m.runAll calls = some (reports, m')) :
    m'.stats.runs ≤ m.stats.runs + calls.length ∧
      m'.stats.executed ≤ m.stats.executed + (calls.map Prod.fst).sum := by
  induction calls generalizing m reports with
  | nil =>
    cases h
    exact ⟨Nat.le_refl _, Nat.le_refl _⟩
  | cons call calls ih =>
    obtain ⟨fuel, sink⟩ := call
    obtain ⟨report, rest, m₁, hrun, hrest, rfl⟩ := runAll_cons h
    obtain ⟨hruns, hexecuted⟩ := ih hrest
    rw [List.length_cons, List.map_cons, List.sum_cons]
    obtain ⟨-, n, hn, -, rfl⟩ | ⟨-, rfl⟩ := run_cases hrun
    · dsimp only at hruns hexecuted ⊢
      omega
    · dsimp only
      omega

/-- Every run that succeeds takes the same number of steps. -/
theorem sum_of_credits {words : Array UInt32} {reports : List Report} {ns : List Nat} {n : Nat}
    (hn : Completes words n) (h : List.Forall₂ (Credits words) reports ns) :
    ns.sum = reports.countP (fun r => r.fault.isNone) * n := by
  induction h with
  | nil => exact (Nat.zero_mul n).symm
  | cons hcredits _ ih =>
    obtain ⟨hfault, -, hunique⟩ | ⟨hfault, rfl⟩ := hcredits
    · rw [List.sum_cons, ih, ← hunique n hn, List.countP_cons_of_pos (by rw [hfault]; rfl),
        Nat.add_comm, Nat.succ_mul]
    · rw [List.sum_cons, ih, List.countP_cons_of_neg (by simpa using hfault), Nat.zero_add]

/-- The statistics of an interpreter after a series of runs, with any sinks. Each run has reported
what it would report alone. The runs counted are those that have succeeded, and the instructions
counted are for each of them the one number of steps that leads to the end of the program; any other
run has added nothing. There are no more of either than the calls allow, so counters of 64 bits hold
them as long as fewer than 2 ^ 64 calls and steps are allowed altogether. -/
theorem stats_of_runAll {words : Array UInt32} {trace : Bool} {calls : List (Nat × Sink)}
    {reports : List Report} {m' : Interpreter}
    (h : ({ words, trace } : Interpreter).runAll calls = some (reports, m')) :
    List.Forall₂ (fun call report => ∃ new,
      ({ words, trace } : Interpreter).run call.1 call.2 = some (report, new)) calls reports ∧
    m'.stats.runs = reports.countP (fun r => r.fault.isNone) ∧
    (∃ ns : List Nat, List.Forall₂ (Credits words) reports ns ∧ m'.stats.executed = ns.sum) ∧
    (∀ n, Completes words n → m'.stats.executed = m'.stats.runs * n) ∧
    (m'.stats.runs ≤ calls.length ∧ m'.stats.executed ≤ (calls.map Prod.fst).sum) ∧
    ∀ (m : Interpreter) fuel sink report m'', m.run fuel sink = some (report, m'') →
      report.fault ≠ none → m''.stats = m.stats := by
  obtain ⟨hsame, hruns, ns, hcredits, hexecuted⟩ := tally_of_runAll h
  rw [Nat.zero_add] at hruns hexecuted
  refine ⟨hsame, hruns, ⟨ns, hcredits, hexecuted⟩, fun n hn => ?_, ?_, ?_⟩
  · rw [hexecuted, hruns, sum_of_credits hn hcredits]
  · simpa only [Nat.zero_add] using stats_le_of_runAll h
  · intro m fuel sink report m'' hrun hfault
    obtain ⟨hnone, -⟩ | ⟨-, rfl⟩ := run_cases hrun
    · exact absurd hnone hfault
    · rfl

/-- Two runs that succeed, and between them a line that is refused and a flush that is. -/
theorem stats_of_runAll_refused :
    ∃ reports m', Interpreter.runAll { words := #[0x01000001, 0x07000000] }
        [(9, {}), (9, { device := .failing (some 0) false false }),
          (9, { device := .failing none false true }), (9, {})] = some (reports, m') ∧
      reports.map Report.fault =
        [none, some (.output "sink full"), some (.output "flush failed"), none] ∧
      m'.stats.runs = 2 ∧ m'.stats.executed = 2 * 2 := by
  have hfaults : (Interpreter.runAll { words := #[0x01000001, 0x07000000] }
      [(9, {}), (9, { device := .failing (some 0) false false }),
        (9, { device := .failing none false true }), (9, {})]).map (fun r => r.1.map Report.fault) =
      some [none, some (.output "sink full"), some (.output "flush failed"), none] := rfl
  obtain ⟨⟨reports, m'⟩, hruns, hfaults⟩ := Option.map_eq_some_iff.mp hfaults
  obtain ⟨-, hcount, -, hproduct, -⟩ := stats_of_runAll hruns
  have htwo : m'.stats.runs = 2 := by
    rw [hcount]
    exact List.countP_map.symm.trans (congrArg (List.countP Option.isNone) hfaults)
  refine ⟨reports, m', hruns, hfaults, htwo, ?_⟩
  rw [hproduct 2 ⟨false, {}, _, rfl, rfl⟩, htwo]

end Interpreter

end Dyad
