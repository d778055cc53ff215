import Dyad.Proofs.Code.Mark
import Dyad.Proofs.Run.Step

/-!
How steps and runs of a program turn out. A program goes on while the pc is before its end, and a
branch may lead to the end but not beyond it; so from a state that is not beyond the end no state
beyond it is ever reached (`State.Reaches.pc_le`), and a step halts exactly at the end. What else a
step can do is listed by `Execution.Admits`: there is no other outcome, and a run that ends normally
has arrived at the end precisely.
-/

namespace Dyad

/-- Steps lead from a state to another one, whatever becomes of them; each may be traced or not and
have a sink of its own. -/
inductive State.Reaches (words : Array UInt32) (s : State) : State → Prop where
  | refl : Reaches words s s
  | step {x : Execution} (trace : Bool) (h : Reaches words s x.state) :
    Reaches words s (Execution.step words trace x).1.state

namespace Execution

variable {words : Array UInt32} {trace : Bool} {x : Execution} {r : Execution × Outcome}

/-- What a step of `x` may come to. At the end it halts and changes nothing. Before the end it goes
on to a place that is not beyond the end; or it fails, at a print that the sink refuses or at a
branch that is taken and leads out of the program. -/
def Admits (words : Array UInt32) (x : Execution) : Execution × Outcome → Prop
  | (y, .halted) => x.state.pc = words.size ∧ y = x
  | (y, .advanced) => x.state.pc < words.size ∧ y.state.pc ≤ words.size
  | (y, .failed (.output reason)) =>
    y.state = x.state ∧ ∃ i, x.state.fetch words = some (.ok i) ∧ i.opcode = .print ∧
      x.sink.write (Print.line ⟨i.register, x.state.register i.register⟩) = (y.sink, some reason)
  | (y, .failed (.jumpOutOfRange pc target size)) =>
    y.state = x.state ∧ pc = x.state.pc ∧ pc < words.size ∧ size = words.size ∧
      ∃ i, x.state.fetch words = some (.ok i) ∧ i.opcode = .jumpIfNonZero ∧
        x.state.register i.register ≠ 0 ∧ target = pc + 1 + i.branchOffset ∧
        (target < 0 ∨ size < target)
  | (_, .failed (.undecodable _)) => False

/-- An instruction whose line is refused is a print. -/
theorem print_of_turnBy {size : Nat} {s t : State} {i : Instruction} {p : Print}
    (h : s.turnBy size i = .onward (some p) t) :
    i.opcode = .print ∧ p = ⟨i.register, s.register i.register⟩ := by
  obtain ⟨hop, hp, -⟩ | ⟨-, -, hp, -⟩ | ⟨-, -, -, hp, -⟩ | ⟨-, -, hp, -⟩ := State.turnBy_cases h
  · exact ⟨hop, Option.some.inj hp⟩
  all_goals cases hp

theorem Stepped.pc_le (h : Stepped words trace x r) (hx : x.state.pc ≤ words.size) :
    r.1.state.pc ≤ words.size := by
  cases h with
  | halted | undecodable | astray | refused => exact hx
  | advanced hfetch hturn _ => exact State.pc_le_of_turnBy (State.pc_lt_of_fetch hfetch) hturn

theorem Stepped.admits (hd : ∀ w ∈ words.toList, ∃ i, Instruction.decode w = .ok i)
    (hx : x.state.pc ≤ words.size) (h : Stepped words trace x r) : Admits words x r := by
  cases h with
  | halted hge => exact ⟨Nat.le_antisymm hx hge, rfl⟩
  | undecodable hfetch => exact State.fetch_ne_error hd _ hfetch
  | astray hfetch hturn =>
    obtain ⟨hop, hne, rfl, hout⟩ := State.turnBy_eq_astray_iff.mp hturn
    refine ⟨rfl, rfl, State.pc_lt_of_fetch hfetch, rfl, _, hfetch, hop, hne, rfl, ?_⟩
    rcases Int.lt_or_le (Instruction.branchTarget _ x.state.pc) 0 with hneg | hnonneg
    · exact .inl hneg
    · exact .inr (Int.not_le.mp fun hle => hout ⟨hnonneg, hle⟩)
  | refused hfetch hturn hout =>
    obtain ⟨p, rfl, hwrite⟩ := Printer.write_of_refused hout
    obtain ⟨hop, rfl⟩ := print_of_turnBy hturn
    exact ⟨rfl, _, hfetch, hop, hwrite⟩
  | advanced hfetch hturn _ =>
    have hlt := State.pc_lt_of_fetch hfetch
    exact ⟨hlt, State.pc_le_of_turnBy hlt hturn⟩

end Execution

/-- No step leads beyond the end, so no number of them does. -/
theorem State.Reaches.pc_le {words : Array UInt32} {s t : State} (h : s.Reaches words t)
    (hs : s.pc ≤ words.size) : t.pc ≤ words.size := by
  induction h with
  | refl => exact hs
  | @step x trace _ ih => exact (Execution.stepped words trace x).pc_le ih

/-- A run that is reported without a fault has arrived at the end of the program. -/
theorem Interpreter.pc_eq_size {m m' : Interpreter} {fuel : Nat} {sink : Sink} {report : Report}
    (h : m.run fuel sink = some (report, m')) (hfault : report.fault = none) :
    report.state.pc = m.words.size := by
  obtain ⟨x, o, hrun, ho, hstate, hreported⟩ := report_cases h
  obtain ⟨z, hz, hlast⟩ : ∃ z : Execution, State.fresh.Reaches m.words z.state ∧
      Execution.step m.words m.trace z = (x, o) := by
    refine Execution.runFor_last (fun hreaches hadvanced => ?_) .refl hrun ho
    have := hreaches.step m.trace
    rwa [hadvanced] at this
  have hpc := hz.pc_le (Nat.zero_le _)
  have hstepped := Execution.stepped m.words m.trace z
  rw [hlast] at hstepped
  rw [hstate]
  cases hstepped with
  | halted hge => exact Nat.le_antisymm hpc hge
  | advanced => exact absurd rfl ho
  | undecodable | astray | refused =>
    obtain hreported | ⟨reason, hreported⟩ := hreported <;> rw [hfault] at hreported <;>
      cases hreported

/-- All steps and runs of the words stay within the program. -/
structure Execution.Contained (words : Array UInt32) : Prop where
  bounded : ∀ s t : State, s.pc ≤ words.size → s.Reaches words t → t.pc ≤ words.size
  admits : ∀ (s : State) (x : Execution) (trace : Bool), s.pc ≤ words.size →
    s.Reaches words x.state → Execution.Admits words x (Execution.step words trace x)
  halts_iff : ∀ (s : State) (x : Execution) (trace : Bool), s.pc ≤ words.size →
    s.Reaches words x.state →
      ((Execution.step words trace x).2 = .halted ↔ x.state.pc = words.size)
  ended : ∀ (m m' : Interpreter) (fuel : Nat) (sink : Sink) (report : Interpreter.Report),
    m.words = words → m.run fuel sink = some (report, m') → report.fault = none →
      report.state.pc = words.size

/-- A program is never left but by a branch that is reported. However it was built, no run of it
comes upon a word that is not an instruction; and beyond the end, where no program leads, a step
does nothing. -/
theorem Execution.contained_of_decodes :
    (∀ words : Array UInt32, (∀ w ∈ words.toList, ∃ i, Instruction.decode w = .ok i) →
      Execution.Contained words) ∧
    (∀ (p : Program) (ws : Array UInt32), Program.Begins p ws → ∀ (ds : List Directive)
      (m m' : Interpreter) (fuel : Nat) (sink : Sink) (report : Interpreter.Report),
      m.words = (p.afterSession ds).words → m.run fuel sink = some (report, m') →
        ∀ e, report.fault ≠ some (.undecodable e)) ∧
    ∀ (words : Array UInt32) (trace : Bool) (x : Execution), words.size < x.state.pc →
      Execution.step words trace x = (x, .halted) := by
  refine ⟨fun words hd => ⟨?_, ?_, ?_, ?_⟩, ?_, ?_⟩
  · intro s t hs h
    exact h.pc_le hs
  · intro s x trace hs h
    exact (Execution.stepped words trace x).admits hd (h.pc_le hs)
  · intro s x trace hs h
    rw [(Execution.stepped words trace x).halted_iff]
    exact ⟨Nat.le_antisymm (h.pc_le hs), fun heq => Nat.le_of_eq heq.symm⟩
  · rintro m m' fuel sink report rfl hrun hfault
    exact Interpreter.pc_eq_size hrun hfault
  · intro p ws hbegins ds m m' fuel sink report hwords hrun
    refine Interpreter.fault_ne_undecodable ?_ hrun
    rw [hwords]
    exact Decodes.exists_iff.mp (hbegins.decodes ds)
  · intro words trace x hbeyond
    exact Execution.step_of_size_le trace (Nat.le_of_lt hbeyond)

/-- A print that is refused once and made again, before a branch out of the program; a program that
branches to its own end; and a state far beyond the end. -/
theorem Execution.contained_of_decodes_stray :
    (∃ x : Execution,
      State.fresh.Reaches #[0x01000001, 0x07000000, 0x08000005] x.state ∧
      (Execution.step #[0x01000001, 0x07000000, 0x08000005] false x).2 =
        .failed (.jumpOutOfRange 2 8 3) ∧
      Execution.Admits #[0x01000001, 0x07000000, 0x08000005] x
        (Execution.step #[0x01000001, 0x07000000, 0x08000005] false x)) ∧
    (∃ report m', Interpreter.run { words := #[0x01000001, 0x08000000] } 3 {} =
      some (report, m') ∧ report.state.pc = 2 ∧ ∀ e, report.fault ≠ some (.undecodable e)) ∧
    ∃ x : Execution, x.state.pc = 0xffffffffffffffff ∧
      Execution.step #[0x07000000] true x = (x, .halted) := by
  obtain ⟨contained, built, beyond⟩ := contained_of_decodes
  refine ⟨?_, ?_, ⟨{ state := { pc := 0xffffffffffffffff } }, rfl, beyond _ _ _ (by decide)⟩⟩
  · have stray := contained #[0x01000001, 0x07000000, 0x08000005] (Decodes.exists_iff.mp
      ⟨[⟨.loadImmediate, .a, 1⟩, ⟨.print, .a, 0⟩, ⟨.jumpIfNonZero, .a, 5⟩], rfl⟩)
    have start : State.fresh.Reaches #[0x01000001, 0x07000000, 0x08000005]
      ({ sink := { device := .failing (some 0) true false } } : Execution).state := .refl
    have reached := ((start.step false).step false).step false
    exact ⟨_, reached, rfl, stray.admits _ _ false (Nat.zero_le _) reached⟩
  · have closed := contained #[0x01000001, 0x08000000] (Decodes.exists_iff.mp
      ⟨[⟨.loadImmediate, .a, 1⟩, ⟨.jumpIfNonZero, .a, 0⟩], rfl⟩)
    have begun : Program.Begins ⟨#[0x01000001, 0x08000000], 0⟩ #[0x01000001, 0x08000000] :=
      .loaded (by decide)
    refine ⟨_, _, rfl, closed.ended { words := #[0x01000001, 0x08000000] } _ 3 {} _ rfl rfl rfl, ?_⟩
    exact built _ _ begun [] { words := #[0x01000001, 0x08000000] } _ 3 {} _ rfl rfl

end Dyad
