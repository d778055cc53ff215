import Mathlib.Data.Nat.Fib.Basic
import Dyad.Proofs.Run.Step
import Dyad.Sample.Fibonacci

/-!
What the Fibonacci sample computes. Its code is taken apart into the setup, the body of the loop,
and the branch and the print that follow. The setup prepares the first round (`ready_setup`), the
body makes one (`Ready.body`), and by induction on the counter the loop makes as many as the counter
says (`After.walk_back`), which is `2 ^ 32` for a counter of zero. The plain loop makes the same
rounds (`loop_eq`).
-/

namespace Dyad

/-! ### Straight code -/

/-- The instruction changes registers or memory and nothing else. -/
def Instruction.Plain (i : Instruction) : Prop := i.opcode ≠ .print ∧ i.opcode ≠ .jumpIfNonZero

instance (i : Instruction) : Decidable i.Plain := inferInstanceAs (Decidable (_ ∧ _))

/-- The state after instructions that only change registers or memory. -/
def State.follow (s : State) (is : List Instruction) : State :=
  is.foldl (fun s i => (s.update i).next) s

/-- Plain instructions are carried out one after another. -/
theorem Walk.plain {code is rest : List Instruction} {s : State} (his : ∀ i ∈ is, i.Plain)
    (hcode : code.drop s.pc = is ++ rest) : Walk code is.length s [] (s.follow is) := by
  induction is generalizing s with
  | nil => exact .nil s
  | cons i is ih =>
    obtain ⟨⟨hprint, hjump⟩, his⟩ := List.forall_mem_cons.mp his
    have hi : code[s.pc]? = some i := by
      rw [← List.head?_drop, hcode]
      rfl
    have hturn : s.turn code = .onward none (s.update i).next :=
      State.onward_of_cases hi (.inr (.inr (.inr ⟨hprint, hjump, rfl, rfl⟩)))
    refine .cons hturn (ih his ?_)
    rw [State.next, State.update_pc, ← List.tail_drop, hcode]
    rfl

namespace Fibonacci

/-! ### The code -/

def setup (n : UInt16) : List Instruction :=
  [⟨.loadImmediate, .a, 1⟩, ⟨.storeMemory, .a, 0⟩, ⟨.loadImmediate, .b, n⟩,
    ⟨.storeMemory, .b, 2⟩]

def body : List Instruction :=
  [⟨.storeMemory, .a, 1⟩, ⟨.addMemory, .a, 0⟩, ⟨.loadMemory, .b, 1⟩, ⟨.storeMemory, .b, 0⟩,
    ⟨.loadMemory, .b, 2⟩, ⟨.subtractImmediate, .b, 1⟩, ⟨.storeMemory, .b, 2⟩]

def code (n : UInt16) : List Instruction :=
  setup n ++ body ++ [⟨.jumpIfNonZero, .b, 0xfff8⟩, ⟨.print, .a, 0⟩]

theorem program_eq_ok {n : UInt32} (h : n.toNat ≤ 65535) :
    program n = .ok ⟨((code n.toUInt16).map Instruction.encode).toArray, 4⟩ := by
  have hn : Program.withOperand .loadImmediate .b n = .ok ⟨.loadImmediate, .b, n.toUInt16⟩ :=
    if_pos (Nat.lt_succ_of_le h)
  simp only [program, Program.ofDirectives?, Program.applyAll, Program.applyAll.go,
    Program.emission, hn]
  rfl

theorem program_eq_error {n : UInt32} (h : 65535 < n.toNat) :
    program n = .error (.immediateOutOfRange .loadImmediate n) := by
  have hn : Program.withOperand .loadImmediate .b n =
      .error (.immediateOutOfRange .loadImmediate n) :=
    if_neg (by omega)
  simp only [program, Program.ofDirectives?, Program.applyAll, Program.applyAll.go,
    Program.emission, hn]
  rfl

/-! ### Rounds -/

/-- The `k`-th Fibonacci number modulo `2 ^ 32`; the first and the second are one. -/
def term (k : Nat) : UInt32 := UInt32.ofNat (Nat.fib k)

theorem term_add_two (k : Nat) : term (k + 2) = term (k + 1) + term k := by
  rw [term, Nat.fib_add_two, Nat.add_comm, UInt32.ofNat_add]
  rfl

/-- How often the loop is made: a counter of zero is lowered to `2 ^ 32 - 1` before it is tested. -/
def rounds (n : UInt32) : Nat := if n = 0 then 2 ^ 32 else n.toNat

theorem toNat_sub_one {n : UInt32} (h : n ≠ 0) : (n - 1).toNat = n.toNat - 1 := by
  have hpos : n.toNat ≠ 0 := fun h' => h (UInt32.toNat_inj.mp h')
  have hlt := n.toNat_lt
  rw [UInt32.toNat_sub]
  simp only [UInt32.reduceToNat]
  omega

theorem rounds_eq (n : UInt32) : rounds n = (n - 1).toNat + 1 := by
  unfold rounds
  split
  · rename_i h
    rw [h]
    rfl
  · rename_i h
    have hpos : n.toNat ≠ 0 := fun h' => h (UInt32.toNat_inj.mp h')
    rw [toNat_sub_one h]
    omega

/-- The plain loop, begun with two consecutive numbers, goes on by one number in its first round and
by one in each of the `left` rounds after it. -/
theorem loop_eq {counter : UInt32} {left : Nat} (h : (counter - 1).toNat = left) (k : Nat) :
    loop counter (term (k + 1)) (term (k + 2)) = term (k + left + 3) := by
  induction left generalizing counter k with
  | zero =>
    have hzero : counter - 1 = 0 := UInt32.toNat_inj.mp h
    rw [loop]
    simp only [if_pos hzero, ← term_add_two]
  | succ left ih =>
    have hne : counter - 1 ≠ 0 := by
      intro h0
      rw [h0] at h
      cases h
    have hleft : (counter - 1 - 1).toNat = left := by
      rw [toNat_sub_one hne, h, Nat.add_sub_cancel]
    rw [loop]
    simp only [if_neg hne, ← term_add_two]
    rw [ih hleft (k + 1), Nat.add_right_comm k 1 left, Nat.add_assoc k left 1]

theorem value_eq (n : UInt32) : value n = term (rounds n + 2) := by
  rw [rounds_eq]
  exact (loop_eq rfl 0).trans (by rw [Nat.zero_add])

/-- After `k` rounds, with `left` in the counter: what the next round reads is in place, and no
other cell has been written. -/
structure Ready (k : Nat) (left : UInt32) (s : State) : Prop where
  current : s.register .a = term (k + 2)
  previous : s.memory.get 0 = term (k + 1)
  counter : s.memory.get 2 = left
  others : ∀ i, i ≠ 0 → i ≠ 1 → i ≠ 2 → s.memory.get i = 0

/-- The same right after a round, which leaves the counter in the other register and the number
before the current one in cell 1 too. -/
structure After (k : Nat) (left : UInt32) (s : State) : Prop extends Ready k left s where
  scratch : s.register .b = left
  temporary : s.memory.get 1 = term (k + 1)

theorem follow_setup (n : UInt16) (s : State) :
    s.follow (setup n) =
      ⟨⟨1, n.toUInt32⟩, s.pc + 4, (s.memory.set 0 1).set 2 n.toUInt32⟩ := rfl

theorem follow_body (s : State) :
    s.follow body =
      ⟨⟨s.register .a + s.memory.get 0, s.memory.get 2 - 1⟩, s.pc + 7,
        ((s.memory.set 1 (s.register .a)).set 0 (s.register .a)).set 2 (s.memory.get 2 - 1)⟩ := by
  simp [State.follow, body, State.update, State.next, State.setMemory, State.setRegister,
    State.register, Registers.get, Registers.set]

theorem ready_setup (n : UInt16) : Ready 0 n.toUInt32 (State.fresh.follow (setup n)) := by
  rw [follow_setup]
  refine ⟨rfl, ?_, ?_, fun i h0 h1 h2 => ?_⟩
  · simp [term]
  · simp
  · simp [h0.symm, h2.symm, State.fresh]

theorem Ready.body {k : Nat} {left : UInt32} {s : State} (h : Ready k left s) :
    After (k + 1) (left - 1) (s.follow Fibonacci.body) := by
  rw [follow_body, h.current, h.previous, h.counter, ← term_add_two]
  refine ⟨⟨rfl, ?_, ?_, fun i h0 h1 h2 => ?_⟩, rfl, ?_⟩
  · simp
  · simp
  · simp [h0.symm, h1.symm, h2.symm, h.others i h0 h1 h2]
  · simp

/-! ### The run -/

variable {n : UInt16} {k : Nat} {left : UInt32} {s : State}

theorem walk_setup (n : UInt16) :
    Walk (code n) 4 State.fresh [] (State.fresh.follow (setup n)) := by
  have plain : ∀ i ∈ setup n, i.Plain := by simp [setup, Instruction.Plain]
  exact Walk.plain plain rfl

theorem walk_body (n : UInt16) (hpc : s.pc = 4) : Walk (code n) 7 s [] (s.follow body) := by
  have plain : ∀ i ∈ body, i.Plain := by decide
  have hcode : (code n).drop s.pc = body ++ [⟨.jumpIfNonZero, .b, 0xfff8⟩, ⟨.print, .a, 0⟩] := by
    rw [hpc]
    rfl
  exact Walk.plain plain hcode

/-- While rounds are left the branch leads back to the start of the loop. -/
theorem turn_back (n : UInt16) (hpc : s.pc = 11) (hb : s.register .b ≠ 0) :
    s.turn (code n) = .onward none { s with pc := 4 } := by
  refine State.onward_of_cases (i := ⟨.jumpIfNonZero, .b, 0xfff8⟩) (by rw [hpc]; rfl) ?_
  refine .inr (.inr (.inl ⟨rfl, hb, ?_, rfl, ?_⟩))
  · rw [hpc]
    exact ⟨by decide, by change _ ≤ (13 : Int); decide⟩
  · rw [hpc]
    rfl

/-- Then it is passed, and the number is printed. -/
theorem walk_out (n : UInt16) (hpc : s.pc = 11) (hb : s.register .b = 0) :
    Walk (code n) 2 s [⟨.a, s.register .a⟩] { s with pc := 13 } := by
  have passed : s.turn (code n) = .onward none s.next :=
    State.onward_of_cases (i := ⟨.jumpIfNonZero, .b, 0xfff8⟩) (by rw [hpc]; rfl)
      (.inr (.inl ⟨rfl, hb, rfl, rfl⟩))
  have printed : s.next.turn (code n) = .onward (some ⟨.a, s.register .a⟩) s.next.next :=
    State.onward_of_cases (i := ⟨.print, .a, 0⟩) (by rw [State.next, hpc]; rfl)
      (.inl ⟨rfl, rfl, rfl⟩)
  have hend : s.next.next = { s with pc := 13 } := by
    rw [State.next, State.next, hpc]
  rw [hend] at printed
  exact .cons passed (.cons printed (.nil _))

/-- The loop makes all rounds that are left: by induction on their number, a branch back and a round
of the body each. -/
theorem After.walk_back (n : UInt16) {m : Nat} (h : After k left s) (hpc : s.pc = 11)
    (hm : left.toNat = m) :
    ∃ t, Walk (code n) (8 * m) s [] t ∧ t.pc = 11 ∧ After (k + m) 0 t := by
  induction m generalizing k left s with
  | zero =>
    cases UInt32.toNat_inj.mp (hm.trans UInt32.toNat_zero.symm)
    exact ⟨s, .nil s, hpc, h⟩
  | succ m ih =>
    have hne : left ≠ 0 := by
      rintro rfl
      cases hm
    have back := turn_back n hpc (by rw [h.scratch]; exact hne)
    have start : Ready k left { s with pc := 4 } := ⟨h.current, h.previous, h.counter, h.others⟩
    have hpc' : (State.follow { s with pc := 4 } body).pc = 11 := by rw [follow_body]
    have hm' : (left - 1).toNat = m := by rw [toNat_sub_one hne, hm, Nat.add_sub_cancel]
    obtain ⟨t, w, ht, hafter⟩ := ih start.body hpc' hm'
    refine ⟨t, ?_, ht, ?_⟩
    · have turns : 8 * (m + 1) = 7 + 8 * m + 1 := by omega
      rw [turns]
      exact .cons back ((walk_body n rfl).trans w)
    · rw [Nat.add_right_comm] at hafter
      exact hafter

/-- The whole program: setup, a first round, the others, and the way out. -/
theorem walk_program {n : UInt32} (hn : n.toNat ≤ 65535) :
    ∃ t, Walk (code n.toUInt16) (5 + 8 * rounds n) State.fresh [⟨.a, value n⟩] t ∧ t.pc = 13 ∧
      After (rounds n) 0 t := by
  have hwide : n.toUInt16.toUInt32 = n := by
    apply UInt32.toNat_inj.mp
    rw [UInt16.toNat_toUInt32, UInt32.toNat_toUInt16]
    omega
  have first := (ready_setup n.toUInt16).body
  have hpc : ((State.fresh.follow (setup n.toUInt16)).follow body).pc = 11 := by
    rw [follow_body]
    rfl
  rw [hwide] at first
  obtain ⟨t, w, ht, hafter⟩ := first.walk_back n.toUInt16 hpc rfl
  have hrounds : 0 + 1 + (n - 1).toNat = rounds n := by
    rw [rounds_eq]
    omega
  rw [hrounds] at hafter
  have out := walk_out n.toUInt16 ht hafter.scratch
  rw [hafter.current, ← value_eq] at out
  refine ⟨{ t with pc := 13 }, ?_, rfl, ⟨hafter.current, hafter.previous, hafter.counter,
    hafter.others⟩, hafter.scratch, hafter.temporary⟩
  have turns : 5 + 8 * rounds n = 4 + (7 + (8 * (n - 1).toNat + 2)) := by
    rw [rounds_eq]
    omega
  rw [turns]
  exact (walk_setup n.toUInt16).trans ((walk_body n.toUInt16 rfl).trans (w.trans out))

/-- The state in which the program for `n` ends. -/
structure Computed (n : UInt32) (s : State) : Prop where
  register_a : s.register .a = term (rounds n + 2)
  register_b : s.register .b = 0
  memory_zero : s.memory.get 0 = term (rounds n + 1)
  memory_one : s.memory.get 1 = term (rounds n + 1)
  memory_two : s.memory.get 2 = 0
  others : ∀ i, i ≠ 0 → i ≠ 1 → i ≠ 2 → s.memory.get i = 0
  pc : s.pc = 13

theorem After.computed {n : UInt32} (h : After (rounds n) 0 s) (hpc : s.pc = 13) : Computed n s :=
  ⟨h.current, h.scratch, h.previous, h.temporary, h.counter, h.others, hpc⟩

/-- The program and the plain loop compute the same Fibonacci number, and the program prints it and
nothing else. It exists for every counter that fits an immediate. -/
theorem computes (n : UInt32) :
    value n = term (rounds n + 2) ∧
    (n.toNat ≤ 65535 → ∃ p, program n = .ok p ∧
      ∀ (m : Interpreter) (sink : Sink), m.words = p.words → sink.device.NeverRefuses →
        ∀ fuel, 5 + 8 * rounds n < fuel → ∃ report m',
          m.run fuel sink = some (report, m') ∧ report.fault = none ∧ Computed n report.state ∧
          m'.stats = ⟨m.stats.runs + 1, m.stats.executed + (5 + 8 * rounds n)⟩ ∧
          report.sink.text = sink.text ++ Print.line ⟨.a, value n⟩ ∧
          Execution.prints m.words m.trace fuel { sink } = [⟨.a, value n⟩]) ∧
    (65535 < n.toNat → program n = .error (.immediateOutOfRange .loadImmediate n)) := by
  refine ⟨value_eq n, fun hn => ⟨_, program_eq_ok hn, ?_⟩, program_eq_error⟩
  intro m sink hwords hsink fuel hfuel
  obtain ⟨t, walk, hpc, hafter⟩ := walk_program hn
  have hd : Decodes m.words (code n.toUInt16) := by
    rw [hwords]
    exact Decodes.of_encode _
  have hend : t.turn (code n.toUInt16) = .finished :=
    State.turn_eq_finished_iff.mpr (Nat.le_of_eq hpc.symm)
  obtain ⟨report, m', hrun, hfault, rfl, htext, hstats, hprints⟩ :=
    Interpreter.run_of_finished hd hsink walk hend hfuel
  refine ⟨report, m', hrun, hfault, hafter.computed hpc, hstats, ?_, hprints⟩
  rw [htext, Printer.transcript, Printer.transcript, String.append_empty]

/-- Ten rounds, and the twelfth number; no rounds asked for, and `2 ^ 32` made; and one more than an
immediate holds. -/
theorem computes_ten :
    (∃ p, program 10 = .ok p ∧ ∃ report m',
      Interpreter.run { words := p.words } 86 {} = some (report, m') ∧
      report.state.register .a = 144 ∧ m'.stats = ⟨1, 85⟩ ∧
      report.sink.text = Print.line ⟨.a, 144⟩) ∧
    (∃ p, program 0 = .ok p ∧ ∃ report m',
      Interpreter.run { words := p.words } (2 ^ 36) {} = some (report, m') ∧
      m'.stats = ⟨1, 5 + 8 * 2 ^ 32⟩) ∧
    program 65536 = .error (.immediateOutOfRange .loadImmediate 65536) := by
  have hvalue : term (rounds 10 + 2) = 144 := by decide
  refine ⟨?_, ?_, (computes 65536).2.2 (by decide)⟩
  · obtain ⟨hloop, hprogram, -⟩ := computes 10
    obtain ⟨p, hp, hrun⟩ := hprogram (by decide)
    obtain ⟨report, m', hreport, -, hstate, hstats, htext, -⟩ :=
      hrun { words := p.words } {} rfl Device.neverRefuses_reliable 86 (by decide)
    refine ⟨p, hp, report, m', hreport, hstate.register_a.trans hvalue, hstats, ?_⟩
    rw [htext, hloop, hvalue, String.empty_append]
  · have hrounds : rounds 0 = 2 ^ 32 := if_pos rfl
    obtain ⟨p, hp, hrun⟩ := (computes 0).2.1 (by decide)
    rw [hrounds] at hrun
    obtain ⟨report, m', hreport, -, -, hstats, -⟩ :=
      hrun { words := p.words } {} rfl Device.neverRefuses_reliable (2 ^ 36) (by decide)
    rw [Nat.zero_add, Nat.zero_add] at hstats
    exact ⟨p, hp, report, m', hreport, hstats⟩

end Fibonacci

end Dyad
