import Dyad.Proofs.Run.Turn

/-!
Runs apart from their output. A `Walk` is a sequence of turns together with what they print. A run
of the interpreter follows the walk from its state until the walk ends (`runFor_of_walk_ends`) or
the sink refuses a line (`runFor_of_refused`); what becomes of the sink is what a `Printer` makes
of the same prints.
-/

namespace Dyad

/-! ### Walks -/

/-- `n` turns lead from `s` to `t` and print `ps`. -/
inductive Walk (code : List Instruction) : Nat → State → List Print → State → Prop where
  | nil (s : State) : Walk code 0 s [] s
  | cons {n : Nat} {s t u : State} {p : Option Print} {ps : List Print}
      (turn : s.turn code = .onward p t) (rest : Walk code n t ps u) :
      Walk code (n + 1) s (p.toList ++ ps) u

namespace Walk

variable {code : List Instruction} {m n : Nat} {s t t' : State} {ps ps' : List Print}

theorem pc_le (w : Walk code n s ps t) (h : s.pc ≤ code.length) : t.pc ≤ code.length := by
  induction w with
  | nil => exact h
  | cons turn _ ih => exact ih (State.pc_le_of_onward turn)

/-- A walk of any length either exists or is cut short by the end of the program. -/
theorem exists_or_ends (code : List Instruction) (n : Nat) (s : State) :
    (∃ ps t, Walk code n s ps t) ∨
      ∃ m ps t, m < n ∧ Walk code m s ps t ∧ t.Ends code := by
  induction n generalizing s with
  | zero => exact .inl ⟨[], s, .nil s⟩
  | succ n ih =>
    cases h : s.turn code with
    | onward p t =>
      rcases ih t with ⟨ps, u, w⟩ | ⟨m, ps, u, hm, w, hu⟩
      · exact .inl ⟨_, u, .cons h w⟩
      · exact .inr ⟨m + 1, _, u, by omega, .cons h w, hu⟩
    | finished | astray =>
      refine .inr ⟨0, [], s, by omega, .nil s, ?_⟩
      intro p t h'
      rw [h] at h'
      cases h'

/-- A walk that ends without leaving the program ends at the end of it. -/
theorem pc_eq_length (w : Walk code n s ps t) (hs : s.pc ≤ code.length) (ht : t.Ends code)
    (h : t.jumpFault code = none) : t.pc = code.length := by
  refine Nat.le_antisymm (w.pc_le hs) ?_
  unfold State.jumpFault at h
  cases hturn : t.turn code with
  | onward p u => exact absurd hturn (ht p u)
  | finished => exact State.turn_eq_finished_iff.mp hturn
  | astray target =>
    rw [hturn] at h
    cases h

end Walk

namespace Printer

theorem printAll_append (out : Printer) (ps qs : List Print) :
    out.printAll (ps ++ qs) = (out.printAll ps).printAll qs :=
  List.foldl_append

/-- After a refusal nothing more is printed. -/
theorem printAll_refused (sink : Sink) (reason : String) (ps : List Print) :
    printAll ⟨sink, some reason⟩ ps = ⟨sink, some reason⟩ := by
  induction ps with
  | nil => rfl
  | cons p ps ih => exact ih

end Printer

/-! ### Whole runs of the interpreter -/

namespace Execution

/-- What a step prints if it advances. -/
def printed (words : Array UInt32) (x : Execution) : Option Print :=
  match words[x.state.pc]?.map Instruction.decode with
  | some (.ok i) =>
    if i.opcode = .print then some ⟨i.register, x.state.register i.register⟩ else none
  | _ => none

/-- What a run of at most `limit` steps prints, in order. -/
def prints (words : Array UInt32) (trace : Bool) : (limit : Nat) → Execution → List Print
  | 0, _ => []
  | limit + 1, x =>
    match step words trace x with
    | (y, .advanced) => (printed words x).toList ++ prints words trace limit y
    | _ => []

variable {words : Array UInt32} {code : List Instruction} {trace : Bool}
variable {n : Nat} {s t : State} {ps : List Print}

/-- How a run ends where its walk ends. -/
def ending (code : List Instruction) (s : State) : Outcome :=
  match s.jumpFault code with
  | none => .halted
  | some cause => .failed cause

theorem ending_ne_advanced (code : List Instruction) (s : State) : ending code s ≠ .advanced := by
  unfold ending
  split <;> nofun

theorem step_of_ends (trace : Bool) (hd : Decodes words code) {x : Execution}
    (h : x.state.Ends code) :
    ∃ events, step words trace x = ({ x with events }, ending code x.state) := by
  unfold ending State.jumpFault
  cases hturn : x.state.turn code with
  | onward p t => exact absurd hturn (h p t)
  | finished => exact ⟨x.events, step_of_finished trace hd hturn⟩
  | astray target =>
    refine ⟨(x.noted code trace).events, (step_of_astray trace hd hturn).trans ?_⟩
    rw [Prod.mk.injEq]
    refine ⟨?_, rfl⟩
    unfold noted
    split <;> rfl

theorem runFor_of_step {x y : Execution} {o : Outcome} (h : step words trace x = (y, o))
    (ho : o ≠ .advanced) {limit : Nat} (hl : 0 < limit) : runFor words trace limit x = (y, o) := by
  obtain ⟨limit, rfl⟩ := Nat.exists_eq_add_of_le' hl
  rw [runFor, h]
  cases o with
  | advanced => exact absurd rfl ho
  | halted | failed => rfl

theorem runFor_add_of_walk (trace : Bool) (hd : Decodes words code)
    (w : Walk code n s ps t) {x : Execution} (hx : x.state = s) {sink : Sink}
    (hout : Printer.printAll ⟨x.sink, none⟩ ps = ⟨sink, none⟩) :
    ∃ events, ∀ limit, runFor words trace (n + limit) x =
      runFor words trace limit ⟨t, sink, x.executed + n, events⟩ := by
  induction w generalizing x with
  | nil s =>
    obtain ⟨state, _, executed, events⟩ := x
    cases hout
    cases hx
    exact ⟨events, fun limit => by simp⟩
  | @cons n s t u p ps turn rest ih =>
    rw [Printer.printAll_append] at hout
    subst hx
    cases hp : Printer.printAll ⟨x.sink, none⟩ p.toList with
    | mk sink' refused =>
      cases refused with
      | some reason =>
        rw [hp, Printer.printAll_refused] at hout
        cases hout
      | none =>
        have hstep := step_of_onward trace hd turn
        simp only [hp] at hstep
        rw [hp] at hout
        obtain ⟨events, hrun⟩ :=
          ih (x := ⟨t, sink', x.executed + 1, (x.noted code trace).events⟩) rfl hout
        refine ⟨events, fun limit => ?_⟩
        rw [show n + 1 + limit = n + limit + 1 by omega, runFor, hstep]
        simp only [hrun, Nat.add_comm n 1, Nat.add_assoc]

theorem printed_of_onward (hd : Decodes words code) {x : Execution} {p : Option Print}
    (h : x.state.turn code = .onward p t) : printed words x = p := by
  have hlt := State.pc_lt_of_onward h
  have hw : x.state.pc < words.size := by rw [hd.size_eq]; exact hlt
  obtain ⟨i, hi, hcases⟩ := State.onward_cases h
  rw [List.getElem?_eq_getElem hlt, Option.some.injEq] at hi
  simp only [printed, Array.getElem?_eq_getElem hw, Option.map_some, hd.decode_getElem hw hlt, hi]
  obtain ⟨hop, rfl, _⟩ | ⟨hop, _, rfl, _⟩ | ⟨hop, _, _, rfl, _⟩ | ⟨hop, _, rfl, _⟩ := hcases
  · exact if_pos hop
  · exact if_neg (by rw [hop]; nofun)
  · exact if_neg (by rw [hop]; nofun)
  · exact if_neg hop

/-- A run prints what its walk prints, if the sink refuses nothing. -/
theorem prints_of_walk_ends (trace : Bool) (hd : Decodes words code) (w : Walk code n s ps t)
    (h : t.Ends code) {x : Execution} (hx : x.state = s) {sink : Sink}
    (hout : Printer.printAll ⟨x.sink, none⟩ ps = ⟨sink, none⟩) {limit : Nat} (hl : n ≤ limit) :
    prints words trace limit x = ps := by
  induction w generalizing x limit with
  | nil s =>
    cases hx
    obtain ⟨events, hstep⟩ := step_of_ends trace hd h
    have hne := ending_ne_advanced code x.state
    cases limit with
    | zero => rfl
    | succ limit =>
      rw [prints, hstep]
      generalize ending code x.state = o at hne
      cases o with
      | advanced => exact absurd rfl hne
      | halted | failed => rfl
  | @cons n s t u p ps turn rest ih =>
    rw [Printer.printAll_append] at hout
    subst hx
    obtain ⟨limit, rfl⟩ := Nat.exists_eq_add_of_le' (show 1 ≤ limit by omega)
    have hstep := step_of_onward trace hd turn
    cases hp : Printer.printAll ⟨x.sink, none⟩ p.toList with
    | mk sink' refused =>
      rw [hp] at hout
      cases refused with
      | some reason =>
        rw [Printer.printAll_refused] at hout
        cases hout
      | none =>
        simp only [hp] at hstep
        rw [prints, hstep, printed_of_onward hd turn]
        simp only
        rw [ih h rfl hout (by omega)]

/-- If the sink refuses none of its prints, a run follows a walk that does not end by then. -/
theorem runFor_of_walk (trace : Bool) (hd : Decodes words code)
    (w : Walk code n s ps t) {x : Execution} (hx : x.state = s) {sink : Sink}
    (hout : Printer.printAll ⟨x.sink, none⟩ ps = ⟨sink, none⟩) :
    ∃ events, runFor words trace n x = (⟨t, sink, x.executed + n, events⟩, .advanced) := by
  obtain ⟨events, hrun⟩ := runFor_add_of_walk trace hd w hx hout
  exact ⟨events, hrun 0⟩

/-- If the sink refuses one of its prints, a run ends with that refusal. -/
theorem runFor_of_refused (trace : Bool) (hd : Decodes words code)
    (w : Walk code n s ps t) {x : Execution} (hx : x.state = s) {sink : Sink}
    {reason : String} (hout : Printer.printAll ⟨x.sink, none⟩ ps = ⟨sink, some reason⟩) :
    ∃ y : Execution, y.sink = sink ∧ ∀ limit, n ≤ limit →
      runFor words trace limit x = (y, .failed (.output reason)) := by
  induction w generalizing x with
  | nil => cases hout
  | @cons n s t u p ps turn rest ih =>
    rw [Printer.printAll_append] at hout
    subst hx
    have hstep := step_of_onward trace hd turn
    cases hp : Printer.printAll ⟨x.sink, none⟩ p.toList with
    | mk sink' refused =>
      rw [hp] at hout
      cases refused with
      | some reason' =>
        rw [Printer.printAll_refused] at hout
        cases hout
        simp only [hp] at hstep
        exact ⟨{ x.noted code trace with sink }, rfl, fun limit hle =>
          runFor_of_step hstep (by nofun) (by omega)⟩
      | none =>
        simp only [hp] at hstep
        obtain ⟨y, hy, hrun⟩ :=
          ih (x := ⟨t, sink', x.executed + 1, (x.noted code trace).events⟩) rfl hout
        refine ⟨y, hy, fun limit hle => ?_⟩
        obtain ⟨limit, rfl⟩ := Nat.exists_eq_add_of_le' (show 1 ≤ limit by omega)
        rw [runFor, hstep]
        exact hrun limit (by omega)

/-- If the sink refuses none of its prints, a run ends where the walk ends. -/
theorem runFor_of_walk_ends (trace : Bool) (hd : Decodes words code) (w : Walk code n s ps t)
    (h : t.Ends code) {x : Execution} (hx : x.state = s) {sink : Sink}
    (hout : Printer.printAll ⟨x.sink, none⟩ ps = ⟨sink, none⟩) :
    ∃ events, ∀ limit, n < limit →
      runFor words trace limit x = (⟨t, sink, x.executed + n, events⟩, ending code t) := by
  obtain ⟨events, hrun⟩ := runFor_add_of_walk trace hd w hx hout
  obtain ⟨events', hstep⟩ :=
    step_of_ends trace hd (x := ⟨t, sink, x.executed + n, events⟩) h
  refine ⟨events', fun limit hlt => ?_⟩
  obtain ⟨limit, rfl⟩ := Nat.exists_eq_add_of_le (Nat.le_of_lt hlt)
  rw [hrun]
  exact runFor_of_step hstep (ending_ne_advanced code t) (by omega)

end Execution

end Dyad
