import Dyad.Output.Printer
import Dyad.Run.Interpreter

/-!
Steps apart from their output. `State.turn` says how a program goes on from a state, whatever
becomes of what it prints; `step_of_onward`, `step_of_finished` and `step_of_astray` say what a
step of the interpreter does in each case.
-/

namespace Dyad

/-- The words are instructions, in order those of `code`. -/
def Decodes (words : Array UInt32) (code : List Instruction) : Prop :=
  words.toList.map Instruction.decode = code.map Except.ok

namespace Decodes

variable {words : Array UInt32} {code : List Instruction}

theorem size_eq (h : Decodes words code) : words.size = code.length := by
  simpa using congrArg List.length h

theorem decode_getElem (h : Decodes words code) {pc : Nat} (hw : pc < words.size)
    (hc : pc < code.length) : Instruction.decode words[pc] = .ok code[pc] := by
  have hget : (words.toList.map Instruction.decode)[pc]? = (code.map Except.ok)[pc]? :=
    congrArg (·[pc]?) h
  simpa [hw, hc] using hget

theorem of_encode (code : List Instruction) :
    Decodes (code.map Instruction.encode).toArray code := by
  simp [Decodes, Function.comp_def]

theorem unique {code' : List Instruction} (h : Decodes words code) (h' : Decodes words code') :
    code = code' :=
  (List.map_inj_right fun _ _ => Except.ok.inj).mp (h.symm.trans h')

/-- Words that are all instructions are the words of some program. -/
theorem exists_iff :
    (∃ code, Decodes words code) ↔ ∀ w ∈ words.toList, ∃ i, Instruction.decode w = .ok i := by
  unfold Decodes
  induction words.toList with
  | nil => exact ⟨fun _ => List.forall_mem_nil _, fun _ => ⟨[], rfl⟩⟩
  | cons w ws ih =>
    rw [List.forall_mem_cons, ← ih, List.map_cons]
    constructor
    · rintro ⟨_ | ⟨i, code⟩, h⟩
      · cases h
      · obtain ⟨hw, hws⟩ := List.cons.inj h
        exact ⟨⟨i, hw⟩, code, hws⟩
    · rintro ⟨⟨i, hw⟩, code, hws⟩
      exact ⟨i :: code, by rw [hw, hws, List.map_cons]⟩

end Decodes

/-! ### One turn -/

/-- How a program goes on from a state, whatever becomes of its output. -/
inductive Turn where
  /-- to another state, perhaps after printing -/
  | onward (printed : Option Print) (s : State)
  /-- not at all, since the program is at its end -/
  | finished
  /-- by a branch out of the program -/
  | astray (target : Int)

namespace State

/-- The turn that an instruction of a program of `size` instructions takes. -/
def turnBy (size : Nat) (s : State) (i : Instruction) : Turn :=
  match i.opcode with
  | .print => .onward (some ⟨i.register, s.register i.register⟩) s.next
  | .jumpIfNonZero =>
    if s.register i.register = 0 then .onward none s.next
    else if Execution.InRange (i.branchTarget s.pc) size then
      .onward none { s with pc := (i.branchTarget s.pc).toNat }
    else .astray (i.branchTarget s.pc)
  | _ => .onward none (s.update i).next

def turn (code : List Instruction) (s : State) : Turn :=
  match code[s.pc]? with
  | none => .finished
  | some i => s.turnBy code.length i

/-- The program does not go on from here. -/
def Ends (code : List Instruction) (s : State) : Prop :=
  ∀ p t, s.turn code ≠ .onward p t

/-- The branch out of the program that a state is at. -/
def jumpFault (code : List Instruction) (s : State) : Option Fault :=
  match s.turn code with
  | .astray target => some (.jumpOutOfRange s.pc target code.length)
  | _ => none

variable {code : List Instruction} {s t : State}

theorem turn_of_lt (h : s.pc < code.length) : s.turn code = s.turnBy code.length code[s.pc] := by
  simp [turn, h]

theorem turnBy_ne_finished (size : Nat) (i : Instruction) : s.turnBy size i ≠ .finished := by
  unfold turnBy
  split
  · nofun
  · split
    · nofun
    · split <;> nofun
  · nofun

theorem turn_eq_finished_iff : s.turn code = .finished ↔ code.length ≤ s.pc := by
  constructor
  · intro h
    rcases Nat.lt_or_ge s.pc code.length with hlt | hge
    · rw [turn_of_lt hlt] at h
      exact absurd h (turnBy_ne_finished _ _)
    · exact hge
  · intro h
    simp [turn, h]

theorem pc_lt_of_ne_finished (h : s.turn code ≠ .finished) : s.pc < code.length := by
  rcases Nat.lt_or_ge s.pc code.length with hlt | hge
  · exact hlt
  · exact absurd (turn_eq_finished_iff.mpr hge) h

theorem pc_lt_of_onward {p : Option Print} (h : s.turn code = .onward p t) :
    s.pc < code.length :=
  pc_lt_of_ne_finished (by rw [h]; nofun)

theorem pc_lt_of_astray {target : Int} (h : s.turn code = .astray target) :
    s.pc < code.length :=
  pc_lt_of_ne_finished (by rw [h]; nofun)

@[simp] theorem update_pc (s : State) (i : Instruction) : (s.update i).pc = s.pc := by
  unfold update
  cases i.opcode <;> rfl

/-- All ways in which an instruction leads onward. -/
theorem turnBy_cases {size : Nat} {i : Instruction} {p : Option Print}
    (h : s.turnBy size i = .onward p t) :
    (i.opcode = .print ∧ p = some ⟨i.register, s.register i.register⟩ ∧ t = s.next) ∨
      (i.opcode = .jumpIfNonZero ∧ s.register i.register = 0 ∧ p = none ∧ t = s.next) ∨
      (i.opcode = .jumpIfNonZero ∧ s.register i.register ≠ 0 ∧
        Execution.InRange (i.branchTarget s.pc) size ∧ p = none ∧
        t = { s with pc := (i.branchTarget s.pc).toNat }) ∨
      (i.opcode ≠ .print ∧ i.opcode ≠ .jumpIfNonZero ∧ p = none ∧ t = (s.update i).next) := by
  rw [turnBy] at h
  split at h
  · rename_i hop
    cases h
    exact .inl ⟨hop, rfl, rfl⟩
  · rename_i hop
    split at h
    · rename_i hz
      cases h
      exact .inr (.inl ⟨hop, hz, rfl, rfl⟩)
    · rename_i hz
      split at h
      · rename_i hin
        cases h
        exact .inr (.inr (.inl ⟨hop, hz, hin, rfl, rfl⟩))
      · cases h
  · rename_i hprint hjump
    cases h
    exact .inr (.inr (.inr ⟨hprint, hjump, rfl, rfl⟩))

/-- All ways in which a program goes onward. -/
theorem onward_cases {p : Option Print} (h : s.turn code = .onward p t) :
    ∃ i, code[s.pc]? = some i ∧
      ((i.opcode = .print ∧ p = some ⟨i.register, s.register i.register⟩ ∧ t = s.next) ∨
      (i.opcode = .jumpIfNonZero ∧ s.register i.register = 0 ∧ p = none ∧ t = s.next) ∨
      (i.opcode = .jumpIfNonZero ∧ s.register i.register ≠ 0 ∧
        Execution.InRange (i.branchTarget s.pc) code.length ∧ p = none ∧
        t = { s with pc := (i.branchTarget s.pc).toNat }) ∨
      (i.opcode ≠ .print ∧ i.opcode ≠ .jumpIfNonZero ∧ p = none ∧ t = (s.update i).next)) := by
  have hlt := pc_lt_of_onward h
  rw [turn_of_lt hlt] at h
  exact ⟨code[s.pc], List.getElem?_eq_getElem hlt, turnBy_cases h⟩

/-- An instruction of a program never leads beyond its end. -/
theorem pc_le_of_turnBy {size : Nat} {i : Instruction} {p : Option Print} (hlt : s.pc < size)
    (h : s.turnBy size i = .onward p t) : t.pc ≤ size := by
  obtain ⟨_, _, rfl⟩ | ⟨_, _, _, rfl⟩ | ⟨_, _, hin, _, rfl⟩ | ⟨_, _, _, rfl⟩ := turnBy_cases h
  · exact hlt
  · exact hlt
  · have := hin.2
    simp only
    omega
  · rw [next, update_pc]
    exact hlt

/-- A turn never leads beyond the end of the program. -/
theorem pc_le_of_onward {p : Option Print} (h : s.turn code = .onward p t) :
    t.pc ≤ code.length := by
  have hlt := pc_lt_of_onward h
  rw [turn_of_lt hlt] at h
  exact pc_le_of_turnBy hlt h

/-- An instruction leads astray if it is a branch that is taken and its target is out of range. -/
theorem turnBy_eq_astray_iff {size : Nat} {i : Instruction} {target : Int} :
    s.turnBy size i = .astray target ↔
      i.opcode = .jumpIfNonZero ∧ s.register i.register ≠ 0 ∧ i.branchTarget s.pc = target ∧
        ¬ Execution.InRange target size := by
  constructor
  · intro h
    rw [turnBy] at h
    split at h <;> try cases h
    rename_i hop
    split at h <;> try cases h
    rename_i hne
    split at h <;> cases h
    rename_i hout
    exact ⟨hop, hne, rfl, hout⟩
  · rintro ⟨hop, hne, rfl, hout⟩
    simp [turnBy, hop, hne, hout]

/-- A branch leads astray to its own target, which is out of range. -/
theorem astray_iff {target : Int} : s.turn code = .astray target ↔
    ∃ i, code[s.pc]? = some i ∧ i.opcode = .jumpIfNonZero ∧ s.register i.register ≠ 0 ∧
      i.branchTarget s.pc = target ∧ ¬ Execution.InRange target code.length := by
  constructor
  · intro h
    have hlt := pc_lt_of_astray h
    rw [turn_of_lt hlt] at h
    exact ⟨code[s.pc], List.getElem?_eq_getElem hlt, turnBy_eq_astray_iff.mp h⟩
  · rintro ⟨i, hi, hastray⟩
    simp only [turn, hi]
    exact turnBy_eq_astray_iff.mpr hastray

theorem jumpFault_eq_some {cause : Fault} (h : s.jumpFault code = some cause) :
    ∃ target, s.turn code = .astray target ∧ cause = .jumpOutOfRange s.pc target code.length := by
  unfold jumpFault at h
  split at h
  · rename_i target hturn
    cases h
    exact ⟨target, hturn, rfl⟩
  · cases h

end State

/-! ### One step of the interpreter -/

namespace Execution

/-- The run after the trace event of the instruction at the pc, if it is traced. -/
def noted (code : List Instruction) (trace : Bool) (x : Execution) : Execution :=
  match trace, code[x.state.pc]? with
  | true, some i => { x with events := x.state.observe i :: x.events }
  | _, _ => x

variable {words : Array UInt32} {code : List Instruction} {trace : Bool}

@[simp] theorem noted_state (x : Execution) : (x.noted code trace).state = x.state := by
  unfold noted
  split <;> rfl

@[simp] theorem noted_sink (x : Execution) : (x.noted code trace).sink = x.sink := by
  unfold noted
  split <;> rfl

@[simp] theorem noted_executed (x : Execution) : (x.noted code trace).executed = x.executed := by
  unfold noted
  split <;> rfl

theorem perform_of_astray {size : Nat} {i : Instruction} {x : Execution} {target : Int}
    (h : x.state.turnBy size i = .astray target) :
    perform size i x = (x, .failed (.jumpOutOfRange x.state.pc target size)) := by
  obtain ⟨hop, hne, rfl, hout⟩ := State.turnBy_eq_astray_iff.mp h
  simp [perform, hop, hne, jump, hout]

/-- An instruction that leads onward offers what it prints to the sink, and fails if that is
refused. -/
theorem perform_of_onward {size : Nat} {i : Instruction} {x : Execution} {p : Option Print}
    {t : State} (h : x.state.turnBy size i = .onward p t) :
    perform size i x =
      match Printer.printAll ⟨x.sink, none⟩ p.toList with
      | ⟨sink, none⟩ => ({ x with state := t, sink, executed := x.executed + 1 }, .advanced)
      | ⟨sink, some reason⟩ => ({ x with sink }, .failed (.output reason)) := by
  rw [perform]
  obtain ⟨hop, rfl, rfl⟩ | ⟨hop, hz, rfl, rfl⟩ | ⟨hop, hz, hin, rfl, rfl⟩ | ⟨hp, hj, rfl, rfl⟩ :=
    State.turnBy_cases h
  · obtain ⟨state, sink, executed, events⟩ := x
    simp only [hop, print, Option.toList, Printer.printAll, List.foldl, Printer.print]
    generalize sink.write _ = w
    obtain ⟨sink, _ | reason⟩ := w <;> rfl
  · simp [hop, hz, complete, Printer.printAll]
  · simp [hop, hz, jump, hin, complete, Printer.printAll]
  · simp [complete, Printer.printAll]

theorem step_of_lt (hd : Decodes words code) {x : Execution} (hlt : x.state.pc < code.length) :
    step words trace x = perform code.length code[x.state.pc] (x.noted code trace) := by
  have hw : x.state.pc < words.size := by rw [hd.size_eq]; exact hlt
  rw [step, dif_pos hw, hd.decode_getElem hw hlt, hd.size_eq]
  cases trace <;> simp [noted, hlt]

theorem step_of_finished (trace : Bool) (hd : Decodes words code) {x : Execution}
    (h : x.state.turn code = .finished) : step words trace x = (x, .halted) := by
  have hge := State.turn_eq_finished_iff.mp h
  have hw : ¬ x.state.pc < words.size := by rw [hd.size_eq]; omega
  rw [step, dif_neg hw]

theorem step_of_astray (trace : Bool) (hd : Decodes words code) {x : Execution} {target : Int}
    (h : x.state.turn code = .astray target) :
    step words trace x =
      (x.noted code trace, .failed (.jumpOutOfRange x.state.pc target code.length)) := by
  have hlt := State.pc_lt_of_astray h
  have hturn : (x.noted code trace).state.turnBy code.length code[x.state.pc] = .astray target := by
    rw [noted_state, ← State.turn_of_lt hlt]
    exact h
  rw [step_of_lt hd hlt, perform_of_astray hturn, noted_state]

/-- A step that goes onward offers what it prints to the sink, and fails if that is refused. -/
theorem step_of_onward (trace : Bool) (hd : Decodes words code) {x : Execution}
    {p : Option Print} {t : State} (h : x.state.turn code = .onward p t) :
    step words trace x =
      match Printer.printAll ⟨x.sink, none⟩ p.toList with
      | ⟨sink, none⟩ =>
        ({ x.noted code trace with state := t, sink, executed := x.executed + 1 }, .advanced)
      | ⟨sink, some reason⟩ =>
        ({ x.noted code trace with sink }, .failed (.output reason)) := by
  have hlt := State.pc_lt_of_onward h
  have hturn : (x.noted code trace).state.turnBy code.length code[x.state.pc] = .onward p t := by
    rw [noted_state, ← State.turn_of_lt hlt]
    exact h
  rw [step_of_lt hd hlt, perform_of_onward hturn]
  simp only [noted_sink, noted_executed]

end Execution

end Dyad
