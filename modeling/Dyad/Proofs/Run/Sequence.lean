import Dyad.Proofs.Run.Report

/-!
One program after another. Branches are relative, but what counts as the end of a program and as
outside of it is not, so a program put in front of another goes on where it would have ended, and
the other one runs with all its indices shifted. A turn of the first program is a turn of the two
together (`State.onward_append_left`), and so is, shifted, a turn of the second
(`State.onward_append_right`). Walks follow (`Walk.append`), and from them runs: those of the two
programs, one after the other, are one run of both (`Execution.concludes_append`).
-/

namespace Dyad

theorem Decodes.append {P Q : Array UInt32} {codeP codeQ : List Instruction} (hP : Decodes P codeP)
    (hQ : Decodes Q codeQ) : Decodes (P ++ Q) (codeP ++ codeQ) := by
  rw [Decodes, Array.toList_append, List.map_append, List.map_append, hP, hQ]

namespace Instruction

theorem branchTarget_add (i : Instruction) (pc k : Nat) :
    i.branchTarget (pc + k) = i.branchTarget pc + k := by
  simp only [branchTarget]
  omega

end Instruction

namespace Execution

theorem InRange.append_left {target : Int} {m : Nat} (h : InRange target m) (n : Nat) :
    InRange target (m + n) := by
  obtain ⟨lo, hi⟩ := h
  exact ⟨lo, by omega⟩

theorem InRange.append_right {target : Int} {n : Nat} (h : InRange target n) (m : Nat) :
    InRange (target + m) (m + n) := by
  obtain ⟨lo, hi⟩ := h
  exact ⟨by omega, by omega⟩

end Execution

/-! ### Turns -/

namespace State

/-- The same state, `k` instructions further on. -/
def shift (k : Nat) (s : State) : State := { s with pc := s.pc + k }

variable {P Q : List Instruction} {s t : State} {p : Option Print}

theorem shift_next (k : Nat) (s : State) : (s.shift k).next = s.next.shift k := by
  rw [next, next, shift, shift, Nat.add_right_comm]

theorem shift_update (k : Nat) (s : State) (i : Instruction) :
    (s.shift k).update i = (s.update i).shift k := by
  unfold update
  cases i.opcode <;> rfl

/-- The converse of `onward_cases`. -/
theorem onward_of_cases {code : List Instruction} {i : Instruction} (hi : code[s.pc]? = some i)
    (h : (i.opcode = .print ∧ p = some ⟨i.register, s.register i.register⟩ ∧ t = s.next) ∨
      (i.opcode = .jumpIfNonZero ∧ s.register i.register = 0 ∧ p = none ∧ t = s.next) ∨
      (i.opcode = .jumpIfNonZero ∧ s.register i.register ≠ 0 ∧
        Execution.InRange (i.branchTarget s.pc) code.length ∧ p = none ∧
        t = { s with pc := (i.branchTarget s.pc).toNat }) ∨
      (i.opcode ≠ .print ∧ i.opcode ≠ .jumpIfNonZero ∧ p = none ∧ t = (s.update i).next)) :
    s.turn code = .onward p t := by
  simp only [turn, hi, turnBy]
  obtain ⟨hop, rfl, rfl⟩ | ⟨hop, hz, rfl, rfl⟩ | ⟨hop, hz, hin, rfl, rfl⟩ |
    ⟨hprint, hjump, rfl, rfl⟩ := h
  · simp only [hop]
  · simp only [hop, if_pos hz]
  · simp only [hop, if_neg hz, if_pos hin]
  · split
    · contradiction
    · contradiction
    · rfl

/-- A turn of the first of two programs is a turn of both: its branches stay in range. -/
theorem onward_append_left (Q : List Instruction) (h : s.turn P = .onward p t) :
    s.turn (P ++ Q) = .onward p t := by
  have hlt := pc_lt_of_onward h
  obtain ⟨i, hi, hcases⟩ := onward_cases h
  refine onward_of_cases ((List.getElem?_append_left hlt).trans hi) ?_
  obtain hprint | hstay | ⟨hop, hz, hin, hrest⟩ | hupdate := hcases
  · exact .inl hprint
  · exact .inr (.inl hstay)
  · refine .inr (.inr (.inl ⟨hop, hz, ?_, hrest⟩))
    rw [List.length_append]
    exact hin.append_left _
  · exact .inr (.inr (.inr hupdate))

theorem getElem?_shift (P Q : List Instruction) (s : State) :
    (P ++ Q)[(s.shift P.length).pc]? = Q[s.pc]? := by
  rw [shift, List.getElem?_append_right (Nat.le_add_left _ _), Nat.add_sub_cancel]

/-- A turn of the second of two programs is a turn of both, shifted. -/
theorem onward_append_right (P : List Instruction) (h : s.turn Q = .onward p t) :
    (s.shift P.length).turn (P ++ Q) = .onward p (t.shift P.length) := by
  obtain ⟨i, hi, hcases⟩ := onward_cases h
  refine onward_of_cases ((getElem?_shift P Q s).trans hi) ?_
  obtain ⟨hop, rfl, rfl⟩ | ⟨hop, hz, rfl, rfl⟩ | ⟨hop, hz, hin, rfl, rfl⟩ |
    ⟨hprint, hjump, rfl, rfl⟩ := hcases
  · exact .inl ⟨hop, rfl, (shift_next _ s).symm⟩
  · exact .inr (.inl ⟨hop, hz, rfl, (shift_next _ s).symm⟩)
  · have htarget := i.branchTarget_add s.pc P.length
    refine .inr (.inr (.inl ⟨hop, hz, ?_, rfl, ?_⟩))
    · rw [shift, htarget, List.length_append]
      exact hin.append_right _
    · simp only [shift, htarget, State.mk.injEq, true_and, and_true]
      have := hin.1
      omega
  · refine .inr (.inr (.inr ⟨hprint, hjump, rfl, ?_⟩))
    rw [shift_update, shift_next]

theorem finished_append_right (P : List Instruction) (h : s.turn Q = .finished) :
    (s.shift P.length).turn (P ++ Q) = .finished := by
  have hge := turn_eq_finished_iff.mp h
  refine turn_eq_finished_iff.mpr ?_
  rw [List.length_append, Nat.add_comm]
  exact Nat.add_le_add_right hge P.length

/-- A branch beyond the end of the second program leaves both. One that leads before its start may
well stay in the first. -/
theorem astray_append_right (P : List Instruction) {target : Int} (h : s.turn Q = .astray target)
    (hbeyond : Q.length < target) :
    (s.shift P.length).turn (P ++ Q) = .astray (target + P.length) := by
  obtain ⟨i, hi, hop, hne, rfl, _⟩ := astray_iff.mp h
  refine astray_iff.mpr ⟨i, (getElem?_shift P Q s).trans hi, hop, hne, ?_, ?_⟩
  · exact i.branchTarget_add s.pc P.length
  · rintro ⟨_, hi⟩
    rw [List.length_append] at hi
    omega

end State

/-! ### Walks -/

namespace Walk

variable {code P Q : List Instruction} {m n : Nat} {s t u : State} {ps qs : List Print}

theorem trans (w : Walk code m s ps t) (w' : Walk code n t qs u) :
    Walk code (m + n) s (ps ++ qs) u := by
  induction w with
  | nil =>
    rw [Nat.zero_add]
    exact w'
  | cons turn _ ih =>
    rw [Nat.succ_add, List.append_assoc]
    exact .cons turn (ih w')

theorem append_left (Q : List Instruction) (w : Walk P n s ps t) : Walk (P ++ Q) n s ps t := by
  induction w with
  | nil s => exact .nil s
  | cons turn _ ih => exact .cons (State.onward_append_left Q turn) ih

theorem append_right (P : List Instruction) (w : Walk Q n s ps t) :
    Walk (P ++ Q) n (s.shift P.length) ps (t.shift P.length) := by
  induction w with
  | nil s => exact .nil _
  | cons turn _ ih => exact .cons (State.onward_append_right P turn) ih

/-- Where the first program ends the second begins. -/
theorem append (w : Walk P m s ps t) (ht : t.pc = P.length)
    (w' : Walk Q n { t with pc := 0 } qs u) :
    Walk (P ++ Q) (m + n) s (ps ++ qs) (u.shift P.length) := by
  have hstart : ({ t with pc := 0 } : State).shift P.length = t := by
    rw [State.shift, Nat.zero_add, ← ht]
  have hrest := w'.append_right P
  rw [hstart] at hrest
  exact (w.append_left Q).trans hrest

end Walk

/-! ### Runs -/

namespace Execution

variable {words : Array UInt32} {code : List Instruction} {trace : Bool} {limit : Nat}
  {x y : Execution} {o : Outcome}

/-- With a sink that takes everything, a run that has ended has followed a walk to its end. -/
theorem walk_of_ended (hd : Decodes words code) (hsink : x.sink.device.NeverRefuses)
    (h : runFor words trace limit x = (y, o)) (ho : o ≠ .advanced) :
    ∃ n ps, Walk code n x.state ps y.state ∧ y.state.Ends code ∧ o = ending code y.state ∧
      y.executed = x.executed + n ∧ y.sink.text = x.sink.text ++ Printer.transcript ps := by
  rcases Walk.exists_or_ends code limit x.state with ⟨ps, t, w⟩ | ⟨n, ps, t, hn, w, ht⟩
  · obtain ⟨sink, hout, _⟩ := Printer.exists_printAll_of_neverRefuses hsink ps
    obtain ⟨events, hrun⟩ := runFor_of_walk trace hd w rfl hout
    rw [hrun] at h
    cases h
    exact absurd rfl ho
  · obtain ⟨sink, hout, _⟩ := Printer.exists_printAll_of_neverRefuses hsink ps
    obtain ⟨events, hrun⟩ := runFor_of_walk_ends trace hd w ht rfl hout
    rw [hrun limit hn] at h
    cases h
    exact ⟨n, ps, w, ht, rfl, rfl, Printer.text_of_printAll hout⟩

/-- With a sink that takes everything, a run ends where its walk does. -/
theorem runFor_of_walk_neverRefuses (trace : Bool) (hd : Decodes words code) {n : Nat} {s t : State}
    {ps : List Print} (w : Walk code n s ps t) (ht : t.Ends code) {sink : Sink}
    (hsink : sink.device.NeverRefuses) :
    ∃ z : Execution, (∀ limit, n < limit →
        runFor words trace limit { state := s, sink } = (z, ending code t)) ∧
      z.executed = n ∧ z.state = t ∧ z.sink.text = sink.text ++ Printer.transcript ps := by
  obtain ⟨sink', hout, _⟩ := Printer.exists_printAll_of_neverRefuses hsink ps
  obtain ⟨events, hrun⟩ :=
    runFor_of_walk_ends trace hd w ht (x := { state := s, sink }) rfl hout
  exact ⟨_, hrun, Nat.zero_add n, rfl, Printer.text_of_printAll hout⟩

/-! A walk ends in one of two ways. -/

theorem ending_of_finished {s : State} (h : s.turn code = .finished) :
    s.Ends code ∧ ending code s = .halted := by
  constructor
  · intro p t hturn
    rw [h] at hturn
    cases hturn
  · rw [ending, State.jumpFault, h]

theorem ending_of_astray {s : State} {target : Int} (h : s.turn code = .astray target) :
    s.Ends code ∧ ending code s = .failed (.jumpOutOfRange s.pc target code.length) := by
  constructor
  · intro p t hturn
    rw [h] at hturn
    cases hturn
  · rw [ending, State.jumpFault, h]

theorem finished_of_ending {s : State} (hs : s.Ends code) (h : .halted = ending code s) :
    s.turn code = .finished := by
  cases hturn : s.turn code with
  | onward p t => exact absurd hturn (hs p t)
  | finished => rfl
  | astray target =>
    rw [(ending_of_astray hturn).2] at h
    cases h

theorem astray_of_ending {s : State} {pc size : Nat} {target : Int} (hs : s.Ends code)
    (h : .failed (.jumpOutOfRange pc target size) = ending code s) :
    s.turn code = .astray target ∧ s.pc = pc := by
  cases hturn : s.turn code with
  | onward p t => exact absurd hturn (hs p t)
  | finished =>
    rw [(ending_of_finished hturn).2] at h
    cases h
  | astray target' =>
    rw [(ending_of_astray hturn).2] at h
    cases h
    exact ⟨rfl, rfl⟩

/-- Interpreted from `s`, the words end after `n` steps in `t`, with outcome `o`, and have added
`text` to the sink. -/
def Concludes (words : Array UInt32) (trace : Bool) (sink : Sink) (s : State) (n : Nat)
    (text : String) (t : State) (o : Outcome) : Prop :=
  ∃ limit z, runFor words trace limit { state := s, sink } = (z, o) ∧ z.executed = n ∧
    z.state = t ∧ z.sink.text = sink.text ++ text

variable {sink : Sink} {n : Nat} {s t : State} {text : String}

theorem Concludes.walk (h : Concludes words trace sink s n text t o) (hd : Decodes words code)
    (hsink : sink.device.NeverRefuses) (ho : o ≠ .advanced) :
    ∃ ps, Walk code n s ps t ∧ t.Ends code ∧ o = ending code t ∧
      text = Printer.transcript ps := by
  obtain ⟨limit, z, hrun, rfl, rfl, htext⟩ := h
  obtain ⟨n, ps, w, hends, hending, hexecuted, htranscript⟩ :=
    walk_of_ended (x := { state := s, sink }) hd hsink hrun ho
  rw [htext] at htranscript
  rw [Nat.zero_add] at hexecuted
  subst hexecuted
  exact ⟨ps, w, hends, hending, (String.append_right_inj sink.text).mp htranscript⟩

theorem concludes_of_walk (trace : Bool) (hd : Decodes words code) {ps : List Print}
    (w : Walk code n s ps t) (ht : t.Ends code) (hsink : sink.device.NeverRefuses) :
    Concludes words trace sink s n (Printer.transcript ps) t (ending code t) := by
  obtain ⟨z, hrun, hexecuted, hstate, htext⟩ := runFor_of_walk_neverRefuses trace hd w ht hsink
  exact ⟨n + 1, z, hrun _ (Nat.lt_succ_self n), hexecuted, hstate, htext⟩

/-- If one program, interpreted from a state at its start, ends normally, and another one goes on
from there, then both together do what they do one after the other: they end normally if the
second does, and with its branch out of the program, shifted like everything else, if that leads
beyond its end. -/
theorem concludes_append {P Q : Array UInt32} {codeP codeQ : List Instruction}
    (hP : Decodes P codeP) (hQ : Decodes Q codeQ) {u : State} {m : Nat} {text' : String}
    {sinkP sinkQ : Sink} {traceP traceQ : Bool} (hs : s.pc = 0)
    (hsinkP : sinkP.device.NeverRefuses) (hsinkQ : sinkQ.device.NeverRefuses)
    (hsink : sink.device.NeverRefuses)
    (first : Concludes P traceP sinkP s m text t .halted)
    (second : Concludes Q traceQ sinkQ { t with pc := 0 } n text' u o) :
    (o = .halted →
      Concludes (P ++ Q) trace sink s (m + n) (text ++ text') { u with pc := P.size + Q.size }
        .halted) ∧
    ∀ pc target, o = .failed (.jumpOutOfRange pc target Q.size) → (Q.size : Int) < target →
      Concludes (P ++ Q) trace sink s (m + n) (text ++ text') { u with pc := u.pc + P.size }
        (.failed (.jumpOutOfRange (pc + P.size) (target + P.size) (P.size + Q.size))) := by
  obtain ⟨ps, w, hends, hhalted, rfl⟩ := first.walk hP hsinkP nofun
  have hpc : t.pc = codeP.length := by
    have hfinished := finished_of_ending hends hhalted
    exact Nat.le_antisymm (w.pc_le (by omega)) (State.turn_eq_finished_iff.mp hfinished)
  have hd := hP.append hQ
  rw [hP.size_eq, hQ.size_eq]
  constructor
  · rintro rfl
    obtain ⟨qs, w', hends', hhalted', rfl⟩ := second.walk hQ hsinkQ nofun
    have hfinished := finished_of_ending hends' hhalted'
    have hpc' : u.pc = codeQ.length :=
      Nat.le_antisymm (w'.pc_le (Nat.zero_le _)) (State.turn_eq_finished_iff.mp hfinished)
    obtain ⟨hboth, hending⟩ := ending_of_finished (State.finished_append_right codeP hfinished)
    have both := concludes_of_walk trace hd (w.append hpc w') hboth hsink
    rw [hending, Printer.transcript_append, State.shift, hpc', Nat.add_comm codeQ.length] at both
    exact both
  · rintro pc target rfl hbeyond
    obtain ⟨qs, w', hends', hfailed, rfl⟩ := second.walk hQ hsinkQ nofun
    obtain ⟨hastray, rfl⟩ := astray_of_ending hends' hfailed
    obtain ⟨hboth, hending⟩ :=
      ending_of_astray (State.astray_append_right codeP hastray hbeyond)
    have both := concludes_of_walk trace hd (w.append hpc w') hboth hsink
    rw [hending, Printer.transcript_append, List.length_append] at both
    exact both

/-- A program that branches to its own end, and one that prints and then leaves itself. -/
theorem concludes_append_stray :
    ∃ t u,
      Concludes #[0x01000001, 0x08000001, 0x07000000] false {} State.fresh 2 "" t .halted ∧
      Concludes #[0x07000000, 0x08000005] false {} { t with pc := 0 } 1
        "A        1(0x00000001)\n" u (.failed (.jumpOutOfRange 1 7 2)) ∧
      Concludes (#[0x01000001, 0x08000001, 0x07000000] ++ #[0x07000000, 0x08000005]) true {}
        State.fresh 3 "A        1(0x00000001)\n" { u with pc := u.pc + 3 }
        (.failed (.jumpOutOfRange 4 10 5)) := by
  have hP : Decodes #[0x01000001, 0x08000001, 0x07000000]
    [⟨.loadImmediate, .a, 1⟩, ⟨.jumpIfNonZero, .a, 1⟩, ⟨.print, .a, 0⟩] := rfl
  have hQ : Decodes #[0x07000000, 0x08000005] [⟨.print, .a, 0⟩, ⟨.jumpIfNonZero, .a, 5⟩] := rfl
  have hsink := Device.neverRefuses_reliable
  have first : Concludes #[0x01000001, 0x08000001, 0x07000000] false {} State.fresh 2 ""
      { State.fresh with registers := ⟨1, 0⟩, pc := 3 } .halted :=
    ⟨3, _, rfl, rfl, rfl, rfl⟩
  have second : Concludes #[0x07000000, 0x08000005] false {}
      { State.fresh with registers := ⟨1, 0⟩ } 1 "A        1(0x00000001)\n"
      { State.fresh with registers := ⟨1, 0⟩, pc := 1 } (.failed (.jumpOutOfRange 1 7 2)) :=
    ⟨2, _, rfl, rfl, rfl, rfl⟩
  exact ⟨_, _, first, second,
    (concludes_append hP hQ rfl hsink hsink hsink first second).2 1 7 rfl (by decide)⟩

end Execution

end Dyad
