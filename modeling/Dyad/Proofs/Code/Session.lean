import Mathlib.Data.List.Forall2
import Dyad.Code.Program

/-!
Sessions of building a program. A session is any sequence of operations on one program, each
applied to what the one before it left, refused operations included. What an operation asks for
is stated apart from how it is carried out: a demand is met by exactly the instructions that
express it, and refused when its operand or displacement does not fit.

The main statement says what a session leaves behind: the words it began with and one instruction
for each demand that was not refused, in order; and what it refuses, namely the demands that do
not fit and nothing else, each without a trace in the program.
-/

namespace Dyad

/-- What an operation asks to be added to a program. -/
inductive Demand where
  /-- An instruction with an unsigned operand, under the name it goes by. -/
  | operand (mnemonic : String) (opcode : Opcode) (r : Register) (value : UInt32)
  | branch (r : Register) (offset : Int)
  | print (r : Register)
  deriving DecidableEq, Repr

/-- What a directive asks for on a program; moving the mark asks for no instruction. -/
def Directive.demand (p : Program) : Directive → Option Demand
  | loadImmediate r value => some (.operand "vldi" .loadImmediate r value)
  | load r index => some (.operand "vld" .loadMemory r index)
  | store r index => some (.operand "vst" .storeMemory r index)
  | addImmediate r value => some (.operand "vaddi" .addImmediate r value)
  | add r index => some (.operand "vadd" .addMemory r index)
  | subtractImmediate r value => some (.operand "vsubi" .subtractImmediate r value)
  | subtract r index => some (.operand "vsub" .subtractMemory r index)
  | print r => some (.print r)
  | jumpIfNonZero r offset => some (.branch r offset)
  | jumpToMark r => some (.branch r p.markOffset)
  | setMark => none

namespace Demand

/-- The instructions that express a demand. -/
def Met : Demand → Instruction → Prop
  | operand _ opcode r value, i =>
    i.opcode = opcode ∧ i.register = r ∧ i.immediate.toNat = value.toNat
  | branch r offset, i => i.opcode = .jumpIfNonZero ∧ i.register = r ∧ i.branchOffset = offset
  | print r, i => i = ⟨.print, r, 0⟩

/-- The refusals that a demand deserves. A print always fits. -/
def Refuses : Demand → EmitError → Prop
  | operand name opcode _ value, e =>
    65535 < value.toNat ∧ e = .immediateOutOfRange opcode value ∧ opcode.mnemonic = name
  | branch _ offset, e =>
    (offset < -32768 ∨ 32767 < offset) ∧ e = .branchOffsetOutOfRange offset
  | print _, _ => False

theorem Refuses.unique {m : Demand} {e f : EmitError} (he : m.Refuses e) (hf : m.Refuses f) :
    e = f := by
  cases m with
  | operand name opcode r value => exact he.2.1.trans hf.2.1.symm
  | branch r offset => exact he.2.trans hf.2.symm
  | print r => exact he.elim

end Demand

namespace Instruction

/-- A displacement in the signed range is recovered from its 16-bit pattern. -/
theorem branchOffset_ofInt (r : Register) {offset : Int} (lo : -0x8000 ≤ offset)
    (hi : offset < 0x8000) :
    branchOffset ⟨.jumpIfNonZero, r, UInt16.ofNat (offset % 0x10000).toNat⟩ = offset := by
  have hmod : (UInt16.ofNat (offset % 0x10000).toNat).toNat = (offset % 0x10000).toNat := by
    rw [UInt16.toNat_ofNat']
    omega
  simp only [branchOffset, hmod]
  split <;> omega

end Instruction

namespace Program

/-! ### What one emission does -/

/-- A demand is carried out: an instruction expresses it and nothing speaks against it, or it is
refused for the reason it deserves. -/
inductive Answers (m : Demand) : Except EmitError (Option Instruction) → Prop where
  | met {i : Instruction} : m.Met i → (∀ e, ¬ m.Refuses e) → Answers m (.ok (some i))
  | refused {e : EmitError} : m.Refuses e → Answers m (.error e)

theorem answers_withOperand {name : String} {opcode : Opcode} (hn : opcode.mnemonic = name)
    (r : Register) (value : UInt32) :
    Answers (.operand name opcode r value) (some <$> withOperand opcode r value) := by
  unfold withOperand
  by_cases h : value.toNat < 0x10000
  · rw [if_pos h]
    refine .met ⟨rfl, rfl, ?_⟩ fun e he => ?_
    · rw [UInt32.toNat_toUInt16, Nat.mod_eq_of_lt h]
    · have := he.1
      omega
  · rw [if_neg h]
    exact .refused ⟨by omega, rfl, hn⟩

theorem answers_withOffset (r : Register) (offset : Int) :
    Answers (.branch r offset) (some <$> withOffset r offset) := by
  unfold withOffset
  by_cases h : -0x8000 ≤ offset ∧ offset < 0x8000
  · rw [if_pos h]
    refine .met ⟨rfl, rfl, Instruction.branchOffset_ofInt r h.1 h.2⟩ fun e he => ?_
    have := he.1
    omega
  · rw [if_neg h]
    exact .refused ⟨by omega, rfl⟩

/-- Every directive but the mark's has its demand answered. -/
theorem answers_emission (p : Program) {d : Directive} {m : Demand} (h : d.demand p = some m) :
    Answers m (p.emission d) := by
  cases d with
  | loadImmediate r value | load r value | store r value | addImmediate r value | add r value
  | subtractImmediate r value | subtract r value =>
    cases h
    refine answers_withOperand ?_ r value
    rfl
  | jumpIfNonZero r offset =>
    cases h
    exact answers_withOffset r offset
  | jumpToMark r =>
    cases h
    exact answers_withOffset r p.markOffset
  | print r =>
    cases h
    exact .met rfl fun _ he => he
  | setMark => cases h

theorem emission_of_demand_none (p : Program) {d : Directive} (h : d.demand p = none) :
    p.emission d = .ok none := by
  cases d <;> first | rfl | cases h

/-! ### Sessions -/

/-- An operation of a session, with the program it met, the program it left and its refusal. -/
structure Attempt where
  before : Program
  directive : Directive
  after : Program
  refusal : Option EmitError
  deriving DecidableEq, Repr

namespace Attempt

def demand (a : Attempt) : Option Demand := a.directive.demand a.before

/-- The demand, if the operation made one and carried it out. -/
def granted (a : Attempt) : Option Demand :=
  match a.refusal with
  | none => a.demand
  | some _ => none

end Attempt

def attempt (p : Program) (d : Directive) : Attempt :=
  match p.applyAll [d] with
  | (q, _, refusal) => ⟨p, d, q, refusal⟩

/-- The operations of a session on `p`. A refusal does not end the session. -/
def session (p : Program) : List Directive → List Attempt
  | [] => []
  | d :: ds => p.attempt d :: session (p.attempt d).after ds

/-- The program a session leaves. -/
def afterSession (p : Program) (ds : List Directive) : Program :=
  ds.foldl (fun q d => (q.attempt d).after) p

/-- The step of a session: the mark moves, an instruction is added, or nothing changes. -/
inductive Progress (p : Program) : Attempt → Prop where
  | marked {a : Attempt} : a.demand = none → a.refusal = none → a.after = p.setMark → Progress p a
  | added {a : Attempt} {m : Demand} {i : Instruction} : a.demand = some m → m.Met i →
    (∀ e, ¬ m.Refuses e) → a.refusal = none → a.after = p.push i → Progress p a
  | refused {a : Attempt} {m : Demand} {e : EmitError} : a.demand = some m → m.Refuses e →
    a.refusal = some e → a.after = p → Progress p a

theorem attempt_of_ok {p : Program} {d : Directive} {emitted : Option Instruction}
    (h : p.emission d = .ok emitted) : p.attempt d = ⟨p, d, p.extend emitted, none⟩ := by
  rw [attempt, applyAll, applyAll.go, h]
  rfl

theorem attempt_of_error {p : Program} {d : Directive} {e : EmitError}
    (h : p.emission d = .error e) : p.attempt d = ⟨p, d, p, some e⟩ := by
  rw [attempt, applyAll, applyAll.go, h]

theorem progress_attempt (p : Program) (d : Directive) : Progress p (p.attempt d) := by
  cases hd : d.demand p with
  | none =>
    rw [attempt_of_ok (emission_of_demand_none p hd)]
    exact .marked hd rfl rfl
  | some m =>
    have answered := answers_emission p hd
    generalize he : p.emission d = emitted at answered
    cases answered with
    | met hm hr =>
      rw [attempt_of_ok he]
      exact .added hd hm hr rfl rfl
    | refused hr =>
      rw [attempt_of_error he]
      exact .refused hd hr rfl rfl

/-- A step refuses exactly what its demand deserves. -/
theorem Progress.refusal_iff {p : Program} {a : Attempt} (h : Progress p a) (e : EmitError) :
    a.refusal = some e ↔ ∃ m, a.demand = some m ∧ m.Refuses e := by
  cases h with
  | marked hd hr _ => simp [hd, hr]
  | added hd _ hn hr _ =>
    rw [hd, hr]
    refine ⟨by rintro ⟨⟩, fun ⟨m, hm, he⟩ => ?_⟩
    cases hm
    exact (hn e he).elim
  | @refused m f hd hf hr _ =>
    rw [hd, hr]
    refine ⟨fun h => ⟨m, rfl, Option.some.inj h ▸ hf⟩, fun ⟨m', hm, he⟩ => ?_⟩
    cases hm
    rw [hf.unique he]

theorem Progress.after_eq_of_refused {p : Program} {a : Attempt} (h : Progress p a)
    (hr : a.refusal ≠ none) : a.after = p := by
  cases h with
  | marked _ hn _ => exact (hr hn).elim
  | added _ _ _ hn _ => exact (hr hn).elim
  | refused _ _ _ ha => exact ha

/-- What a step adds to the instructions: one that meets the demand, if it was granted. -/
theorem Progress.instructions {p : Program} {a : Attempt} (h : Progress p a) :
    ∃ emitted : List Instruction, List.Forall₂ Demand.Met a.granted.toList emitted ∧
      a.after.instructions = p.instructions ++ emitted.map .ok := by
  cases h with
  | marked hd hr ha =>
    refine ⟨[], ?_, ?_⟩
    · simp [Attempt.granted, hd, hr]
    · simp [ha, setMark, Program.instructions]
  | @added m i hd hm _ hr ha =>
    refine ⟨[i], ?_, ?_⟩
    · simpa [Attempt.granted, hd, hr] using hm
    · simp [ha, push, Program.instructions]
  | refused _ _ hr ha => exact ⟨[], by simp [Attempt.granted, hr], by simp [ha]⟩

theorem progress_of_mem_session {p : Program} {ds : List Directive} {a : Attempt}
    (h : a ∈ p.session ds) : Progress a.before a := by
  induction ds generalizing p with
  | nil => cases h
  | cons d ds ih =>
    rcases List.mem_cons.mp h with rfl | h
    · exact progress_attempt p d
    · exact ih h

/-- The whole session, by induction on its operations: each adds its own instruction or none. -/
theorem instructions_afterSession (p : Program) (ds : List Directive) :
    ∃ emitted : List Instruction,
      List.Forall₂ Demand.Met ((p.session ds).filterMap Attempt.granted) emitted ∧
      (p.afterSession ds).instructions = p.instructions ++ emitted.map .ok := by
  induction ds generalizing p with
  | nil => exact ⟨[], .nil, by simp [afterSession]⟩
  | cons d ds ih =>
    obtain ⟨first, metFirst, hfirst⟩ := (progress_attempt p d).instructions
    obtain ⟨rest, metRest, hrest⟩ := ih (p.attempt d).after
    refine ⟨first ++ rest, ?_, ?_⟩
    · have split : (p.session (d :: ds)).filterMap Attempt.granted =
          (p.attempt d).granted.toList ++
            ((p.attempt d).after.session ds).filterMap Attempt.granted := by
        rw [session, List.filterMap_cons]
        cases (p.attempt d).granted <;> rfl
      rw [split]
      exact List.rel_append metFirst metRest
    · rw [afterSession, List.foldl_cons, ← afterSession, hrest, hfirst]
      simp

/-! ### Loading -/

theorem firstError?_eq_none_iff {ws : List UInt32} :
    firstError? ws = none ↔ ∀ w ∈ ws, ∃ i, Instruction.decode w = .ok i := by
  induction ws with
  | nil => simp [firstError?]
  | cons w ws ih =>
    unfold firstError?
    cases hw : Instruction.decode w with
    | error e => simp [hw]
    | ok i => simp [hw, ih]

theorem ofWords?_eq_ok_iff {ws : Array UInt32} {p : Program} :
    ofWords? ws = .ok p ↔ (∀ w ∈ ws.toList, ∃ i, Instruction.decode w = .ok i) ∧ p = ⟨ws, 0⟩ := by
  rw [← firstError?_eq_none_iff, ofWords?]
  cases firstError? ws.toList with
  | none => simp [eq_comm]
  | some e => simp

/-- The program a session may begin with, and its words: a new one, or one loaded from words. -/
inductive Begins : Program → Array UInt32 → Prop where
  | new : Begins empty #[]
  | loaded {p : Program} {ws : Array UInt32} : ofWords? ws = .ok p → Begins p ws

theorem Begins.words {p : Program} {ws : Array UInt32} (h : Begins p ws) :
    p.words = ws ∧ ∀ w ∈ ws.toList, ∃ i, Instruction.decode w = .ok i := by
  cases h with
  | new => exact ⟨rfl, List.forall_mem_nil _⟩
  | loaded h =>
    obtain ⟨decodes, rfl⟩ := ofWords?_eq_ok_iff.mp h
    exact ⟨rfl, decodes⟩

/-! ### What a session leaves -/

/-- What is true of the session `ds` on a program that began with the words `ws`. -/
structure Accounted (p : Program) (ws : Array UInt32) (ds : List Directive) : Prop where
  /-- The words it began with are followed by one instruction for each granted demand. -/
  instructions : ∃ emitted : List Instruction,
    List.Forall₂ Demand.Met ((p.session ds).filterMap Attempt.granted) emitted ∧
      (p.afterSession ds).instructions =
        ws.toList.map Instruction.decode ++ emitted.map .ok
  decodes : ∀ x ∈ (p.afterSession ds).instructions, ∃ i, x = .ok i
  refusals : ∀ a ∈ p.session ds, ∀ e,
    a.refusal = some e ↔ ∃ m, a.demand = some m ∧ m.Refuses e
  unchanged : ∀ a ∈ p.session ds, a.refusal ≠ none →
    a.after.words = a.before.words ∧ a.after.mark = a.before.mark
  reloads : ∃ q, ofWords? (p.afterSession ds).words = .ok q ∧
    q.words = (p.afterSession ds).words

/-- Every session on a new or loaded program is accounted for. -/
theorem Begins.accounted {p : Program} {ws : Array UInt32} (h : Begins p ws)
    (ds : List Directive) : Accounted p ws ds := by
  obtain ⟨hwords, loadable⟩ := h.words
  obtain ⟨emitted, met, grown⟩ := instructions_afterSession p ds
  have begun : p.instructions = ws.toList.map Instruction.decode := by
    rw [Program.instructions, hwords]
  rw [begun] at grown
  have decodes : ∀ x ∈ (p.afterSession ds).instructions, ∃ i, x = .ok i := by
    intro x hx
    rw [grown] at hx
    rcases List.mem_append.mp hx with hx | hx
    · obtain ⟨w, hw, rfl⟩ := List.mem_map.mp hx
      exact loadable w hw
    · obtain ⟨i, _, rfl⟩ := List.mem_map.mp hx
      exact ⟨i, rfl⟩
  refine ⟨⟨emitted, met, grown⟩, decodes, ?_, ?_, ?_⟩
  · intro a ha
    exact (progress_of_mem_session ha).refusal_iff
  · intro a ha hr
    rw [(progress_of_mem_session ha).after_eq_of_refused hr]
    exact ⟨rfl, rfl⟩
  · refine ⟨⟨(p.afterSession ds).words, 0⟩, ofWords?_eq_ok_iff.mpr ⟨?_, rfl⟩, rfl⟩
    intro w hw
    exact decodes _ (List.mem_map_of_mem hw)

/-- A loop built on a loaded program, with an operand and a displacement that are one too far. -/
theorem Begins.accounted_loop :
    Begins ⟨#[0x01000003], 0⟩ #[0x01000003] ∧
      Accounted ⟨#[0x01000003], 0⟩ #[0x01000003]
        [.store .b 65536, .setMark, .subtractImmediate .a 1, .jumpIfNonZero .b (-32769),
          .jumpToMark .a, .print .a] ∧
      (session ⟨#[0x01000003], 0⟩
        [.store .b 65536, .setMark, .subtractImmediate .a 1, .jumpIfNonZero .b (-32769),
          .jumpToMark .a, .print .a]).map Attempt.refusal =
        [some (.immediateOutOfRange .storeMemory 65536), none, none,
          some (.branchOffsetOutOfRange (-32769)), none, none] := by
  have begun : Begins ⟨#[0x01000003], 0⟩ #[0x01000003] := .loaded (by decide)
  exact ⟨begun, begun.accounted _, by decide⟩

end Program

end Dyad
