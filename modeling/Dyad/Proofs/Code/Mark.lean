import Dyad.Proofs.Code.Session
import Dyad.Proofs.Native.Arm64.Placement
import Dyad.Proofs.Native.X64.Reach

/-!
The mark of a program under construction. It stands where the end was when it was set, never beyond
the end, and a branch back to it is accepted exactly if it spans at most 32767 instructions. A
branch that was accepted is right for good: operations only add words, so whatever is done to the
program and to its mark afterwards, the branch leads to the instruction that the mark stood before
when it was emitted. That holds in the interpreter and in the code of both generators, neither of
which makes it a fault.
-/

namespace Dyad

/-! ### Branches in generated code -/

namespace X64

open Codegen (homes)

/-- The block of `pc` tests `r` and goes to the block of `target` if it is not zero, and that is
all it does. -/
def BranchesTo (L : Layout) (cached : Nat) (code : List Instruction) (pc : Nat) (r : Register)
    (target : Nat) : Prop :=
  ∃ is rel, is = [Instr.test (homes.register r) (homes.register r), .jump .nonZero rel] ∧
    Native.CodeAt (codegen.assemble L cached code) (codegen.label L cached code pc) is ∧
    codegen.label L cached code pc + Native.codeSize is = codegen.label L cached code (pc + 1) ∧
    (codegen.label L cached code (pc + 1) : Int) + signedWord rel =
      codegen.label L cached code target

theorem branchesTo_of_inRange (L : Layout) (cached : Nat) {code : List Instruction} {pc : Nat}
    (h : pc < code.length) (hop : code[pc].opcode = .jumpIfNonZero)
    (hin : Execution.InRange (code[pc].branchTarget pc) code.length) :
    BranchesTo L cached code pc code[pc].register (code[pc].branchTarget pc).toNat :=
  ⟨_, _, Codegen.blockInstrs_of_inRange L cached h hop hin,
    codegen.codeAt_block Codegen.legible L cached h, codegen.label_add_codeSize L cached h,
    Codegen.branch_reaches L cached h hin⟩

end X64

namespace Arm64

open Codegen (homes)

/-- The block of `pc` passes over its second instruction if `r` is zero, and that one goes to the
block of `target`. -/
def BranchesTo (L : Layout) (cached : Nat) (code : List Instruction) (pc : Nat) (r : Register)
    (target : Nat) : Prop :=
  ∃ is near far, is = [Instr.branchIfZero (homes.register r) near, .branch far] ∧
    Native.CodeAt (codegen.assemble L cached code) (codegen.label L cached code pc) is ∧
    codegen.label L cached code pc + Native.codeSize is = codegen.label L cached code (pc + 1) ∧
    (codegen.label L cached code pc : Int) + 4 * near.toInt =
      codegen.label L cached code (pc + 1) ∧
    ((codegen.label L cached code pc + 4 : Nat) : Int) + 4 * far.toInt =
      codegen.label L cached code target

theorem branchesTo_of_inRange (L : Layout) (cached : Nat) {code : List Instruction} {pc : Nat}
    (h : pc < code.length) (hop : code[pc].opcode = .jumpIfNonZero)
    (hin : Execution.InRange (code[pc].branchTarget pc) code.length) :
    BranchesTo L cached code pc code[pc].register (code[pc].branchTarget pc).toNat := by
  obtain ⟨near, far, hinstrs, hnear, hfar⟩ := Codegen.blockInstrs_of_inRange L cached h hop hin
  exact ⟨_, near, far, hinstrs, codegen.codeAt_block Codegen.legible L cached h,
    codegen.label_add_codeSize L cached h, hnear, hfar⟩

end Arm64

namespace Program

/-! ### Operations and the mark -/

@[simp] theorem size_push (p : Program) (i : Instruction) : (p.push i).size = p.size + 1 :=
  Array.size_push _

@[simp] theorem mark_push (p : Program) (i : Instruction) : (p.push i).mark = p.mark := rfl

@[simp] theorem size_setMark (p : Program) : p.setMark.size = p.size := rfl

@[simp] theorem mark_setMark (p : Program) : p.setMark.mark = p.size := rfl

@[simp] theorem afterSession_cons (p : Program) (d : Directive) (ds : List Directive) :
    p.afterSession (d :: ds) = (p.attempt d).after.afterSession ds := rfl

theorem afterSession_append (p : Program) (ds more : List Directive) :
    p.afterSession (ds ++ more) = (p.afterSession ds).afterSession more :=
  List.foldl_append

theorem Progress.mark_le {p : Program} {a : Attempt} (h : Progress p a) (hp : p.mark ≤ p.size) :
    a.after.mark ≤ a.after.size := by
  cases h with
  | marked _ _ ha =>
    simp only [ha, mark_setMark, size_setMark, Nat.le_refl]
  | added _ _ _ _ ha =>
    rw [ha, mark_push, size_push]
    exact Nat.le_succ_of_le hp
  | refused _ _ _ ha =>
    rw [ha]
    exact hp

theorem mark_le_afterSession {p : Program} (hp : p.mark ≤ p.size) (ds : List Directive) :
    (p.afterSession ds).mark ≤ (p.afterSession ds).size := by
  induction ds generalizing p with
  | nil => exact hp
  | cons d ds ih =>
    rw [afterSession_cons]
    exact ih ((progress_attempt p d).mark_le hp)

theorem Begins.mark_eq_zero {p : Program} {ws : Array UInt32} (h : Begins p ws) : p.mark = 0 := by
  cases h with
  | new => rfl
  | loaded h =>
    obtain ⟨_, rfl⟩ := ofWords?_eq_ok_iff.mp h
    rfl

theorem getElem?_instructions_afterSession {p : Program} {pc : Nat} {i : Instruction}
    (h : p.instructions[pc]? = some (.ok i)) (ds : List Directive) :
    (p.afterSession ds).instructions[pc]? = some (.ok i) := by
  obtain ⟨emitted, -, grown⟩ := instructions_afterSession p ds
  have hlt : pc < p.instructions.length := (List.getElem?_eq_some_iff.mp h).1
  rw [grown, List.getElem?_append_left hlt, h]

theorem getElem?_instructions_push (p : Program) (i : Instruction) :
    (p.push i).instructions[p.size]? = some (.ok i) := by
  simp [Program.instructions, push, size]

/-- A session leaves nothing but instructions. -/
theorem Begins.decodes {p : Program} {ws : Array UInt32} (h : Begins p ws) (ds : List Directive) :
    ∃ code, Decodes (p.afterSession ds).words code := by
  obtain ⟨hwords, loadable⟩ := h.words
  rw [← hwords] at loadable
  obtain ⟨code, hcode⟩ := Decodes.exists_iff.mpr loadable
  obtain ⟨emitted, -, grown⟩ := instructions_afterSession p ds
  refine ⟨code ++ emitted, ?_⟩
  calc (p.afterSession ds).instructions
    _ = p.instructions ++ emitted.map .ok := grown
    _ = code.map .ok ++ emitted.map .ok := congrArg (· ++ _) hcode
    _ = (code ++ emitted).map .ok := List.map_append.symm

/-! ### Branches to the mark -/

theorem markOffset_eq {p : Program} (h : p.mark ≤ p.size) :
    p.markOffset = max (-0x80000000 : Int) (p.mark - p.size - 1) := by
  unfold markOffset
  simp only
  split <;> omega

/-- Carrying out a demand adds an instruction that meets it, unless it is refused. -/
theorem pushed_of_apply {p q : Program} {d : Directive} {m : Demand} (hd : d.demand p = some m)
    (h : p.apply d = .ok q) : ∃ i, m.Met i ∧ (∀ e, ¬ m.Refuses e) ∧ q = p.push i := by
  have answered := answers_emission p hd
  rw [apply] at h
  generalize p.emission d = emitted at answered h
  cases answered with
  | met hm hr =>
    cases h
    exact ⟨_, hm, hr, rfl⟩
  | refused _ => cases h

theorem exists_apply_iff {p : Program} {d : Directive} {m : Demand} (hd : d.demand p = some m) :
    (∃ q, p.apply d = .ok q) ↔ ∀ e, ¬ m.Refuses e := by
  constructor
  · rintro ⟨q, hq⟩
    obtain ⟨_, _, hr, _⟩ := pushed_of_apply hd hq
    exact hr
  · intro hr
    have answered := answers_emission p hd
    rw [apply]
    generalize p.emission d = emitted at answered
    cases answered with
    | met _ _ => exact ⟨_, rfl⟩
    | refused he => exact absurd he (hr _)

theorem after_attempt_of_apply {p q : Program} {d : Directive} (h : p.apply d = .ok q) :
    (p.attempt d).after = q := by
  rw [apply] at h
  split at h
  · rename_i emitted he
    cases h
    rw [attempt_of_ok he]
  · cases h

/-- A branch to the mark is refused unless the mark is near enough. -/
theorem not_refuses_markOffset_iff {p : Program} (h : p.mark ≤ p.size) (r : Register) :
    (∀ e, ¬ (Demand.branch r p.markOffset).Refuses e) ↔ p.size - p.mark ≤ 32767 := by
  have hoffset := markOffset_eq h
  constructor
  · intro hr
    have hfits : ¬ (p.markOffset < -32768 ∨ 32767 < p.markOffset) :=
      fun hout => hr (.branchOffsetOutOfRange p.markOffset) ⟨hout, rfl⟩
    omega
  · rintro hnear e ⟨hout, -⟩
    omega

/-- The instruction of `p` at `pc` leads to `target` if `r` is not zero, however `p` is run: in the
interpreter, whatever the rest of its state, and in the code that either generator makes. -/
structure Lands (p : Program) (pc : Nat) (r : Register) (target : Nat) : Prop where
  instruction : ∃ i, p.instructions[pc]? = some (.ok i) ∧ i.opcode = .jumpIfNonZero ∧
    i.register = r ∧ i.branchTarget pc = target
  interpreted : ∀ (trace : Bool) (x : Execution), x.state.pc = pc → x.state.register r ≠ 0 →
    ∃ y, Execution.step p.words trace x = (y, .advanced) ∧
      y.state = { x.state with pc := target } ∧ y.sink = x.sink ∧ y.executed = x.executed + 1
  compiled : ∃ code, Decodes p.words code ∧ ∀ (L : Layout) (cached : Nat),
    X64.BranchesTo L cached code pc r target ∧ Arm64.BranchesTo L cached code pc r target

/-- A branch that stays in the program lands. -/
theorem lands_of_instruction {p : Program} {code : List Instruction} (hd : Decodes p.words code)
    {pc target : Nat} {i : Instruction} (hi : p.instructions[pc]? = some (.ok i))
    (hop : i.opcode = .jumpIfNonZero) (htarget : i.branchTarget pc = target)
    (hle : target ≤ code.length) : Lands p pc i.register target := by
  have hcode : p.instructions = code.map .ok := hd
  obtain ⟨hlt, hget⟩ : ∃ h : pc < code.length, code[pc] = i := by
    rw [hcode, List.getElem?_map, Option.map_eq_some_iff] at hi
    obtain ⟨j, hj, hij⟩ := hi
    obtain ⟨hlt, rfl⟩ := List.getElem?_eq_some_iff.mp hj
    exact ⟨hlt, Except.ok.inj hij⟩
  subst hget
  have hin : Execution.InRange (code[pc].branchTarget pc) code.length := by
    rw [htarget]
    exact ⟨Int.natCast_nonneg _, Int.ofNat_le.mpr hle⟩
  have htoNat : (code[pc].branchTarget pc).toNat = target := by
    rw [htarget, Int.toNat_natCast]
  refine ⟨⟨_, hi, hop, rfl, htarget⟩, ?_, code, hd, fun L cached => ?_⟩
  · rintro trace x rfl hne
    have hturn : x.state.turn code = .onward none { x.state with pc := target } := by
      rw [State.turn_of_lt hlt, State.turnBy, hop]
      simp only [if_neg hne, if_pos hin, htoNat]
    refine ⟨_, Execution.step_of_onward trace hd hturn, rfl, rfl, rfl⟩
  · rw [← htoNat]
    exact ⟨X64.branchesTo_of_inRange L cached hlt hop hin,
      Arm64.branchesTo_of_inRange L cached hlt hop hin⟩

/-- What is true of a program with its mark. -/
structure MarkLaw (p : Program) : Prop where
  mark_le : p.mark ≤ p.size
  /-- To set the mark puts it at the end, is never refused, and changes no word. -/
  set : p.apply .setMark = .ok ⟨p.words, p.size⟩
  /-- No other operation moves it. -/
  kept : ∀ d q, d ≠ .setMark → p.apply d = .ok q → q.mark = p.mark
  /-- A branch to the mark is accepted if and only if the mark is near enough. -/
  accepted_iff : ∀ r,
    (∃ q, p.apply (.jumpIfNonZero r p.markOffset) = .ok q) ↔ p.size - p.mark ≤ 32767
  /-- Once accepted, it leads to that mark in every program that comes of it. -/
  lands : ∀ r q, p.apply (.jumpIfNonZero r p.markOffset) = .ok q →
    ∀ more, Lands (q.afterSession more) p.size r p.mark

/-- Only one operation demands no instruction. -/
theorem mark_of_apply {p q : Program} {d : Directive} (hd : d ≠ .setMark)
    (hq : p.apply d = .ok q) : q.mark = p.mark := by
  cases demanded : d.demand p with
  | none =>
    cases d with
    | setMark => exact absurd rfl hd
    | _ => cases demanded
  | some m =>
    obtain ⟨i, -, -, rfl⟩ := pushed_of_apply demanded hq
    rfl

/-- An accepted branch to the mark stays as it is in a longer program, and its target inside. -/
theorem lands_of_apply {p q : Program} {r : Register} (hmark : p.mark ≤ p.size)
    (hq : p.apply (.jumpIfNonZero r p.markOffset) = .ok q) {more : List Directive}
    {code : List Instruction} (hd : Decodes (q.afterSession more).words code) :
    Lands (q.afterSession more) p.size r p.mark := by
  obtain ⟨i, ⟨hop, rfl, hoffset⟩, hr, rfl⟩ := pushed_of_apply rfl hq
  have hnear := (not_refuses_markOffset_iff hmark i.register).mp hr
  -- the displacement has not saturated, and makes up for the step past the branch
  have htarget : i.branchTarget p.size = p.mark := by
    rw [Instruction.branchTarget, hoffset, markOffset_eq hmark]
    omega
  have hi := getElem?_instructions_afterSession (getElem?_instructions_push p i) more
  have hlt : p.size < code.length := by
    obtain ⟨hlt, -⟩ := List.getElem?_eq_some_iff.mp hi
    rw [Program.instructions, hd, List.length_map] at hlt
    exact hlt
  exact lands_of_instruction hd hi hop htarget (Nat.le_trans hmark (Nat.le_of_lt hlt))

/-- Every program that a session leaves obeys the law of its mark. -/
theorem Begins.markLaw {p : Program} {ws : Array UInt32} (h : Begins p ws) (ds : List Directive) :
    MarkLaw (p.afterSession ds) := by
  have hmark : (p.afterSession ds).mark ≤ (p.afterSession ds).size := by
    apply mark_le_afterSession
    rw [h.mark_eq_zero]
    exact Nat.zero_le _
  refine ⟨hmark, rfl, fun d q => mark_of_apply, fun r => ?_, fun r q hq more => ?_⟩
  · rw [exists_apply_iff rfl]
    exact not_refuses_markOffset_iff hmark r
  · -- the longer program is what a longer session leaves, so it holds only instructions
    obtain ⟨code, hcode⟩ := h.decodes (ds ++ _ :: more)
    rw [afterSession_append, afterSession_cons, after_attempt_of_apply hq] at hcode
    exact lands_of_apply hmark hq hcode

/-- A loop on a loaded program. Afterwards the mark moves on and more is emitted, with a branch to
the new mark; the first branch still leads to where the mark was. -/
theorem Begins.markLaw_loop :
    Begins ⟨#[0x01000003], 0⟩ #[0x01000003] ∧
      MarkLaw (afterSession ⟨#[0x01000003], 0⟩
        [.store .b 65536, .setMark, .subtractImmediate .a 1]) ∧
      ∃ q, apply ⟨#[0x01000003, 0x06000001], 1⟩ (.jumpIfNonZero .a (-2)) = .ok q ∧
        Lands (q.afterSession [.setMark, .print .b, .jumpToMark .b]) 2 .a 1 := by
  have begun : Begins ⟨#[0x01000003], 0⟩ #[0x01000003] := .loaded (by decide)
  have law := begun.markLaw [.store .b 65536, .setMark, .subtractImmediate .a 1]
  refine ⟨begun, law, ?_⟩
  have reached : afterSession ⟨#[0x01000003], 0⟩
      [.store .b 65536, .setMark, .subtractImmediate .a 1] = ⟨#[0x01000003, 0x06000001], 1⟩ := by
    decide
  rw [reached] at law
  obtain ⟨q, hq⟩ := (law.accepted_iff .a).mpr (by decide)
  exact ⟨q, hq, law.lands .a q hq _⟩

end Program

end Dyad
