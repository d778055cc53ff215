import Dyad.Proofs.Native.Conformance

/-!
Routines that keep step with the interpreter, block by block. A routine mirrors a state of the
program if it stands at the block of that state and holds its registers, its cached cells in host
registers and its other cells in the array (`Mirrors`). It is coherent if it mirrors the
interpreter's state after `n` steps whenever it gets to a block for the `n`-th time, and accesses
nothing but its own data on the way (`Coherent`). Machine code that follows a program from block to
block mirrors it (`Paced.mirrors`), and the code of a sound target does so
(`Target.Called.coheres`).
-/

namespace Dyad.Native

open Ram (Apart)

/-- How a machine that runs a routine is looked at: where it stands, where it keeps the state of the
program, and what memory its next instruction reads or writes, if there is one. -/
structure View (C : Type) where
  ip : C → Nat
  register : C → Register → UInt32
  cache : C → Nat → UInt32
  ram : C → Ram
  accesses : C → Option (List (UInt64 × Nat))

section

variable {C : Type} {view : View C} {label : Nat → Nat} {step : C → C × Status}

/-- The machine stands at the start of a block, or of what follows the last one. -/
def AtBlock (view : View C) (label : Nat → Nat) (size : Nat) (c : C) : Prop :=
  ∃ pc ≤ size, view.ip c = label pc

/-- The machine stands at the block of `s` and holds what `s` holds. Of the cells that it has in
registers, the array still has the zeros of the start. -/
structure Mirrors (view : View C) (label : Nat → Nat) (L : Layout) (cached size : Nat) (s : State)
    (c : C) : Prop where
  pc_le : s.pc ≤ size
  block : view.ip c = label s.pc
  registers (r : Register) : view.register c r = s.registers.get r
  cache (i : UInt16) : i.toNat < cached → view.cache c i.toNat = s.memory.get i
  cells (i : UInt16) : cached ≤ i.toNat → (view.ram c).load32 (L.cell i) = s.memory.get i
  untouched (i : UInt16) : i.toNat < cached → (view.ram c).load32 (L.cell i) = 0

/-- What the next instruction reads or writes is the routine's own: whole cells, fields of the frame
and slots of its stack. Before the epilogue no cached cell is among them. -/
def Confined (view : View C) (L : Layout) (stack : UInt64) (slots cached epilogue : Nat) (c : C) :
    Prop :=
  ∃ xs, view.accesses c = some xs ∧ ∀ x ∈ xs, L.Grants 0 stack slots x ∧
    (view.ip c < epilogue → ∀ j : UInt16, j.toNat < cached → Apart x.1 x.2 (L.cell j) 4)

/-- A routine entered in `entry` keeps step with the interpreter's run of `words`, and keeps to its
own data. -/
structure Coherent (view : View C) (step : C → C × Status) (label : Nat → Nat) (L : Layout)
    (stack : UInt64) (slots cached size : Nat) (entry : C) (words : Array UInt32) (trace : Bool)
    (sink : Sink) : Prop where
  /-- If the run takes `n` steps, the routine gets to a block for the `n`-th time. -/
  arrives {n : Nat} {x : Execution} : Execution.runFor words trace n { sink } = (x, .advanced) →
    ∃ c, Arrival step (AtBlock view label size) n entry c
  /-- There it mirrors the interpreter. -/
  mirrors {n : Nat} {x : Execution} {c : C} :
    Execution.runFor words trace n { sink } = (x, .advanced) →
    Arrival step (AtBlock view label size) n entry c → Mirrors view label L cached size x.state c
  confined {m : Nat} {c : C} : Steps step m entry c →
    Confined view L stack slots cached (label size) c

/-- A run through a block gets to no other block before its end. -/
theorem Leap.between_blocks (view : View C) {A B : C → Prop} {size pc n : Nat} {c d : C}
    (hlabel : ∀ l < size, label l < label (l + 1)) (hpc : pc < size)
    (h : Leap step (fun e => view.ip e = label pc ∧ A e)
      (fun e => label pc < view.ip e ∧ view.ip e < label (pc + 1) ∧ B e) n c d) :
    Leap step (AtBlock view label size) (fun e => ¬ AtBlock view label size e) n c d := by
  refine h.mono (fun e he => ⟨pc, Nat.le_of_lt hpc, he.1⟩) ?_
  rintro e ⟨hlo, hhi, _⟩ ⟨l, hl, hip⟩
  exact ne_start_of_between hlabel hpc hlo hhi l hl hip

/-- A run up to the first block gets to no block before its end. -/
theorem Passage.before_blocks (view : View C) {A : C → Prop} {size n : Nat} {c d : C}
    (hlabel : ∀ l < size, label l < label (l + 1))
    (h : Passage step (fun e => view.ip e < label 0 ∧ A e) n c d) :
    Passage step (fun e => ¬ AtBlock view label size e) n c d := by
  refine h.mono ?_
  rintro e ⟨hip, _⟩ ⟨l, hl, heq⟩
  have hfirst := start_le_start hlabel (Nat.zero_le l) hl
  exact absurd heq (Nat.ne_of_lt (Nat.lt_of_lt_of_le hip hfirst))

namespace Paced

variable {code : List Instruction} {entry : C} {At : State → List Print → C → Prop} {L : Layout}
  {cached : Nat} {words : Array UInt32} {sink : Sink}

/-- Code that follows a program from block to block mirrors the interpreter. -/
theorem mirrors (F : Paced step code entry At (AtBlock view label code.length))
    (hAt : ∀ {s ps c}, At s ps c → Mirrors view label L cached code.length s c)
    (hd : Decodes words code) (hsink : sink.device.NeverRefuses) {trace : Bool} {n : Nat}
    {x : Execution} (hrun : Execution.runFor words trace n { sink } = (x, .advanced)) :
    ∃ c, Arrival step (AtBlock view label code.length) n entry c ∧
      Mirrors view label L cached code.length x.state c := by
  obtain ⟨ps, w⟩ := Execution.walk_of_advanced hd hsink hrun
  obtain ⟨c, arrival, hc⟩ := F.arrives w
  exact ⟨c, arrival, hAt hc⟩

theorem coherent (F : Paced step code entry At (AtBlock view label code.length))
    (hAt : ∀ {s ps c}, At s ps c → Mirrors view label L cached code.length s c)
    (hd : Decodes words code) (hsink : sink.device.NeverRefuses) (trace : Bool) {stack : UInt64}
    {slots : Nat} (confined : ∀ {m c}, Steps step m entry c →
      Confined view L stack slots cached (label code.length) c) :
    Coherent view step label L stack slots cached code.length entry words trace sink where
  arrives hrun := by
    obtain ⟨c, arrival, _⟩ := F.mirrors hAt hd hsink hrun
    exact ⟨c, arrival⟩
  mirrors hrun arrival := by
    obtain ⟨c, arrival', hc⟩ := F.mirrors hAt hd hsink hrun
    exact arrival.unique arrival' ▸ hc
  confined := confined

end Paced

end

/-! ### Targets -/

namespace Target

variable {R S I B : Type} [RegisterSet R] [InstructionSet I]

/-- Where the code of a target keeps the program's state. -/
def view (P : Target R S I B) (code : Image) : View (Cpu R S) where
  ip := Cpu.ip
  register c r := c.regs.get32 (P.homes.register r)
  cache c n := c.regs.get32 (P.homes.cell n)
  ram := Cpu.ram
  accesses c := (current code c).map (P.accesses c)

theorem view_accesses (P : Target R S I B) (code : Image) (c : Cpu R S) :
    (P.view code).accesses c = (current code c).map (P.accesses c) := rfl

/-- The code of a program, entered in `entry`, is coherent with the interpreter's run of `words`. -/
abbrev Coheres (P : Target R S I B) (L : Layout) (cached : Nat) (code : List Instruction)
    (entry : Cpu R S) (words : Array UInt32) (trace : Bool) (sink : Sink) : Prop :=
  Coherent (P.view (Image.ofBytes (P.codegen.assemble L cached code))) (P.stepIn L cached code)
    (P.codegen.label L cached code) L (P.stackBase entry) P.stackWords cached code.length entry
    words trace sink

variable {P : Target R S I B} {L : Layout} {cached : Nat} {code : List Instruction}
  {entry c : Cpu R S} {fault : UInt32 × UInt32} {s : State} {ps : List Print}

theorem At.mirrors (h : P.At L cached code entry Memory.zero fault s ps c) (image : Image) :
    Mirrors (P.view image) (P.codegen.label L cached code) L cached code.length s c where
  pc_le := h.pc_le
  block := h.ip
  registers := h.represents.held
  cache := h.represents.cells
  cells _ hi := h.represents.load_cell hi
  untouched i hi := by
    rw [← Memory.get_zero i]
    exact (h.represents.data.cells i).trans (if_pos ⟨Nat.zero_le _, hi⟩)

namespace Called

/-- No block starts in the prologue, and each turn of the program leads from block to block. -/
theorem paced (hP : P.Sound) (h : P.Called L cached code entry) (hcleared : L.Cleared entry.ram)
    (image : Image) :
    Paced (P.stepIn L cached code) code entry
      (P.At L cached code entry Memory.zero (recorded L entry.ram))
      (AtBlock (P.view image) (P.codegen.label L cached code) code.length) where
  starts := by
    obtain ⟨d, hpass, hd⟩ := h.toSuits.opens hP h.ip (fun i _ => Memory.get_zero i)
      (.of_cleared hcleared cached) code
    exact ⟨_, d, hpass.before_blocks (P.view image) fun _ => P.codegen.label_lt_succ, hd⟩
  start h := ⟨_, h.pc_le, h.ip⟩
  onward hat hturn := by
    obtain ⟨n, d, -, hcross, hd⟩ := hat.crosses hP h.toSuits hturn
    exact ⟨n, d, Leap.between_blocks (P.view image) (fun _ => P.codegen.label_lt_succ)
      (State.pc_lt_of_onward hturn) hcross, hd⟩

/-- A routine keeps to its own data. -/
theorem confined (hP : P.Sound) (h : P.Called L cached code entry) {m : Nat}
    (hs : Steps (P.stepIn L cached code) m entry c) :
    Confined (P.view (Image.ofBytes (P.codegen.assemble L cached code))) L (P.stackBase entry)
      P.stackWords cached (P.codegen.label L cached code code.length) c := by
  obtain ⟨first, hfirst, i, hi, conduct⟩ := h.conforms hP hs
  have haccesses : (P.view (Image.ofBytes (P.codegen.assemble L cached code))).accesses c =
      some (P.accesses c i) := by rw [view_accesses, hi, Option.map_some]
  refine ⟨P.accesses c i, haccesses, fun x hx => ?_⟩
  have hgrants := conduct.accesses x hx
  refine ⟨hgrants.mono (Nat.zero_le _) (Nat.le_refl _), fun hip j hj => ?_⟩
  exact hgrants.apart_cell h.separate (Nat.le_refl _) (Nat.lt_of_lt_of_le hj (hfirst hip))

/-- If its cells are cleared, the code of a program is coherent with the interpreter. -/
theorem coheres (hP : P.Sound) (h : P.Called L cached code entry) (hcleared : L.Cleared entry.ram)
    {words : Array UInt32} (hd : Decodes words code) (trace : Bool) {sink : Sink}
    (hsink : sink.device.NeverRefuses) : P.Coheres L cached code entry words trace sink :=
  (h.paced hP hcleared _).coherent (fun hat => hat.mirrors _) hd hsink trace (h.confined hP)

end Called

end Target

end Dyad.Native
