import Dyad.Proofs.Native.Outcome
import Dyad.Proofs.Native.Placement

/-!
Targets of code generation. A target is a machine together with a code generator for it and the
places where the code keeps things: the program's registers and its cached cells in host registers,
the other cells in the memory array, and on the stack what the caller must get back. How all of
this represents a state of the program is said once for every target (`Represents`), and each lemma
says how one kind of write carries the representation along.
-/

namespace Dyad.Native

open Ram (Apart Agree StackHolds)

-- the machine's words and bytes are of no interest here, only the lemmas about them
attribute [local irreducible] Ram.store32 Ram.store64

/-! ### Machines -/

/-- A machine as compiled code meets it. -/
structure Machine (R S I : Type) [RegisterSet R] [InstructionSet I] where
  exec : Semantics R S I
  /-- The address of the print function. -/
  print : UInt64
  /-- The registers in which the print function takes the frame, the index of a register and what
  that register holds. -/
  frameArgument : R
  indexArgument : R
  valueArgument : R
  call : R → I
  ret : I
  /-- After such an instruction execution goes on with the next one. -/
  Straight : I → Prop
  /-- The memory that an instruction reads or writes, by address and number of bytes. -/
  accesses : Cpu R S → I → List (UInt64 × Nat)

namespace Machine

variable {R S I : Type} [RegisterSet R] [InstructionSet I]

/-- The arguments with which the print function would be called. -/
def arguments (M : Machine R S I) (c : Cpu R S) : Call :=
  ⟨c.regs.get M.frameArgument, c.regs.get32 M.indexArgument, c.regs.get32 M.valueArgument⟩

/-- The machine does what it is said to do. -/
structure Lawful (M : Machine R S I) : Prop where
  straight (next : Nat) (c : Cpu R S) {i : I} : M.Straight i →
    ∃ d, M.exec next c i = (d, .running) ∧ d.ip = next ∧ d.calls = c.calls
  call_not_straight (r : R) : ¬ M.Straight (M.call r)
  ret_not_straight : ¬ M.Straight M.ret
  call_ne_ret (r : R) : M.call r ≠ M.ret
  call_injective {r r' : R} : M.call r = M.call r' → r = r'
  /-- A call of the print function is recorded with its arguments. -/
  called (next : Nat) {c : Cpu R S} {r : R} : c.regs.get r = M.print →
    ∃ d, M.exec next c (M.call r) = (d, .running) ∧ d.ip = next ∧
      d.calls = c.calls.push (M.arguments c)
  /-- Nothing else is recorded. -/
  calls_cases (next : Nat) (c : Cpu R S) (i : I) : (M.exec next c i).1.calls = c.calls ∨
    ∃ r, i = M.call r ∧ (M.exec next c i).1.calls = c.calls.push (M.arguments c)
  /-- A routine returns by its return instruction only. -/
  returned {next : Nat} {c d : Cpu R S} {i : I} {a : UInt64} :
    M.exec next c i = (d, .returned a) → i = M.ret
  /-- Memory apart from what is listed keeps what it holds. -/
  agree {next : Nat} {c : Cpu R S} {i : I} {a : UInt64} {n : Nat} :
    (∀ x ∈ M.accesses c i, Apart x.1 x.2 a n) → Agree c.ram (M.exec next c i).1.ram a n
  /-- Apart from what it stores, an instruction does the same in every memory that holds the same at
  the places it lists. -/
  reads {next : Nat} {c : Cpu R S} {i : I} {ram : Ram} :
    (∀ x ∈ M.accesses c i, Agree c.ram ram x.1 x.2) →
      ∃ ram', M.exec next { c with ram } i =
        ({ (M.exec next c i).1 with ram := ram' }, (M.exec next c i).2)

namespace Lawful

variable {M : Machine R S I} {code : Image} {c d : Cpu R S}

/-- Calls are added, never taken back. -/
theorem calls_grow (hM : M.Lawful) (code : Image) (c : Cpu R S) :
    c.calls.toList <+: (step M.exec code c).1.calls.toList := by
  cases h : current (I := I) code c with
  | none => simp only [step_eq_of_current_eq_none M.exec h, List.prefix_refl]
  | some i =>
    obtain ⟨next, hstep⟩ := exists_step_eq M.exec h
    rw [hstep]
    rcases hM.calls_cases next c i with heq | ⟨r, -, heq⟩
    · simp only [heq, List.prefix_refl]
    · rw [heq, Array.toList_push]
      exact List.prefix_append _ _

theorem current_of_returned (hM : M.Lawful) {a : UInt64}
    (h : step M.exec code c = (d, .returned a)) : current code c = some M.ret := by
  cases hcurrent : current (I := I) code c with
  | none =>
    rw [step_eq_of_current_eq_none M.exec hcurrent] at h
    cases h
  | some i =>
    obtain ⟨next, hstep⟩ := exists_step_eq M.exec hcurrent
    rw [hM.returned (hstep.symm.trans h)]

theorem step_of_call (hM : M.Lawful) {r : R} (h : current code c = some (M.call r))
    (hr : c.regs.get r = M.print) :
    ∃ d, step M.exec code c = (d, .running) ∧ d.calls = c.calls.push (M.arguments c) := by
  obtain ⟨next, hstep⟩ := exists_step_eq M.exec h
  obtain ⟨d, hexec, -, hcalls⟩ := hM.called next hr
  exact ⟨d, hstep.trans hexec, hcalls⟩

end Lawful

end Machine

/-! ### Targets -/

/-- A machine, a code generator for it, and where the code keeps things. -/
structure Target (R S I B : Type) [RegisterSet R] [InstructionSet I] extends Machine R S I where
  codegen : Generator I B
  homes : Homes R
  /-- The registers that hold the program's registers and cells. -/
  homeRegisters : List R
  /-- Other registers, and what they hold from the prologue to the epilogue. -/
  fixed : List (R × (Layout → Cpu R S → UInt64))
  /-- The special registers are as they are from the prologue to the epilogue. -/
  Settled : Cpu R S → S → Prop
  /-- The lowest address of the stack that a routine uses. -/
  stackBase : Cpu R S → UInt64
  /-- The number of words of stack that a routine uses. -/
  stackWords : Nat
  /-- The number of words below what the caller gets back. -/
  spareWords : Nat
  /-- What the caller gets back, in the order in which it lies on the stack. -/
  savedWords : Cpu R S → List UInt64
  /-- What a routine has restored when it returns. -/
  Restored : Cpu R S → Cpu R S → Prop
  /-- Shorter code has all of its parts within the reach of branches. -/
  reach : Nat
  /-- Every branch that leaves the program is within reach of the epilogue. -/
  ExitsReach : Layout → Nat → List Instruction → Prop

namespace Target

variable {R S I B : Type} [RegisterSet R] [InstructionSet I]

/-- The number of bytes of stack that a routine uses. -/
def stackBytes (P : Target R S I B) : Nat := 8 * P.stackWords

/-- The registers whose contents matter at the start of a block. -/
def kept (P : Target R S I B) : List R := P.fixed.map Prod.fst ++ P.homeRegisters

theorem mem_kept_of_home {P : Target R S I B} {r : R} (h : r ∈ P.homeRegisters) : r ∈ P.kept :=
  List.mem_append_right _ h

theorem mem_kept_of_fixed {P : Target R S I B} {x : R × (Layout → Cpu R S → UInt64)}
    (h : x ∈ P.fixed) : x.1 ∈ P.kept :=
  List.mem_append_left _ (List.mem_map_of_mem h)

/-- The registers of a target do not get in each other's way, and its stack is large enough. -/
structure Lawful (P : Target R S I B) : Prop extends machine : P.toMachine.Lawful where
  register_mem (r : Register) : P.homes.register r ∈ P.homeRegisters
  cell_mem (n : Nat) : P.homes.cell n ∈ P.homeRegisters
  fixed_not_mem : ∀ x ∈ P.fixed, x.1 ∉ P.homeRegisters
  stack_room (entry : Cpu R S) : P.spareWords + (P.savedWords entry).length = P.stackWords
  stack_small : P.stackBytes ≤ 0x10000000000000000

theorem Lawful.ne_of_fixed {P : Target R S I B} (hP : P.Lawful) {r : R}
    (hr : r ∈ P.homeRegisters) {x : R × (Layout → Cpu R S → UInt64)} (hx : x ∈ P.fixed) :
    r ≠ x.1 :=
  ne_of_mem_of_not_mem hr (hP.fixed_not_mem x hx)

variable (P : Target R S I B) (L : Layout) (cached : Nat) (entry : Cpu R S)

/-! ### Representation -/

/-- What a routine entered in `entry` keeps from its prologue to its epilogue. -/
structure Framed (regs : RegFile R) (special : S) (ram : Ram) : Prop where
  fixed : ∀ x ∈ P.fixed, regs.get x.1 = x.2 L entry
  settled : P.Settled entry special
  saved : StackHolds ram (P.stackBase entry + UInt64.ofNat (8 * P.spareWords))
    (P.savedWords entry)

/-- The machine represents registers `rs` and memory `m` of a program, in a routine entered in
`entry`. The array has the cached cells as they `was`, and the frame records `fault`. -/
structure Represents (was : Memory) (fault : UInt32 × UInt32) (rs : Registers) (m : Memory)
    (regs : RegFile R) (special : S) (ram : Ram) : Prop where
  held (r : Register) : regs.get32 (P.homes.register r) = rs.get r
  cells (i : UInt16) : i.toNat < cached → regs.get32 (P.homes.cell i.toNat) = m.get i
  framed : P.Framed L entry regs special ram
  data : Holds L 0 cached was m fault ram

variable {P L cached entry} {regs regs' : RegFile R} {special : S} {ram ram' : Ram}
  {was m : Memory} {fault : UInt32 × UInt32} {rs : Registers}

/-- Memory counts as far as it holds what the caller gets back. -/
theorem Framed.of_agree (hP : P.Lawful) (h : P.Framed L entry regs special ram)
    (hram : Agree ram ram' (P.stackBase entry + UInt64.ofNat (8 * P.spareWords))
      (8 * (P.stackWords - P.spareWords))) : P.Framed L entry regs special ram' where
  fixed := h.fixed
  settled := h.settled
  saved := by
    refine h.saved.congr ?_
    have hroom := hP.stack_room entry
    rwa [show (P.savedWords entry).length = P.stackWords - P.spareWords by omega]

theorem Framed.store_apart (hP : P.Lawful) (h : P.Framed L entry regs special ram) {a : UInt64}
    (ha : Apart a 4 (P.stackBase entry) P.stackBytes) (v : UInt32) :
    P.Framed L entry regs special (ram.store32 a v) := by
  refine h.of_agree hP (.store32 (ha.sub_right ?_) v)
  have hroom := hP.stack_room entry
  rw [stackBytes]
  omega

namespace Represents

theorem settle (h : P.Represents L cached entry was fault rs m regs special ram) {special' : S}
    (hspecial : P.Settled entry special') :
    P.Represents L cached entry was fault rs m regs special' ram :=
  { h with framed := { h.framed with settled := hspecial } }

/-- Only the kept registers count. -/
theorem congr (hP : P.Lawful) (h : P.Represents L cached entry was fault rs m regs special ram)
    (hregs : ∀ r ∈ P.kept, regs'.get r = regs.get r) :
    P.Represents L cached entry was fault rs m regs' special ram where
  held r := by
    rw [← h.held r, RegFile.get32, RegFile.get32, hregs _ (mem_kept_of_home (hP.register_mem r))]
  cells i hi := by
    rw [← h.cells i hi, RegFile.get32, RegFile.get32,
      hregs _ (mem_kept_of_home (hP.cell_mem i.toNat))]
  framed :=
    { h.framed with
      fixed := fun x hx => (hregs x.1 (mem_kept_of_fixed hx)).trans (h.framed.fixed x hx) }
  data := h.data

theorem set_scratch (hP : P.Lawful)
    (h : P.Represents L cached entry was fault rs m regs special ram) {r : R} (hr : r ∉ P.kept)
    (v : UInt64) : P.Represents L cached entry was fault rs m (regs.set r v) special ram :=
  h.congr hP fun _ hs => RegFile.get_set_of_ne regs (by rintro rfl; exact hr hs) v

theorem set32_scratch (hP : P.Lawful)
    (h : P.Represents L cached entry was fault rs m regs special ram) {r : R} (hr : r ∉ P.kept)
    (v : UInt32) : P.Represents L cached entry was fault rs m (regs.set32 r v) special ram :=
  h.set_scratch hP hr _

theorem setRegister [DecidableEq R] (hP : P.Lawful)
    (h : P.Represents L cached entry was fault rs m regs special ram) (r : Register) {v w : UInt32}
    (hv : w = v) :
    P.Represents L cached entry was fault (rs.set r v) m (regs.set32 (P.homes.register r) w)
      special ram where
  held s := by
    rw [RegFile.get32_set32, Registers.get_set, h.held, hv]
    simp only [P.homes.register_inj]
  cells i hi := by
    rw [RegFile.get32_set32, if_neg (P.homes.register_ne_cell r _), h.cells i hi]
  framed :=
    { h.framed with
      fixed := fun x hx => (RegFile.get_set32_of_ne regs
        (hP.ne_of_fixed (hP.register_mem r) hx) w).trans
        (h.framed.fixed x hx) }
  data := h.data

theorem setCached [DecidableEq R] (hP : P.Lawful) (hk : cached ≤ maxCachedCells)
    (h : P.Represents L cached entry was fault rs m regs special ram) {i : UInt16}
    (hi : i.toNat < cached) (v : UInt32) :
    P.Represents L cached entry was fault rs (m.set i v)
      (regs.set32 (P.homes.cell i.toNat) v) special ram where
  held r := by
    rw [RegFile.get32_set32, if_neg (P.homes.register_ne_cell r _).symm, h.held]
  cells j hj := by
    rw [RegFile.get32_set32, Memory.get_set, h.cells j hj]
    simp only [P.homes.cell_inj (Nat.lt_of_lt_of_le hi hk) (Nat.lt_of_lt_of_le hj hk),
      UInt16.toNat_inj]
  framed :=
    { h.framed with
      fixed := fun x hx => (RegFile.get_set32_of_ne regs
        (hP.ne_of_fixed (hP.cell_mem i.toNat) hx) v).trans
        (h.framed.fixed x hx) }
  data := h.data.set_cached hi v

theorem storeCell (hP : P.Lawful) (hL : L.Separate (P.stackBase entry) P.stackBytes)
    (h : P.Represents L cached entry was fault rs m regs special ram) {i : UInt16}
    (hi : cached ≤ i.toNat) (v : UInt32) :
    P.Represents L cached entry was fault rs (m.set i v) regs special
      (ram.store32 (L.cell i) v) where
  held := h.held
  cells j hj := by
    rw [Memory.get_set, if_neg (by rintro rfl; omega), h.cells j hj]
  framed := h.framed.store_apart hP (cell_apart_stack hL i) v
  data := h.data.store_cell hL hi v

theorem storeFault (hP : P.Lawful) (hL : L.Separate (P.stackBase entry) P.stackBytes)
    (h : P.Represents L cached entry was fault rs m regs special ram) (pc target : UInt32) :
    P.Represents L cached entry was (pc, target) rs m regs special
      ((ram.store32 (L.field Layout.frameFaultPc) pc).store32
        (L.field Layout.frameFaultTarget) target) where
  held := h.held
  cells := h.cells
  framed := (h.framed.store_apart hP (field_apart_stack hL (by decide)) pc).store_apart hP
    (field_apart_stack hL (by decide)) target
  data := h.data.store_fault hL pc target

/-- The words of the stack below what the caller gets back are free. -/
theorem store_stack (hP : P.Lawful) (hL : L.Separate (P.stackBase entry) P.stackBytes)
    (h : P.Represents L cached entry was fault rs m regs special ram) {j : Nat}
    (hj : j < P.spareWords) (w : UInt64) :
    P.Represents L cached entry was fault rs m regs special
      (ram.store64 (P.stackBase entry + UInt64.ofNat (8 * j)) w) where
  held := h.held
  cells := h.cells
  framed := by
    have hsmall : 8 * P.stackWords ≤ 0x10000000000000000 := hP.stack_small
    have hroom := hP.stack_room entry
    exact h.framed.of_agree hP (.store64 (.of_le _ (by omega) (by omega)) w)
  data := by
    have hroom := hP.stack_room entry
    exact h.data.store_stack hL (show 8 * j + 8 ≤ 8 * P.stackWords by omega) w

theorem load_cell (h : P.Represents L cached entry was fault rs m regs special ram) {i : UInt16}
    (hi : cached ≤ i.toNat) : ram.load32 (L.cell i) = m.get i := by
  rw [h.data.cells, if_neg (by omega)]

end Represents

/-! ### Printing -/

/-- The registers of a machine that is ready to call the print function, whose address is in
`callee`, for the register `r`. -/
def printRegs (P : Target R S I B) (L : Layout) (r : Register) (callee : R) (regs : RegFile R) :
    RegFile R :=
  let indexed := (regs.set P.frameArgument L.frame).set32 P.indexArgument (UInt32.ofNat r.index)
  (indexed.set32 P.valueArgument (indexed.get32 (P.homes.register r))).set callee L.print

/-- They hold the arguments of the print, and represent what they did before. -/
theorem Represents.ready_to_print [DecidableEq R] (hP : P.Lawful) {c d : Cpu R S}
    (h : P.Represents L cached entry was fault rs m c.regs c.special c.ram) {callee : R}
    (hfresh : [callee, P.valueArgument, P.indexArgument, P.frameArgument].Nodup)
    (hscratch : ∀ s ∈ [callee, P.valueArgument, P.indexArgument, P.frameArgument], s ∉ P.kept)
    (r : Register) (hregs : d.regs = P.printRegs L r callee c.regs)
    (hspecial : d.special = c.special) (hram : d.ram = c.ram) :
    d.regs.get callee = L.print ∧ P.arguments d = callOf L ⟨r, rs.get r⟩ ∧
      P.Represents L cached entry was fault rs m d.regs d.special d.ram := by
  simp only [List.forall_mem_cons, List.not_mem_nil, false_implies, implies_true,
    and_true] at hscratch
  obtain ⟨hcallee, hvalue, hindex, hframe⟩ := hscratch
  simp only [List.nodup_cons, List.mem_cons, List.not_mem_nil, or_false, not_or] at hfresh
  obtain ⟨⟨hcalleeValue, hcalleeIndex, hcalleeFrame⟩, ⟨hvalueIndex, hvalueFrame⟩, hindexFrame, -⟩ :=
    hfresh
  have hindexed := (h.set_scratch hP hframe L.frame).set32_scratch hP hindex (UInt32.ofNat r.index)
  rw [hregs, hspecial, hram]
  refine ⟨RegFile.get_set_self _ _ _, ?_,
    (hindexed.set32_scratch hP hvalue _).set_scratch hP hcallee _⟩
  rw [Machine.arguments, hregs, printRegs, callOf, Call.mk.injEq, hindexed.held]
  refine ⟨?_, ?_, ?_⟩
  · rw [RegFile.get_set_of_ne _ hcalleeFrame, RegFile.get_set32_of_ne _ hvalueFrame,
      RegFile.get_set32_of_ne _ hindexFrame, RegFile.get_set_self]
  · rw [RegFile.get32_set_of_ne _ hcalleeIndex, RegFile.get32_set32, if_neg hvalueIndex,
      RegFile.get32_set32, if_pos rfl]
  · rw [RegFile.get32_set_of_ne _ hcalleeValue, RegFile.get32_set32, if_pos rfl]

end Target

end Dyad.Native
