import Dyad.Native.Routine
import Dyad.Proofs.Native.Regions

/-!
What a routine keeps in the memory array and in its frame. During a run the cells that are cached
in host registers are zero in the array, and all others are up to date (`Holds`); the end of the
routine copies the cached cells, one after another. Each lemma says what one kind of store does to
this, for layouts whose regions do not overlap. What a routine may access are whole cells from some
cell on, the four fields of its frame, and slots of eight bytes on its stack (`Layout.Grants`).
-/

namespace Dyad

open Ram (Apart Agree)

namespace Layout

/-- The address of a cell. -/
def cell (L : Layout) (i : UInt16) : UInt64 := L.memory + UInt64.ofNat (4 * i.toNat)

/-- The memory array, the frame and the `n` bytes of stack from `stack` on do not overlap. -/
structure Separate (L : Layout) (stack : UInt64) (n : Nat) : Prop where
  memory_frame : Apart L.memory memoryBytes L.frame frameBytes
  memory_stack : Apart L.memory memoryBytes stack n
  frame_stack : Apart L.frame frameBytes stack n

/-- The memory array is zero. -/
def Cleared (L : Layout) (ram : Ram) : Prop :=
  ∀ j < memoryBytes, ram.get (L.memory + UInt64.ofNat j) = 0

/-- The memory array and the frame are zero. -/
structure Zeroed (L : Layout) (ram : Ram) : Prop where
  memory : ∀ j < memoryBytes, ram.get (L.memory + UInt64.ofNat j) = 0
  frame : ∀ j < frameBytes, ram.get (L.frame + UInt64.ofNat j) = 0

theorem zeroed_clear (L : Layout) (ram : Ram) : L.Zeroed (L.clear ram) where
  memory _ hj := Ram.get_clear_of_zero (Ram.get_clear ram L.memory hj) L.frame frameBytes
  frame _ hj := Ram.get_clear _ L.frame hj

theorem cell_room (i : UInt16) : 4 * i.toNat + 4 ≤ memoryBytes := by
  have := i.toNat_lt
  simp only [memoryBytes, memoryCells]
  omega

theorem cell_apart (L : Layout) {i j : UInt16} (h : i ≠ j) : Apart (L.cell i) 4 (L.cell j) 4 := by
  have hi := i.toNat_lt
  have hj := j.toNat_lt
  have hne : i.toNat ≠ j.toNat := fun heq => h (UInt16.toNat_inj.mp heq)
  rcases Nat.lt_or_gt_of_ne hne with hlt | hgt
  · exact .of_le _ (by omega) (by omega)
  · exact (Apart.of_le _ (by omega) (by omega)).symm

/-- The address of a field of the frame. -/
def field (L : Layout) (offset : UInt32) : UInt64 := L.frame + offset.toUInt64

theorem field_eq (L : Layout) (offset : UInt32) :
    L.field offset = L.frame + UInt64.ofNat offset.toNat := by
  rw [field, UInt64.ofNat_uInt32ToNat]

end Layout

namespace Native

open Layout (frameA frameB frameFaultPc frameFaultTarget memoryBytes frameBytes)

variable {L : Layout} {stack : UInt64} {n : Nat} {ram ram' : Ram}

/-! ### Where stores go -/

theorem cell_apart_frame (hL : L.Separate stack n) (i : UInt16) :
    Apart (L.cell i) 4 L.frame frameBytes :=
  hL.memory_frame.sub (Layout.cell_room i)

theorem cell_apart_stack (hL : L.Separate stack n) (i : UInt16) : Apart (L.cell i) 4 stack n :=
  hL.memory_stack.sub (Layout.cell_room i)

theorem field_apart_memory (hL : L.Separate stack n) {o : UInt32} (ho : o.toNat + 4 ≤ frameBytes) :
    Apart (L.field o) 4 L.memory memoryBytes := by
  rw [Layout.field_eq]
  exact hL.memory_frame.symm.sub ho

theorem field_apart_stack (hL : L.Separate stack n) {o : UInt32} (ho : o.toNat + 4 ≤ frameBytes) :
    Apart (L.field o) 4 stack n := by
  rw [Layout.field_eq]
  exact hL.frame_stack.sub ho

theorem field_apart_field (L : Layout) {o o' : UInt32} (h : o.toNat + 4 ≤ o'.toNat) :
    Apart (L.field o) 4 (L.field o') 4 := by
  have := o'.toNat_lt
  rw [Layout.field_eq, Layout.field_eq]
  exact .of_le _ h (by omega)

theorem get_readCells (ram : Ram) (L : Layout) (i : UInt16) :
    (readCells ram L.memory).get i = ram.load32 (L.cell i) := by
  rw [Layout.cell, Memory.get, readCells]
  simp only [Vector.getElem_ofFn]
  rw [UInt64.ofNat_mul]
  rfl

/-! ### What the routine's data hold -/

/-- The data during a run: cells from `written` on and below `cached` are in host registers, so the
array has them as they were, the other cells are those of `m`, and the frame records `fault` as the
branch that left the program. -/
structure Holds (L : Layout) (written cached : Nat) (was m : Memory) (fault : UInt32 × UInt32)
    (ram : Ram) : Prop where
  cells (i : UInt16) : ram.load32 (L.cell i) =
    if written ≤ i.toNat ∧ i.toNat < cached then was.get i else m.get i
  faultPc : ram.load32 (L.field frameFaultPc) = fault.1
  faultTarget : ram.load32 (L.field frameFaultTarget) = fault.2

/-- What the frame records. -/
def recorded (L : Layout) (ram : Ram) : UInt32 × UInt32 :=
  (ram.load32 (L.field frameFaultPc), ram.load32 (L.field frameFaultTarget))

namespace Holds

variable {written cached : Nat} {was m : Memory} {fault : UInt32 × UInt32} {i : UInt16}
  {v : UInt32}

/-- Whatever the frame records, cleared cells are the cells of a fresh state. -/
theorem of_cleared (h : L.Cleared ram) (cached : Nat) :
    Holds L 0 cached Memory.zero Memory.zero (recorded L ram) ram where
  cells i := by
    rw [ite_self, Memory.get_zero]
    refine Ram.load32_of_zero fun j hj => ?_
    have := Layout.cell_room i
    rw [Layout.cell, UInt64.add_assoc, ← UInt64.ofNat_add]
    exact h _ (by omega)
  faultPc := rfl
  faultTarget := rfl

theorem recorded_of_zeroed (h : L.Zeroed ram) : recorded L ram = (0, 0) := by
  refine Prod.ext (Ram.load32_of_zero fun j hj => ?_) (Ram.load32_of_zero fun j hj => ?_)
  · rw [Layout.field_eq, UInt64.add_assoc, ← UInt64.ofNat_add]
    exact h.frame _ (show 8 + j < 16 by omega)
  · rw [Layout.field_eq, UInt64.add_assoc, ← UInt64.ofNat_add]
    exact h.frame _ (show 12 + j < 16 by omega)

/-- Whatever memory holds, it holds it as the data of a routine whose cached cells are zero. -/
theorem exists_of_ram (L : Layout) (cached : Nat) (ram : Ram) :
    ∃ was m, (∀ i : UInt16, i.toNat < cached → m.get i = 0) ∧
      Holds L 0 cached was m (recorded L ram) ram := by
  refine ⟨readCells ram L.memory, ⟨Vector.ofFn fun i => if i.val < cached then 0 else
    (readCells ram L.memory).get (UInt16.ofNat i.val)⟩, fun i hi => ?_, fun i => ?_, rfl, rfl⟩
  · simp [Memory.get, hi]
  · rw [← get_readCells]
    by_cases hi : i.toNat < cached <;> simp [Memory.get, hi]

/-- Only the bytes of the array and of the record count. -/
theorem congr (h : Holds L written cached was m fault ram)
    (hmem : Agree ram ram' L.memory memoryBytes)
    (hpc : Agree ram ram' (L.field frameFaultPc) 4)
    (htarget : Agree ram ram' (L.field frameFaultTarget) 4) :
    Holds L written cached was m fault ram' where
  cells i := by
    rw [← h.cells i]
    exact (hmem.sub (Layout.cell_room i)).load32
  faultPc := hpc.load32.trans h.faultPc
  faultTarget := htarget.load32.trans h.faultTarget

/-- A store to the stack touches none of the data. -/
theorem store_stack (hL : L.Separate stack n) (h : Holds L written cached was m fault ram)
    {p : Nat} (hp : p + 8 ≤ n) (w : UInt64) :
    Holds L written cached was m fault (ram.store64 (stack + UInt64.ofNat p) w) := by
  have hframe : Apart (stack + UInt64.ofNat p) 8 L.frame frameBytes := hL.frame_stack.symm.sub hp
  refine h.congr (.store64 (hL.memory_stack.symm.sub hp) w) (.store64 ?_ w) (.store64 ?_ w)
  · rw [Layout.field_eq]
    exact hframe.sub_right (by decide)
  · rw [Layout.field_eq]
    exact hframe.sub_right (by decide)

/-- A store to a cell that is not cached. -/
theorem store_cell (hL : L.Separate stack n) (h : Holds L written cached was m fault ram)
    (hi : cached ≤ i.toNat) (v : UInt32) :
    Holds L written cached was (m.set i v) fault (ram.store32 (L.cell i) v) where
  cells j := by
    rw [Memory.get_set]
    by_cases hij : i = j
    · subst hij
      rw [Ram.load32_store32, if_neg (by omega), if_pos rfl]
    · rw [Ram.load32_store32_of_apart (L.cell_apart hij), h.cells, if_neg hij]
  faultPc := by
    rw [Ram.load32_store32_of_apart, h.faultPc]
    rw [Layout.field_eq]
    exact (cell_apart_frame hL i).sub_right (by decide)
  faultTarget := by
    rw [Ram.load32_store32_of_apart, h.faultTarget]
    rw [Layout.field_eq]
    exact (cell_apart_frame hL i).sub_right (by decide)

/-- A change of a cached cell leaves the data alone. -/
theorem set_cached (h : Holds L 0 cached was m fault ram) (hi : i.toNat < cached) (v : UInt32) :
    Holds L 0 cached was (m.set i v) fault ram where
  cells j := by
    rw [h.cells, Memory.get_set]
    by_cases hij : i = j
    · subst hij
      rw [if_pos ⟨Nat.zero_le _, hi⟩, if_pos ⟨Nat.zero_le _, hi⟩]
    · rw [if_neg hij]
  faultPc := h.faultPc
  faultTarget := h.faultTarget

/-- The first of the cached cells that are still to be written is written. -/
theorem write_back (hL : L.Separate stack n) (h : Holds L i.toNat cached was m fault ram) :
    Holds L (i.toNat + 1) cached was m fault (ram.store32 (L.cell i) (m.get i)) where
  cells j := by
    by_cases hij : i = j
    · subst hij
      rw [Ram.load32_store32, if_neg (by omega)]
    · have hne : i.toNat ≠ j.toNat := fun heq => hij (UInt16.toNat_inj.mp heq)
      rw [Ram.load32_store32_of_apart (L.cell_apart hij), h.cells]
      by_cases hj : i.toNat ≤ j.toNat ∧ j.toNat < cached
      · rw [if_pos hj, if_pos (by omega)]
      · rw [if_neg hj, if_neg (by omega)]
  faultPc := by
    rw [Ram.load32_store32_of_apart, h.faultPc]
    rw [Layout.field_eq]
    exact (cell_apart_frame hL i).sub_right (by decide)
  faultTarget := by
    rw [Ram.load32_store32_of_apart, h.faultTarget]
    rw [Layout.field_eq]
    exact (cell_apart_frame hL i).sub_right (by decide)

/-- A branch that leaves the program is recorded. -/
theorem store_fault (hL : L.Separate stack n) (h : Holds L written cached was m fault ram)
    (pc' target' : UInt32) :
    Holds L written cached was m (pc', target')
      ((ram.store32 (L.field frameFaultPc) pc').store32 (L.field frameFaultTarget) target') where
  cells i := by
    rw [Ram.load32_store32_of_apart, Ram.load32_store32_of_apart, h.cells]
    · exact (field_apart_memory hL (by decide)).sub_right (Layout.cell_room i)
    · exact (field_apart_memory hL (by decide)).sub_right (Layout.cell_room i)
  faultPc := by
    rw [Ram.load32_store32_of_apart, Ram.load32_store32]
    exact (field_apart_field L (by decide)).symm
  faultTarget := Ram.load32_store32 _ _ _

/-- The final registers do not touch the record. -/
theorem store_registers (hL : L.Separate stack n) (h : Holds L written cached was m fault ram)
    (a b : UInt32) :
    Holds L written cached was m fault
      ((ram.store32 (L.field frameA) a).store32 (L.field frameB) b) := by
  have ha : Agree ram (ram.store32 (L.field frameA) a) L.memory memoryBytes :=
    .store32 (field_apart_memory hL (by decide)) a
  refine h.congr (ha.trans (.store32 (field_apart_memory hL (by decide)) b)) ?_ ?_
  · exact Agree.trans (.store32 (field_apart_field L (by decide)) a)
      (.store32 (field_apart_field L (by decide)) b)
  · exact Agree.trans (.store32 (field_apart_field L (by decide)) a)
      (.store32 (field_apart_field L (by decide)) b)

/-- Once all cached cells are written, the array is the memory. -/
theorem readCells_eq (h : Holds L cached cached was m fault ram) :
    readCells ram L.memory = m := by
  refine Memory.ext_get fun i => ?_
  have hcell := h.cells i
  rw [if_neg (by omega)] at hcell
  rw [get_readCells, hcell]

end Holds

end Native

/-! ### What a routine may access -/

namespace Layout

/-- An access, given by its address and its number of bytes, is to a cell from `first` on, to a
field of the frame, or to one of the lowest `slots` words of the stack. -/
inductive Grants (L : Layout) (first : Nat) (stack : UInt64) (slots : Nat) :
    UInt64 × Nat → Prop where
  | cell (i : UInt16) : first ≤ i.toNat → Grants L first stack slots (L.cell i, 4)
  | field (o : UInt32) : o ∈ [0, 4, 8, 12] → Grants L first stack slots (L.field o, 4)
  | slot (j : Nat) : j < slots → Grants L first stack slots (stack + UInt64.ofNat (8 * j), 8)

theorem offset_cases {o : UInt32} (h : o ∈ [0, 4, 8, 12]) : o = 0 ∨ o = 4 ∨ o = 8 ∨ o = 12 := by
  simpa only [List.mem_cons, List.not_mem_nil, or_false] using h

namespace Grants

variable {L : Layout} {first slots n : Nat} {stack : UInt64} {x : UInt64 × Nat}

theorem mono {first' slots' : Nat} (h : L.Grants first stack slots x) (hf : first' ≤ first)
    (hs : slots ≤ slots') : L.Grants first' stack slots' x := by
  cases h with
  | cell i hi => exact .cell i (by omega)
  | field o ho => exact .field o ho
  | slot j hj => exact .slot j (by omega)

theorem field_room {o : UInt32} (h : o ∈ [0, 4, 8, 12]) : o.toNat + 4 ≤ frameBytes := by
  rcases offset_cases h with rfl | rfl | rfl | rfl <;> decide

/-- Cells below the first are left alone. -/
theorem apart_cell (h : L.Grants first stack slots x) (hL : L.Separate stack n)
    (hslots : 8 * slots ≤ n) {j : UInt16} (hj : j.toNat < first) :
    Apart x.1 x.2 (L.cell j) 4 := by
  cases h with
  | cell i hi => exact L.cell_apart (by rintro rfl; omega)
  | field o ho =>
    exact (Native.field_apart_memory hL (field_room ho)).sub_right (cell_room j)
  | slot k hk =>
    have hcell : Apart (L.cell j) 4 (stack + UInt64.ofNat (8 * k)) 8 :=
      (Native.cell_apart_stack hL j).sub_right (by omega)
    exact hcell.symm

end Grants

end Layout

end Dyad
