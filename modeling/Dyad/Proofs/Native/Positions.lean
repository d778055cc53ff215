import Dyad.Native.Generator

/-!
Positions and distances in generated code: the start of a piece is the number of bytes before it,
and a distance that fits in 32 bits survives being written and read as a signed word.
-/

namespace Dyad.Native

/-- What the folding in `starts` has pushed after its accumulator. -/
theorem foldl_starts (sizes : List Nat) (acc : Array Nat) (stop : Nat) :
    (sizes.foldl (fun (acc : Array Nat × Nat) size => (acc.1.push (acc.2 + size), acc.2 + size))
      (acc, stop)).1.toList =
        acc.toList ++
          (List.range sizes.length).map fun i => (sizes.take (i + 1)).foldl (· + ·) stop := by
  induction sizes generalizing acc stop with
  | nil => simp
  | cons size sizes ih =>
    rw [List.foldl_cons, ih, List.length_cons, List.range_succ_eq_map]
    simp

/-- A piece starts where the pieces before it end. -/
theorem starts_getD (start : Nat) {sizes : List Nat} {i : Nat} (h : i ≤ sizes.length) :
    (starts start sizes).getD i 0 = (sizes.take i).foldl (· + ·) start := by
  have hlist : (starts start sizes).toList =
      (List.range (sizes.length + 1)).map fun i => (sizes.take i).foldl (· + ·) start := by
    rw [starts, foldl_starts, List.range_succ_eq_map]
    simp
  have hget : (starts start sizes).toList[i]? = some ((sizes.take i).foldl (· + ·) start) := by
    rw [hlist, List.getElem?_map, List.getElem?_range (by omega), Option.map_some]
  rw [Array.getD_eq_getD_getElem?, ← Array.getElem?_toList, hget, Option.getD_some]

theorem starts_zero (start : Nat) (sizes : List Nat) : (starts start sizes).getD 0 0 = start :=
  starts_getD start (Nat.zero_le _)

theorem starts_succ (start : Nat) {sizes : List Nat} {i : Nat} (h : i < sizes.length) :
    (starts start sizes).getD (i + 1) 0 = (starts start sizes).getD i 0 + sizes[i] := by
  rw [starts_getD start h, starts_getD start (by omega), List.take_succ_eq_append_getElem h,
    List.foldl_append]
  rfl

/-- Starts of pieces that are not empty, in order. -/
theorem start_le_start {start : Nat → Nat} {size l m : Nat}
    (h : ∀ l < size, start l < start (l + 1)) (hlm : l ≤ m) (hm : m ≤ size) :
    start l ≤ start m := by
  induction hlm with
  | refl => exact Nat.le_refl _
  | step hlm ih => exact Nat.le_trans (ih (Nat.le_of_succ_le hm)) (Nat.le_of_lt (h _ hm))

/-- Starts of pieces of at most `bound` bytes, in order. -/
theorem start_le_add {start : Nat → Nat} {size bound l m : Nat}
    (h : ∀ l < size, start (l + 1) ≤ start l + bound) (hlm : l ≤ m) (hm : m ≤ size) :
    start m ≤ start l + bound * (m - l) := by
  induction hlm with
  | refl => exact Nat.le_add_right _ _
  | @step m hlm ih =>
    have hpiece : start (m + 1) ≤ start m + bound := h m hm
    have hbefore := ih (Nat.le_of_succ_le hm)
    rw [Nat.succ_sub hlm, Nat.mul_succ, Nat.succ_eq_add_one]
    omega

/-- Starts of pieces of at least `least` bytes, in order. -/
theorem add_le_start {start : Nat → Nat} {size least l m : Nat}
    (h : ∀ l < size, start l + least ≤ start (l + 1)) (hlm : l ≤ m) (hm : m ≤ size) :
    start l + least * (m - l) ≤ start m := by
  induction hlm with
  | refl =>
    rw [Nat.sub_self]
    exact Nat.le_refl _
  | @step m hlm ih =>
    have hpiece : start m + least ≤ start (m + 1) := h m hm
    have hbefore := ih (Nat.le_of_succ_le hm)
    rw [Nat.succ_sub hlm, Nat.mul_succ, Nat.succ_eq_add_one]
    omega

/-- Pieces that are at most `d` pieces apart are not many bytes apart. -/
theorem start_near {start : Nat → Nat} {size bound l m d : Nat}
    (hpos : ∀ l < size, start l < start (l + 1))
    (hbound : ∀ l < size, start (l + 1) ≤ start l + bound) (hl : l ≤ size) (hm : m ≤ size)
    (hlm : l ≤ m + d) (hml : m ≤ l + d) :
    start l ≤ start m + bound * d ∧ start m ≤ start l + bound * d := by
  have ordered {a b : Nat} (hab : a ≤ b) (hb : b ≤ size) (hd : b ≤ a + d) :
      start a ≤ start b ∧ start b ≤ start a + bound * d := by
    have hfar := start_le_add hbound hab hb
    have hfew : bound * (b - a) ≤ bound * d := Nat.mul_le_mul_left bound (by omega)
    exact ⟨start_le_start hpos hab hb, by omega⟩
  rcases Nat.le_total l m with h | h
  · obtain ⟨hle, hnear⟩ := ordered h hm hml
    exact ⟨by omega, hnear⟩
  · obtain ⟨hle, hnear⟩ := ordered h hl hlm
    exact ⟨hnear, by omega⟩

/-- No piece starts inside another. -/
theorem ne_start_of_between {start : Nat → Nat} {size pc position : Nat}
    (h : ∀ l < size, start l < start (l + 1)) (hpc : pc < size) (hlo : start pc < position)
    (hhi : position < start (pc + 1)) : ∀ l ≤ size, position ≠ start l := by
  rintro l hl rfl
  rcases Nat.lt_or_ge pc l with hlt | hle
  · exact Nat.not_lt.mpr (start_le_start h hlt hl) hhi
  · exact Nat.not_lt.mpr (start_le_start h hle (Nat.le_of_lt hpc)) hlo

/-- The position is in the block of an instruction that prints `r`. -/
def Printing (label : Nat → Nat) (code : List Instruction) (position : Nat) (r : Register) : Prop :=
  ∃ pc, ∃ h : pc < code.length, code[pc].opcode = .print ∧ code[pc].register = r ∧
    label pc ≤ position ∧ position < label (pc + 1)

/-- A distance within reach is read back as it was written. -/
theorem signedWord_wordOfInt {d : Int} (hlo : -0x80000000 ≤ d) (hhi : d < 0x80000000) :
    signedWord (wordOfInt d) = d := by
  have hnat : (wordOfInt d).toNat = (d % 0x100000000).toNat := by
    rw [wordOfInt, UInt32.toNat_ofNat']
    omega
  rw [signedWord, hnat]
  split <;> omega

/-- A distance within reach leads from `stop` to `l`. -/
theorem add_signedWord_sub {l stop : Nat} (hlo : stop ≤ l + 0x80000000)
    (hhi : l < stop + 0x80000000) : (stop : Int) + signedWord (wordOfInt (l - stop)) = l := by
  rw [signedWord_wordOfInt (by omega) (by omega)]
  omega

theorem toNat_wordOfInt {n : Nat} (h : n < 0x100000000) : (wordOfInt n).toNat = n := by
  rw [wordOfInt, UInt32.toNat_ofNat']
  omega

theorem branchOffset_bounds (i : Instruction) :
    -0x8000 ≤ i.branchOffset ∧ i.branchOffset < 0x8000 := by
  have := i.immediate.toNat_lt
  rw [Instruction.branchOffset]
  split <;> omega

/-- A branch leads to an instruction that is near the next one. -/
theorem branchTarget_near (i : Instruction) (pc : Nat) (h : 0 ≤ i.branchTarget pc) :
    pc + 1 ≤ (i.branchTarget pc).toNat + 0x8000 ∧
      (i.branchTarget pc).toNat ≤ pc + 1 + 0x8000 := by
  have := branchOffset_bounds i
  rw [Instruction.branchTarget] at h ⊢
  omega

theorem branchLabel?_eq_some {i : Instruction} {pc size : Nat} (h0 : 0 ≤ i.branchTarget pc)
    (h1 : i.branchTarget pc ≤ size) :
    branchLabel? i pc size = some (i.branchTarget pc).toNat := by
  rw [branchLabel?, if_pos ⟨h0, h1⟩]

theorem branchLabel?_eq_none {i : Instruction} {pc size : Nat}
    (h : ¬ (0 ≤ i.branchTarget pc ∧ i.branchTarget pc ≤ size)) : branchLabel? i pc size = none := by
  rw [branchLabel?, if_neg h]

/-- A short program with a cell, a print, a branch back that is not taken, and one that leaves the
program. -/
def strayProgram : List Instruction :=
  [⟨.loadImmediate, .a, 1⟩, ⟨.storeMemory, .a, 1⟩, ⟨.print, .a, 0⟩,
    ⟨.jumpIfNonZero, .b, 0xfffd⟩, ⟨.jumpIfNonZero, .a, 7⟩]

end Dyad.Native
