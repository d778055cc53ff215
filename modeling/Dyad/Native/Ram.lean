import Dyad.Native.LittleEndian
import Std.Data.HashMap

/-!
The memory that native code sees: a byte for every 64-bit address. One window of it is kept
densely, because a routine works there most of the time, and the rest in a table; `get_set` hides
the difference.
-/

namespace Dyad

structure Ram where
  /-- The first address of the window. -/
  base : UInt64
  window : Array UInt8
  /-- Bytes outside the window. Absent ones are zero. -/
  rest : Std.HashMap UInt64 UInt8 := {}

namespace Ram

/-- A window of `size` bytes at `base`, all of them `v`. -/
def filled (base : UInt64) (size : Nat) (v : UInt8) : Ram where
  base
  window := Array.replicate size v

/-- All zero, with a window of `size` bytes at `base`. -/
def zero (base : UInt64) (size : Nat) : Ram := filled base size 0

instance : Inhabited Ram := ⟨zero 0 0⟩

def get (m : Ram) (a : UInt64) : UInt8 :=
  let i := (a - m.base).toNat
  if _ : i < m.window.size then m.window[i] else m.rest.getD a 0

def set (m : Ram) (a : UInt64) (v : UInt8) : Ram :=
  let i := (a - m.base).toNat
  if h : i < m.window.size then { m with window := m.window.set i v h }
  else { m with rest := m.rest.insert a v }

def load32 (m : Ram) (a : UInt64) : UInt32 :=
  LittleEndian.word32 (m.get a) (m.get (a + 1)) (m.get (a + 2)) (m.get (a + 3))

def load64 (m : Ram) (a : UInt64) : UInt64 :=
  LittleEndian.word64 (m.get a) (m.get (a + 1)) (m.get (a + 2)) (m.get (a + 3))
    (m.get (a + 4)) (m.get (a + 5)) (m.get (a + 6)) (m.get (a + 7))

def store32 (m : Ram) (a : UInt64) (v : UInt32) : Ram :=
  (((m.set a v.toUInt8).set (a + 1) (v >>> 8).toUInt8).set (a + 2) (v >>> 16).toUInt8).set
    (a + 3) (v >>> 24).toUInt8

def store64 (m : Ram) (a : UInt64) (v : UInt64) : Ram :=
  (m.store32 a v.toUInt32).store32 (a + 4) (v >>> 32).toUInt32

/-- Zeroes `n` bytes from `a` on, the last one first. -/
def clear (m : Ram) (a : UInt64) : (n : Nat) → Ram
  | 0 => m
  | n + 1 => clear (m.set (a + UInt64.ofNat n) 0) a n

theorem get_zero (base : UInt64) (size : Nat) (a : UInt64) : (zero base size).get a = 0 := by
  simp [zero, filled, get]

private theorem sub_base_inj {a b base : UInt64} (h : (a - base).toNat = (b - base).toNat) :
    a = b := by
  have h := UInt64.toNat_inj.mp h
  rw [← UInt64.sub_add_cancel a base, h, UInt64.sub_add_cancel]

theorem get_set (m : Ram) (a b : UInt64) (v : UInt8) :
    (m.set a v).get b = if a = b then v else m.get b := by
  unfold set
  by_cases ha : (a - m.base).toNat < m.window.size
  · simp only [ha, ↓reduceDIte, get, Array.size_set, Array.getElem_set]
    by_cases hab : a = b
    · subst hab
      simp [ha]
    · have hne : (a - m.base).toNat ≠ (b - m.base).toNat := fun h => hab (sub_base_inj h)
      simp [hab, hne]
  · simp only [ha, ↓reduceDIte, get]
    by_cases hab : a = b
    · subst hab
      simp [ha]
    · simp [hab, Std.HashMap.getD_insert]

theorem get_clear_of_zero {m : Ram} {b : UInt64} (h : m.get b = 0) (a : UInt64) (n : Nat) :
    (m.clear a n).get b = 0 := by
  induction n generalizing m with
  | zero => exact h
  | succ n ih => exact ih (by rw [get_set, h, ite_self])

theorem get_clear (m : Ram) (a : UInt64) {n j : Nat} (hj : j < n) :
    (m.clear a n).get (a + UInt64.ofNat j) = 0 := by
  induction n generalizing m with
  | zero => cases hj
  | succ n ih =>
    rcases Nat.lt_succ_iff_lt_or_eq.mp hj with hlt | rfl
    · exact ih _ hlt
    · have hlast : (m.set (a + UInt64.ofNat j) 0).get (a + UInt64.ofNat j) = 0 := by
        rw [get_set, if_pos rfl]
      exact get_clear_of_zero hlast a j

-- a quarter of a million stores for a memory array, which no proof should ever carry out
attribute [irreducible] clear

end Ram

end Dyad
