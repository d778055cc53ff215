import Dyad.Code.Instruction
import Dyad.Text.Numeral

/-!
The state of a run: two registers, the index of the next instruction, and a memory of 65536 cells of
32 bits. A cell's index has 16 bits, so every access is in range.
-/

namespace Dyad

def memoryCells : Nat := 65536

structure Memory where
  cells : Vector UInt32 memoryCells
  deriving DecidableEq

namespace Memory

def zero : Memory := ⟨Vector.replicate memoryCells 0⟩

instance : Inhabited Memory := ⟨zero⟩

theorem index_lt (i : UInt16) : i.toNat < memoryCells := i.toNat_lt

def get (m : Memory) (i : UInt16) : UInt32 :=
  have := index_lt i
  m.cells[i.toNat]

def set (m : Memory) (i : UInt16) (v : UInt32) : Memory :=
  ⟨m.cells.set i.toNat v (index_lt i)⟩

/-- The cells other than zero, by ascending index. -/
def nonZero (m : Memory) : List (Nat × UInt32) :=
  (m.cells.toArray.foldl
    (fun (found, i) v => (if v = 0 then found else found.push (i, v), i + 1))
    ((#[], 0) : Array (Nat × UInt32) × Nat)).1.toList

/-- A summary: the number of cells, the number of those in use, and the first three. -/
def describe (m : Memory) : String :=
  let number (n : Nat) := String.ofList (Numeral.decimal n)
  "Memory \x7b cells: " ++ number memoryCells ++ ", non_zero: " ++ number m.nonZero.length ++
    ", head: [" ++
    String.intercalate ", " ([0, 1, 2].map fun i => number (m.get i).toNat) ++ "] \x7d"

@[simp] theorem get_zero (i : UInt16) : zero.get i = 0 := by
  simp [zero, get]

@[simp] theorem get_set (m : Memory) (i j : UInt16) (v : UInt32) :
    (m.set i v).get j = if i = j then v else m.get j := by
  simp [get, set, Vector.getElem_set, UInt16.toNat_inj]

theorem ext_get {m n : Memory} (h : ∀ i, m.get i = n.get i) : m = n := by
  obtain ⟨cs⟩ := m
  obtain ⟨ds⟩ := n
  congr 1
  ext i hi
  have hi' : (UInt16.ofNat i).toNat = i := Nat.mod_eq_of_lt hi
  simpa only [get, hi', UInt32.toNat_inj] using h (UInt16.ofNat i)

end Memory

/-- What the two registers hold. -/
structure Registers where
  a : UInt32 := 0
  b : UInt32 := 0
  deriving DecidableEq, Repr

namespace Registers

def get (rs : Registers) : Register → UInt32
  | .a => rs.a
  | .b => rs.b

def set (rs : Registers) : Register → UInt32 → Registers
  | .a, v => { rs with a := v }
  | .b, v => { rs with b := v }

@[simp] theorem get_set (rs : Registers) (r r' : Register) (v : UInt32) :
    (rs.set r v).get r' = if r = r' then v else rs.get r' := by
  cases r <;> cases r' <;> rfl

end Registers

structure State where
  registers : Registers := {}
  pc : Nat := 0
  memory : Memory := Memory.zero
  deriving DecidableEq

namespace State

/-- The state in which every run starts. -/
def fresh : State := {}

instance : Inhabited State := ⟨fresh⟩

def register (s : State) (r : Register) : UInt32 := s.registers.get r

def setRegister (s : State) (r : Register) (v : UInt32) : State :=
  { s with registers := s.registers.set r v }

def setMemory (s : State) (i : UInt16) (v : UInt32) : State :=
  { s with memory := s.memory.set i v }

/-- The state with its fields named. -/
def describe (s : State) : String :=
  let number (n : Nat) := String.ofList (Numeral.decimal n)
  "VmState \x7b registers: [" ++ number s.registers.a.toNat ++ ", " ++
    number s.registers.b.toNat ++ "], pc: " ++ number s.pc ++ ", memory: " ++
    s.memory.describe ++ " \x7d"

end State

end Dyad
