import Dyad.Native.Image
import Dyad.Native.Ram
import Dyad.Output.Printer

/-!
What the two machines have in common that compiled code runs on: registers of 64 bits, memory by
the byte, and a position in the code, where each step decodes an instruction and carries it out.
Calls of the print function are recorded with their arguments.
-/

namespace Dyad.Native

/-! ### Calls -/

/-- The arguments of a call of the print function. -/
structure Call where
  frame : UInt64
  register : UInt32
  value : UInt32
  deriving DecidableEq, Repr

namespace Call

/-- What the call prints. -/
def print (c : Call) : Print := ⟨if c.register = 0 then .a else .b, c.value⟩

end Call

/-- How a run of native code stands. -/
inductive Status where
  | running
  /-- The routine has returned to this address. -/
  | returned (address : UInt64)
  /-- The bytes are no instruction, or a call went elsewhere than to the print function. -/
  | stuck
  deriving DecidableEq, Repr

/-! ### Registers -/

/-- The general registers of a machine are numbered. -/
class RegisterSet (R : Type) where
  count : Nat
  index : R → Fin count
  ofIndex : Fin count → R
  ofIndex_index : ∀ r, ofIndex (index r) = r

/-- What the registers hold. -/
structure RegFile (R : Type) [RegisterSet R] where
  cells : Vector UInt64 (RegisterSet.count R)

namespace RegFile

variable {R : Type} [RegisterSet R]

def ofFn (f : R → UInt64) : RegFile R := ⟨Vector.ofFn fun i => f (RegisterSet.ofIndex i)⟩

def get (rs : RegFile R) (r : R) : UInt64 := rs.cells[RegisterSet.index r]

def set (rs : RegFile R) (r : R) (v : UInt64) : RegFile R :=
  ⟨rs.cells.set (RegisterSet.index r).val v⟩

/-- The lower half. -/
def get32 (rs : RegFile R) (r : R) : UInt32 := (rs.get r).toUInt32

/-- A write to the lower half clears the upper half. -/
def set32 (rs : RegFile R) (r : R) (v : UInt32) : RegFile R := rs.set r v.toUInt64

/-- Puts what a called function leaves into the registers that it need not keep. -/
def trample (rs : RegFile R) (callerSaved : List R) (leaves : R → UInt64) : RegFile R :=
  callerSaved.foldl (fun rs r => rs.set r (leaves r)) rs

theorem index_inj {r s : R} : RegisterSet.index r = RegisterSet.index s ↔ r = s :=
  ⟨fun h => by rw [← RegisterSet.ofIndex_index r, h, RegisterSet.ofIndex_index],
    fun h => h ▸ rfl⟩

theorem get_set [DecidableEq R] (rs : RegFile R) (r s : R) (v : UInt64) :
    (rs.set r v).get s = if r = s then v else rs.get s := by
  simp only [get, set, Fin.getElem_fin, Vector.getElem_set, Fin.val_inj, index_inj]

@[simp] theorem get_set_self (rs : RegFile R) (r : R) (v : UInt64) : (rs.set r v).get r = v := by
  simp [get, set]

theorem get_set_of_ne (rs : RegFile R) {r s : R} (h : r ≠ s) (v : UInt64) :
    (rs.set r v).get s = rs.get s := by
  have hne : (RegisterSet.index r).val ≠ (RegisterSet.index s).val :=
    fun heq => h (index_inj.mp (Fin.val_inj.mp heq))
  simp [get, set, hne]

theorem set_set (rs : RegFile R) (r : R) (v w : UInt64) : (rs.set r v).set r w = rs.set r w := by
  simp only [set, Vector.set_set]

theorem get32_set32 [DecidableEq R] (rs : RegFile R) (r s : R) (v : UInt32) :
    (rs.set32 r v).get32 s = if r = s then v else rs.get32 s := by
  rw [get32, set32, get_set]
  split
  · exact UInt32.toUInt32_toUInt64 v
  · rfl

theorem get32_set_of_ne (rs : RegFile R) {r s : R} (h : r ≠ s) (v : UInt64) :
    (rs.set r v).get32 s = rs.get32 s := by
  rw [get32, get_set_of_ne rs h, get32]

theorem get_set32_of_ne (rs : RegFile R) {r s : R} (h : r ≠ s) (v : UInt32) :
    (rs.set32 r v).get s = rs.get s :=
  get_set_of_ne rs h _

/-- A call leaves the registers alone that the called function must keep. -/
theorem get_trample (rs : RegFile R) {callerSaved : List R} (leaves : R → UInt64) {r : R}
    (h : r ∉ callerSaved) : (rs.trample callerSaved leaves).get r = rs.get r := by
  unfold trample
  induction callerSaved generalizing rs with
  | nil => rfl
  | cons q callerSaved ih =>
    rw [List.mem_cons, not_or] at h
    rw [List.foldl_cons, ih _ h.2, get_set_of_ne _ (Ne.symm h.1)]

end RegFile

/-! ### Instructions -/

/-- What an addition or a subtraction makes of two words. -/
inductive Alu where
  | add
  | sub
  deriving DecidableEq, Repr

namespace Alu

def apply32 : Alu → UInt32 → UInt32 → UInt32
  | add, x, y => x + y
  | sub, x, y => x - y

end Alu

/-- The instructions of a machine, as bytes. -/
class InstructionSet (I : Type) where
  encode : I → List UInt8
  /-- The instruction at the front, and the number of bytes it takes. -/
  decode : List UInt8 → Option (I × Nat)
  encode_ne_nil : ∀ i, encode i ≠ []

section

variable {R S I : Type} [RegisterSet R] [InstructionSet I]

/-- The number of bytes of an instruction. -/
def size (i : I) : Nat := (InstructionSet.encode i).length

theorem size_pos (i : I) : 0 < size i :=
  List.length_pos_iff.mpr (InstructionSet.encode_ne_nil i)

/-! ### Machines -/

structure Cpu (R S : Type) [RegisterSet R] where
  regs : RegFile R
  /-- The registers that are not general ones. -/
  special : S
  /-- The position in the code. -/
  ip : Nat := 0
  ram : Ram
  /-- Calls of the print function, oldest first. -/
  calls : Array Call := #[]

/-- How a machine carries out an instruction, if the next one is at a given position. -/
abbrev Semantics (R S I : Type) [RegisterSet R] : Type :=
  (next : Nat) → Cpu R S → I → Cpu R S × Status

/-- Carries out the instruction at the current position. -/
def step (exec : Semantics R S I) (code : Image) (c : Cpu R S) : Cpu R S × Status :=
  match InstructionSet.decode (code.drop c.ip) with
  | none => (c, .stuck)
  | some (i, n) => exec (c.ip + n) c i

end

/-- Takes steps until the code returns or is stuck, at most `limit` of them. -/
def runFor {C : Type} (step : C → C × Status) : (limit : Nat) → C → C × Status
  | 0, c => (c, .running)
  | limit + 1, c =>
    match step c with
    | (c, .running) => runFor step limit c
    | (c, status) => (c, status)

end Dyad.Native
