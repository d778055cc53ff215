import Dyad.Code.Instruction
import Dyad.Native.Layout
import Dyad.Native.Machine

/-!
Code generation. A generator writes a prologue, one block for each instruction of the program, and
an epilogue. Blocks are written with labels, which are instruction indices, the end of the program
included; a label stands for the first byte of its block, and the label of the end for the first
byte of the epilogue. Since the size of every operation is known, block positions are known before
any distance is.
-/

namespace Dyad.Native

/-- The block to which a taken branch at `pc` leads, if its target is inside `0 ..= size`. The end
of the program counts as a block. -/
def branchLabel? (i : Instruction) (pc size : Nat) : Option Nat :=
  let target := i.branchTarget pc
  if 0 ≤ target ∧ target ≤ size then some target.toNat else none

/-- An integer in 32 bits, two's complement. -/
def wordOfInt (i : Int) : UInt32 := UInt32.ofNat (i % 0x100000000).toNat

/-- Start positions of consecutive pieces, the first at `start`, and last the end of them all. -/
def starts (start : Nat) (sizes : List Nat) : Array Nat :=
  (sizes.foldl (fun (acc : Array Nat × Nat) size => (acc.1.push (acc.2 + size), acc.2 + size))
    (#[start], start)).1

/-! ### Homes -/

/-- The registers in which code keeps the program's registers and the cells that it caches. -/
structure Homes (R : Type) where
  register : Register → R
  /-- The register of a cached cell. -/
  cell : Nat → R
  register_inj : ∀ {r s}, register r = register s ↔ r = s
  cell_inj : ∀ {m n}, m < maxCachedCells → n < maxCachedCells → (cell m = cell n ↔ m = n)
  register_ne_cell : ∀ r n, register r ≠ cell n

namespace Homes

variable {R : Type} (homes : Homes R)

/-- The register of cell `index` if the first `cached` cells are cached. -/
def cell? (cached : Nat) (index : UInt16) : Option R :=
  if index.toNat < cached then some (homes.cell index.toNat) else none

theorem cell?_of_lt {cached : Nat} {index : UInt16} (h : index.toNat < cached) :
    homes.cell? cached index = some (homes.cell index.toNat) :=
  if_pos h

theorem cell?_of_le {cached : Nat} {index : UInt16} (h : cached ≤ index.toNat) :
    homes.cell? cached index = none :=
  if_neg (by omega)

end Homes

/-! ### Operations -/

/-- An instruction, or a branch to a label. -/
inductive Op (I B : Type) where
  | instr (i : I)
  | branch (b : B) (label : Nat)
  deriving DecidableEq, Repr

/-- A code generator for instructions `I` with branches `B`. -/
structure Generator (I B : Type) [InstructionSet I] where
  branchSize : B → Nat
  /-- The branch from a position to a target. -/
  branch : B → (position target : Nat) → I
  size_branch : ∀ b position target, size (branch b position target) = branchSize b
  prologue : Layout → List (Op I B)
  /-- The code for an instruction at index `pc` of a program of `size` instructions. -/
  block : Layout → (cached size pc : Nat) → Instruction → List (Op I B)
  block_ne_nil : ∀ L cached size pc i, block L cached size pc i ≠ []
  epilogue : Layout → (cached : Nat) → List (Op I B)

namespace Generator

variable {I B : Type} [InstructionSet I] (g : Generator I B)

/-- The number of bytes. -/
def opSize : Op I B → Nat
  | .instr i => size i
  | .branch b _ => g.branchSize b

/-- The instruction for an operation at `position`, given where labels are. -/
def link (label : Nat → Nat) (position : Nat) : Op I B → I
  | .instr i => i
  | .branch b l => g.branch b position (label l)

/-- The instructions of a piece of code that starts at `position`. -/
def linkAll (label : Nat → Nat) : (position : Nat) → List (Op I B) → List I
  | _, [] => []
  | position, op :: ops =>
    g.link label position op :: linkAll label (position + g.opSize op) ops

/-- The number of bytes of a piece of code. -/
def totalSize : List (Op I B) → Nat
  | [] => 0
  | op :: ops => g.opSize op + totalSize ops

variable (L : Layout) (cached : Nat) (code : List Instruction)

/-- One block for each instruction, in order. -/
def blocks : List (List (Op I B)) :=
  let size := code.length
  code.zipIdx.map fun (i, pc) => g.block L cached size pc i

/-- Where each label is. -/
def labels : Array Nat :=
  starts (g.totalSize (g.prologue L)) ((g.blocks L cached code).map g.totalSize)

/-- The instructions of the routine for `code`. -/
def instrs : List I :=
  let starts := g.labels L cached code
  let label (l : Nat) := starts.getD l 0
  g.linkAll label 0 (g.prologue L) ++
    (g.blocks L cached code).zipIdx.flatMap (fun (ops, pc) => g.linkAll label (label pc) ops) ++
    g.linkAll label (label code.length) (g.epilogue L cached)

/-- The bytes of the routine for `code`. -/
def assemble : List UInt8 := (g.instrs L cached code).flatMap InstructionSet.encode

end Generator

end Dyad.Native
