import Dyad.Machine.State
import Dyad.Native.Ram

/-!
Where a routine keeps its data: the addresses baked into it, the fields of its frame, and how many
memory cells may live in host registers.
-/

namespace Dyad

/-- The host registers set aside for memory cells. -/
def maxCachedCells : Nat := 3

/-- Addresses baked into a routine. -/
structure Layout where
  /-- The first of the 65536 cells. -/
  memory : UInt64
  /-- The record through which a routine hands back its result. -/
  frame : UInt64
  /-- The function that prints. -/
  print : UInt64
  deriving DecidableEq, Repr

namespace Layout

/-! Offsets of the frame's fields: the registers at the end of the run, and for a branch that left
the program its own index plus one, and its target. -/

def frameA : UInt32 := 0

def frameB : UInt32 := 4

def frameFaultPc : UInt32 := 8

def frameFaultTarget : UInt32 := 12

/-- The number of bytes of the memory array. -/
def memoryBytes : Nat := 4 * memoryCells

/-- The number of bytes of the frame that a routine writes to. -/
def frameBytes : Nat := 16

/-- Zeroes the memory array and the frame. -/
def clear (L : Layout) (ram : Ram) : Ram :=
  (ram.clear L.memory memoryBytes).clear L.frame frameBytes

end Layout

end Dyad
