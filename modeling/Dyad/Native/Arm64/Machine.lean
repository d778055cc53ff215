import Dyad.Native.Arm64.Instr

/-!
Execution of ARM64 instructions. A write to the lower half of a register clears the upper half. A
call of the print function is one step: it records its arguments, keeps the registers that a called
function must keep, and may leave anything in the others and in the link register.
-/

namespace Dyad.Arm64

open Native (Call Status)

/-- What surrounds a routine. -/
structure Host where
  /-- The address of the print function. -/
  print : UInt64
  /-- What the `n`-th call leaves in a register that it need not keep. -/
  leaves : Nat → Reg → UInt64

/-- The registers that are not general ones. -/
structure Special where
  sp : UInt64
  deriving DecidableEq

abbrev Cpu : Type := Native.Cpu Reg Special

/-- The place value of a 16-bit field. -/
def Quarter.unit : Quarter → UInt64
  | q0 => 0x1
  | q1 => 0x10000
  | q2 => 0x100000000
  | q3 => 0x1000000000000

/-- Replaces one 16-bit field of a word. -/
def setField (v : UInt64) (field : Quarter) (imm : UInt16) : UInt64 :=
  v - v / field.unit % 0x10000 * field.unit + imm.toUInt64 * field.unit

/-- Writes a whole register, or its lower half. -/
def write (c : Cpu) (ip : Nat) (wide : Bool) (dst : Reg) (v : UInt64) : Cpu × Status :=
  ({ c with regs := if wide then c.regs.set dst v else c.regs.set32 dst v.toUInt32, ip }, .running)

/-- Continues `distance` instructions from the current one. -/
def jump (c : Cpu) (distance : Int) : Cpu × Status :=
  let target : Int := c.ip + 4 * distance
  if 0 ≤ target then ({ c with ip := target.toNat }, .running) else (c, .stuck)

/-- Carries out the instruction at the current position, which ends at position `ip`. -/
def exec (host : Host) (ip : Nat) (c : Cpu) : Instr → Cpu × Status
  | .pushPair first second =>
    let sp := c.special.sp - 16
    let ram := (c.ram.store64 sp (c.regs.get first)).store64 (sp + 8) (c.regs.get second)
    ({ c with special := ⟨sp⟩, ram, ip }, .running)
  | .popPair first second =>
    let sp := c.special.sp
    let regs := (c.regs.set first (c.ram.load64 sp)).set second (c.ram.load64 (sp + 8))
    ({ c with regs, special := ⟨sp + 16⟩, ip }, .running)
  | .moveFromSp dst => write c ip true dst c.special.sp
  | .movz wide dst imm field => write c ip wide dst (setField 0 field imm)
  | .movk wide dst imm field => write c ip wide dst (setField (c.regs.get dst) field imm)
  | .mov wide dst src => write c ip wide dst (c.regs.get src)
  | .alu op dst left right =>
    ({ c with
      regs := c.regs.set32 dst (op.apply32 (c.regs.get32 left) (c.regs.get32 right)), ip },
      .running)
  | .loadScaled dst base index =>
    ({ c with
      regs := c.regs.set32 dst (c.ram.load32 (c.regs.get base + 4 * c.regs.get index)), ip },
      .running)
  | .storeScaled src base index =>
    ({ c with
      ram := c.ram.store32 (c.regs.get base + 4 * c.regs.get index) (c.regs.get32 src), ip },
      .running)
  | .store src base offset =>
    ({ c with
      ram := c.ram.store32 (c.regs.get base + 4 * offset.toNat.toUInt64) (c.regs.get32 src), ip },
      .running)
  | .branchIfZero r distance =>
    if c.regs.get32 r = 0 then jump c distance.toInt else ({ c with ip }, .running)
  | .branch distance => jump c distance.toInt
  | .call r =>
    if c.regs.get r = host.print then
      let n := c.calls.size
      let made : Call := ⟨c.regs.get .x0, c.regs.get32 .x1, c.regs.get32 .x2⟩
      let regs := c.regs.trample Reg.callerSaved (host.leaves n)
      ({ c with regs, ip, calls := c.calls.push made }, .running)
    else (c, .stuck)
  | .ret => (c, .returned (c.regs.get .x30))

end Dyad.Arm64
