import Dyad.Native.X64.Instr

/-!
Execution of x86-64 instructions. Of the flags only the zero flag matters. A call of the print
function is one step: it records its arguments, keeps the registers that a called function must
keep, and may leave anything in the others.
-/

namespace Dyad.X64

open Native (Alu Call Status)

/-- What surrounds a routine. -/
structure Host where
  /-- The address of the first code byte. -/
  codeBase : UInt64
  /-- The address of the print function. -/
  print : UInt64
  /-- What the `n`-th call leaves in a register that it need not keep. -/
  leaves : Nat → Reg → UInt64
  /-- What the `n`-th call leaves in the zero flag. -/
  leavesZero : Nat → Bool

structure Flags where
  zero : Bool := false
  deriving DecidableEq

abbrev Cpu : Type := Native.Cpu Reg Flags

def signExtend8 (b : UInt8) : UInt64 :=
  if b < 0x80 then b.toUInt64 else b.toUInt64 + 0xffffffffffffff00

def signExtend32 (w : UInt32) : UInt64 :=
  if w < 0x80000000 then w.toUInt64 else w.toUInt64 + 0xffffffff00000000

def apply64 : Alu → UInt64 → UInt64 → UInt64
  | .add, x, y => x + y
  | .sub, x, y => x - y

namespace Cond

def holds (zero : Bool) : Cond → Bool
  | always => true
  | .zero => zero
  | nonZero => !zero

end Cond

/-- The address of a memory operand. -/
def address (c : Cpu) (base : Reg) (disp : UInt32) : UInt64 := c.regs.get base + signExtend32 disp

/-- Stores a 32-bit result and sets the zero flag by it. -/
def result (c : Cpu) (ip : Nat) (dst : Reg) (v : UInt32) : Cpu × Status :=
  ({ c with regs := c.regs.set32 dst v, special := ⟨v = 0⟩, ip }, .running)

/-- Calls the function at `target`, to continue at `ip`. The return address is pushed for the
duration of the call. -/
def call (host : Host) (ip : Nat) (target : UInt64) (c : Cpu) : Cpu × Status :=
  if target = host.print then
    let n := c.calls.size
    let made : Call := ⟨c.regs.get .rdi, c.regs.get32 .rsi, c.regs.get32 .rdx⟩
    ({ regs := c.regs.trample Reg.callerSaved (host.leaves n), special := ⟨host.leavesZero n⟩, ip,
       ram := c.ram.store64 (c.regs.get .rsp - 8) (host.codeBase + ip.toUInt64),
       calls := c.calls.push made }, .running)
  else (c, .stuck)

/-- Carries out an instruction that ends at position `ip`. -/
def exec (host : Host) (ip : Nat) (c : Cpu) : Instr → Cpu × Status
  | .push r =>
    let sp := c.regs.get .rsp - 8
    ({ c with ram := c.ram.store64 sp (c.regs.get r), regs := c.regs.set .rsp sp, ip }, .running)
  | .pop r =>
    let sp := c.regs.get .rsp
    ({ c with regs := (c.regs.set .rsp (sp + 8)).set r (c.ram.load64 sp), ip }, .running)
  | .adjust op r imm =>
    let v := apply64 op (c.regs.get r) (signExtend8 imm)
    ({ c with regs := c.regs.set r v, special := ⟨v = 0⟩, ip }, .running)
  | .xor dst src => result c ip dst (c.regs.get32 dst ^^^ c.regs.get32 src)
  | .movAddress dst imm => ({ c with regs := c.regs.set dst imm, ip }, .running)
  | .movImm dst imm => ({ c with regs := c.regs.set32 dst imm, ip }, .running)
  | .mov dst src => ({ c with regs := c.regs.set32 dst (c.regs.get32 src), ip }, .running)
  | .load dst base disp =>
    ({ c with regs := c.regs.set32 dst (c.ram.load32 (address c base disp)), ip }, .running)
  | .store base disp src =>
    ({ c with ram := c.ram.store32 (address c base disp) (c.regs.get32 src), ip }, .running)
  | .storeImm base disp imm =>
    ({ c with ram := c.ram.store32 (address c base disp) imm, ip }, .running)
  | .aluImm op dst imm => result c ip dst (op.apply32 (c.regs.get32 dst) imm)
  | .alu op dst src => result c ip dst (op.apply32 (c.regs.get32 dst) (c.regs.get32 src))
  | .aluMem op dst base disp =>
    result c ip dst (op.apply32 (c.regs.get32 dst) (c.ram.load32 (address c base disp)))
  | .test left right =>
    ({ c with special := ⟨(c.regs.get32 left &&& c.regs.get32 right) = 0⟩, ip }, .running)
  | .jump cond rel =>
    if cond.holds c.special.zero then
      let target : Int := ip + signedWord rel
      if 0 ≤ target then ({ c with ip := target.toNat }, .running) else (c, .stuck)
    else ({ c with ip }, .running)
  | .call r => call host ip (c.regs.get r) c
  | .ret =>
    let sp := c.regs.get .rsp
    ({ c with regs := c.regs.set .rsp (sp + 8) }, .returned (c.ram.load64 sp))

end Dyad.X64
