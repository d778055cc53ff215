import Dyad.Native.Arm64.Machine
import Dyad.Proofs.Native.Target
import Dyad.Proofs.Native.Arm64.Reach

/-!
The ARM64 as a target: what its instructions read and write (`machine_lawful`), which registers its
code keeps for the program, and what it saves on the stack (`target_lawful`). The stack pointer
moves by whole pairs of registers, so it stays aligned whatever the code does (`exec_sp_mod`).
-/

namespace Dyad.Arm64

open Codegen (memoryBase frameBase)
open Native (Machine Target)
open Ram (Agree Apart)
open Reg

attribute [local irreducible] Ram.store32 Ram.store64 Native.RegFile.set Native.RegFile.set32

/-! ### The machine -/

/-- After such an instruction execution goes on with the next one. -/
def Instr.Straight : Instr → Prop
  | .branchIfZero _ _ | .branch _ | .call _ | .ret => False
  | _ => True

/-- The memory that an instruction reads or writes, by address and number of bytes. -/
def accesses (c : Cpu) : Instr → List (UInt64 × Nat)
  | .pushPair _ _ => [(c.special.sp - 16, 8), (c.special.sp - 16 + 8, 8)]
  | .popPair _ _ => [(c.special.sp, 8), (c.special.sp + 8, 8)]
  | .loadScaled _ base index | .storeScaled _ base index =>
    [(c.regs.get base + 4 * c.regs.get index, 4)]
  | .store _ base offset => [(c.regs.get base + 4 * offset.toNat.toUInt64, 4)]
  | .moveFromSp _ | .movz _ _ _ _ | .movk _ _ _ _ | .mov _ _ _ | .alu _ _ _ _
  | .branchIfZero _ _ | .branch _ | .call _ | .ret => []

abbrev machine (host : Host) : Machine Reg Special Instr where
  exec := exec host
  print := host.print
  frameArgument := x0
  indexArgument := x1
  valueArgument := x2
  call := .call
  ret := .ret
  Straight := Instr.Straight
  accesses := accesses

variable {c d : Cpu} {i : Instr} {next goal : Nat} {a : UInt64} {r : Reg}

theorem jump_of_eq {distance : Int} (h : (c.ip : Int) + 4 * distance = goal) :
    jump c distance = ({ c with ip := goal }, .running) := by
  simp only [jump, h, Int.natCast_nonneg, if_true, Int.toNat_natCast]

theorem exec_branch (host : Host) (next : Nat) {far : BitVec 26}
    (h : (c.ip : Int) + 4 * far.toInt = goal) :
    exec host next c (.branch far) = ({ c with ip := goal }, .running) :=
  jump_of_eq h

theorem exec_branchIfZero_of_eq (host : Host) (next : Nat) {near : BitVec 19}
    (hz : c.regs.get32 r = 0) (h : (c.ip : Int) + 4 * near.toInt = goal) :
    exec host next c (.branchIfZero r near) = ({ c with ip := goal }, .running) := by
  rw [exec, if_pos hz, jump_of_eq h]

theorem exec_branchIfZero_of_ne (host : Host) (next : Nat) {near : BitVec 19}
    (hz : c.regs.get32 r ≠ 0) :
    exec host next c (.branchIfZero r near) = ({ c with ip := next }, .running) :=
  if_neg hz

/-- A branch goes somewhere or nowhere, and does nothing else. -/
theorem jump_cases (c : Cpu) (distance : Int) :
    (∃ target, jump c distance = ({ c with ip := target }, .running)) ∨
      jump c distance = (c, .stuck) := by
  simp only [jump]
  split
  · exact .inl ⟨_, rfl⟩
  · exact .inr rfl

theorem exec_branchIfZero_cases (host : Host) (next : Nat) (c : Cpu) (r : Reg) (near : BitVec 19) :
    (∃ target, exec host next c (.branchIfZero r near) = ({ c with ip := target }, .running)) ∨
      exec host next c (.branchIfZero r near) = (c, .stuck) := by
  rw [exec]
  split
  · exact jump_cases c near.toInt
  · exact .inl ⟨next, rfl⟩

theorem exec_straight (host : Host) (next : Nat) (c : Cpu) (hs : i.Straight) :
    ∃ d, exec host next c i = (d, .running) ∧ d.ip = next ∧ d.calls = c.calls := by
  cases i with
  | branchIfZero | branch | call | ret => exact hs.elim
  | _ => exact ⟨_, rfl, rfl, rfl⟩

theorem exec_call_of_eq {host : Host} (h : c.regs.get r = host.print) (next : Nat) :
    ∃ d, exec host next c (.call r) = (d, .running) ∧ d.ip = next ∧
      d.calls = c.calls.push ⟨c.regs.get x0, c.regs.get32 x1, c.regs.get32 x2⟩ := by
  rw [exec, if_pos h]
  exact ⟨_, rfl, rfl, rfl⟩

theorem exec_calls (host : Host) (next : Nat) (c : Cpu) (i : Instr) :
    (exec host next c i).1.calls = c.calls ∨
      ∃ r, i = .call r ∧ (exec host next c i).1.calls =
        c.calls.push ⟨c.regs.get x0, c.regs.get32 x1, c.regs.get32 x2⟩ := by
  cases i with
  | call r =>
    rw [exec]
    split
    · exact .inr ⟨r, rfl, rfl⟩
    · exact .inl rfl
  | branch far =>
    rw [exec]
    rcases jump_cases c far.toInt with ⟨_, h⟩ | h <;> exact .inl (by rw [h])
  | branchIfZero r near =>
    rcases exec_branchIfZero_cases host next c r near with ⟨_, h⟩ | h <;> exact .inl (by rw [h])
  | _ => exact .inl rfl

theorem exec_returned {host : Host} (h : exec host next c i = (d, .returned a)) :
    i = .ret ∧ a = c.regs.get x30 := by
  cases i with
  | ret =>
    cases h
    exact ⟨rfl, rfl⟩
  | call r =>
    rw [exec] at h
    split at h <;> cases h
  | branch far =>
    rw [exec] at h
    rcases jump_cases c far.toInt with ⟨_, h'⟩ | h' <;> rw [h'] at h <;> cases h
  | branchIfZero r near =>
    rcases exec_branchIfZero_cases host next c r near with ⟨_, h'⟩ | h' <;> rw [h'] at h <;> cases h
  | _ => cases h

/-- Memory apart from what is listed keeps what it holds. -/
theorem exec_agree (host : Host) {n : Nat} (h : ∀ x ∈ accesses c i, Apart x.1 x.2 a n) :
    Agree c.ram (exec host next c i).1.ram a n := by
  cases i with
  | pushPair first second =>
    exact .trans (.store64 (h _ List.mem_cons_self) _)
      (.store64 (h _ (List.mem_cons_of_mem _ List.mem_cons_self)) _)
  | storeScaled | store => exact .store32 (h _ List.mem_cons_self) _
  | call r =>
    rw [exec]
    split <;> exact fun _ _ => rfl
  | branch far =>
    rw [exec]
    rcases jump_cases c far.toInt with ⟨_, h'⟩ | h' <;> rw [h'] <;> exact fun _ _ => rfl
  | branchIfZero r near =>
    rcases exec_branchIfZero_cases host next c r near with ⟨_, h'⟩ | h' <;> rw [h'] <;>
      exact fun _ _ => rfl
  | _ => exact fun _ _ => rfl

/-- Apart from what it stores, an instruction does the same in every memory that holds the same at
the places it lists. -/
theorem exec_reads (host : Host) {ram : Ram} (h : ∀ x ∈ accesses c i, Agree c.ram ram x.1 x.2) :
    ∃ ram', exec host next { c with ram } i =
      ({ (exec host next c i).1 with ram := ram' }, (exec host next c i).2) := by
  cases i with
  | popPair first second =>
    have hlower : ram.load64 c.special.sp = c.ram.load64 c.special.sp :=
      (h _ List.mem_cons_self).load64
    have hupper : ram.load64 (c.special.sp + 8) = c.ram.load64 (c.special.sp + 8) :=
      (h _ (List.mem_cons_of_mem _ List.mem_cons_self)).load64
    exact ⟨ram, by simp only [exec, hlower, hupper]⟩
  | loadScaled dst base index =>
    have hload : ram.load32 (c.regs.get base + 4 * c.regs.get index) =
        c.ram.load32 (c.regs.get base + 4 * c.regs.get index) := (h _ List.mem_cons_self).load32
    exact ⟨ram, by simp only [exec, hload]⟩
  | branch far =>
    refine ⟨ram, ?_⟩
    simp only [exec, jump]
    split <;> rfl
  | branchIfZero r near =>
    refine ⟨ram, ?_⟩
    simp only [exec, jump]
    split
    · split <;> rfl
    · rfl
  | call r =>
    refine ⟨ram, ?_⟩
    simp only [exec]
    split <;> rfl
  | _ => exact ⟨_, rfl⟩

theorem machine_lawful (host : Host) : (machine host).Lawful where
  straight next c _ := exec_straight host next c
  call_not_straight _ := id
  ret_not_straight := id
  call_ne_ret := nofun
  call_injective := Instr.call.inj
  called next _ _ h := exec_call_of_eq h next
  calls_cases := exec_calls host
  returned h := (exec_returned h).1
  agree := exec_agree host
  reads := exec_reads host

/-- The stack pointer moves by multiples of sixteen. -/
theorem exec_sp_mod (host : Host) (next : Nat) (c : Cpu) (i : Instr) :
    (exec host next c i).1.special.sp % 16 = c.special.sp % 16 := by
  have hlt := c.special.sp.toNat_lt
  cases i with
  | pushPair first second =>
    change (c.special.sp - 16) % 16 = c.special.sp % 16
    apply UInt64.toNat_inj.mp
    simp only [UInt64.toNat_mod, UInt64.toNat_sub, UInt64.reduceToNat]
    omega
  | popPair first second =>
    change (c.special.sp + 16) % 16 = c.special.sp % 16
    apply UInt64.toNat_inj.mp
    simp only [UInt64.toNat_mod, UInt64.toNat_add, UInt64.reduceToNat]
    omega
  | call r =>
    rw [exec]
    split <;> rfl
  | branch far =>
    rw [exec]
    rcases jump_cases c far.toInt with ⟨_, h⟩ | h <;> rw [h]
  | branchIfZero r near =>
    rcases exec_branchIfZero_cases host next c r near with ⟨_, h⟩ | h <;> rw [h]
  | _ => rfl

/-! ### The target -/

/-- The registers that the prologue pushes and the epilogue pops, two at a time. -/
def savedPairs : List (Reg × Reg) := [(x29, x30), (x19, x20), (x21, x22), (x23, x24), (x25, x26)]

/-- The registers of pairs, in the order in which they lie on the stack. -/
def registersOf (pairs : List (Reg × Reg)) : List Reg :=
  pairs.flatMap fun pair => [pair.1, pair.2]

/-- The registers that hold the program's registers and cells. -/
def homeRegisters : List Reg := [x19, x20, x21, x22, x23]

/-- What the caller gets back, from the top of the stack. -/
def savedWords (entry : Cpu) : List UInt64 :=
  (registersOf savedPairs.reverse).map entry.regs.get

/-- The lowest address of the stack that a routine uses. -/
def stackBase (entry : Cpu) : UInt64 := entry.special.sp - 80

/-- What is as it was when the routine was entered. -/
structure Restored (entry c : Cpu) : Prop where
  stack : c.special.sp = entry.special.sp
  registers : ∀ r ∈ registersOf savedPairs, c.regs.get r = entry.regs.get r

/-- The other registers that the code keeps, and the addresses that they hold. -/
def fixedRegisters : List (Reg × (Layout → Cpu → UInt64)) :=
  [(memoryBase, fun L _ => L.memory), (frameBase, fun L _ => L.frame)]

/-- The registers that matter at the start of a block. -/
def keptRegisters : List Reg := fixedRegisters.map Prod.fst ++ homeRegisters

abbrev target (host : Host) : Target Reg Special Instr Branch where
  toMachine := machine host
  codegen := codegen
  homes := Codegen.homes
  homeRegisters := homeRegisters
  fixed := fixedRegisters
  Settled entry special := special.sp = stackBase entry
  stackBase := stackBase
  -- ten registers are saved, and calls need no stack
  stackWords := 10
  spareWords := 0
  savedWords := savedWords
  Restored := Restored
  reach := 0x8000000
  ExitsReach := Codegen.ExitsReach

theorem register_mem (r : Register) : Codegen.homes.register r ∈ homeRegisters := by
  cases r <;> decide

theorem cell_mem (n : Nat) : Codegen.homes.cell n ∈ homeRegisters := by
  rcases n with _ | _ | n
  · decide
  · decide
  · exact (by decide : x23 ∈ homeRegisters)

theorem fixed_not_mem : ∀ x ∈ fixedRegisters, x.1 ∉ homeRegisters := by decide

theorem target_lawful (host : Host) : (target host).Lawful where
  machine := machine_lawful host
  register_mem := register_mem
  cell_mem := cell_mem
  fixed_not_mem := fixed_not_mem
  stack_room _ := rfl
  stack_small := Nat.le_of_ble_eq_true rfl

end Dyad.Arm64
