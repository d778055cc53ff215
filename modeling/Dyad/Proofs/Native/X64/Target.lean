import Dyad.Native.X64.Machine
import Dyad.Proofs.Native.Target
import Dyad.Proofs.Native.X64.Reach

/-!
The x86-64 as a target: what its instructions read and write (`machine_lawful`), which registers its
code keeps for the program, and what it saves on the stack (`target_lawful`).
-/

namespace Dyad.X64

open Native (Machine Target)
open Ram (Agree Apart)
open Reg

attribute [local irreducible] Ram.store32 Ram.store64

/-! ### The machine -/

/-- After such an instruction execution goes on with the next one. -/
def Instr.Straight : Instr → Prop
  | .jump _ _ | .call _ | .ret => False
  | _ => True

/-- The memory that an instruction reads or writes, by address and number of bytes. -/
def accesses (c : Cpu) : Instr → List (UInt64 × Nat)
  | .push _ | .call _ => [(c.regs.get rsp - 8, 8)]
  | .pop _ | .ret => [(c.regs.get rsp, 8)]
  | .load _ base disp | .store base disp _ | .storeImm base disp _ | .aluMem _ _ base disp =>
    [(address c base disp, 4)]
  | .adjust _ _ _ | .xor _ _ | .movAddress _ _ | .movImm _ _ | .mov _ _ | .aluImm _ _ _
  | .alu _ _ _ | .test _ _ | .jump _ _ => []

abbrev machine (host : Host) : Machine Reg Flags Instr where
  exec := exec host
  print := host.print
  frameArgument := rdi
  indexArgument := rsi
  valueArgument := rdx
  call := .call
  ret := .ret
  Straight := Instr.Straight
  accesses := accesses

variable {c d : Cpu} {i : Instr} {next : Nat} {a : UInt64}

theorem exec_jump_of_holds (host : Host) {cond : Cond} (h : cond.holds c.special.zero = true)
    {target : Nat} {rel : UInt32} (hrel : (next : Int) + signedWord rel = target) :
    exec host next c (.jump cond rel) = ({ c with ip := target }, .running) := by
  rw [exec, if_pos h]
  simp only [hrel, Int.natCast_nonneg, if_true, Int.toNat_natCast]

theorem exec_jump_of_not_holds (host : Host) {cond : Cond} (h : cond.holds c.special.zero = false)
    (next : Nat) (rel : UInt32) :
    exec host next c (.jump cond rel) = ({ c with ip := next }, .running) := by
  rw [exec, if_neg (by simp [h])]

/-- A jump goes somewhere or nowhere, and does nothing else. -/
theorem exec_jump_cases (host : Host) (next : Nat) (c : Cpu) (cond : Cond) (rel : UInt32) :
    (∃ target, exec host next c (.jump cond rel) = ({ c with ip := target }, .running)) ∨
      exec host next c (.jump cond rel) = (c, .stuck) := by
  simp only [exec]
  split
  · split
    · exact .inl ⟨_, rfl⟩
    · exact .inr rfl
  · exact .inl ⟨next, rfl⟩

theorem exec_straight (host : Host) (next : Nat) (c : Cpu) (hs : i.Straight) :
    ∃ d, exec host next c i = (d, .running) ∧ d.ip = next ∧ d.calls = c.calls := by
  cases i with
  | jump | call | ret => exact hs.elim
  | _ => exact ⟨_, rfl, rfl, rfl⟩

theorem exec_call_of_eq {host : Host} {r : Reg} (h : c.regs.get r = host.print) (next : Nat) :
    ∃ d, exec host next c (.call r) = (d, .running) ∧ d.ip = next ∧
      d.calls = c.calls.push ⟨c.regs.get rdi, c.regs.get32 rsi, c.regs.get32 rdx⟩ := by
  rw [exec, call, if_pos h]
  exact ⟨_, rfl, rfl, rfl⟩

theorem exec_calls (host : Host) (next : Nat) (c : Cpu) (i : Instr) :
    (exec host next c i).1.calls = c.calls ∨
      ∃ r, i = .call r ∧ (exec host next c i).1.calls =
        c.calls.push ⟨c.regs.get rdi, c.regs.get32 rsi, c.regs.get32 rdx⟩ := by
  cases i with
  | call r =>
    rw [exec, call]
    split
    · exact .inr ⟨r, rfl, rfl⟩
    · exact .inl rfl
  | jump cond rel =>
    rcases exec_jump_cases host next c cond rel with ⟨_, h⟩ | h <;> exact .inl (by rw [h])
  | _ => exact .inl rfl

theorem exec_returned {host : Host} (h : exec host next c i = (d, .returned a)) : i = .ret := by
  cases i with
  | ret => rfl
  | call r =>
    rw [exec, call] at h
    split at h <;> cases h
  | jump cond rel =>
    rcases exec_jump_cases host next c cond rel with ⟨_, h'⟩ | h' <;> rw [h'] at h <;> cases h
  | _ => cases h

/-- Memory apart from what is listed keeps what it holds. -/
theorem exec_agree (host : Host) {n : Nat} (h : ∀ x ∈ accesses c i, Apart x.1 x.2 a n) :
    Agree c.ram (exec host next c i).1.ram a n := by
  cases i with
  | push r => exact .store64 (h _ List.mem_cons_self) _
  | store | storeImm => exact .store32 (h _ List.mem_cons_self) _
  | call r =>
    rw [exec, call]
    split
    · exact .store64 (h _ List.mem_cons_self) _
    · exact fun _ _ => rfl
  | jump cond rel =>
    rcases exec_jump_cases host next c cond rel with ⟨_, h'⟩ | h' <;> rw [h'] <;>
      exact fun _ _ => rfl
  | _ => exact fun _ _ => rfl

/-- Apart from what it stores, an instruction does the same in every memory that holds the same at
the places it lists. -/
theorem exec_reads (host : Host) {ram : Ram} (h : ∀ x ∈ accesses c i, Agree c.ram ram x.1 x.2) :
    ∃ ram', exec host next { c with ram } i =
      ({ (exec host next c i).1 with ram := ram' }, (exec host next c i).2) := by
  cases i with
  | pop | ret =>
    have hload : ram.load64 (c.regs.get rsp) = c.ram.load64 (c.regs.get rsp) :=
      (h _ List.mem_cons_self).load64
    exact ⟨ram, by simp only [exec, hload]⟩
  | load dst base disp | aluMem op dst base disp =>
    have hload : ram.load32 (address c base disp) = c.ram.load32 (address c base disp) :=
      (h _ List.mem_cons_self).load32
    refine ⟨ram, ?_⟩
    simp only [exec, ← hload]
    rfl
  | jump cond rel =>
    refine ⟨ram, ?_⟩
    simp only [exec]
    split
    · split <;> rfl
    · rfl
  | call r =>
    simp only [exec, call]
    split
    · exact ⟨_, rfl⟩
    · exact ⟨ram, rfl⟩
  | _ => exact ⟨_, rfl⟩

theorem machine_lawful (host : Host) : (machine host).Lawful where
  straight next c _ := exec_straight host next c
  call_not_straight _ := id
  ret_not_straight := id
  call_ne_ret := nofun
  call_injective := Instr.call.inj
  called next _ _ h := exec_call_of_eq h next
  calls_cases := exec_calls host
  returned := exec_returned
  agree := exec_agree host
  reads := exec_reads host

/-! ### The target -/

/-- The registers that the prologue pushes and the epilogue pops. -/
def savedRegisters : List Reg := [rbx, rbp, r12, r13, r14, r15]

/-- The registers that hold the program's registers and cells. -/
def homeRegisters : List Reg := [r12, r13, r14, r15, rbx]

/-- What the caller gets back: the pushed registers and the return address, from the top of the
stack. -/
def savedWords (entry : Cpu) : List UInt64 :=
  savedRegisters.reverse.map entry.regs.get ++ [entry.ram.load64 (entry.regs.get rsp)]

/-- The lowest address of the stack that a routine uses. -/
def stackBase (entry : Cpu) : UInt64 := entry.regs.get rsp - 64

/-- What is as it was when the routine was entered. -/
structure Restored (entry c : Cpu) : Prop where
  stack : c.regs.get rsp = entry.regs.get rsp
  address : c.ram.load64 (c.regs.get rsp) = entry.ram.load64 (entry.regs.get rsp)
  registers : ∀ r ∈ savedRegisters, c.regs.get r = entry.regs.get r

/-- The other registers that the code keeps, and what they hold: the address of the cells, and where
the stack is. -/
def fixedRegisters : List (Reg × (Layout → Cpu → UInt64)) :=
  [(rbp, fun L _ => L.memory), (rsp, fun _ entry => stackBase entry + UInt64.ofNat 8)]

/-- The registers that matter at the start of a block. -/
def keptRegisters : List Reg := fixedRegisters.map Prod.fst ++ homeRegisters

abbrev target (host : Host) : Target Reg Flags Instr Cond where
  toMachine := machine host
  codegen := codegen
  homes := Codegen.homes
  homeRegisters := homeRegisters
  fixed := fixedRegisters
  Settled _ _ := True
  stackBase := stackBase
  -- a word for the return address of a call, one for alignment, and what is saved
  stackWords := 9
  spareWords := 2
  savedWords := savedWords
  Restored := Restored
  reach := 0x80000000
  ExitsReach := Codegen.ExitsReach

theorem register_mem (r : Register) : Codegen.homes.register r ∈ homeRegisters := by
  cases r <;> decide

theorem cell_mem (n : Nat) : Codegen.homes.cell n ∈ homeRegisters := by
  rcases n with _ | _ | n
  · decide
  · decide
  · exact (by decide : rbx ∈ homeRegisters)

theorem fixed_not_mem : ∀ x ∈ fixedRegisters, x.1 ∉ homeRegisters := by decide

theorem target_lawful (host : Host) : (target host).Lawful where
  machine := machine_lawful host
  register_mem := register_mem
  cell_mem := cell_mem
  fixed_not_mem := fixed_not_mem
  stack_room _ := rfl
  stack_small := Nat.le_of_ble_eq_true rfl

end Dyad.X64
