import Dyad.Code.Program

/-! A sample program, and the same computation as a plain loop: after `n` rounds, the `n + 2`nd
Fibonacci number modulo `2 ^ 32`. -/

namespace Dyad.Fibonacci

/-- Cells 0 and 1 hold the previous number, cell 2 the rounds left, register A the current
number. -/
def program (n : UInt32) : Except EmitError Program :=
  Program.ofDirectives?
    [.loadImmediate .a 1, .store .a 0, .loadImmediate .b n, .store .b 2,
      .setMark,
      .store .a 1, .add .a 0, .load .b 1, .store .b 0,
      .load .b 2, .subtractImmediate .b 1, .store .b 2, .jumpToMark .b,
      .print .a]

/-- Rounds of a loop that tests its counter after lowering it: the current number becomes the
previous one, and their sum the current one. A counter that starts at zero makes `2 ^ 32` rounds. -/
def loop (counter previous current : UInt32) : UInt32 :=
  let sum := current + previous
  let left := counter - 1
  if left = 0 then sum else loop left current sum
termination_by (counter - 1).toNat
decreasing_by
  rename_i h
  have h : (counter - 1).toNat ≠ 0 := fun h' => h (UInt32.toNat_inj.mp h')
  have hlt := (counter - 1).toNat_lt
  rw [UInt32.toNat_sub]
  simp only [UInt32.reduceToNat]
  omega

/-- The number that the sample program prints. -/
def value (n : UInt32) : UInt32 := loop n 1 1

end Dyad.Fibonacci
