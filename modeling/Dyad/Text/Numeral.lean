/-! Written numbers: decimal and hexadecimal digits, padding to a width, and the value that a run
of decimal digits denotes. Texts are built as lists of characters and become strings at the edge. -/

namespace Dyad

namespace Numeral

/-- Decimal digits without leading zeros. -/
def decimal (n : Nat) : List Char := Nat.toDigits 10 n

/-- Decimal digits behind a minus sign for a negative number. -/
def signed : Int → List Char
  | .ofNat n => decimal n
  | .negSucc n => '-' :: decimal (n + 1)

/-- Lower-case hexadecimal digits, filled up with zeros to `width`. -/
def hex (width n : Nat) : List Char := (Nat.toDigits 16 n).leftpad width '0'

/-- Upper-case hexadecimal digits, filled up with zeros to `width`. -/
def hexUpper (width n : Nat) : List Char := (hex width n).map Char.toUpper

/-- Decimal digits, filled up with zeros to `width`. -/
def zeroPadded (width n : Nat) : List Char := (decimal n).leftpad width '0'

/-- Right-justified in `width` columns. -/
def rightJustified (width : Nat) (cs : List Char) : List Char := cs.leftpad width ' '

/-- The number written by a run of decimal digits, the most significant first. -/
def value (digits : List Char) : Nat :=
  digits.foldl (fun n c => 10 * n + (c.toNat - '0'.toNat)) 0

/-- Reads one or more decimal digits and nothing else. -/
def parseDigits? (cs : List Char) : Option Nat :=
  if cs ≠ [] ∧ cs.all Char.isDigit then some (value cs) else none

/-- Reads an optional `+` and decimal digits that denote a number below `2 ^ 64`. -/
def parseWord64? (cs : List Char) : Option Nat := do
  let n ← parseDigits? (match cs with | '+' :: rest => rest | _ => cs)
  if n < 0x10000000000000000 then some n else none

/-- Reads an optional sign and decimal digits that denote a signed 64-bit number. -/
def parseInt64? (cs : List Char) : Option Int := do
  let i : Int ← match cs with
    | '+' :: rest => (parseDigits? rest).map Int.ofNat
    | '-' :: rest => (parseDigits? rest).map fun n => -(n : Int)
    | _ => (parseDigits? cs).map Int.ofNat
  if -0x8000000000000000 ≤ i ∧ i < 0x8000000000000000 then some i else none

end Numeral

/-- The two's-complement reading of a machine word. -/
def signedWord (w : UInt32) : Int :=
  if w.toNat < 0x80000000 then w.toNat else (w.toNat : Int) - 0x100000000

end Dyad
