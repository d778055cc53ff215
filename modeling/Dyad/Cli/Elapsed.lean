import Dyad.Text.Numeral

/-! Times that a command shows. A time that was not measured is shown as a blank. -/

namespace Dyad.Cli

/-- A time in nanoseconds, if it was measured. -/
structure Elapsed where
  nanoseconds : Option Nat
  deriving DecidableEq, Repr

namespace Elapsed

def unmeasured : Elapsed := ⟨none⟩

def render (text : Nat → List Char) (e : Elapsed) : String :=
  match e.nanoseconds with
  | none => "_"
  | some ns => String.ofList (text ns)

/-- Whole microseconds. -/
def wholeMicroseconds : Elapsed → String := render fun ns => Numeral.decimal (ns / 1000)

/-- Microseconds with two decimals, rounded. -/
def microseconds : Elapsed → String := render fun ns =>
  let hundredths := (ns + 5) / 10
  Numeral.decimal (hundredths / 100) ++ '.' :: Numeral.zeroPadded 2 (hundredths % 100)

/-- Milliseconds with six decimals. -/
def milliseconds : Elapsed → String := render fun ns =>
  Numeral.decimal (ns / 1000000) ++ '.' :: Numeral.zeroPadded 6 (ns % 1000000)

end Elapsed

/-- A way to do a piece of work and to say how long it took. -/
structure Stopwatch (m : Type → Type) where
  time : {α : Type} → (work : Unit → α) → m (α × Elapsed)

/-- Measures nothing. -/
def Stopwatch.stopped : Stopwatch Id := ⟨fun work => (work (), .unmeasured)⟩

end Dyad.Cli
