import Dyad.Code.Instruction
import Dyad.Run.Fault
import Dyad.Text.Numeral

/-!
Output. A print writes the register's letter, its value as a signed number in at least eight
columns, and the same value as eight hexadecimal digits, on a line of its own.

A device takes a line whole or refuses it and keeps nothing of it, and it may also refuse to flush.
What it does next may depend on everything it has been offered before. Native code cannot stop at a
refused line, so on its side the first refusal is kept, later lines are dropped, and the refusal is
reported at the end.
-/

namespace Dyad

/-- One printed value. -/
structure Print where
  register : Register
  value : UInt32
  deriving DecidableEq, Repr

namespace Print

def chars (p : Print) : List Char :=
  p.register.letter :: ' ' :: Numeral.rightJustified 8 (Numeral.signed (signedWord p.value)) ++
    '(' :: '0' :: 'x' :: Numeral.hex 8 p.value.toNat ++ [')']

/-- The line without its newline. -/
def text (p : Print) : String := String.ofList p.chars

/-- The line as it is written. -/
def line (p : Print) : String := String.ofList (p.chars ++ ['\n'])

end Print

/-- The behaviour of an output device. Earlier offers are listed newest first, refused ones
included. A refusal carries its reason. -/
structure Device where
  refusal : (earlier : List String) → (line : String) → Option String
  flushRefusal : (earlier : List String) → Option String

namespace Device

/-- Takes every line. -/
def reliable : Device where
  refusal _ _ := none
  flushRefusal _ := none

/-- Has room for `room` lines. The offer after that is refused, and so is every later one unless
the device recovers after `once`. -/
def failing (room : Option Nat) (once flushFails : Bool) : Device where
  refusal earlier _ :=
    match room with
    | none => none
    | some k =>
      if earlier.length < k ∨ (once ∧ k < earlier.length) then none else some "sink full"
  flushRefusal _ := if flushFails then some "flush failed" else none

end Device

/-- A device in use: what it has been offered, what it holds, and how often it was flushed. -/
structure Sink where
  device : Device := Device.reliable
  offered : List String := []
  text : String := ""
  flushes : Nat := 0

namespace Sink

instance : Inhabited Sink := ⟨{}⟩

/-- Offers a line. The reason is returned if it is refused. -/
def write (s : Sink) (line : String) : Sink × Option String :=
  match s.device.refusal s.offered line with
  | none => ({ s with offered := line :: s.offered, text := s.text ++ line }, none)
  | some reason => ({ s with offered := line :: s.offered }, some reason)

def flush (s : Sink) : Sink × Option String :=
  ({ s with flushes := s.flushes + 1 }, s.device.flushRefusal s.offered)

end Sink

/-- The output side of a compiled run: where its lines go, and the first refusal. -/
structure Printer where
  sink : Sink
  refused : Option String := none

namespace Printer

def print : Printer → Print → Printer
  | ⟨sink, some reason⟩, _ => ⟨sink, some reason⟩
  | ⟨sink, none⟩, p =>
    match sink.write p.line with
    | (sink, refused) => ⟨sink, refused⟩

def printAll (out : Printer) (ps : List Print) : Printer := ps.foldl print out

/-- Flushes unless a line has been refused. -/
def finish : Printer → Sink × Option Fault
  | ⟨sink, some reason⟩ => (sink, some (.output reason))
  | ⟨sink, none⟩ =>
    match sink.flush with
    | (sink, refused) => (sink, refused.map .output)

end Printer

end Dyad
