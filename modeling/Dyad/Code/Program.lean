import Dyad.Code.Instruction

/-!
Programs under construction: a growing list of instruction words and one mark, the index to which
a backward branch returns. Every emission adds one word or fails and adds none.
-/

namespace Dyad

/-- Why an emission is refused. -/
inductive EmitError where
  /-- The operand is wider than the 16-bit field. -/
  | immediateOutOfRange (opcode : Opcode) (value : UInt32)
  /-- The displacement is outside the signed 16-bit range. -/
  | branchOffsetOutOfRange (offset : Int)
  deriving DecidableEq, Repr

namespace EmitError

def message : EmitError → String
  | immediateOutOfRange opcode value =>
    opcode.mnemonic ++ ": operand " ++ String.ofList (Numeral.decimal value.toNat) ++
      " does not fit in 16 bits"
  | branchOffsetOutOfRange offset =>
    "branch offset " ++ String.ofList (Numeral.signed offset) ++
      " does not fit in a signed 16-bit field"

end EmitError

/-- One operation on a program under construction. -/
inductive Directive where
  | loadImmediate (r : Register) (value : UInt32)
  | load (r : Register) (index : UInt32)
  | store (r : Register) (index : UInt32)
  | addImmediate (r : Register) (value : UInt32)
  | add (r : Register) (index : UInt32)
  | subtractImmediate (r : Register) (value : UInt32)
  | subtract (r : Register) (index : UInt32)
  | print (r : Register)
  | jumpIfNonZero (r : Register) (offset : Int)
  /-- A branch to wherever the mark is when the branch is emitted. -/
  | jumpToMark (r : Register)
  | setMark
  deriving DecidableEq, Repr

structure Program where
  words : Array UInt32 := #[]
  /-- The index of the instruction that `markOffset` leads back to. -/
  mark : Nat := 0
  deriving DecidableEq, Repr

namespace Program

def empty : Program := {}

def size (p : Program) : Nat := p.words.size

def isEmpty (p : Program) : Bool := p.words.isEmpty

/-- The first error among a list of words. -/
def firstError? : List UInt32 → Option DecodeError
  | [] => none
  | w :: ws =>
    match Instruction.decode w with
    | .error e => some e
    | .ok _ => firstError? ws

/-- Loads words, refusing the list at its first word that is not an instruction. -/
def ofWords? (words : Array UInt32) : Except DecodeError Program :=
  match firstError? words.toList with
  | some e => .error e
  | none => .ok { words }

/-! ### Emission -/

def push (p : Program) (i : Instruction) : Program :=
  { p with words := p.words.push i.encode }

/-- Puts the mark before the next instruction to be emitted. -/
def setMark (p : Program) : Program := { p with mark := p.size }

/-- The displacement from a branch emitted next back to the mark. A distance that does not fit in
32 bits saturates. -/
def markOffset (p : Program) : Int :=
  let offset : Int := p.mark - p.size - 1
  if -0x80000000 ≤ offset ∧ offset < 0x80000000 then offset else -0x80000000

/-- An instruction with an unsigned operand. -/
def withOperand (opcode : Opcode) (r : Register) (operand : UInt32) :
    Except EmitError Instruction :=
  if operand.toNat < 0x10000 then .ok ⟨opcode, r, operand.toUInt16⟩
  else .error (.immediateOutOfRange opcode operand)

/-- A branch with a signed displacement. -/
def withOffset (r : Register) (offset : Int) : Except EmitError Instruction :=
  if -0x8000 ≤ offset ∧ offset < 0x8000 then
    .ok ⟨.jumpIfNonZero, r, UInt16.ofNat (offset % 0x10000).toNat⟩
  else .error (.branchOffsetOutOfRange offset)

/-- The instruction that a directive adds, if it adds one. -/
def emission (p : Program) : Directive → Except EmitError (Option Instruction)
  | .loadImmediate r value => some <$> withOperand .loadImmediate r value
  | .load r index => some <$> withOperand .loadMemory r index
  | .store r index => some <$> withOperand .storeMemory r index
  | .addImmediate r value => some <$> withOperand .addImmediate r value
  | .add r index => some <$> withOperand .addMemory r index
  | .subtractImmediate r value => some <$> withOperand .subtractImmediate r value
  | .subtract r index => some <$> withOperand .subtractMemory r index
  | .print r => .ok (some ⟨.print, r, 0⟩)
  | .jumpIfNonZero r offset => some <$> withOffset r offset
  | .jumpToMark r => some <$> withOffset r p.markOffset
  | .setMark => .ok none

/-- Adds what a directive emits; one that emits nothing sets the mark. -/
def extend (p : Program) : Option Instruction → Program
  | some i => p.push i
  | none => p.setMark

def apply (p : Program) (d : Directive) : Except EmitError Program :=
  match p.emission d with
  | .ok emitted => .ok (p.extend emitted)
  | .error e => .error e

/-- Carries out directives up to the first that is refused. Returns the program reached, the
number of directives carried out, and the refusal if there is one. -/
def applyAll (p : Program) (ds : List Directive) : Program × Nat × Option EmitError :=
  go p 0 ds
where
  go (p : Program) (done : Nat) : List Directive → Program × Nat × Option EmitError
    | [] => (p, done, none)
    | d :: ds =>
      match p.emission d with
      | .ok emitted => go (p.extend emitted) (done + 1) ds
      | .error e => (p, done, some e)

/-- Carries out a list of directives `count` times, up to the first that is refused. -/
def applyTimes (p : Program) (count : Nat) (ds : List Directive) :
    Program × Nat × Option EmitError :=
  go count p 0
where
  go : (count : Nat) → Program → (done : Nat) → Program × Nat × Option EmitError
    | 0, p, done => (p, done, none)
    | count + 1, p, done =>
      match p.applyAll ds with
      | (p, more, none) => go count p (done + more)
      | (p, more, some e) => (p, done + more, some e)

/-- Builds a program from directives, all of which must be accepted. -/
def ofDirectives? (ds : List Directive) : Except EmitError Program :=
  match empty.applyAll ds with
  | (p, _, none) => .ok p
  | (_, _, some e) => .error e

/-! ### Listing -/

/-- What each word means. -/
def instructions (p : Program) : List (Except DecodeError Instruction) :=
  p.words.toList.map Instruction.decode

/-- A line of the listing: index, raw word, and assembly text or `???`. -/
def listingLine (word : UInt32) (pc : Nat) : List Char :=
  Numeral.zeroPadded 4 pc ++ ':' :: ' ' :: Numeral.hex 8 word.toNat ++ ' ' :: ' ' ::
    match Instruction.decode word with
    | .ok i => i.chars ++ ['\n']
    | .error _ => ['?', '?', '?', '\n']

/-- The lines of the listing, each with its newline. -/
def listingLines (p : Program) : List String :=
  p.words.toList.zipIdx.map fun (word, pc) => String.ofList (listingLine word pc)

def listing (p : Program) : String := String.join p.listingLines

/-- The program with its fields named. -/
def describe (p : Program) : String :=
  "Program \x7b code: [" ++
    String.intercalate ", " (p.words.toList.map fun w => String.ofList (Numeral.decimal w.toNat)) ++
    "], mark: " ++ String.ofList (Numeral.decimal p.mark) ++ " \x7d"

end Program

end Dyad
