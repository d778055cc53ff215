import Dyad.Code.Program
import Dyad.Proofs.Output.Transcript

/-!
What the texts of instructions and the listings of programs tell. The text of an instruction gives
back all of it but the immediate of a print, which has no operand
(`Instruction.text_eq_iff_essence`). The listing of a program has one line for each word
(`Program.toList_listing`), and its lines give back the words, those that are no instructions
included (`Program.listing_inj`).
-/

namespace Dyad

/-! ### Instructions -/

/-- The parts of a list around the first occurrence of an element. -/
theorem append_cons_inj_of_not_mem {α : Type} {c : α} {xs ys r s : List α} (hxs : c ∉ xs)
    (hys : c ∉ ys) (h : xs ++ c :: r = ys ++ c :: s) : xs = ys ∧ r = s := by
  induction xs generalizing ys with
  | nil =>
    cases ys with
    | nil => exact ⟨rfl, (List.cons.inj h).2⟩
    | cons y ys => exact absurd (List.mem_cons.mpr (.inl (List.cons.inj h).1)) hys
  | cons x xs ih =>
    cases ys with
    | nil => exact absurd (List.mem_cons.mpr (.inl (List.cons.inj h).1.symm)) hxs
    | cons y ys =>
      obtain ⟨rfl, hrest⟩ := List.cons.inj h
      obtain ⟨rfl, rfl⟩ := ih (fun hc => hxs (.tail _ hc)) (fun hc => hys (.tail _ hc)) hrest
      exact ⟨rfl, rfl⟩

theorem Opcode.mnemonic_inj {op op' : Opcode} (h : op.mnemonic = op'.mnemonic) : op = op' := by
  cases op <;> cases op' <;> first | rfl | exact absurd h (by decide)

theorem Opcode.blank_not_mem_mnemonic (op : Opcode) : ' ' ∉ op.mnemonic.toList := by
  cases op <;> decide

namespace Numeral

theorem decimal_inj {m n : Nat} (h : decimal m = decimal n) : m = n := by
  have hreads := parseDigits?_decimal m
  rw [h, parseDigits?_decimal] at hreads
  exact (Option.some.inj hreads).symm

theorem newline_not_mem_decimal (n : Nat) : '\n' ∉ decimal n :=
  not_mem_toDigits (by decide) (by decide)

end Numeral

namespace Instruction

theorem branchOffset_inj {i j : Instruction} (h : i.branchOffset = j.branchOffset) :
    i.immediate = j.immediate := by
  have hi := i.immediate.toNat_lt
  have hj := j.immediate.toNat_lt
  apply UInt16.toNat_inj.mp
  unfold branchOffset at h
  split at h <;> split at h <;> omega

theorem signed_branchOffset_inj {i j : Instruction}
    (h : Numeral.signed i.branchOffset = Numeral.signed j.branchOffset) :
    i.immediate = j.immediate := by
  have hreads (i : Instruction) :
      Numeral.parseInt64? (Numeral.signed i.branchOffset) = some i.branchOffset := by
    have hlt := i.immediate.toNat_lt
    apply Numeral.parseInt64?_signed <;> unfold branchOffset <;> split <;> omega
  have hi := hreads i
  rw [h, hreads j] at hi
  exact branchOffset_inj (Option.some.inj hi).symm

/-- The part of an instruction that matters: a print has no operand. -/
def essence (i : Instruction) : Instruction :=
  if i.opcode = .print then { i with immediate := 0 } else i

theorem essence_of_ne {i : Instruction} (h : i.opcode ≠ .print) : i.essence = i := if_neg h

@[simp] theorem essence_opcode (i : Instruction) : i.essence.opcode = i.opcode := by
  unfold essence
  split <;> rfl

@[simp] theorem essence_register (i : Instruction) : i.essence.register = i.register := by
  unfold essence
  split <;> rfl

theorem essence_eq_iff {i j : Instruction} :
    i.essence = j.essence ↔ i.opcode = j.opcode ∧ i.register = j.register ∧
      (i.opcode ≠ .print → i.immediate = j.immediate) := by
  constructor
  · intro h
    have hop : i.opcode = j.opcode := by simpa using congrArg opcode h
    have hregister : i.register = j.register := by simpa using congrArg register h
    refine ⟨hop, hregister, fun hne => ?_⟩
    rw [essence_of_ne hne, essence_of_ne (hop ▸ hne)] at h
    rw [h]
  · obtain ⟨op, r, imm⟩ := i
    obtain ⟨op', r', imm'⟩ := j
    rintro ⟨rfl, rfl, himm⟩
    by_cases hprint : op = .print
    · subst hprint
      rfl
    · rw [show imm = imm' from himm hprint]

theorem chars_essence (i : Instruction) : i.essence.chars = i.chars := by
  obtain ⟨op, r, imm⟩ := i
  cases op <;> rfl

/-- The text of an instruction tells what matters of it. -/
theorem essence_of_chars {i j : Instruction} (h : i.chars = j.chars) : i.essence = j.essence := by
  obtain ⟨hmnemonic, hrest⟩ := append_cons_inj_of_not_mem i.opcode.blank_not_mem_mnemonic
    j.opcode.blank_not_mem_mnemonic h
  have hop := Opcode.mnemonic_inj (String.toList_inj.mp hmnemonic)
  obtain ⟨hletter, hoperand⟩ := List.cons.inj hrest
  refine essence_eq_iff.mpr ⟨hop, Print.letter_inj hletter, fun hne => ?_⟩
  rw [← hop] at hoperand
  cases hkind : i.opcode.operandKind <;> rw [hkind] at hoperand <;> dsimp only at hoperand
  case immediate =>
    exact UInt16.toNat_inj.mp (Numeral.decimal_inj (by simpa using hoperand))
  case memory =>
    exact UInt16.toNat_inj.mp (Numeral.decimal_inj (by simpa using hoperand))
  case branch => exact signed_branchOffset_inj (by simpa using hoperand)
  case none =>
    cases hopcode : i.opcode <;> rw [hopcode] at hkind <;> cases hkind
    exact absurd hopcode hne

theorem text_eq_iff_essence {i j : Instruction} : i.text = j.text ↔ i.essence = j.essence := by
  constructor
  · intro h
    exact essence_of_chars (String.ofList_injective h)
  · intro h
    rw [text, text, ← chars_essence i, ← chars_essence j, h]

theorem newline_not_mem_chars (i : Instruction) : '\n' ∉ i.chars := by
  have hmnemonic : '\n' ∉ i.opcode.mnemonic.toList := by cases i.opcode <;> decide
  have hletter : '\n' ≠ i.register.letter := by cases i.register <;> decide
  have hdecimal := Numeral.newline_not_mem_decimal
  have hsigned : '\n' ∉ Numeral.signed i.branchOffset :=
    Numeral.not_mem_signed (by decide) hdecimal
  rw [chars]
  cases i.opcode.operandKind <;> simp [hmnemonic, hletter, hdecimal, hsigned]

end Instruction

/-! ### Listings -/

namespace Environment

/-- The lines of a text in which every line ends with a newline. -/
theorem splitLines_flatMap {lines : List (List Char)} (h : ∀ line ∈ lines, '\n' ∉ line) :
    splitLines [] (lines.flatMap (· ++ ['\n'])) = lines ++ [[]] := by
  induction lines with
  | nil => rfl
  | cons line lines ih =>
    obtain ⟨hline, hlines⟩ := List.forall_mem_cons.mp h
    rw [List.flatMap_cons, List.append_assoc, List.singleton_append, splitLines_append hline,
      ih hlines]
    rfl

end Environment

namespace Program

/-- A line of the listing without its newline. -/
def bareLine (word : UInt32) (pc : Nat) : List Char :=
  Numeral.zeroPadded 4 pc ++ ':' :: ' ' :: Numeral.hex 8 word.toNat ++ ' ' :: ' ' ::
    match Instruction.decode word with
    | .ok i => i.chars
    | .error _ => ['?', '?', '?']

theorem listingLine_eq (word : UInt32) (pc : Nat) :
    listingLine word pc = bareLine word pc ++ ['\n'] := by
  rw [listingLine, bareLine]
  cases Instruction.decode word <;> simp

theorem newline_not_mem_bareLine (word : UInt32) (pc : Nat) : '\n' ∉ bareLine word pc := by
  have hdecimal := Numeral.newline_not_mem_decimal pc
  have hhex : '\n' ∉ Nat.toDigits 16 word.toNat :=
    Numeral.not_mem_toDigits (by decide) (by decide)
  rw [bareLine]
  cases Instruction.decode word with
  | ok i =>
    simp [Numeral.zeroPadded, Numeral.hex, List.leftpad, hdecimal, hhex, i.newline_not_mem_chars]
  | error e => simp [Numeral.zeroPadded, Numeral.hex, List.leftpad, hdecimal, hhex]

/-- A line shows its word in eight digits, whatever the word stands for. -/
theorem bareLine_inj {word word' : UInt32} {pc : Nat} (h : bareLine word pc = bareLine word' pc) :
    word = word' := by
  simp only [bareLine, List.append_assoc, List.append_cancel_left_eq, List.cons_append,
    List.cons.injEq, true_and] at h
  have hlength : (Numeral.hex 8 word.toNat).length = (Numeral.hex 8 word'.toNat).length := by
    rw [Numeral.length_hex_word, Numeral.length_hex_word]
  have hreads := Numeral.parseHex?_hex 8 word.toNat
  rw [(List.append_inj h hlength).1, Numeral.parseHex?_hex] at hreads
  exact UInt32.toNat_inj.mp (Option.some.inj hreads).symm

/-- The lines of the listing of words from index `pc` on. -/
def bareLinesFrom (pc : Nat) (words : List UInt32) : List (List Char) :=
  (words.zipIdx pc).map fun (word, pc) => bareLine word pc

theorem bareLinesFrom_cons (pc : Nat) (word : UInt32) (words : List UInt32) :
    bareLinesFrom pc (word :: words) = bareLine word pc :: bareLinesFrom (pc + 1) words := rfl

theorem bareLinesFrom_inj {pc : Nat} {ws ws' : List UInt32}
    (h : bareLinesFrom pc ws = bareLinesFrom pc ws') : ws = ws' := by
  induction ws generalizing pc ws' with
  | nil =>
    cases ws' with
    | nil => rfl
    | cons w' ws' => cases h
  | cons w ws ih =>
    cases ws' with
    | nil => cases h
    | cons w' ws' =>
      rw [bareLinesFrom_cons, bareLinesFrom_cons, List.cons.injEq] at h
      rw [bareLine_inj h.1, ih h.2]

theorem length_bareLinesFrom (pc : Nat) (ws : List UInt32) :
    (bareLinesFrom pc ws).length = ws.length := by
  rw [bareLinesFrom, List.length_map, List.length_zipIdx]

theorem newline_not_mem_bareLinesFrom {pc : Nat} {ws : List UInt32} :
    ∀ line ∈ bareLinesFrom pc ws, '\n' ∉ line := by
  intro line hline
  obtain ⟨⟨word, pc⟩, -, rfl⟩ := List.mem_map.mp hline
  exact newline_not_mem_bareLine word pc

theorem toList_listing (p : Program) :
    p.listing.toList = (bareLinesFrom 0 p.words.toList).flatMap (· ++ ['\n']) := by
  rw [listing, String.toList_join, listingLines, bareLinesFrom, List.flatMap_map, List.flatMap_map]
  refine congrFun (congrArg List.flatMap (funext fun (word, pc) => ?_)) _
  rw [String.toList_ofList, listingLine_eq]

theorem splitLines_listing (p : Program) :
    Environment.splitLines [] p.listing.toList = bareLinesFrom 0 p.words.toList ++ [[]] := by
  rw [toList_listing, Environment.splitLines_flatMap newline_not_mem_bareLinesFrom]

/-- A listing tells the words of its program. -/
theorem listing_inj {p q : Program} : p.listing = q.listing ↔ p.words = q.words := by
  constructor
  · intro h
    have hlines := congrArg (fun text => Environment.splitLines [] text.toList) h
    simp only [splitLines_listing, List.append_cancel_right_eq] at hlines
    exact Array.toList_inj.mp (bareLinesFrom_inj hlines)
  · intro h
    rw [listing, listing, listingLines, listingLines, h]

end Program

end Dyad
