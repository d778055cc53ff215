import Mathlib.Data.Nat.Find
import Dyad.Proofs.Code.Session
import Dyad.Proofs.Native.Workshop
import Dyad.Proofs.Run.Step

/-!
Which words are accepted. Loading, compiling and interpreting each decode words for themselves, and
they agree: a word is accepted exactly if it is the encoding of an instruction
(`Instruction.decode_eq_ok_iff`), and otherwise the error is told by its first two bytes
(`Instruction.decode_of_bad`). A list of words is loaded and compiled exactly if all of them are
accepted. If not, both report the first bad word: loading with its decoding error, compiling with
its index. What has been compiled never makes the interpreter fail to decode.
-/

namespace Dyad

/-! ### One word -/

theorem Opcode.exists_byte_iff {b : UInt8} : (∃ op : Opcode, op.byte = b) ↔ b.toNat ≤ 8 := by
  constructor
  · rintro ⟨op, rfl⟩
    cases op <;> decide
  · intro h
    have hop (op : Opcode) (hb : b.toNat = op.byte.toNat) : ∃ op : Opcode, op.byte = b :=
      ⟨op, UInt8.toNat_inj.mp hb.symm⟩
    match hb : b.toNat with
    | 0 => exact hop .loadMemory hb
    | 1 => exact hop .loadImmediate hb
    | 2 => exact hop .storeMemory hb
    | 3 => exact hop .addMemory hb
    | 4 => exact hop .addImmediate hb
    | 5 => exact hop .subtractMemory hb
    | 6 => exact hop .subtractImmediate hb
    | 7 => exact hop .print hb
    | 8 => exact hop .jumpIfNonZero hb
    | n + 9 => omega

/-- What is wrong with a word that is not an instruction: its first byte, if that is too large for
an opcode, and otherwise its second byte. -/
def DecodeError.verdict (w : UInt32) : DecodeError :=
  if 8 < w.toNat / 0x1000000 then .invalidOpcode w (UInt8.ofNat (w.toNat / 0x1000000))
  else .invalidRegister w (UInt8.ofNat (w.toNat / 0x10000 % 0x100))

namespace Instruction

theorem toNat_opcodeByte (w : UInt32) : (opcodeByte w).toNat = w.toNat / 0x1000000 := by
  have := w.toNat_lt
  simp only [opcodeByte, UInt32.toNat_toUInt8, UInt32.toNat_shiftRight, UInt32.reduceToNat,
    Nat.reduceMod, Nat.shiftRight_eq_div_pow]
  omega

theorem toNat_registerByte (w : UInt32) :
    (registerByte w).toNat = w.toNat / 0x10000 % 0x100 := by
  simp only [registerByte, UInt32.toNat_toUInt8, UInt32.toNat_shiftRight, UInt32.reduceToNat,
    Nat.reduceMod, Nat.shiftRight_eq_div_pow]

theorem eq_encode_of_decode {w : UInt32} {i : Instruction} (h : decode w = .ok i) :
    w = i.encode := by
  unfold decode at h
  split at h
  · cases h
  · rename_i op hop
    split at h
    · cases h
    · rename_i r hr
      cases h
      have ho := toNat_opcodeByte w
      have hb := toNat_registerByte w
      rw [← Opcode.ofByte?_eq_some hop] at ho
      rw [← Register.ofByte?_eq_some hr] at hb
      apply UInt32.toNat_inj.mp
      rw [toNat_encode]
      simp only [UInt32.toNat_toUInt16]
      omega

/-- Exactly the encodings of instructions are decoded. -/
theorem decode_eq_ok_iff {w : UInt32} {i : Instruction} : decode w = .ok i ↔ w = i.encode :=
  ⟨eq_encode_of_decode, fun h => h ▸ decode_encode i⟩

theorem decode_of_bad {w : UInt32} (h : ∀ i : Instruction, w ≠ i.encode) :
    decode w = .error (.verdict w) := by
  have hw : ∀ i, decode w ≠ .ok i := fun i hi => h i (eq_encode_of_decode hi)
  unfold DecodeError.verdict
  rw [← toNat_registerByte, ← toNat_opcodeByte, UInt8.ofNat_toNat, UInt8.ofNat_toNat]
  by_cases ho : (opcodeByte w).toNat ≤ 8
  · obtain ⟨op, hop⟩ := Opcode.exists_byte_iff.mpr ho
    rw [if_neg (Nat.not_lt.mpr ho), decode, ← hop, Opcode.ofByte?_byte]
    cases hr : Register.ofByte? (registerByte w) with
    | none => rfl
    | some r => exact absurd (decode_eq_ok hop.symm (Register.ofByte?_eq_some hr).symm) (hw _)
  · rw [if_pos (Nat.not_le.mp ho), decode]
    cases hop : Opcode.ofByte? (opcodeByte w) with
    | none => rfl
    | some op => exact absurd (Opcode.exists_byte_iff.mp ⟨op, Opcode.ofByte?_eq_some hop⟩) ho

/-- The word is accepted by itself. -/
theorem exists_decode_iff {w : UInt32} :
    (∃ i, decode w = .ok i) ↔ ∃ i : Instruction, w = i.encode :=
  exists_congr fun _ => decode_eq_ok_iff

end Instruction

/-! ### Lists of words -/

/-- `w`, at index `pc`, is the first of the words that is not an instruction. -/
structure FirstBad (words : Array UInt32) (pc : Nat) (w : UInt32) : Prop where
  here : words[pc]? = some w
  bad : ∀ i : Instruction, w ≠ i.encode
  before : ∀ j, j < pc → ∃ i : Instruction, words[j]? = some i.encode

/-- Words that are not all instructions have a first bad one. -/
theorem exists_firstBad {words : Array UInt32}
    (h : ¬ ∀ w ∈ words.toList, ∃ i : Instruction, w = i.encode) :
    ∃ pc w, FirstBad words pc w := by
  classical
  have hbad : ∃ pc : Nat, ∃ w, words[pc]? = some w ∧ ∀ i : Instruction, w ≠ i.encode := by
    simp only [not_forall, not_exists] at h
    obtain ⟨w, hw, hbad⟩ := h
    obtain ⟨pc, hpc, rfl⟩ := Array.mem_iff_getElem.mp (Array.mem_toList_iff.mp hw)
    exact ⟨pc, _, Array.getElem?_eq_getElem hpc, hbad⟩
  obtain ⟨w, hw, hbadw⟩ := Nat.find_spec hbad
  refine ⟨Nat.find hbad, w, hw, hbadw, fun j hj => ?_⟩
  have hlt : j < words.size := Nat.lt_trans hj (Array.getElem?_eq_some_iff.mp hw).1
  have hmin := Nat.find_min hbad hj
  simp only [Array.getElem?_eq_getElem hlt, Option.some.injEq, exists_eq_left', ne_eq,
    not_forall, not_not] at hmin ⊢
  exact hmin

/-- Up to the first bad word all are instructions. -/
theorem FirstBad.split {words : Array UInt32} {pc : Nat} {w : UInt32} (h : FirstBad words pc w) :
    ∃ good rest, words.toList = good ++ w :: rest ∧ good.length = pc ∧
      ∀ v ∈ good, ∃ i, Instruction.decode v = .ok i := by
  obtain ⟨hpc, rfl⟩ := Array.getElem?_eq_some_iff.mp h.here
  refine ⟨words.toList.take pc, words.toList.drop (pc + 1), ?_, ?_, ?_⟩
  · rw [← Array.getElem_toList hpc, List.getElem_cons_drop, List.take_append_drop]
  · rw [List.length_take, Array.length_toList, Nat.min_eq_left (Nat.le_of_lt hpc)]
  · intro v hv
    obtain ⟨j, hj, rfl⟩ := List.mem_iff_getElem.mp hv
    rw [List.length_take] at hj
    obtain ⟨i, hi⟩ := h.before j (by omega)
    rw [List.getElem_take, Array.getElem_toList]
    rw [Array.getElem?_eq_getElem (by simp at hj; omega), Option.some.injEq] at hi
    exact ⟨i, Instruction.decode_eq_ok_iff.mpr hi⟩

namespace Program

theorem firstError?_append {good rest : List UInt32} {w : UInt32} {e : DecodeError}
    (hgood : ∀ v ∈ good, ∃ i, Instruction.decode v = .ok i) (hw : Instruction.decode w = .error e) :
    firstError? (good ++ w :: rest) = some e := by
  induction good with
  | nil => rw [List.nil_append, firstError?, hw]
  | cons v good ih =>
    obtain ⟨⟨i, hi⟩, hgood⟩ := List.forall_mem_cons.mp hgood
    rw [List.cons_append, firstError?, hi]
    exact ih hgood

/-- Loading reports the first bad word for what is wrong with it. -/
theorem ofWords?_of_firstBad {words : Array UInt32} {pc : Nat} {w : UInt32}
    (h : FirstBad words pc w) : ofWords? words = .error (.verdict w) := by
  obtain ⟨good, rest, hwords, -, hgood⟩ := h.split
  rw [ofWords?, hwords, firstError?_append hgood (Instruction.decode_of_bad h.bad)]

end Program

namespace Compiler

theorem decodeAll_go_append {good rest : List UInt32} {w : UInt32} {e : DecodeError} {pc : Nat}
    {acc : List Instruction} (hgood : ∀ v ∈ good, ∃ i, Instruction.decode v = .ok i)
    (hw : Instruction.decode w = .error e) :
    decodeAll.go pc acc (good ++ w :: rest) =
      .error (.invalidInstruction (pc + good.length) w) := by
  induction good generalizing pc acc with
  | nil =>
    rw [List.nil_append, decodeAll.go, hw]
    rfl
  | cons v good ih =>
    obtain ⟨⟨i, hi⟩, hgood⟩ := List.forall_mem_cons.mp hgood
    rw [List.cons_append, decodeAll.go, hi, List.length_cons, Nat.add_comm good.length,
      ← Nat.add_assoc]
    exact ih hgood

/-- Compiling reports the first bad word with its index. -/
theorem compile_of_firstBad (c : Compiler) {p : Program} {pc : Nat} {w : UInt32}
    (h : FirstBad p.words pc w) : c.compile p = .error (.invalidInstruction pc w) := by
  obtain ⟨good, rest, hwords, hpc, hgood⟩ := h.split
  have hdecode : decodeAll p.words = .error (.invalidInstruction pc w) := by
    rw [decodeAll, hwords, decodeAll_go_append hgood (Instruction.decode_of_bad h.bad), hpc,
      Nat.zero_add]
  rw [compile, hdecode]
  rfl

end Compiler

/-- Loading and compiling accept exactly the words that are all encodings of instructions, and
otherwise report the first that is not. What has been compiled can be interpreted: no run of it
fails to decode. -/
theorem accepted_iff_encoded (words : Array UInt32) :
    ((∃ p, Program.ofWords? words = .ok p) ↔
      ∀ w ∈ words.toList, ∃ i : Instruction, w = i.encode) ∧
    (∀ (c : Compiler) (mark : Nat),
      (∃ r, c.compile ⟨words, mark⟩ = .ok r) ↔ ∃ p, Program.ofWords? words = .ok p) ∧
    ((¬ ∃ p, Program.ofWords? words = .ok p) → ∃ pc w, FirstBad words pc w ∧
      Instruction.decode w = .error (.verdict w) ∧
      Program.ofWords? words = .error (.verdict w) ∧
      ∀ (c : Compiler) (mark : Nat),
        c.compile ⟨words, mark⟩ = .error (.invalidInstruction pc w)) ∧
    ∀ (c : Compiler) (mark : Nat) r, c.compile ⟨words, mark⟩ = .ok r →
      ∀ (m m' : Interpreter) (fuel : Nat) (sink : Sink) (report : Interpreter.Report),
        m.words = words → m.run fuel sink = some (report, m') →
          ∀ e, report.fault ≠ some (.undecodable e) := by
  have loaded : (∃ p, Program.ofWords? words = .ok p) ↔
      ∀ w ∈ words.toList, ∃ i, Instruction.decode w = .ok i := by
    simp only [Program.ofWords?_eq_ok_iff, exists_and_left, exists_eq, and_true]
  have compiled (c : Compiler) (mark : Nat) : (∃ r, c.compile ⟨words, mark⟩ = .ok r) ↔
      ∀ w ∈ words.toList, ∃ i, Instruction.decode w = .ok i := by
    rw [← Decodes.exists_iff]
    constructor
    · rintro ⟨⟨r, c'⟩, hr⟩
      obtain ⟨code, hd, -⟩ := Compiler.routine_of_compile hr
      exact ⟨code, hd⟩
    · rintro ⟨code, hd⟩
      exact ⟨_, c.compile_of_decodes (p := ⟨words, mark⟩) hd⟩
  refine ⟨?_, ?_, ?_, ?_⟩
  · rw [loaded]
    simp only [Instruction.exists_decode_iff]
  · intro c mark
    rw [loaded, compiled]
  · intro hrefused
    rw [loaded] at hrefused
    simp only [Instruction.exists_decode_iff] at hrefused
    obtain ⟨pc, w, hbad⟩ := exists_firstBad hrefused
    exact ⟨pc, w, hbad, Instruction.decode_of_bad hbad.bad, Program.ofWords?_of_firstBad hbad,
      fun c mark => c.compile_of_firstBad (p := ⟨words, mark⟩) hbad⟩
  · rintro c mark r hr m m' fuel sink report rfl hrun
    exact Interpreter.fault_ne_undecodable ((compiled c mark).mp ⟨r, hr⟩) hrun

/-- Two bad words after a good one, the first of them with two bad bytes; and the good one alone. -/
theorem accepted_iff_encoded_mixed :
    FirstBad #[0x08010003, 0x09020000, 0x00020000] 1 0x09020000 ∧
      Program.ofWords? #[0x08010003, 0x09020000, 0x00020000] =
        .error (.invalidOpcode 0x09020000 9) ∧
      (∃ r, Compiler.standard.compile ⟨#[0x08010003], 0⟩ = .ok r) ∧
      ∃ report m', Interpreter.run { words := #[0x08010003] } 2 {} = some (report, m') ∧
        ∀ e, report.fault ≠ some (.undecodable e) := by
  obtain ⟨-, -, refused, -⟩ := accepted_iff_encoded #[0x08010003, 0x09020000, 0x00020000]
  obtain ⟨-, -, -, runs⟩ := accepted_iff_encoded #[0x08010003]
  have hd : Decodes #[0x08010003] [⟨.jumpIfNonZero, .b, 3⟩] := rfl
  have hr := Compiler.standard.compile_of_decodes (p := ⟨#[0x08010003], 0⟩) hd
  obtain ⟨pc, w, hbad, -, hload, hcompile⟩ := refused (by rintro ⟨p, hp⟩; cases hp)
  cases hcompile Compiler.standard 0
  exact ⟨hbad, hload, ⟨_, hr⟩, _, _, rfl,
    runs _ 0 _ hr { words := #[0x08010003] } _ 2 {} _ rfl rfl⟩

end Dyad
