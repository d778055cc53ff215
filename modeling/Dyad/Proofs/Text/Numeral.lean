import Dyad.Text.Numeral

/-!
Written numbers read back. Decimal digits denote the number they were written for, with a sign
(`parseInt64?_signed`) or without (`parseDigits?_decimal`), and so do hexadecimal digits filled up
with zeros (`parseHex?_hex`).
-/

namespace Dyad

namespace Numeral

/-! ### Digits -/

theorem exists_digitChar {b n : Nat} {c : Char} (hb : 1 < b) (h : c ∈ Nat.toDigits b n) :
    ∃ d, d < b ∧ c = d.digitChar := by
  induction n using Nat.strongRecOn with
  | ind n ih =>
    rcases Nat.lt_or_ge n b with hlt | hge
    · rw [Nat.toDigits_of_lt_base hlt, List.mem_singleton] at h
      exact ⟨n, hlt, h⟩
    · rw [Nat.toDigits_of_base_le hb hge, List.mem_append, List.mem_singleton] at h
      rcases h with hmem | rfl
      · exact ih (n / b) (Nat.div_lt_self (by omega) hb) hmem
      · exact ⟨n % b, Nat.mod_lt n (by omega), rfl⟩

/-- No digit is a blank, a newline, a sign or a bracket. -/
theorem not_mem_toDigits {b n : Nat} (hb : 1 < b) {c : Char}
    (hc : (c != '0' && c != '1' && c != '2' && c != '3' && c != '4' && c != '5' && c != '6' &&
      c != '7' && c != '8' && c != '9' && c != 'a' && c != 'b' && c != 'c' && c != 'd' &&
      c != 'e' && c != 'f' && c != '*') = true) : c ∉ Nat.toDigits b n := by
  intro h
  obtain ⟨d, -, rfl⟩ := exists_digitChar hb h
  exact Nat.digitChar_ne _ hc rfl

/-! ### Decimal digits -/

theorem value_decimal (n : Nat) : value (decimal n) = n :=
  Nat.ofDigitChars_eq_foldl.symm.trans Nat.ofDigitChars_ten_toDigits

theorem parseDigits?_decimal (n : Nat) : parseDigits? (decimal n) = some n := by
  have hdigits : (decimal n).all Char.isDigit = true :=
    List.all_eq_true.mpr fun c hc => Nat.isDigit_of_mem_toDigits (by decide) (by decide) hc
  rw [parseDigits?, if_pos ⟨Nat.toDigits_ne_nil, hdigits⟩, value_decimal]

theorem not_mem_signed {c : Char} {i : Int} (hminus : c ≠ '-')
    (hc : ∀ n, c ∉ Nat.toDigits 10 n) : c ∉ signed i := by
  cases i with
  | ofNat n => exact hc n
  | negSucc n => exact fun h => (List.mem_cons.mp h).elim hminus (hc (n + 1))

/-- Numbers are written as they are usually written. -/
theorem ofList_signed (i : Int) : String.ofList (signed i) = toString i := by
  rw [Int.toString_eq_repr]
  cases i with
  | ofNat n => exact Nat.repr_eq_ofList_toDigits.symm
  | negSucc n =>
    rw [Int.repr, Nat.repr_eq_ofList_toDigits, signed, decimal, ← List.singleton_append,
      String.ofList_append]

theorem decimal_ne_cons {c : Char} {n : Nat} (hc : c.isDigit = false) (rest : List Char) :
    decimal n ≠ c :: rest := by
  intro h
  have hmem : c ∈ decimal n := h ▸ List.mem_cons_self
  rw [Nat.isDigit_of_mem_toDigits (by decide) (by decide) hmem] at hc
  cases hc

theorem parseInt64?_signed {i : Int} (hlo : -0x8000000000000000 ≤ i)
    (hhi : i < 0x8000000000000000) : parseInt64? (signed i) = some i := by
  -- the bounds are compared while `i` is a variable: on a constructor they would be computed with
  have hbounded : (some i >>= fun i : Int =>
      if -0x8000000000000000 ≤ i ∧ i < 0x8000000000000000 then some i else none) = some i := by
    rw [Option.bind_eq_bind, Option.bind_some, if_pos ⟨hlo, hhi⟩]
  cases i with
  | ofNat n =>
    rw [signed, parseInt64?, parseDigits?_decimal]
    · exact hbounded
    · exact decimal_ne_cons rfl
    · exact decimal_ne_cons rfl
  | negSucc n =>
    rw [signed, parseInt64?, parseDigits?_decimal]
    exact hbounded

/-! ### Hexadecimal digits -/

/-- The value of a lower-case hexadecimal digit. -/
def hexDigit? (c : Char) : Option Nat :=
  if '0' ≤ c ∧ c ≤ '9' then some (c.toNat - '0'.toNat)
  else if 'a' ≤ c ∧ c ≤ 'f' then some (c.toNat - 'a'.toNat + 10)
  else none

/-- Reads lower-case hexadecimal digits, the most significant first, and nothing else. -/
def parseHex? (cs : List Char) : Option Nat :=
  cs.foldlM (fun n c => (hexDigit? c).map (16 * n + ·)) 0

theorem hexDigit?_digitChar {d : Nat} (h : d < 16) : hexDigit? d.digitChar = some d := by
  revert d
  decide

theorem parseHex?_append_digitChar (cs : List Char) {n d : Nat} (hcs : parseHex? cs = some n)
    (hd : d < 16) : parseHex? (cs ++ [d.digitChar]) = some (16 * n + d) := by
  rw [parseHex?] at hcs
  rw [parseHex?, List.foldlM_append, hcs]
  simp [hexDigit?_digitChar hd]

theorem parseHex?_toDigits (n : Nat) : parseHex? (Nat.toDigits 16 n) = some n := by
  induction n using Nat.strongRecOn with
  | ind n ih =>
    rcases Nat.lt_or_ge n 16 with hlt | hge
    · rw [Nat.toDigits_of_lt_base hlt]
      exact (parseHex?_append_digitChar [] rfl hlt).trans (by simp)
    · rw [Nat.toDigits_of_base_le (by decide) hge,
        parseHex?_append_digitChar _ (ih (n / 16) (by omega)) (Nat.mod_lt n (by decide)),
        Nat.div_add_mod]

/-- Zeros in front of a number do not change it. -/
theorem parseHex?_hex (width n : Nat) : parseHex? (hex width n) = some n := by
  rw [hex, List.leftpad]
  induction width - (Nat.toDigits 16 n).length with
  | zero => exact parseHex?_toDigits n
  | succ k ih => exact ih

theorem length_hex {width n : Nat} (h : (Nat.toDigits 16 n).length ≤ width) :
    (hex width n).length = width := by
  rw [hex, List.length_leftpad]
  exact Nat.max_eq_left h

end Numeral

/-! ### Words -/

/-- A word has at most eight hexadecimal digits. -/
theorem Numeral.length_hex_word (w : UInt32) : (hex 8 w.toNat).length = 8 :=
  length_hex ((Nat.length_toDigits_le_iff (by decide) (by decide)).mpr w.toNat_lt)

theorem signedWord_eq (w : UInt32) : signedWord w = w.toInt32.toInt := by
  have htoInt : w.toInt32.toInt = w.toBitVec.toInt := rfl
  rw [htoInt, BitVec.toInt_eq_toNat_cond, signedWord, UInt32.toNat_toBitVec]
  split <;> split <;> omega

theorem signedWord_emod (w : UInt32) : signedWord w % 0x100000000 = w.toNat := by
  have := w.toNat_lt
  unfold signedWord
  split <;> omega

theorem signedWord_bounds (w : UInt32) :
    -0x80000000 ≤ signedWord w ∧ signedWord w < 0x80000000 := by
  have := w.toNat_lt
  unfold signedWord
  split <;> omega

end Dyad
