import Mathlib.Algebra.Ring.Nat
import Mathlib.Data.List.Forall2
import Mathlib.Data.List.TakeWhile
import Dyad.Settings.Basic

/-!
What the variables of the environment may say, as a grammar beside the readers. A number is an
optional plus sign and decimal digits (`Numeral.Denotes`), and `parseWord64?` reads exactly the
numbers below `2 ^ 64` (`parseWord64?_eq_some_iff`). A text is stripped of the blanks around it
(`Stripped`, which is `trim`) and compared with a word letter by letter in either case (`Spells`).
Together they say which settings an environment stands for, and for which environments no compiler
can be made.
-/

namespace Dyad

/-! ### Numbers -/

namespace Numeral

/-- Decimal digits and the number they denote, each digit counting by the number of digits behind
it. -/
inductive Digits : List Char → Nat → Prop
  | one {d : Nat} (hd : d < 10) : Digits [d.digitChar] d
  | cons {d n : Nat} {cs : List Char} (hd : d < 10) (rest : Digits cs n) :
    Digits (d.digitChar :: cs) (d * 10 ^ cs.length + n)

/-- An optional plus sign and digits, and the number they denote. -/
inductive Denotes : List Char → Nat → Prop
  | plain {cs : List Char} {n : Nat} (digits : Digits cs n) : Denotes cs n
  | plus {cs : List Char} {n : Nat} (digits : Digits cs n) : Denotes ('+' :: cs) n

theorem exists_digitChar_of_isDigit {c : Char} (h : c.isDigit = true) :
    ∃ d, d < 10 ∧ c = d.digitChar := by
  have hbounds : 48 ≤ c.toNat ∧ c.toNat ≤ 57 := by
    simpa [Char.isDigit, UInt32.le_iff_toNat_le] using h
  have hdigit : ∀ n < 58, 48 ≤ n → Char.ofNat n = (n - 48).digitChar := by decide
  refine ⟨c.toNat - 48, by omega, ?_⟩
  rw [← hdigit c.toNat (by omega) hbounds.1, Char.ofNat_toNat]

theorem value_eq_ofDigitChars (cs : List Char) : value cs = Nat.ofDigitChars 10 cs 0 :=
  Nat.ofDigitChars_eq_foldl.symm

/-- A digit counts by the number of digits behind it. -/
theorem value_digitChar_cons {d : Nat} (hd : d < 10) (cs : List Char) :
    value (d.digitChar :: cs) = d * 10 ^ cs.length + value cs := by
  rw [value_eq_ofDigitChars, Nat.ofDigitChars_cons_digitChar_of_lt_ten hd,
    Nat.ofDigitChars_eq_ofDigitChars_zero, ← value_eq_ofDigitChars, Nat.mul_zero, Nat.zero_add,
    Nat.mul_comm]

theorem Digits.parseDigits? {cs : List Char} {n : Nat} (h : Digits cs n) :
    parseDigits? cs = some n := by
  have hread : cs ≠ [] ∧ cs.all Char.isDigit ∧ value cs = n := by
    induction h with
    | @one d hd =>
      refine ⟨List.cons_ne_nil _ _, ?_, ?_⟩
      · simp [Nat.isDigit_digitChar, hd]
      · rw [value_digitChar_cons hd]
        simp [value]
    | @cons d n cs hd _ ih =>
      obtain ⟨-, hdigits, rfl⟩ := ih
      refine ⟨List.cons_ne_nil _ _, ?_, value_digitChar_cons hd cs⟩
      simp only [List.all_cons, Nat.isDigit_digitChar, hd, decide_true, hdigits, Bool.and_self]
  obtain ⟨hne, hdigits, rfl⟩ := hread
  exact if_pos ⟨hne, hdigits⟩

theorem digits_value {cs : List Char} (hne : cs ≠ []) (hdigits : cs.all Char.isDigit) :
    Digits cs (value cs) := by
  induction cs with
  | nil => exact absurd rfl hne
  | cons c cs ih =>
    rw [List.all_cons, Bool.and_eq_true] at hdigits
    obtain ⟨d, hd, rfl⟩ := exists_digitChar_of_isDigit hdigits.1
    rw [value_digitChar_cons hd]
    cases cs with
    | nil => simpa [value] using Digits.one hd
    | cons c' cs => exact .cons hd (ih (List.cons_ne_nil _ _) hdigits.2)

theorem parseDigits?_eq_some_iff {cs : List Char} {n : Nat} :
    parseDigits? cs = some n ↔ Digits cs n := by
  refine ⟨fun h => ?_, Digits.parseDigits?⟩
  rw [Numeral.parseDigits?] at h
  split at h
  case isTrue hread =>
    cases h
    exact digits_value hread.1 hread.2
  case isFalse => cases h

theorem not_digits_plus {cs : List Char} {n : Nat} : ¬ Digits ('+' :: cs) n := by
  intro h
  have hread := h.parseDigits?
  simp [Numeral.parseDigits?, Char.isDigit] at hread

/-- The reader takes every number below `2 ^ 64`, however many zeros are in front, and nothing
else. -/
theorem parseWord64?_eq_some_iff {cs : List Char} {n : Nat} :
    parseWord64? cs = some n ↔ Denotes cs n ∧ n < 2 ^ 64 := by
  unfold parseWord64?
  rw [Option.bind_eq_bind, Option.bind_eq_some_iff]
  constructor
  · rintro ⟨m, hm, hbound⟩
    split at hbound
    case isTrue hlt =>
      cases hbound
      rw [parseDigits?_eq_some_iff] at hm
      split at hm
      · exact ⟨.plus hm, hlt⟩
      · exact ⟨.plain hm, hlt⟩
    case isFalse => cases hbound
  · rintro ⟨hread, hlt⟩
    refine ⟨n, ?_, if_pos hlt⟩
    rw [parseDigits?_eq_some_iff]
    cases hread with
    | plain h =>
      split
      · exact absurd h not_digits_plus
      · exact h
    | plus h => exact h

end Numeral

/-! ### Words between blanks -/

/-- A text between blanks is left without any at its ends. -/
structure Stripped (cs core : List Char) : Prop where
  between : ∃ lead trail, cs = lead ++ (core ++ trail) ∧
    (∀ c ∈ lead, isWhiteSpace c = true) ∧ ∀ c ∈ trail, isWhiteSpace c = true
  head : ∀ c ∈ core.head?, isWhiteSpace c = false
  last : ∀ c ∈ core.getLast?, isWhiteSpace c = false

theorem trimStart_append {lead : List Char} (h : ∀ c ∈ lead, isWhiteSpace c = true)
    (cs : List Char) : trimStart (lead ++ cs) = trimStart cs :=
  List.dropWhile_append_of_pos h

theorem trimStart_eq_self {cs : List Char} (h : ∀ c ∈ cs.head?, isWhiteSpace c = false) :
    trimStart cs = cs := by
  cases cs with
  | nil => rfl
  | cons c cs => exact List.dropWhile_cons_of_neg (by simp [h c rfl])

theorem head?_trimStart {cs : List Char} : ∀ c ∈ (trimStart cs).head?, isWhiteSpace c = false := by
  intro c hc
  have hstop := List.head?_dropWhile_not isWhiteSpace cs
  rw [show (cs.dropWhile isWhiteSpace).head? = some c from hc] at hstop
  exact hstop

theorem trimEnd_append {trail : List Char} (h : ∀ c ∈ trail, isWhiteSpace c = true)
    (cs : List Char) : trimEnd (cs ++ trail) = trimEnd cs := by
  rw [trimEnd, List.reverse_append, trimStart_append, trimEnd]
  exact fun c hc => h c (List.mem_reverse.mp hc)

theorem trimEnd_eq_self {cs : List Char} (h : ∀ c ∈ cs.getLast?, isWhiteSpace c = false) :
    trimEnd cs = cs := by
  rw [trimEnd, trimStart_eq_self, List.reverse_reverse]
  rwa [List.head?_reverse]

theorem exists_eq_append_trimStart (cs : List Char) :
    ∃ lead, cs = lead ++ trimStart cs ∧ ∀ c ∈ lead, isWhiteSpace c = true :=
  ⟨cs.takeWhile isWhiteSpace, List.takeWhile_append_dropWhile.symm,
    fun _ hc => List.mem_takeWhile_imp hc⟩

theorem stripped_trim (cs : List Char) : Stripped cs (trim cs) := by
  obtain ⟨lead, hlead, hblank⟩ := exists_eq_append_trimStart cs
  obtain ⟨trail, htrail, hblank'⟩ := exists_eq_append_trimStart (trimStart cs).reverse
  have hmiddle : trimStart cs = trim cs ++ trail.reverse := by
    rw [trim, trimEnd, ← List.reverse_append, ← htrail, List.reverse_reverse]
  refine ⟨⟨lead, trail.reverse, ?_, hblank, fun c hc => hblank' c (List.mem_reverse.mp hc)⟩,
    fun c hc => ?_, fun c hc => ?_⟩
  · rwa [← hmiddle]
  · have hfirst : c ∈ (trimStart cs).head? := by
      rw [hmiddle, List.head?_append, Option.mem_def.mp hc]
      rfl
    exact head?_trimStart c hfirst
  · rw [trim, trimEnd, List.getLast?_reverse] at hc
    exact head?_trimStart c hc

theorem Stripped.trim_eq {cs core : List Char} (h : Stripped cs core) : trim cs = core := by
  obtain ⟨⟨lead, trail, rfl, hlead, htrail⟩, hhead, hlast⟩ := h
  rw [trim, trimStart_append hlead]
  cases core with
  | nil =>
    -- nothing but blanks, which are all taken for leading ones
    have hnone := trimStart_append htrail []
    rw [List.append_nil] at hnone
    rw [List.nil_append, hnone]
    rfl
  | cons c core =>
    rw [trimStart_eq_self (by exact hhead), trimEnd_append htrail, trimEnd_eq_self hlast]

/-- A text that spells a word of small letters and digits, every letter in either case. -/
def Spells (cs word : List Char) : Prop := List.Forall₂ (fun c d => c = d ∨ c = d.toUpper) cs word

theorem toUpper_toLower {c : Char} (h : c.toLower ≠ c) : c.toLower.toUpper = c := by
  have hascii : c.toNat < 128 := by
    by_contra hhigh
    refine h (dif_neg fun hupper => hhigh ?_)
    have hle := UInt32.le_iff_toNat_le.mp hupper.2
    exact Nat.lt_of_le_of_lt hle (by decide)
  have hletter : ∀ n < 128, (Char.ofNat n).toLower ≠ Char.ofNat n →
      (Char.ofNat n).toLower.toUpper = Char.ofNat n := by decide
  rw [← Char.ofNat_toNat c] at h ⊢
  exact hletter c.toNat hascii h

theorem toLower_toUpper {c : Char} (h : c.toUpper ≠ c) : c.toUpper.toLower = c := by
  have hascii : c.toNat < 128 := by
    by_contra hhigh
    refine h (dif_neg fun hlower => hhigh ?_)
    have hle := UInt32.le_iff_toNat_le.mp hlower.2
    exact Nat.lt_of_le_of_lt hle (by decide)
  have hletter : ∀ n < 128, (Char.ofNat n).toUpper ≠ Char.ofNat n →
      (Char.ofNat n).toUpper.toLower = Char.ofNat n := by decide
  rw [← Char.ofNat_toNat c] at h ⊢
  exact hletter c.toNat hascii h

theorem toLower_eq_iff {c d : Char} (hd : d.toLower = d) :
    c.toLower = d ↔ c = d ∨ c = d.toUpper := by
  constructor
  · rintro rfl
    by_cases hc : c.toLower = c
    · exact .inl hc.symm
    · exact .inr (toUpper_toLower hc).symm
  · rintro (rfl | rfl)
    · exact hd
    · by_cases hupper : d.toUpper = d
      · rwa [hupper]
      · exact toLower_toUpper hupper

theorem map_toLower_eq_iff {cs word : List Char} (hword : ∀ d ∈ word, d.toLower = d) :
    cs.map Char.toLower = word ↔ Spells cs word := by
  induction word generalizing cs with
  | nil => rw [Spells, List.forall₂_nil_right_iff, List.map_eq_nil_iff]
  | cons d word ih =>
    rw [List.forall_mem_cons] at hword
    cases cs with
    | nil => exact ⟨fun h => (nomatch h), fun h => (nomatch h)⟩
    | cons c cs =>
      rw [Spells, List.forall₂_cons, ← toLower_eq_iff hword.1, List.map_cons, List.cons.injEq,
        ih hword.2, Spells]

/-! ### Settings -/

/-- Only too many cached cells keep a compiler from being made. -/
theorem Compiler.new?_eq_error_iff {cells : Nat} {e : CodegenError} :
    new? cells = .error e ↔ 3 < cells ∧ e = .tooManyCachedCells cells 3 := by
  rw [new?, maxCachedCells]
  split
  case isTrue hmany =>
    rw [Except.error.injEq]
    exact ⟨fun h => ⟨hmany, h.symm⟩, fun h => h.2.symm⟩
  case isFalse hfew => exact ⟨fun h => (nomatch h), fun h => absurd h.1 hfew⟩

namespace Settings

/-- A text that says yes. -/
def Affirms (cs : List Char) : Prop :=
  ∃ core, Stripped cs core ∧ ∃ word ∈ ["1", "true", "yes", "on"], Spells core word.toList

theorem isAffirmative_iff {text : String} : isAffirmative text = true ↔ Affirms text.toList := by
  have hsmall : ∀ word ∈ ["1", "true", "yes", "on"], ∀ d ∈ word.toList, d.toLower = d := by simp
  rw [isAffirmative, List.contains_iff_mem]
  constructor
  · intro h
    refine ⟨_, stripped_trim text.toList, _, h, (map_toLower_eq_iff (hsmall _ h)).mp ?_⟩
    rw [String.toList_ofList]
  · rintro ⟨core, hstripped, word, hword, hspells⟩
    rw [hstripped.trim_eq, (map_toLower_eq_iff (hsmall word hword)).mpr hspells,
      String.ofList_toList]
    exact hword

theorem traceOf_iff {value : Option String} :
    traceOf value = true ↔ ∃ v, value = some v ∧ Affirms v.toList := by
  cases value with
  | none => exact ⟨fun h => (nomatch h), fun ⟨_, h, _⟩ => (nomatch h)⟩
  | some v =>
    rw [traceOf, Option.map_some, Option.getD_some, isAffirmative_iff]
    refine ⟨fun h => ⟨v, rfl, h⟩, ?_⟩
    rintro ⟨_, ⟨⟩, h⟩
    exact h

/-- A value that gives a number of cached cells. -/
def Requests (value : Option String) (n : Nat) : Prop :=
  ∃ v, value = some v ∧ Numeral.Denotes v.toList n ∧ n < 2 ^ 64

theorem bind_parseWord64?_eq_some_iff {value : Option String} {n : Nat} :
    (value.bind fun v => Numeral.parseWord64? v.toList) = some n ↔ Requests value n := by
  rw [Option.bind_eq_some_iff]
  exact exists_congr fun v => and_congr_right fun _ => Numeral.parseWord64?_eq_some_iff

theorem cachedCellsOf_eq_iff {value : Option String} {n : Nat} :
    cachedCellsOf value = n ↔ Requests value n ∨ (∀ m, ¬ Requests value m) ∧ n = 3 := by
  simp only [← bind_parseWord64?_eq_some_iff, cachedCellsOf]
  cases value.bind fun v => Numeral.parseWord64? v.toList with
  | none =>
    rw [Option.getD_none, defaultCachedCells]
    constructor
    · rintro rfl
      exact .inr ⟨fun m hm => (nomatch hm), rfl⟩
    · rintro (h | ⟨-, rfl⟩)
      · cases h
      · rfl
  | some m =>
    rw [Option.getD_some, Option.some_inj]
    constructor
    · exact .inl
    · rintro (h | ⟨hnone, -⟩)
      · exact h
      · exact absurd rfl (hnone m)

/-- The variables are read by their grammar and nothing else. A number of cached cells that can be
read is taken, any other text or none leaves three. So no compiler can be made exactly if the
variable gives more than three. The trace is on exactly if its variable says yes. -/
theorem ofEnvironment_grammar (env : Environment) :
    (∀ n, (ofEnvironment env).cachedCells = n ↔
      Requests (env.get? "TOYVM_CACHED_CELLS") n ∨
        (∀ m, ¬ Requests (env.get? "TOYVM_CACHED_CELLS") m) ∧ n = 3) ∧
    (∀ e, Compiler.new? (ofEnvironment env).cachedCells = .error e ↔
      ∃ n, Requests (env.get? "TOYVM_CACHED_CELLS") n ∧ 3 < n ∧ e = .tooManyCachedCells n 3) ∧
    ((ofEnvironment env).trace = true ↔
      ∃ v, env.get? "TOYVM_TRACE" = some v ∧ Affirms v.toList) := by
  refine ⟨fun n => cachedCellsOf_eq_iff, fun e => ?_, traceOf_iff⟩
  rw [Compiler.new?_eq_error_iff]
  constructor
  · rintro ⟨hmany, rfl⟩
    -- three cells are never too many, so the number was read
    rcases cachedCellsOf_eq_iff.mp rfl with hread | ⟨-, hthree⟩
    · exact ⟨_, hread, hmany, rfl⟩
    · exact absurd hmany (hthree ▸ Nat.lt_irrefl 3)
  · rintro ⟨n, hread, hmany, rfl⟩
    rw [show (ofEnvironment env).cachedCells = n from cachedCellsOf_eq_iff.mpr (.inl hread)]
    exact ⟨hmany, rfl⟩

/-- Zeros in front and letters of either case are fine. -/
example : ofEnvironment ⟨[("TOYVM_CACHED_CELLS", "+0002"), ("TOYVM_TRACE", "\tYeS ")]⟩ =
    { trace := true, cachedCells := 2 } := by
  decide

end Settings

end Dyad
