import Dyad.Proofs.Run.Sequence
import Dyad.Proofs.Text.Numeral
import Dyad.Settings.Environment

/-!
What a text tells about the prints that made it. A line shows its value twice, in decimal and in
hexadecimal, and either of them gives it back (`Print.laidOut`). No line has a newline inside, so
the text of several prints falls apart into their lines (`Printer.splitLines_transcript`), and there
is only one list of prints that it can come from.
-/

namespace Dyad

/-! ### One line -/

/-- How the line of a print is made up: letter, blank, the value as a signed decimal number in at
least eight columns, and the value again as eight hexadecimal digits in brackets. -/
structure Print.LaidOut (p : Print) (padding decimal hex : List Char) : Prop where
  line : p.line.toList = p.register.letter :: ' ' :: padding ++ decimal ++ ['(', '0', 'x'] ++ hex ++
    [')', '\n']
  blank : ∀ c ∈ padding, c = ' '
  columns : (padding ++ decimal).length = max 8 decimal.length
  /-- The number that the word stands for in two's complement, as it is usually written. -/
  written : String.ofList decimal = toString p.value.toInt32.toInt
  decimal_reads : ∃ i, Numeral.parseInt64? decimal = some i ∧ i % 0x100000000 = p.value.toNat
  digits : hex.length = 8
  hex_reads : Numeral.parseHex? hex = some p.value.toNat

namespace Print

theorem laidOut (p : Print) :
    p.LaidOut (List.replicate (8 - (Numeral.signed (signedWord p.value)).length) ' ')
      (Numeral.signed (signedWord p.value)) (Numeral.hex 8 p.value.toNat) where
  line := by
    rw [Print.line, String.toList_ofList, chars, Numeral.rightJustified, List.leftpad]
    simp only [List.cons_append, List.append_assoc, List.nil_append]
  blank c hc := List.eq_of_mem_replicate hc
  columns := List.length_leftpad
  written := by rw [Numeral.ofList_signed, signedWord_eq]
  decimal_reads := by
    obtain ⟨hlo, hhi⟩ := signedWord_bounds p.value
    exact ⟨_, Numeral.parseInt64?_signed (by omega) (by omega), signedWord_emod p.value⟩
  digits := Numeral.length_hex_word p.value
  hex_reads := Numeral.parseHex?_hex 8 p.value.toNat

theorem newline_not_mem_chars (p : Print) : '\n' ∉ p.chars := by
  have hdigits (b n : Nat) (hb : 1 < b) : '\n' ∉ Nat.toDigits b n :=
    Numeral.not_mem_toDigits hb (by decide)
  have hletter : '\n' ≠ p.register.letter := by cases p.register <;> decide
  have hdecimal : '\n' ∉ Numeral.signed (signedWord p.value) :=
    Numeral.not_mem_signed (by decide) fun n => hdigits 10 n (by decide)
  have hhex : '\n' ∉ Nat.toDigits 16 p.value.toNat := hdigits 16 _ (by decide)
  simp [chars, Numeral.rightJustified, Numeral.hex, List.leftpad, hletter, hdecimal, hhex]

theorem letter_inj {r r' : Register} (h : r.letter = r'.letter) : r = r' := by
  cases r <;> cases r' <;> first | rfl | cases h

/-- A line tells what was printed: its first character the register, and the digits at its end the
value. -/
theorem chars_inj {p q : Print} (h : p.chars = q.chars) : p = q := by
  rw [chars, chars, List.append_cancel_right_eq] at h
  -- the decimal numbers may differ in length, but the digits behind them do not
  have hlength : (Numeral.hex 8 p.value.toNat).length = (Numeral.hex 8 q.value.toNat).length := by
    rw [p.laidOut.digits, q.laidOut.digits]
  obtain ⟨hfront, hback⟩ := List.append_inj' h (by simpa using hlength)
  have hvalue : p.value.toNat = q.value.toNat := by
    have hhex : Numeral.hex 8 p.value.toNat = Numeral.hex 8 q.value.toNat := by simpa using hback
    have hreads := p.laidOut.hex_reads
    rw [hhex, q.laidOut.hex_reads] at hreads
    exact (Option.some.inj hreads).symm
  obtain ⟨register, value⟩ := p
  obtain rfl := letter_inj (List.cons.inj hfront).1
  obtain rfl := UInt32.toNat_inj.mp hvalue
  rfl

end Print

/-! ### Several lines -/

theorem Environment.splitLines_append {cs : List Char} (h : '\n' ∉ cs) (current rest : List Char) :
    splitLines current (cs ++ '\n' :: rest) = (current.reverse ++ cs) :: splitLines [] rest := by
  induction cs generalizing current with
  | nil => rw [List.nil_append, splitLines, if_pos rfl, List.append_nil]
  | cons c cs ih =>
    rw [List.mem_cons, not_or] at h
    obtain ⟨hc, hcs⟩ := h
    rw [List.cons_append, splitLines, if_neg (Ne.symm hc), ih hcs, List.reverse_cons,
      List.append_assoc, List.singleton_append]

namespace Printer

/-- The lines of a text are those of its prints, and nothing follows the last one. -/
theorem splitLines_transcript (ps : List Print) :
    Environment.splitLines [] (transcript ps).toList = ps.map Print.chars ++ [[]] := by
  induction ps with
  | nil => rfl
  | cons p ps ih =>
    rw [transcript, String.toList_append, Print.line, String.toList_ofList, List.append_assoc,
      List.singleton_append, Environment.splitLines_append p.newline_not_mem_chars, ih]
    rfl

theorem transcript_inj {ps qs : List Print} : transcript ps = transcript qs ↔ ps = qs := by
  refine ⟨fun h => ?_, congrArg transcript⟩
  have hlines := congrArg (fun text => Environment.splitLines [] text.toList) h
  simp only [splitLines_transcript, List.append_cancel_right_eq] at hlines
  exact (List.map_inj_right fun _ _ => Print.chars_inj).mp hlines

/-- The text of prints determines them. Each line is made up of the register's letter and the value,
in decimal and in hexadecimal digits, of which either can be read back; it ends with the only
newline in it, and without that it is what the print reads as. -/
theorem transcript_determines :
    (∀ ps qs : List Print, transcript ps = transcript qs ↔ ps = qs) ∧
    ∀ p : Print, (∃ padding decimal hex, p.LaidOut padding decimal hex) ∧
      '\n' ∉ p.text.toList ∧ p.line = p.text ++ "\n" := by
  refine ⟨fun ps qs => transcript_inj, fun p => ⟨⟨_, _, _, p.laidOut⟩, ?_, ?_⟩⟩
  · rw [Print.text, String.toList_ofList]
    exact p.newline_not_mem_chars
  · exact String.ofList_append

example : (⟨.b, 0x80000000⟩ : Print).line = "B -2147483648(0x80000000)\n" := by decide

end Printer

end Dyad
