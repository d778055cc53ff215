import Dyad.Proofs.Native.Equivalence

/-!
A routine from its call to its return, whatever its memory held. Prologue, blocks and epilogue are
passed one after another (`Called.divided`), so every state that the routine reaches conforms
(`Called.conforms`). For its caller this means that it gets back what was saved (`Called.restored`),
and for the print function that it is called from the block of a print, with that print's arguments
(`Called.calling`).
-/

namespace Dyad.Native.Target

variable {R S I B : Type} [RegisterSet R] [InstructionSet I] {P : Target R S I B} {L : Layout}
  {cached m : Nat} {code : List Instruction} {entry c d : Cpu R S}

/-- A routine that stands at a label, with everything in place that is fixed between prologue and
epilogue. -/
def Poised (P : Target R S I B) (L : Layout) (cached : Nat) (code : List Instruction)
    (entry : Cpu R S) (pc : Nat) (c : Cpu R S) : Prop :=
  ∃ was fault s ps, s.pc = pc ∧ P.At L cached code entry was fault s ps c

namespace Called

theorem divided (hP : P.Sound) (h : P.Called L cached code entry) :
    Divided (P.stepIn L cached code) Cpu.ip (P.codegen.label L cached code) code.length entry
      (P.Poised L cached code entry) (P.Conforms L cached code entry cached)
      (P.Conforms L cached code entry 0) where
  ascends _ := P.codegen.label_lt_succ
  pc_le := by
    rintro _ c ⟨was, fault, s, ps, rfl, hat⟩
    exact hat.pc_le
  opens := by
    -- whatever memory holds represents some state at the start of the program
    obtain ⟨was, m, hm, hdata⟩ := Holds.exists_of_ram L cached entry.ram
    obtain ⟨d, hpass, hd⟩ := h.toSuits.opens hP h.ip hm hdata code
    exact ⟨_, d, hpass, was, _, _, [], rfl, hd⟩
  crosses := by
    rintro _ c ⟨was, fault, s, ps, rfl, hat⟩ hlt
    cases hturn : s.turn code with
    | onward p t =>
      obtain ⟨n, d, -, hcross, hd⟩ := hat.crosses hP h.toSuits hturn
      exact ⟨n, t.pc, d, hcross, was, fault, t, _, rfl, hd⟩
    | finished => exact absurd (State.turn_eq_finished_iff.mp hturn) (Nat.not_le.mpr hlt)
    | astray target =>
      obtain ⟨n, d, -, hcross, hd⟩ := hat.strays hP h.toSuits (hP.exitsReach h.size) hturn
      exact ⟨n, code.length, d, hcross, was, _, _, ps, rfl, hd⟩
  closes := by
    rintro c ⟨was, fault, s, ps, hpc, hat⟩
    obtain ⟨n, d, e, a, -, hpass, hd, hlast, -⟩ := hat.closes hP h.toSuits hpc
    refine ⟨n, d, hpass, hd, fun f hf => ?_⟩
    rw [hlast] at hf
    cases hf

/-- Every state that a routine reaches conforms, and before the epilogue the cached cells are out of
bounds. -/
theorem conforms (hP : P.Sound) (h : P.Called L cached code entry)
    (hs : Steps (P.stepIn L cached code) m entry c) :
    ∃ first, (c.ip < P.codegen.label L cached code code.length → cached ≤ first) ∧
      P.Conforms L cached code entry first c := by
  rcases (h.divided hP).everywhere hs with ⟨_, hc⟩ | ⟨hip, hc⟩
  · exact ⟨cached, fun _ => Nat.le_refl _, hc⟩
  · exact ⟨0, fun hlt => absurd hip (Nat.not_le.mpr hlt), hc⟩

/-- A routine that returns has restored what was saved. -/
theorem restored (hP : P.Sound) (h : P.Called L cached code entry) {a : UInt64}
    (hs : Steps (P.stepIn L cached code) m entry c)
    (hreturn : P.stepIn L cached code c = (d, .returned a)) :
    current (Image.ofBytes (P.codegen.assemble L cached code)) c = some P.ret ∧
      P.Restored entry c := by
  have hret := hP.current_of_returned hreturn
  obtain ⟨first, -, i, hi, conduct⟩ := h.conforms hP hs
  rw [hret] at hi
  cases hi
  exact ⟨hret, conduct.returns rfl⟩

/-- A routine that calls does so from the block of a print, with the arguments of that print. -/
theorem calling (hP : P.Sound) (h : P.Called L cached code entry) {r : R}
    (hs : Steps (P.stepIn L cached code) m entry c)
    (hcall : current (Image.ofBytes (P.codegen.assemble L cached code)) c = some (P.call r)) :
    c.regs.get r = L.print ∧ P.Framed L entry c.regs c.special c.ram ∧
      ∃ p, Printing (P.codegen.label L cached code) code c.ip p ∧
        P.arguments c = callOf L ⟨p, c.regs.get32 (P.homes.register p)⟩ := by
  obtain ⟨first, -, i, hi, conduct⟩ := h.conforms hP hs
  rw [hcall] at hi
  cases hi
  exact conduct.calls r rfl

/-- If its data were zero, this print is one of the program: the calls made so far and this one are
the first prints of the program. -/
theorem prints (hP : P.Sound) (h : P.Called L cached code entry) (hzeroed : L.Zeroed entry.ram)
    (hcalls : entry.calls = #[]) {r : R} (hs : Steps (P.stepIn L cached code) m entry c)
    (hcall : current (Image.ofBytes (P.codegen.assemble L cached code)) c = some (P.call r)) :
    ∃ n ps t, Walk code n State.fresh ps t ∧
      c.calls.toList ++ [P.arguments c] <+: ps.map (callOf L) := by
  have setting : P.Setting L cached code entry :=
    ⟨h.cached_le, h.size, h.print, h.ip, hcalls, h.separate, hzeroed⟩
  obtain ⟨hprint, -⟩ := h.calling hP hs hcall
  obtain ⟨d, hstep, hd⟩ := hP.step_of_call hcall (hprint.trans h.print.symm)
  obtain ⟨n, ps, t, w, hfirst⟩ := (setting.follows hP).calls_grow
    (hP.calls_grow _) (fun hat => by rw [hat.calls, hcalls]; rfl) (fun left => left.calls)
    (hs.trans (.one hstep))
  rw [hd, Array.toList_push] at hfirst
  exact ⟨n, ps, t, w, hfirst⟩

end Called

end Dyad.Native.Target
