import Dyad.Native.Arm64.Codegen
import Dyad.Native.X64.Codegen
import Dyad.Proofs.Code.Listing
import Dyad.Proofs.Run.Trace

/-!
Programs that read alike. Nothing that is done with an instruction depends on the immediate of a
print: neither the turn that it takes (`State.turnBy_essence`) nor the code that is made for it
(`X64.Codegen.block_essence`, `Arm64.Codegen.block_essence`). So programs with the same texts go
through the same states step by step (`Execution.Stepped.indistinct`), and are compiled to the same
bytes.
-/

namespace Dyad

open Instruction (essence)

variable {words words' : Array UInt32} {code code' : List Instruction}

theorem essences_of_texts (h : code.map Instruction.text = code'.map Instruction.text) :
    code.map essence = code'.map essence := by
  induction code generalizing code' with
  | nil =>
    cases code' with
    | nil => rfl
    | cons j code' => cases h
  | cons i code ih =>
    cases code' with
    | nil => cases h
    | cons j code' =>
      obtain ⟨htext, hrest⟩ := List.cons.inj h
      rw [List.map_cons, List.map_cons, Instruction.text_eq_iff_essence.mp htext, ih hrest]

/-! ### Steps and runs -/

theorem State.turnBy_essence (size : Nat) (s : State) (i : Instruction) :
    s.turnBy size i.essence = s.turnBy size i := by
  obtain ⟨op, r, imm⟩ := i
  cases op <;> rfl

theorem Decodes.fetch (hd : Decodes words code) (s : State) :
    s.fetch words = code[s.pc]?.map Except.ok := by
  rw [State.fetch, ← Array.getElem?_toList, ← List.getElem?_map, hd, List.getElem?_map]

/-- Where one program has an instruction, the other has one that reads alike. -/
theorem Decodes.fetch_alike (hd : Decodes words code) (hd' : Decodes words' code')
    (hcode : code.map essence = code'.map essence) {s : State} {i : Instruction}
    (h : s.fetch words = some (.ok i)) :
    ∃ j, s.fetch words' = some (.ok j) ∧ i.essence = j.essence := by
  have hget := congrArg (·[s.pc]?) hcode
  simp only [List.getElem?_map] at hget
  rw [hd.fetch, Option.map_eq_some_iff] at h
  obtain ⟨i, hi, ⟨⟩⟩ := h
  rw [hi, Option.map_some, eq_comm, Option.map_eq_some_iff] at hget
  obtain ⟨j, hj, hessence⟩ := hget
  exact ⟨j, by rw [hd'.fetch, hj, Option.map_some], hessence.symm⟩

namespace Execution

/-- Runs that cannot be told apart: they have come to the same, and the log shows the same of
them. -/
structure Indistinct (x y : Execution) : Prop where
  state : x.state = y.state
  sink : x.sink = y.sink
  executed : x.executed = y.executed
  events : ∀ elapsed, x.events.map (Cli.Record.ofEvent elapsed) =
    y.events.map (Cli.Record.ofEvent elapsed)

variable {trace : Bool} {x y : Execution}

/-- An arrival is shown by the text of the instruction. -/
theorem Indistinct.eventsAt (h : x.Indistinct y) (trace : Bool) {i j : Instruction}
    (hij : i.essence = j.essence) (elapsed : Cli.Elapsed) :
    (x.eventsAt trace i).map (Cli.Record.ofEvent elapsed) =
      (y.eventsAt trace j).map (Cli.Record.ofEvent elapsed) := by
  unfold Execution.eventsAt
  split
  · rw [List.map_cons, List.map_cons, h.events elapsed, h.state, State.observe, State.observe,
      Cli.Record.ofEvent, Cli.Record.ofEvent, Instruction.text_eq_iff_essence.mpr hij]
  · exact h.events elapsed

theorem Stepped.indistinct (hd : Decodes words code) (hd' : Decodes words' code')
    (hcode : code.map essence = code'.map essence) {r : Execution × Outcome}
    (h : Stepped words trace x r) (hxy : x.Indistinct y) :
    ∃ z, Stepped words' trace y (z, r.2) ∧ r.1.Indistinct z := by
  have hsize : words.size = words'.size := by
    simpa [hd.size_eq, hd'.size_eq] using congrArg List.length hcode
  obtain ⟨s, sink, executed, events⟩ := x
  obtain ⟨_, _, _, events'⟩ := y
  obtain ⟨rfl, rfl, rfl, hevents⟩ := hxy
  have hxy : Indistinct ⟨s, sink, executed, events⟩ ⟨s, sink, executed, events'⟩ :=
    ⟨rfl, rfl, rfl, hevents⟩
  cases h with
  | halted hge => exact ⟨_, .halted (hsize ▸ hge), hxy⟩
  | undecodable hfetch =>
    rw [hd.fetch, Option.map_eq_some_iff] at hfetch
    obtain ⟨-, -, ⟨⟩⟩ := hfetch
  | astray hfetch hturn =>
    obtain ⟨j, hfetch', hij⟩ := hd.fetch_alike hd' hcode hfetch
    rw [hsize, ← State.turnBy_essence, hij, State.turnBy_essence] at hturn
    rw [hsize]
    exact ⟨_, .astray hfetch' hturn, rfl, rfl, rfl, hxy.eventsAt trace hij⟩
  | refused hfetch hturn hout =>
    obtain ⟨j, hfetch', hij⟩ := hd.fetch_alike hd' hcode hfetch
    rw [hsize, ← State.turnBy_essence, hij, State.turnBy_essence] at hturn
    exact ⟨_, .refused hfetch' hturn hout, rfl, rfl, rfl, hxy.eventsAt trace hij⟩
  | advanced hfetch hturn hout =>
    obtain ⟨j, hfetch', hij⟩ := hd.fetch_alike hd' hcode hfetch
    rw [hsize, ← State.turnBy_essence, hij, State.turnBy_essence] at hturn
    exact ⟨_, .advanced hfetch' hturn hout, rfl, rfl, rfl, hxy.eventsAt trace hij⟩

/-- Programs that read alike take the same route, and their runs cannot be told apart. -/
theorem runFor_indistinct (hd : Decodes words code) (hd' : Decodes words' code')
    (hcode : code.map essence = code'.map essence) (trace : Bool) (limit : Nat)
    (hxy : x.Indistinct y) :
    route words trace limit x = route words' trace limit y ∧
    (runFor words trace limit x).1.Indistinct (runFor words' trace limit y).1 ∧
    (runFor words trace limit x).2 = (runFor words' trace limit y).2 := by
  fun_induction runFor words trace limit x generalizing y with
  | case1 x => exact ⟨rfl, hxy, rfl⟩
  | case2 limit x x' hstep ih =>
    obtain ⟨y', hstepped, hxy'⟩ := (stepped_of_step hstep).indistinct hd hd' hcode hxy
    obtain ⟨hroute, hrun⟩ := ih hxy'
    rw [route_of_advanced hstep, route_of_advanced hstepped.eq, hxy.state, hroute, runFor,
      hstepped.eq]
    exact ⟨rfl, hrun⟩
  | case3 limit x x' o ho hstep =>
    obtain ⟨y', hstepped, hxy'⟩ := (stepped_of_step hstep).indistinct hd hd' hcode hxy
    rw [route_of_ended hstep ho, route_of_ended hstepped.eq ho, hxy.state,
      runFor_of_step hstepped.eq ho (Nat.succ_pos limit)]
    exact ⟨rfl, hxy', rfl⟩

end Execution

namespace Interpreter

/-- Reports that cannot be told apart. -/
structure Report.Indistinct (r r' : Report) : Prop where
  state : r.state = r'.state
  fault : r.fault = r'.fault
  sink : r.sink = r'.sink
  events : ∀ elapsed, r.events.map (Cli.Record.ofEvent elapsed) =
    r'.events.map (Cli.Record.ofEvent elapsed)

/-- What a run leaves behind, apart from the words that were run. -/
def SameEnd (r r' : Report × Interpreter) : Prop := r.1.Indistinct r'.1 ∧ r.2.stats = r'.2.stats

theorem finish_indistinct (trace : Bool) (stats : RunStats) {x y : Execution} (h : x.Indistinct y)
    (fault : Option Fault) :
    SameEnd (finish ⟨words, trace, stats⟩ x fault) (finish ⟨words', trace, stats⟩ y fault) := by
  obtain ⟨s, sink, executed, events⟩ := x
  obtain ⟨_, _, _, events'⟩ := y
  obtain ⟨rfl, rfl, rfl, hevents⟩ := h
  dsimp only at hevents
  have hreverse (elapsed : Cli.Elapsed) : events.reverse.map (Cli.Record.ofEvent elapsed) =
      events'.reverse.map (Cli.Record.ofEvent elapsed) := by
    rw [List.map_reverse, List.map_reverse, hevents]
  cases fault with
  | some cause => exact ⟨⟨rfl, rfl, rfl, hreverse⟩, rfl⟩
  | none =>
    simp only [finish]
    obtain ⟨sink, _ | reason⟩ := sink.flush
    · refine ⟨⟨rfl, rfl, rfl, fun elapsed => ?_⟩, rfl⟩
      simp only [List.reverse_cons, List.map_append, hreverse]
    · exact ⟨⟨rfl, rfl, rfl, hreverse⟩, rfl⟩

theorem run_indistinct (hd : Decodes words code) (hd' : Decodes words' code')
    (hcode : code.map essence = code'.map essence) (trace : Bool) (stats : RunStats) (fuel : Nat)
    (sink : Sink) :
    Option.Rel SameEnd (run ⟨words, trace, stats⟩ fuel sink)
      (run ⟨words', trace, stats⟩ fuel sink) := by
  have hstart : Execution.Indistinct { sink } { sink } := ⟨rfl, rfl, rfl, fun _ => rfl⟩
  obtain ⟨-, hsame, houtcome⟩ := Execution.runFor_indistinct hd hd' hcode trace fuel hstart
  rw [run, run]
  dsimp only
  generalize Execution.runFor words trace fuel { sink } = r at hsame houtcome
  generalize Execution.runFor words' trace fuel { sink } = r' at hsame houtcome
  obtain ⟨x, o⟩ := r
  obtain ⟨y, _⟩ := r'
  cases houtcome
  cases o with
  | advanced => exact .none
  | halted | failed => exact .some (finish_indistinct trace stats hsame _)

end Interpreter

/-! ### Code -/

theorem X64.Codegen.block_essence (L : Layout) (cached size pc : Nat) (i : Instruction) :
    codegen.block L cached size pc i.essence = codegen.block L cached size pc i := by
  obtain ⟨op, r, imm⟩ := i
  cases op <;> rfl

theorem Arm64.Codegen.block_essence (L : Layout) (cached size pc : Nat) (i : Instruction) :
    codegen.block L cached size pc i.essence = codegen.block L cached size pc i := by
  obtain ⟨op, r, imm⟩ := i
  cases op <;> rfl

/-- Code whose blocks depend on the essence of instructions only does so as a whole. -/
theorem Native.Generator.assemble_map_essence {I B : Type} [InstructionSet I] (g : Generator I B)
    (h : ∀ L cached size pc i, g.block L cached size pc i.essence = g.block L cached size pc i)
    (L : Layout) (cached : Nat) (code : List Instruction) :
    g.assemble L cached (code.map essence) = g.assemble L cached code := by
  have hblocks : g.blocks L cached (code.map essence) = g.blocks L cached code := by
    rw [blocks, blocks, List.zipIdx_map, List.map_map, List.length_map]
    exact List.map_congr_left fun _ _ => h ..
  rw [assemble, assemble, instrs, instrs, labels, labels, hblocks, List.length_map]

/-! ### Texts -/

/-- Texts are faithful. The text of an instruction tells all of it but the immediate of a print. So
for programs with the same texts, runs on the same sink go through the same states and come to the
same, with the same log, and the code for either host is the same. The listing of a program has one
line for each word and tells all the words, those that are no instructions included. -/
theorem Instruction.text_faithful :
    (∀ i j : Instruction, i.text = j.text ↔ i.opcode = j.opcode ∧ i.register = j.register ∧
      (i.opcode ≠ .print → i.immediate = j.immediate)) ∧
    (∀ (words words' : Array UInt32) (code code' : List Instruction), Decodes words code →
      Decodes words' code' → code.map text = code'.map text →
      (∀ (trace : Bool) (limit : Nat) (sink : Sink),
        Execution.route words trace limit { sink } = Execution.route words' trace limit { sink } ∧
        (Execution.runFor words trace limit { sink }).1.Indistinct
          (Execution.runFor words' trace limit { sink }).1 ∧
        (Execution.runFor words trace limit { sink }).2 =
          (Execution.runFor words' trace limit { sink }).2) ∧
      (∀ (trace : Bool) (stats : RunStats) (fuel : Nat) (sink : Sink),
        Option.Rel Interpreter.SameEnd (Interpreter.run ⟨words, trace, stats⟩ fuel sink)
          (Interpreter.run ⟨words', trace, stats⟩ fuel sink)) ∧
      ∀ (L : Layout) (cached : Nat),
        X64.codegen.assemble L cached code = X64.codegen.assemble L cached code' ∧
        Arm64.codegen.assemble L cached code = Arm64.codegen.assemble L cached code') ∧
    (∀ p : Program, ∃ lines : List (List Char), lines.length = p.size ∧
      (∀ line ∈ lines, '\n' ∉ line) ∧ p.listing.toList = lines.flatMap (· ++ ['\n'])) ∧
    ∀ p q : Program, p.listing = q.listing ↔ p.words = q.words := by
  refine ⟨fun i j => text_eq_iff_essence.trans essence_eq_iff, ?_, fun p => ?_,
    fun p q => Program.listing_inj⟩
  · intro words words' code code' hd hd' htexts
    have hcode := essences_of_texts htexts
    refine ⟨fun trace limit sink => ?_, Interpreter.run_indistinct hd hd' hcode, fun L cached => ?_⟩
    · exact Execution.runFor_indistinct hd hd' hcode trace limit ⟨rfl, rfl, rfl, fun _ => rfl⟩
    · have hx64 := X64.codegen.assemble_map_essence X64.Codegen.block_essence L cached
      have harm64 := Arm64.codegen.assemble_map_essence Arm64.Codegen.block_essence L cached
      exact ⟨by rw [← hx64, hcode, hx64], by rw [← harm64, hcode, harm64]⟩
  · exact ⟨_, (Program.length_bareLinesFrom 0 _).trans Array.length_toList,
      Program.newline_not_mem_bareLinesFrom, p.toList_listing⟩

/-- Two programs that differ in the immediate of a print, and so in their listings. -/
theorem Instruction.text_faithful_print :
    Option.Rel Interpreter.SameEnd
      (Interpreter.run { words := #[0x01000007, 0x07000000], trace := true } 9 {})
      (Interpreter.run { words := #[0x01000007, 0x07001234], trace := true } 9 {}) ∧
    (⟨#[0x01000007, 0x07000000], 0⟩ : Program).listing ≠
      (⟨#[0x01000007, 0x07001234], 0⟩ : Program).listing := by
  obtain ⟨-, alike, -, listings⟩ := text_faithful
  obtain ⟨-, hruns, -⟩ := alike #[0x01000007, 0x07000000] #[0x01000007, 0x07001234]
    [⟨.loadImmediate, .a, 7⟩, ⟨.print, .a, 0⟩] [⟨.loadImmediate, .a, 7⟩, ⟨.print, .a, 0x1234⟩]
    rfl rfl rfl
  refine ⟨hruns true {} 9 {}, fun h => ?_⟩
  have hwords := (listings _ _).mp h
  exact absurd hwords (by decide)

end Dyad
