import Mathlib
import Dyad.Main
import Dyad.Proofs.Native.X64.Equivalence
import Dyad.Proofs.Native.X64.Extent
import Dyad.Proofs.Output.Transcript
import Dyad.Proofs.Sample.Fibonacci
import Dyad.Proofs.Settings.Grammar

/-!
What a run of the sample shows. The interpreter and compiled code print the number that the plain
loop computes (`Fibonacci.run_interpreted`, `Fibonacci.invoke_compiled`), each within the steps that
a command allows, so every section that is included succeeds and shows it (`interpretSection_shows`,
`jitSection_shows`, `nativeSection_shows`). Only too many cached cells make a run fail, and only at
the section of compiled code.

Commands run in any lawful monad, so that both a clock and a stopwatch that stands still are
covered. What is said of their reports is said by `SatisfiesM`. It and the laws of `IO` are part of
no module of the library but the whole of it.
-/

namespace Dyad

/-! ### The sample, compiled -/

namespace Fibonacci

theorem rounds_of_pos {n : UInt32} (h : 1 ≤ n.toNat) : rounds n = n.toNat := by
  refine if_neg ?_
  rintro rfl
  cases h

theorem setting (n : UInt16) {cached : Nat} (hk : cached ≤ maxCachedCells) :
    X64.Setting Native.runLayout cached (code n) Native.runHost Native.entry where
  cached_le := hk
  size := by
    have hbytes := X64.Codegen.length_assemble_le Native.runLayout cached (code n)
    have hlength : (code n).length = 13 := rfl
    change (X64.codegen.assemble Native.runLayout cached (code n)).length < 0x80000000
    omega
  print := rfl
  entered := X64.entry_entered _

theorem exists_walk {n : UInt32} (hn : n.toNat ≤ 65535) :
    ∃ t, Walk (code n.toUInt16) (5 + 8 * rounds n) State.fresh [⟨.a, value n⟩] t ∧
      t.turn (code n.toUInt16) = .finished := by
  obtain ⟨t, walk, hpc, -⟩ := walk_program hn
  exact ⟨t, walk, State.turn_eq_finished_iff.mpr (Nat.le_of_eq hpc.symm)⟩

/-- The interpreter prints the number of the sample within the steps that a command allows. -/
theorem run_interpreted {n : UInt32} (hlo : 1 ≤ n.toNat) (hhi : n.toNat ≤ 65535) {m : Interpreter}
    (hd : Decodes m.words (code n.toUInt16)) :
    ∃ report m', m.run Cli.fuel {} = some (report, m') ∧ report.fault = none ∧
      report.sink.text = Printer.transcript [⟨.a, value n⟩] := by
  obtain ⟨t, walk, hend⟩ := exists_walk hhi
  have hfuel : 5 + 8 * rounds n < Cli.fuel := by
    rw [rounds_of_pos hlo, Cli.fuel]
    omega
  obtain ⟨report, m', hrun, hfault, -, htext, -⟩ :=
    Interpreter.run_of_finished hd Device.neverRefuses_reliable walk hend hfuel
  exact ⟨report, m', hrun, hfault, htext.trans String.empty_append⟩

/-- So does a routine for it. -/
theorem invoke_compiled {n : UInt32} (hlo : 1 ≤ n.toNat) (hhi : n.toNat ≤ 65535) {cached : Nat}
    (hk : cached ≤ maxCachedCells) {r : Routine}
    (hr : r.Compiled Native.runLayout cached (code n.toUInt16)) :
    ∃ report r', r.invoke Cli.fuel {} = some (report, r') ∧ report.fault = none ∧
      report.sink.text = Printer.transcript [⟨.a, value n⟩] := by
  obtain ⟨t, walk, hend⟩ := exists_walk hhi
  have hends : t.Ends (code n.toUInt16) := (Execution.ending_of_finished hend).1
  have hfuel : 6 * (5 + 8 * rounds n) + 33 ≤ Cli.fuel := by
    rw [rounds_of_pos hlo, Cli.fuel]
    omega
  obtain ⟨report, r', hinvoke, hfault, hsink, -⟩ :=
    (setting n.toUInt16 hk).invokeAt_within walk hends hr hfuel {}
  obtain ⟨out, hout, hflush⟩ :=
    Printer.exists_printAll_of_neverRefuses Device.neverRefuses_reliable [⟨.a, value n⟩]
  rw [hout] at hfault hsink
  refine ⟨report, r', hinvoke, ?_, ?_⟩
  · rw [hfault, Printer.finish_of_neverRefuses hflush, State.jumpFault, hend]
    rfl
  · rw [hsink, Printer.finish, Sink.flush, hflush.flush]
    exact (Printer.text_of_printAll hout).trans String.empty_append

end Fibonacci

namespace Cli

/-! ### Sections -/

/-- What an engine shows of the sample for `n`: the number and its time. -/
def engineLines (label : String) (n : UInt32) (elapsed : Elapsed) : List String :=
  [Print.text ⟨.a, Fibonacci.value n⟩, timeLine label elapsed]

/-- What the plain loop shows. -/
def nativeLines (n : UInt32) (elapsed : Elapsed) : List String :=
  ["c=" ++ toString (Fibonacci.value n).toInt32.toInt ++ "(0x" ++
      String.ofList (Numeral.hex 8 (Fibonacci.value n).toNat) ++ ")",
    timeLine "native" elapsed]

/-- A report of success that shows these lines, at some time. -/
def Shows (lines : Elapsed → List String) (r : Report) : Prop :=
  r.exit = 0 ∧ ∃ elapsed, r.stdout = lines elapsed

/-- What a stopwatch gives is the result of the work. -/
def Stopwatch.Honest {m : Type → Type} [Monad m] (watch : Stopwatch m) : Prop :=
  ∀ {α : Type} (work : Unit → α), SatisfiesM (fun r => r.1 = work ()) (watch.time work)

theorem honest_clock : clock.Honest := by
  intro α work
  refine SatisfiesM.trivial.bind fun start _ => ?_
  refine (SatisfiesM.pure (p := fun result => result = work ()) rfl).bind fun result hresult => ?_
  exact SatisfiesM.trivial.bind fun stop _ => .pure hresult

theorem honest_stopped : Stopwatch.stopped.Honest := fun _ => SatisfiesM_Id_eq.mpr rfl

theorem textLines_transcript (ps : List Print) :
    textLines (Printer.transcript ps) = ps.map Print.text := by
  rw [textLines, Printer.splitLines_transcript, List.dropLast_concat, List.map_map]
  rfl

theorem engineReport_shows {n : UInt32} (doing label : String) (elapsed : Elapsed) {printed : Sink}
    (events : List Event) {fault : Option Fault} (hfault : fault = none)
    (htext : printed.text = Printer.transcript [⟨.a, Fibonacci.value n⟩]) :
    Shows (engineLines label n) (engineReport doing label elapsed printed events fault) := by
  subst hfault
  refine ⟨rfl, elapsed, ?_⟩
  rw [engineReport, htext, textLines_transcript]
  rfl

variable {m : Type → Type} [Monad m] [LawfulMonad m] {watch : Stopwatch m}
  {n : UInt32} {p : Program} {settings : Settings}

theorem interpretSection_shows (hwatch : watch.Honest) (hlo : 1 ≤ n.toNat) (hhi : n.toNat ≤ 65535)
    (hp : Fibonacci.program n = .ok p) (settings : Settings) :
    SatisfiesM (Shows (engineLines "vm" n)) (interpretSection watch p settings) := by
  rw [Fibonacci.program_eq_ok hhi] at hp
  cases hp
  obtain ⟨report, m', hrun, hfault, htext⟩ := Fibonacci.run_interpreted hlo hhi
    (m := { words := _, trace := settings.trace }) (.of_encode _)
  refine (hwatch _).bind fun ⟨result, elapsed⟩ hresult => ?_
  cases hresult.trans hrun
  exact .pure (engineReport_shows _ _ _ _ hfault htext)

theorem jitSection_shows (hwatch : watch.Honest) (hlo : 1 ≤ n.toNat) (hhi : n.toNat ≤ 65535)
    (hp : Fibonacci.program n = .ok p) (hcells : settings.cachedCells ≤ 3) :
    SatisfiesM (Shows (engineLines "jit" n)) (jitSection watch p settings) := by
  rw [Fibonacci.program_eq_ok hhi] at hp
  cases hp
  let compiler : Compiler := { cachedCells := settings.cachedCells }
  have hnew : Compiler.new? settings.cachedCells = .ok compiler :=
    if_neg (Nat.not_lt.mpr hcells)
  have hcompile := compiler.compile_of_decodes (p := ⟨_, 4⟩)
    (Decodes.of_encode (Fibonacci.code n.toUInt16))
  obtain ⟨report, r', hinvoke, hfault, htext⟩ := Fibonacci.invoke_compiled hlo hhi hcells
    (compiler.routineFor_compiled (Fibonacci.code n.toUInt16))
  rw [jitSection, hnew]
  refine (hwatch _).bind fun ⟨compiled, elapsed⟩ hcompiled => ?_
  cases hcompiled.trans hcompile
  refine (hwatch _).bind fun ⟨result, elapsed'⟩ hresult => ?_
  cases hresult.trans hinvoke
  obtain ⟨hexit, t, hstdout⟩ :=
    engineReport_shows "running compiled routine" "jit" elapsed' report.events hfault htext
  exact .pure ⟨hexit, t, hstdout⟩

/-- With too many cached cells no compiler can be made, and nothing is shown. -/
theorem jitSection_refused (watch : Stopwatch m) (p : Program)
    (hcells : 3 < settings.cachedCells) :
    SatisfiesM (fun r => r.exit = 1 ∧ r.stdout = []) (jitSection watch p settings) := by
  rw [jitSection, Compiler.new?_eq_error_iff.mpr ⟨hcells, rfl⟩]
  exact .pure ⟨rfl, rfl⟩

theorem nativeSection_shows (hwatch : watch.Honest) (n : UInt32) :
    SatisfiesM (Shows (nativeLines n)) (nativeSection watch n) := by
  refine (hwatch _).bind fun ⟨v, elapsed⟩ hv => .pure ⟨rfl, elapsed, ?_⟩
  subst hv
  rw [nativeLines, ← signedWord_eq, ← Numeral.ofList_signed]

/-- A section that succeeds is added if it is included. -/
theorem andThen_shows {r : Report} (hr : r.exit = 0) {included : Bool}
    {lines : Elapsed → List String} {next : Unit → m Report}
    (hnext : included = true → SatisfiesM (Shows lines) (next ())) :
    SatisfiesM (fun s => s.exit = 0 ∧ ∃ elapsed, s.stdout =
      r.stdout ++ if included then lines elapsed else []) (andThen r included next) := by
  cases included with
  | false =>
    rw [andThen, if_neg (by simp)]
    exact .pure ⟨hr, .unmeasured, (List.append_nil _).symm⟩
  | true =>
    rw [andThen, if_pos ⟨hr, rfl⟩]
    refine (hnext rfl).bind fun s hs => .pure ?_
    obtain ⟨hexit, elapsed, hstdout⟩ := hs
    exact ⟨hexit, elapsed, congrArg (r.stdout ++ ·) hstdout⟩

/-- A section that shows nothing and fails leaves what has been shown before. -/
theorem andThen_fails {r : Report} (hr : r.exit = 0) {next : Unit → m Report}
    (hnext : SatisfiesM (fun s => s.exit = 1 ∧ s.stdout = []) (next ())) :
    SatisfiesM (fun s => s.exit = 1 ∧ s.stdout = r.stdout) (andThen r true next) := by
  rw [andThen, if_pos ⟨hr, rfl⟩]
  refine hnext.bind fun s hs => .pure ⟨hs.1, ?_⟩
  exact (congrArg (r.stdout ++ ·) hs.2).trans (List.append_nil _)

/-! ### Runs -/

/-- What the interpreter shows in a run, if it is included. -/
def vmLines (o : RunOptions) (vm : Elapsed) : List String :=
  if o.mode.includes .interp then engineLines "vm" o.terms vm else []

/-- The sections of a run, in order: those of the engines that are included. -/
def runLines (o : RunOptions) (vm jit native : Elapsed) : List String :=
  vmLines o vm ++
  (if o.mode.includes .jit then engineLines "jit" o.terms jit else []) ++
  (if o.mode.includes .native then nativeLines o.terms native else [])

/-- What a run shows with so many cached cells. -/
structure RunShows (o : RunOptions) (cells : Nat) (r : Report) : Prop where
  succeeds : r.exit = 0 ↔ o.mode.includes .jit = false ∨ cells ≤ 3
  success : r.exit = 0 → ∃ vm jit native, r.stdout = runLines o vm jit native
  /-- What has been shown before compiled code was to run. -/
  failure : r.exit ≠ 0 → (o.mode = .all → ∃ vm, r.stdout = engineLines "vm" o.terms vm) ∧
    (o.mode = .jit → r.stdout = [])

variable {o : RunOptions}

theorem runReport_succeeds (hwatch : watch.Honest) (hlo : 1 ≤ o.terms.toNat)
    (hhi : o.terms.toNat ≤ 65535)
    (hcells : o.mode.includes .jit = true → settings.cachedCells ≤ 3) :
    SatisfiesM (fun r => r.exit = 0 ∧ ∃ vm jit native, r.stdout = runLines o vm jit native)
      (runReport watch o settings) := by
  have hp := Fibonacci.program_eq_ok hhi
  rw [runReport, hp]
  refine (andThen_shows rfl fun _ => interpretSection_shows hwatch hlo hhi hp settings).bind
    fun r₁ h₁ => ?_
  obtain ⟨hexit₁, vm, hout₁⟩ := h₁
  refine (andThen_shows hexit₁ fun hjit =>
    jitSection_shows hwatch hlo hhi hp (hcells hjit)).bind fun r₂ h₂ => ?_
  obtain ⟨hexit₂, jit, hout₂⟩ := h₂
  refine (andThen_shows hexit₂ fun _ => nativeSection_shows hwatch o.terms).imp fun {r₃} h₃ => ?_
  obtain ⟨hexit₃, native, hout₃⟩ := h₃
  refine ⟨hexit₃, vm, jit, native, ?_⟩
  rw [hout₃, hout₂, hout₁]
  rfl

theorem runReport_fails (hwatch : watch.Honest) (hlo : 1 ≤ o.terms.toNat)
    (hhi : o.terms.toNat ≤ 65535) (hjit : o.mode.includes .jit = true)
    (hmany : 3 < settings.cachedCells) :
    SatisfiesM (fun r => r.exit = 1 ∧ ∃ vm, r.stdout = vmLines o vm)
      (runReport watch o settings) := by
  have hp := Fibonacci.program_eq_ok hhi
  rw [runReport, hp, hjit]
  refine (andThen_shows rfl fun _ => interpretSection_shows hwatch hlo hhi hp settings).bind
    fun r₁ h₁ => ?_
  obtain ⟨hexit₁, vm, hout₁⟩ := h₁
  refine (andThen_fails hexit₁ (jitSection_refused watch _ hmany)).bind fun r₂ h₂ => ?_
  obtain ⟨hexit₂, hout₂⟩ := h₂
  -- nothing is added to a run that has failed
  have hskip : ¬ (r₂.exit = 0 ∧ o.mode.includes .native = true) := fun h => by
    rw [hexit₂] at h
    exact absurd h.1 (by decide)
  rw [andThen, if_neg hskip]
  exact .pure ⟨hexit₂, vm, hout₂.trans hout₁⟩

/-- The three engines show one number. With a sample of one to 65535 rounds a run succeeds unless
compiled code is to run with more than three cached cells, by option or by environment. Then it
shows what each engine that is included has printed, which is the number that the plain loop
computes, whatever the cells and the trace, and however a settings file is read. A run that fails
has shown the section before. -/
theorem run_shows (hwatch : watch.Honest) (load : Environment → String → Environment)
    (env : Environment) (file : Option String) (hlo : 1 ≤ o.terms.toNat)
    (hhi : o.terms.toNat ≤ 65535) :
    SatisfiesM (RunShows o (o.cachedCells.getD
        (Settings.ofEnvironment (fullEnvironment load env file)).cachedCells))
      (report watch load env file (.run o)) := by
  change SatisfiesM (RunShows o (runSettings o (fullEnvironment load env file)).cachedCells)
    (runReport watch o (runSettings o (fullEnvironment load env file)))
  generalize runSettings o (fullEnvironment load env file) = settings
  by_cases hcells : o.mode.includes .jit = false ∨ settings.cachedCells ≤ 3
  · have hfew (hjit : o.mode.includes .jit = true) : settings.cachedCells ≤ 3 :=
      hcells.resolve_left (by simp [hjit])
    refine (runReport_succeeds hwatch hlo hhi hfew).imp fun ⟨hexit, hshown⟩ => ?_
    exact ⟨⟨fun _ => hcells, fun _ => hexit⟩, fun _ => hshown, fun h => absurd hexit h⟩
  · rw [not_or, Bool.not_eq_false, Nat.not_le] at hcells
    obtain ⟨hjit, hmany⟩ := hcells
    refine (runReport_fails hwatch hlo hhi hjit hmany).imp fun {r} ⟨hexit, vm, hshown⟩ => ?_
    have hfailed : r.exit ≠ 0 := by
      rw [hexit]
      decide
    refine ⟨⟨fun h => absurd h hfailed, ?_⟩, fun h => absurd h hfailed, fun _ => ⟨?_, ?_⟩⟩
    · rintro (hnot | hfew)
      · simp [hjit] at hnot
      · omega
    · intro hall
      refine ⟨vm, hshown.trans ?_⟩
      rw [vmLines, hall]
      rfl
    · intro honly
      rw [hshown, vmLines, honly]
      rfl

/-- Ten rounds by all engines, by the clock and by a stopwatch that stands still, with three cells
and with four, which the settings file asks for. -/
theorem run_shows_ten :
    SatisfiesM (RunShows { terms := 10 } 3)
      (report clock Environment.load {} none (.run { terms := 10 })) ∧
    (report Stopwatch.stopped Environment.load {} none (.run { terms := 10 })).exit = 0 ∧
    (report Stopwatch.stopped Environment.load {} (some "TOYVM_CACHED_CELLS=4")
      (.run { terms := 10 })).exit ≠ 0 ∧
    ∃ vm, (report Stopwatch.stopped Environment.load {} (some "TOYVM_CACHED_CELLS=4")
        (.run { terms := 10 })).stdout =
      ["A      144(0x00000090)", timeLine "vm" vm] := by
  have three : RunShows { terms := 10 } 3
      (report Stopwatch.stopped Environment.load {} none (.run { terms := 10 })) :=
    SatisfiesM_Id_eq.mp (run_shows honest_stopped Environment.load {} none (by decide) (by decide))
  have hread : (Settings.ofEnvironment
      (fullEnvironment Environment.load {} (some "TOYVM_CACHED_CELLS=4"))).cachedCells = 4 := by
    decide +kernel
  have four : RunShows { terms := 10 } 4 (report Stopwatch.stopped Environment.load {}
      (some "TOYVM_CACHED_CELLS=4") (.run { terms := 10 })) := by
    have h := SatisfiesM_Id_eq.mp (run_shows (o := { terms := 10 }) honest_stopped
      Environment.load {} (some "TOYVM_CACHED_CELLS=4") (by decide) (by decide))
    rwa [Option.getD_none, hread] at h
  have hfailed := mt four.succeeds.mp (by decide)
  refine ⟨run_shows honest_clock Environment.load {} none (by decide) (by decide),
    three.succeeds.mpr (.inr (Nat.le_refl 3)), hfailed, ?_⟩
  obtain ⟨vm, hvm⟩ := (four.failure hfailed).1 rfl
  have hvalue : Fibonacci.value 10 = 144 := (Fibonacci.value_eq 10).trans (by decide)
  have hline : Print.text ⟨.a, 144⟩ = "A      144(0x00000090)" := by decide
  refine ⟨vm, hvm.trans ?_⟩
  rw [engineLines, hvalue, hline]

end Cli

end Dyad
